import MarketRules.Command.Basic
import MarketRules.Proofs.Text.Decoding
import MarketRules.Proofs.Text.Trimming
import MarketRules.Strategy.Compile

/-!
# A strategy in a settings file and as an option

A strategy can be given by a key of a settings file or by the option of the same name.  The
option takes its value as it is.  The value of a key ends in front of the first `;` or `#`,
since a comment begins there, and is trimmed.  So the two mean the same run exactly if the
text has neither character, and a text that begins with a comment gives no strategy at all.
-/

namespace MarketRules

/-! ## The two ways -/

/-- How a strategy is given: the key and the option have the same name. -/
inductive StrategyKey where
  /-- As an English sentence. -/
  | text
  /-- In the rule language. -/
  | dsl
deriving DecidableEq

namespace StrategyKey

def name : StrategyKey → String
  | .text => "text"
  | .dsl => "dsl"

/-- The strategy that is given by a value. -/
def source : StrategyKey → String → StrategySource
  | .text => .english
  | .dsl => .language

/-- The run of a strategy over the sample series, without a report in a file. -/
def run (key : StrategyKey) (value : String) : RunSettings :=
  ⟨key.source value, .sample, none, true⟩

/-- The line of a settings file that gives the strategy. -/
def line (key : StrategyKey) (value : String) : String := key.name ++ " = " ++ value

/-- A settings file that gives the strategy and asks for the sample series. -/
def file (key : StrategyKey) (value : String) : String :=
  "\n".intercalate ["[strategy]", key.line value, "[data]", "sample = true"]

end StrategyKey

/-- The characters in front of the first `;` or `#`, without the blanks around them. -/
def keptChars (cs : List Char) : List Char := trim (cs.takeWhile fun c => c ≠ ';' ∧ c ≠ '#')

/-- What a settings file keeps of a value. -/
def keptText (value : String) : String := String.ofList (keptChars value.toList)

/-- A value is cut at the first comment character and trimmed. -/
theorem keptChars_eq (cs : List Char) :
    keptChars cs = trim (cs.takeWhile fun c => !isCommentStart c) := by
  have same : (fun c : Char => decide (c ≠ ';' ∧ c ≠ '#')) = fun c => !isCommentStart c := by
    funext c
    rw [Bool.eq_iff_iff]
    simp [isCommentStart]
  rw [keptChars, same]

theorem mem_of_mem_trim {c : Char} {cs : List Char} (member : c ∈ trim cs) : c ∈ cs := by
  have inStart : c ∈ trimStart cs :=
    List.mem_reverse.mp ((List.dropWhile_suffix isBlank).subset (List.mem_reverse.mp member))
  exact (List.dropWhile_suffix isBlank).subset inStart

theorem trim_toList_eq {value : String} (trimmed : trimText value = value) :
    trim value.toList = value.toList := by
  have chars := congrArg String.toList trimmed
  rwa [trimText, String.toList_ofList] at chars

/-- A trimmed text is kept as it is exactly if no comment begins in it. -/
theorem keptText_eq_self_iff {value : String} (trimmed : trimText value = value) :
    keptText value = value ↔ ';' ∉ value.toList ∧ '#' ∉ value.toList := by
  constructor
  · intro kept
    have chars := congrArg String.toList kept
    rw [keptText, String.toList_ofList] at chars
    have noSign : ∀ c ∈ value.toList, c ≠ ';' ∧ c ≠ '#' := by
      intro c member
      rw [← chars] at member
      simpa using List.mem_takeWhile_imp (mem_of_mem_trim member)
    exact ⟨fun member => (noSign _ member).1 rfl, fun member => (noSign _ member).2 rfl⟩
  · rintro ⟨noSemicolon, noHash⟩
    have whole : value.toList.takeWhile (fun c => c ≠ ';' ∧ c ≠ '#') = value.toList := by
      rw [List.takeWhile_eq_self_iff]
      intro c member
      have first : c ≠ ';' := fun same => noSemicolon (same ▸ member)
      have second : c ≠ '#' := fun same => noHash (same ▸ member)
      simp [first, second]
    rw [keptText, keptChars, whole, trim_toList_eq trimmed, String.ofList_toList]

/-! ## The settings file -/

namespace StrategyKey

variable (key : StrategyKey) (value : String)

/-- The line in front of the comment. -/
theorem lineContent_line : lineContent (key.line value).toList =
    key.name.toList ++ ' ' :: '=' ::
      trimEnd (' ' :: value.toList.takeWhile fun c => !isCommentStart c) := by
  have noSign : ∀ c ∈ key.name.toList ++ [' ', '='], (!isCommentStart c) = true := by
    cases key <;> decide
  have solid : BeginsSolid (key.name.toList ++ [' ', '=']) ∧
      EndsSolid (key.name.toList ++ [' ', '=']) := by
    cases key <;> decide
  have shape : (key.line value).toList =
      (key.name.toList ++ [' ', '=']) ++ ' ' :: value.toList := by
    simp [line, String.toList_append]
  rw [lineContent, shape, List.takeWhile_append_of_pos noSign, List.takeWhile_cons_of_pos rfl, trim,
    (solid.1.append _).trimStart, solid.2.trimEnd_append, List.append_assoc]
  rfl

/-- A line with a key and a value is read as them, with what is kept of the value. -/
theorem readSettingsLine_line : readSettingsLine (key.line value).toList =
    .ok (some (.key key.name.toList (some (keptChars value.toList)))) := by
  have value_eq : trim (trimEnd (' ' :: value.toList.takeWhile fun c => !isCommentStart c)) =
      keptChars value.toList := by
    rw [trim_trimEnd, keptChars_eq]
    rfl
  rw [readSettingsLine, lineContent_line, ← value_eq]
  cases key <;> rfl

/-- The settings that are read from the file. -/
def settings : SettingsFile :=
  [⟨"strategy".toList, key.name.toList, some (keptChars value.toList)⟩,
    ⟨"data".toList, "sample".toList, some "true".toList⟩]

/-- A settings file with one line for the strategy has this one setting. -/
theorem ofText_file (oneLine : '\n' ∉ value.toList) :
    SettingsFile.ofText (key.file value) = .ok (key.settings value) := by
  have lines : (key.file value).toList.splitOn '\n' =
      ["[strategy]".toList, (key.line value).toList, "[data]".toList, "sample = true".toList] := by
    have joined : (key.file value).toList = ['\n'].intercalate
        ["[strategy]".toList, (key.line value).toList, "[data]".toList,
          "sample = true".toList] := by
      simp [file]
    have noBreak : '\n' ∉ (key.line value).toList := by
      have inName : '\n' ∉ key.name.toList := by cases key <;> decide
      simp [line, String.toList_append, oneLine, inName]
    rw [joined]
    refine List.splitOn_intercalate '\n' ?_ (List.cons_ne_nil _ _)
    simp only [List.mem_cons, List.not_mem_nil, or_false, forall_eq_or_imp, forall_eq]
    exact ⟨by decide, noBreak, by decide, by decide⟩
  have strategy : readSettingsLine "[strategy]".toList =
      .ok (some (.heading "strategy".toList)) := by rfl
  have data : readSettingsLine "[data]".toList = .ok (some (.heading "data".toList)) := by rfl
  have sample : readSettingsLine "sample = true".toList =
      .ok (some (.key "sample".toList (some "true".toList))) := by rfl
  rw [SettingsFile.ofText, lines]
  simp only [SettingsFile.readLines, strategy, data, sample, key.readSettingsLine_line value]
  rfl

theorem get?_settings (other : StrategyKey) : (key.settings value).get? "strategy" other.name =
    if other = key then some (keptText value) else none := by
  cases key <;> cases other <;> rfl

/-- The key has what is kept of the value, unless this is empty, and no other key has one. -/
theorem nonBlank?_settings (other : StrategyKey) :
    (key.settings value).nonBlank? "strategy" other.name =
      if other = key ∧ keptText value ≠ "" then some (keptText value) else none := by
  have kept : trim (keptText value).toList = (keptText value).toList := by
    rw [keptText, String.toList_ofList, keptChars, trim_trim]
  rw [SettingsFile.nonBlank?, get?_settings]
  by_cases same : other = key
  · by_cases nothing : keptText value = ""
    · simp [same, nothing, trim, trimStart, trimEnd]
    · simp [same, nothing, Option.filter, kept]
  · simp [same]

/-- The settings of the file are those of the value that was kept, if there is one. -/
theorem ofFile_settings : RunSettings.ofFile (key.settings value) =
    if keptText value = "" then .error (.missing "strategy" "text")
    else .ok (key.run (keptText value)) := by
  have text : (key.settings value).nonBlank? "strategy" "text" = _ :=
    key.nonBlank?_settings value .text
  have dsl : (key.settings value).nonBlank? "strategy" "dsl" = _ :=
    key.nonBlank?_settings value .dsl
  have strategy : RunSettings.readStrategy (key.settings value) =
      if keptText value = "" then .error (.missing "strategy" "text")
      else .ok (key.source (keptText value)) := by
    rw [RunSettings.readStrategy, text, dsl]
    cases key <;> by_cases nothing : keptText value = "" <;> simp [nothing, source]
  have data : RunSettings.readData (key.settings value) = .ok .sample := by cases key <;> rfl
  have output : RunSettings.readOutput (key.settings value) = .ok none := by cases key <;> rfl
  have level : RunSettings.checkLogLevel (key.settings value) = .ok () := by cases key <;> rfl
  have shown : (key.settings value).bool? "report" "show_trades" = none := by cases key <;> rfl
  rw [RunSettings.ofFile, strategy, data, output, level, shown]
  split <;> rfl

/-! ## The option -/

/-- A value in an argument of its own is taken for an option if it begins with `-` and goes
on. -/
def LooksLikeOption (value : String) : Prop := ∃ c cs, value.toList = '-' :: c :: cs

/-- The option of the command line. -/
def option : StrategyKey → OptionSpec
  | .text => ⟨"text", some 't', .text⟩
  | .dsl => ⟨"dsl", none, .text⟩

/-- What can stand behind `backtest`. -/
def behindBacktest : ArgumentSpec := ⟨Command.backtestOptions ++ Command.commonOptions, false, []⟩

theorem ofArguments_backtest (args : List RawText) :
    Command.ofArguments ("backtest" :: args) = Command.ofBacktestArguments args := by
  have found : Arguments.readUpTo Command.beforeSpec {} ("backtest" :: args) =
      .ok ({}, some ("backtest", args)) := by rfl
  rw [Command.ofArguments, found]
  show (do
    let command ← Command.ofBacktestArguments args
    let _ ← Arguments.settle {}
    pure command) = _
  cases Command.ofBacktestArguments args <;> rfl

/-- The settings that the option gives have the whole value as their strategy. -/
theorem settings?_given : Command.settings? { given := [(key.name, value)] } =
    some (key.run value) := by
  have decoded := RawText.text?_ofText value
  cases key with
  | text =>
    have found : Arguments.text? { given := [("text", value)] } "text" = some value := decoded
    rw [Command.settings?, name, found]
    rfl
  | dsl =>
    have missing : Arguments.text? { given := [("dsl", value)] } "text" = none := rfl
    have found : Arguments.text? { given := [("dsl", value)] } "dsl" = some value := decoded
    rw [Command.settings?, name, missing, found]
    rfl

/-- A backtest with this option alone is the run of the strategy. -/
theorem ofArguments_of_read {args : List RawText} (read : Arguments.read behindBacktest args =
      .ok { given := [(key.name, value)] }) :
    Command.ofArguments ("backtest" :: args) = .ok (.backtest (some (key.run value))) := by
  have free : Command.conflicting { given := [(key.name, value)] } = false := by cases key <;> rfl
  have noFile : Arguments.value? { given := [(key.name, value)] } "config" = none := by
    cases key <;> rfl
  rw [behindBacktest] at read
  rw [ofArguments_backtest, Command.ofBacktestArguments, read]
  simp only [bind, Except.bind, free, noFile, settings?_given]
  rfl

/-- The value of the option is entered. -/
theorem enter_value : Arguments.enter {} key.option value =
    .ok { given := [(key.name, value)] } := by
  have decoded := RawText.text?_ofText value
  cases key <;> simp [Arguments.enter, option, name, decoded, Arguments.has, Arguments.value?]

/-- An option with its value attached is read in any case. -/
theorem read_attached : Arguments.read behindBacktest ["--" ++ key.name ++ "=" ++ value] =
    .ok { given := [(key.name, value)] } := by
  have bytes : (RawText.ofText ("--" ++ key.name ++ "=" ++ value)).bytes =
      Arguments.dash :: Arguments.dash ::
        ((RawText.ofText key.name).bytes ++
          Arguments.equalsSign :: (RawText.ofText value).bytes) := by
    rw [RawText.bytes_ofText_append, RawText.bytes_ofText_append, RawText.bytes_ofText_append]
    simp
    rfl
  have begins : Arguments.beginning ("--" ++ key.name ++ "=" ++ value) =
      .name ((RawText.ofText key.name).bytes ++
        Arguments.equalsSign :: (RawText.ofText value).bytes) := by
    rw [Arguments.beginning, bytes]
    simp
  have one : Arguments.readOne behindBacktest {} ("--" ++ key.name ++ "=" ++ value) =
      .ok { given := [(key.name, value)] } := by
    rw [Arguments.readOne, if_neg Bool.false_ne_true, begins]
    have entered := key.enter_value value
    cases key <;> exact entered
  rw [Arguments.read, List.foldlM_cons, one]
  rfl

/-- A value that does not look like an option is taken for a value. -/
theorem beginning_ofText (noOption : ¬ LooksLikeOption value) :
    Arguments.beginning value = .other := by
  have decoded := RawText.decode_ofText value
  rw [RawText.decode] at decoded
  rw [Arguments.beginning]
  split
  · next first second rest bytes =>
    refine if_pos fun dash => noOption ?_
    rw [bytes, RawText.decodeFrom_ascii (by rw [dash]; decide)] at decoded
    cases chars : value.toList with
    | nil =>
      rw [chars] at decoded
      cases decoded
    | cons c cs =>
      rw [chars] at decoded
      obtain ⟨same, others⟩ := List.cons.inj decoded
      obtain ⟨c', cs', -, rfl, -⟩ := RawText.exists_of_decodeFrom_cons others
      rw [dash] at same
      obtain rfl := Option.some.inj same
      exact ⟨c', cs', chars⟩
  · rfl

/-- An option with its value behind it is read, if the value does not look like an option. -/
theorem read_apart (noOption : ¬ LooksLikeOption value) :
    Arguments.read behindBacktest ["--" ++ key.name, value] =
      .ok { given := [(key.name, value)] } := by
  have first : Arguments.readOne behindBacktest {} ("--" ++ key.name) =
      .ok { last := some (key.option, none) } := by
    cases key <;> rfl
  have second : Arguments.readOne behindBacktest { last := some (key.option, none) } value =
      .ok { last := some (key.option, some value) } := by
    rw [Arguments.readOne, if_neg Bool.false_ne_true, beginning_ofText value noOption]
  have entered := key.enter_value value
  rw [Arguments.read, List.foldlM_cons, first]
  show (List.foldlM _ _ [RawText.ofText value] >>= _) = _
  rw [List.foldlM_cons, second]
  exact entered

/-! ## The same run -/

/-- The file describes the run of what is kept of the value, and the option that of the whole
value.  So they mean the same exactly if no comment begins in it. -/
theorem file_means_option {value : String} (oneLine : '\n' ∉ value.toList)
    (nonempty : value ≠ "") (trimmed : trimText value = value) :
    ∃ settings, SettingsFile.ofText (key.file value) = .ok settings ∧
      (RunSettings.ofFile settings =
        if keptText value = "" then .error (.missing "strategy" "text")
        else .ok (key.run (keptText value))) ∧
      Command.ofArguments ["backtest", "--" ++ key.name ++ "=" ++ value] =
        .ok (.backtest (some (key.run value))) ∧
      (¬ LooksLikeOption value → Command.ofArguments ["backtest", "--" ++ key.name, value] =
        .ok (.backtest (some (key.run value)))) ∧
      (RunSettings.ofFile settings = .ok (key.run value) ↔
        ';' ∉ value.toList ∧ '#' ∉ value.toList) := by
  refine ⟨key.settings value, key.ofText_file value oneLine, key.ofFile_settings value,
    key.ofArguments_of_read value (key.read_attached value),
    fun noOption => key.ofArguments_of_read value (key.read_apart value noOption), ?_⟩
  rw [ofFile_settings, ← keptText_eq_self_iff trimmed]
  constructor
  · intro same
    split at same
    · cases same
    · have sources := congrArg RunSettings.strategy (Except.ok.inj same)
      cases key <;> exact (by simpa [run, source] using sources)
  · intro whole
    rw [whole, if_neg nonempty]

/-- A rule with colons and parentheses is kept. -/
theorem file_means_option_dsl :
    ∃ settings, SettingsFile.ofText
        "[strategy]\ndsl = ENTRY: CLOSE > SMA(CLOSE, 2) EXIT: CLOSE < 5\n[data]\nsample = true" =
          .ok settings ∧
      RunSettings.ofFile settings =
        .ok (dsl.run "ENTRY: CLOSE > SMA(CLOSE, 2) EXIT: CLOSE < 5") ∧
      Command.ofArguments ["backtest", "--dsl", "ENTRY: CLOSE > SMA(CLOSE, 2) EXIT: CLOSE < 5"] =
        .ok (.backtest (some (dsl.run "ENTRY: CLOSE > SMA(CLOSE, 2) EXIT: CLOSE < 5"))) := by
  obtain ⟨settings, read, -, -, apart, same⟩ :=
    @file_means_option dsl "ENTRY: CLOSE > SMA(CLOSE, 2) EXIT: CLOSE < 5" (by decide) (by decide)
      (by decide)
  have noOption : ¬ LooksLikeOption "ENTRY: CLOSE > SMA(CLOSE, 2) EXIT: CLOSE < 5" := by
    rintro ⟨c, cs, ⟨⟩⟩
  exact ⟨settings, read, same.mpr (by decide), apart noOption⟩

/-- Of two sentences that a semicolon divides the file keeps the first, so that its strategy
never sells, and the option keeps both. -/
theorem file_drops_second_sentence :
    ∃ settings, SettingsFile.ofText (text.file
        "Buy when close is above 10; sell when close is below 5") = .ok settings ∧
      RunSettings.ofFile settings = .ok (text.run "Buy when close is above 10") ∧
      (Translation.ofText "Buy when close is above 10").strategyText =
        "ENTRY: CLOSE GT 10 EXIT: 0 > 1" ∧
      Command.ofArguments ["backtest", "--text",
          "Buy when close is above 10; sell when close is below 5"] =
        .ok (.backtest (some
          (text.run "Buy when close is above 10; sell when close is below 5"))) := by
  have kept : keptText "Buy when close is above 10; sell when close is below 5" =
      "Buy when close is above 10" := by decide
  refine ⟨_, text.ofText_file _ (by decide), ?_, by decide +kernel, by rfl⟩
  rw [ofFile_settings, kept]
  rfl

end StrategyKey

end MarketRules
