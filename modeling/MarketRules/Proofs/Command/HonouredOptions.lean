import MarketRules.Proofs.Command.FilesKept
import MarketRules.Proofs.Report.TradeLog
import MarketRules.Proofs.Success

/-!
# The options of a backtest

A backtest that is described by its options writes the report where `--output` wants it, if
that path is a text, and with `--no-trades` it prints no list of trades.  A backtest that is
described by a settings file accepts these two options too, and ignores them: the run is that
of the file alone.
-/

namespace MarketRules

namespace Command

/-! ## Accepted options -/

/-- The command asks for a backtest. -/
def IsBacktest : Command → Prop
  | .backtest _ | .backtestOfFile _ => True
  | .translate _ | .examples _ _ | .phrases => False

/-- The arguments ask for a backtest with these options, and are accepted. -/
def Accepts (args : List RawText) (a : Arguments) : Prop :=
  ∃ before rest, Arguments.readUpTo beforeSpec {} args = .ok (before, some ("backtest", rest)) ∧
    Arguments.read ⟨backtestOptions ++ commonOptions, false, []⟩ rest = .ok a ∧
    conflicting a = false

/-- What a backtest with these options is. -/
def ofOptions (a : Arguments) : Command :=
  match a.value? "config" with
  | some path => .backtestOfFile path
  | none => .backtest (settings? a)

/-- The arguments behind `backtest` are options that do not exclude each other. -/
theorem exists_of_ofBacktestArguments {args : List RawText} {c : Command}
    (asked : ofBacktestArguments args = .ok c) :
    ∃ a, Arguments.read ⟨backtestOptions ++ commonOptions, false, []⟩ args = .ok a ∧
      conflicting a = false ∧ c = ofOptions a := by
  obtain ⟨a, read, asked⟩ := exists_of_bind_eq_ok asked
  refine ⟨a, read, ?_⟩
  by_cases conflict : conflicting a = true
  · rw [if_pos conflict] at asked
    cases asked
  · rw [if_neg conflict] at asked
    refine ⟨Bool.eq_false_iff.mpr conflict, ?_⟩
    unfold ofOptions
    cases config : a.value? "config" with
    | some path =>
      rw [config] at asked
      exact (Except.ok.inj asked).symm
    | none =>
      rw [config] at asked
      exact (Except.ok.inj asked).symm

/-- Only `backtest` asks for a backtest. -/
theorem not_isBacktest {args : List RawText} {c : Command}
    (asked : ofTranslateArguments args = .ok c ∨ ofExampleArguments args = .ok c ∨
      ofPhraseArguments args = .ok c ∨ ofHelpArguments args = .ok c) : ¬ c.IsBacktest := by
  rcases asked with asked | asked | asked | asked
  · obtain ⟨a, -, asked⟩ := exists_of_bind_eq_ok asked
    split at asked <;> cases asked
    exact id
  · obtain ⟨a, -, asked⟩ := exists_of_bind_eq_ok asked
    cases asked
    exact id
  · obtain ⟨a, -, asked⟩ := exists_of_bind_eq_ok asked
    cases asked
    exact id
  · unfold ofHelpArguments at asked
    split at asked <;> cases asked

/-- A list of arguments that asks for a backtest has options that are accepted.  The options
in front of the command are settled last and change nothing. -/
theorem exists_accepts {args : List RawText} {c : Command} (asked : ofArguments args = .ok c)
    (isBacktest : c.IsBacktest) : ∃ a, Accepts args a ∧ c = ofOptions a := by
  obtain ⟨⟨before, found⟩, read, asked⟩ := exists_of_bind_eq_ok asked
  dsimp only at asked
  cases found with
  | none =>
    obtain ⟨settled, -, asked⟩ := exists_of_bind_eq_ok asked
    cases asked
  | some found =>
    obtain ⟨name, rest⟩ := found
    have settled {x : Except UsageError Command}
        (asked : (do let command ← x; let _ ← before.settle; return command) = .ok c) :
        x = .ok c := by
      obtain ⟨c', chosen, asked⟩ := exists_of_bind_eq_ok asked
      obtain ⟨_, -, asked⟩ := exists_of_bind_eq_ok asked
      cases asked
      exact chosen
    dsimp only at asked
    split at asked
    · exact absurd isBacktest (not_isBacktest (.inl (settled asked)))
    · obtain ⟨a, options, free, rfl⟩ := exists_of_ofBacktestArguments (settled asked)
      exact ⟨a, ⟨before, rest, read, options, free⟩, rfl⟩
    · exact absurd isBacktest (not_isBacktest (.inr (.inl (settled asked))))
    · exact absurd isBacktest (not_isBacktest (.inr (.inr (.inl (settled asked)))))
    · exact absurd isBacktest (not_isBacktest (.inr (.inr (.inr (settled asked)))))

/-- A list of arguments has one reading. -/
theorem Accepts.unique {args : List RawText} {a a' : Arguments} (accepts : Accepts args a)
    (accepts' : Accepts args a') : a = a' := by
  obtain ⟨before, rest, found, read, -⟩ := accepts
  obtain ⟨before', rest', found', read', -⟩ := accepts'
  cases Except.ok.inj (found.symm.trans found')
  exact Except.ok.inj (read.symm.trans read')

/-! ## What is printed -/

/-- The line that shows the strategy has no part of the heading, so the heading is printed
exactly if it stands behind that line. -/
theorem heading_infix_strategy_iff (strategy : CheckedStrategy) (back : String) :
    tradeLogHeading <:+: (s!"Strategy: {strategy.text}\n" ++ back).toList ↔
      tradeLogHeading <:+: back.toList := by
  have shape : (s!"Strategy: {strategy.text}\n" ++ back).toList =
      ("Strategy: ".toList ++ strategy.text.toList) ++ '\n' :: back.toList := by
    show ("Strategy: " ++ strategy.text ++ "\n" ++ back).toList = _
    simp
  rw [shape]
  refine Report.heading_infix_append_iff fun member => ?_
  rcases List.mem_append.mp member with label | text
  · revert label
    decide
  · exact strategy.notMem_text text

/-- In what a backtest prints, the heading stands exactly if the list of trades is wanted and
there are trades. -/
theorem heading_infix_report_iff (strategy : CheckedStrategy) (report : Report)
    (showTrades : Bool) :
    tradeLogHeading <:+:
        (s!"Strategy: {strategy.text}\n" ++ ("\n" ++ shownReport report showTrades)).toList ↔
      showTrades = true ∧ report.trades ≠ [] := by
  have ended : ("\n" ++ shownReport report showTrades).toList =
      [] ++ '\n' :: (shownReport report showTrades).toList := by
    simp
  rw [heading_infix_strategy_iff, ended, Report.heading_infix_append_iff List.not_mem_nil]
  exact report.heading_infix_console_iff (.ofTrades report.trades) showTrades

/-- No list of trades is printed.  If the report was written, its file is named last. -/
def NoTradeLog (output : Option RawText) (outcome : Outcome) : Prop :=
  ∃ shown : String, ¬ tradeLogHeading <:+: shown.toList ∧
    (outcome.stdout = shown ∨ ∃ path, output = some path ∧ outcome.exit = 0 ∧
      outcome.stdout = shown ++ s!"\nReport written to: {path.shown}\n")

theorem writeReport_noTradeLog (output : Option RawText) (strategy : CheckedStrategy)
    (report : Report) (printed : String) (t : FileTree)
    (hidden : ¬ tradeLogHeading <:+: printed.toList) :
    NoTradeLog output (writeReport FileTree.store output strategy report printed t).1 := by
  unfold writeReport
  cases output with
  | none => exact ⟨printed, hidden, .inl rfl⟩
  | some path =>
    show NoTradeLog (some path) ((FileTree.store.save path.asShown _ >>= _) t).1
    rw [FileTree.bind_apply]
    cases (FileTree.store.save path.asShown (report.json strategy.toStrategy).render t).1 with
    | error e => exact ⟨printed, hidden, .inl rfl⟩
    | ok _ => exact ⟨printed, hidden, .inr ⟨path, rfl, rfl, rfl⟩⟩

/-- A backtest with settings that do not want the list of trades prints none, wherever it
stops. -/
theorem runBacktestSettings_noTradeLog {s : RunSettings} (unwanted : s.showTrades = false)
    (t : FileTree) : NoTradeLog s.output (runBacktestSettings FileTree.store s t).1 := by
  rw [runBacktestSettings]
  cases s.strategy.compile with
  | error e => exact ⟨"", by decide, .inl rfl⟩
  | ok strategy =>
    have heading : ¬ tradeLogHeading <:+: (s!"Strategy: {strategy.text}\n").toList := by
      rw [← String.append_empty (s := _ ++ _), heading_infix_strategy_iff]
      decide
    show NoTradeLog s.output ((FileTree.store.bars s.data >>= _) t).1
    rw [FileTree.bind_apply]
    cases (FileTree.store.bars s.data t).1 with
    | error f => exact ⟨_, heading, .inl rfl⟩
    | ok bars =>
      cases ran : strategy.backtest bars with
      | error e =>
        simp only [ran]
        exact ⟨_, heading, .inl rfl⟩
      | ok report =>
        simp only [ran]
        refine writeReport_noTradeLog _ _ _ _ _ ?_
        rw [String.append_assoc, heading_infix_report_iff, unwanted]
        exact fun wanted => Bool.false_ne_true wanted.1

/-! ## Backtests -/

/-- The settings that the options describe have the options for the report in them. -/
theorem settings?_output {a : Arguments} {s : RunSettings} (described : settings? a = some s) :
    s.output = a.value? "output" ∧ s.showTrades = !a.has "no-trades" := by
  obtain ⟨strategy, -, rfl⟩ := Option.map_eq_some_iff.mp described
  exact ⟨rfl, rfl⟩

/-- A backtest that is described by its options honours them. -/
theorem run_settings? (a : Arguments) (t : FileTree) :
    (∀ path, a.value? "output" = some path →
      ((backtest (settings? a)).run FileTree.store t).1.exit = 0 →
        ∃ s, settings? a = some s ∧ ReportSaved s path.asShown t
          ((backtest (settings? a)).run FileTree.store t).2
          ((backtest (settings? a)).run FileTree.store t).1.stdout) ∧
      (a.has "no-trades" = true → NoTradeLog (a.value? "output")
        ((backtest (settings? a)).run FileTree.store t).1) := by
  cases described : settings? a with
  | none =>
    refine ⟨fun path _ succeeded => ?_, fun _ => ⟨"", by decide, .inl rfl⟩⟩
    cases succeeded
  | some s =>
    obtain ⟨output, showTrades⟩ := settings?_output described
    refine ⟨fun path wanted succeeded => ⟨s, rfl, ?_⟩, fun unwanted => ?_⟩
    · exact (runBacktestSettings_leavesFiles s t).saved succeeded s path rfl (output.trans wanted)
    · rw [← output]
      exact runBacktestSettings_noTradeLog (by rw [showTrades, unwanted]; rfl) t

/-- A backtest without `--config` that ends with exit code zero has written the report at the
path of `--output` as it is shown, which is this path exactly if it is a text.  With
`--no-trades` it prints no list of trades.  With `--config` it is the run of the settings file,
whatever these options say, and changes no file if the settings name none. -/
theorem runArguments_honours_options {args : List RawText} {c : Command}
    (asked : ofArguments args = .ok c) (isBacktest : c.IsBacktest) (t : FileTree) :
    ∃ a outcome t', Accepts args a ∧ runArguments FileTree.store args t = (.ok outcome, t') ∧
      (a.value? "config" = none →
        (∀ path, a.value? "output" = some path → outcome.exit = 0 →
          (∃ s, settings? a = some s ∧ ReportSaved s path.asShown t t' outcome.stdout) ∧
            (path.asShown = path ↔ path.text?.isSome = true)) ∧
        (a.has "no-trades" = true → NoTradeLog (a.value? "output") outcome)) ∧
      ∀ path, a.value? "config" = some path →
        (backtestOfFile path).run FileTree.store t = (outcome, t') ∧
          (reportPath? ((backtestOfFile path).settingsIn t) = none → t.SameFiles t') := by
  obtain ⟨a, accepts, rfl⟩ := exists_accepts asked isBacktest
  have ran : runArguments FileTree.store args t =
      (.ok ((ofOptions a).run FileTree.store t).1, ((ofOptions a).run FileTree.store t).2) := by
    rw [runArguments, asked]
    rfl
  refine ⟨a, _, _, accepts, ran, fun noFile => ?_, fun path file => ?_⟩
  · rw [ofOptions, noFile]
    obtain ⟨saved, unlogged⟩ := run_settings? a t
    exact ⟨fun path wanted succeeded =>
      ⟨saved path wanted succeeded, path.asShown_eq_self_iff⟩, unlogged⟩
  · rw [ofOptions, file]
    exact ⟨rfl, fun unnamed => (run_leavesFiles (.backtestOfFile path) t).kept (.inr unnamed)⟩

/-- A directory with prices and a settings file that names them but no report. -/
def pricesAndSettings : FileTree :=
  let settings := "[strategy]\ndsl = ENTRY: CLOSE > 1 EXIT: CLOSE < 1\n[data]\npath = p.csv\n"
  let prices := "date,open,high,low,close,volume\n2024-01-02,2,2,2,2,1\n" ++
    "2024-01-03,0.5,0.5,0.5,0.5,1\n"
  let work : Directory := [("run.ini", .file settings), ("p.csv", .file prices)]
  ⟨.directory [("work", .directory work)], ["work"]⟩

/-- The path `out.json` is a text, so the report is written there. -/
theorem runArguments_honours_options_dsl :
    ∃ outcome t', runArguments FileTree.store ["backtest", "--dsl",
        "ENTRY: CLOSE > 1 EXIT: CLOSE < 1", "-d", "p.csv", "--output=out.json", "--no-trades"]
        pricesAndSettings = (.ok outcome, t') ∧
      outcome.exit = 0 ∧
      (∃ s, ReportSaved s "out.json" pricesAndSettings t' outcome.stdout) ∧
      NoTradeLog (some "out.json") outcome := by
  let args : List RawText := ["backtest", "--dsl", "ENTRY: CLOSE > 1 EXIT: CLOSE < 1", "-d",
    "p.csv", "--output=out.json", "--no-trades"]
  have asked : ofArguments args = .ok (.backtest (some
      ⟨.language "ENTRY: CLOSE > 1 EXIT: CLOSE < 1", .file "p.csv", some "out.json", false⟩)) := by
    rfl
  have succeeds : exitCode (runArguments FileTree.store args pricesAndSettings).1 = 0 := by
    decide +kernel
  obtain ⟨a, outcome, t', accepts, ran, options, -⟩ :=
    runArguments_honours_options asked trivial pricesAndSettings
  have known : Accepts args ⟨[("no-trades", ""), ("output", "out.json"), ("data", "p.csv"),
      ("dsl", "ENTRY: CLOSE > 1 EXIT: CLOSE < 1")], none, none, false⟩ := ⟨_, _, rfl, rfl, rfl⟩
  obtain rfl := accepts.unique known
  obtain ⟨saved, unlogged⟩ := options rfl
  rw [ran] at succeeds
  obtain ⟨⟨s, -, report⟩, isText⟩ := saved "out.json" rfl succeeds
  rw [isText.mpr (by rw [RawText.text?_ofText]; rfl)] at report
  exact ⟨outcome, t', ran, succeeds, ⟨s, report⟩, unlogged rfl⟩

/-- Beside `--config` the option `--output` is accepted, and no report is written. -/
theorem runArguments_ignores_output :
    (ofArguments ["backtest", "--config", "run.ini", "--output", "out.json"] =
      .ok (.backtestOfFile "run.ini")) ∧
    exitCode (runArguments FileTree.store
      ["backtest", "--config", "run.ini", "--output", "out.json"] pricesAndSettings).1 = 0 ∧
    (runArguments FileTree.store
      ["backtest", "--config", "run.ini", "--output", "out.json"] pricesAndSettings).2.file?
        ["work", "out.json"] = none := by
  refine ⟨by rfl, ?_⟩
  decide +kernel

end Command

end MarketRules
