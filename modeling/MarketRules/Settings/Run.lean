import MarketRules.Settings.Sections
import MarketRules.Text.RawText

/-!
# Run settings

What a backtest needs to know: the strategy, the price table, where the report is
written and whether the trades are shown.  A settings file gives them in the
sections `strategy`, `data` and `report`, and everything in it is checked before
any other file is opened.
-/

namespace MarketRules

/-! ## Settings -/

/-- How a strategy is given. -/
inductive StrategySource where
  /-- As an English sentence. -/
  | english (text : String)
  /-- In the rule language. -/
  | language (text : String)
deriving DecidableEq

/-- Where the prices come from. -/
inductive DataSource where
  | sample
  | file (path : RawText)
deriving DecidableEq

/-- All that a backtest needs to know. -/
structure RunSettings where
  strategy : StrategySource
  data : DataSource
  /-- The file for the report, if one is written. -/
  output : Option RawText
  /-- Are the trades listed? -/
  showTrades : Bool
deriving DecidableEq

/-! ## Checks -/

/-- Why a settings file does not describe a run. -/
inductive SettingsError where
  /-- A key has no value. -/
  | missing (sectionName key : String)
  /-- A key has a value that cannot be used. -/
  | invalid (sectionName key reason : String)
deriving DecidableEq

def SettingsError.message : SettingsError → String
  | .missing sectionName key => s!"missing config key [{sectionName}] {key}"
  | .invalid sectionName key reason => s!"invalid config value [{sectionName}] {key}: {reason}"

namespace RunSettings

/-- The levels a log can have. -/
def logLevels : List String := ["trace", "debug", "info", "warn", "error"]

/-- The strategy: a sentence or a text of the rule language, and not both. -/
def readStrategy (file : SettingsFile) : Except SettingsError StrategySource :=
  match file.nonBlank? "strategy" "text", file.nonBlank? "strategy" "dsl" with
  | some text, none => .ok (.english text)
  | none, some text => .ok (.language text)
  | none, none => .error (.missing "strategy" "text")
  | some _, some _ => .error (.invalid "strategy" "dsl" "set either text or dsl, not both")

/-- The prices: the sample series or a file, and not both. -/
def readData (file : SettingsFile) : Except SettingsError DataSource :=
  match (file.bool? "data" "sample").getD false, file.nonBlank? "data" "path" with
  | true, none => .ok .sample
  | false, some path => .ok (.file (.ofText (trimText path)))
  | false, none => .error (.missing "data" "path")
  | true, some _ =>
    .error (.invalid "data" "sample" "sample = true cannot be combined with a path")

/-- The file for the report.  A path that is given must not be blank. -/
def readOutput (file : SettingsFile) : Except SettingsError (Option RawText) :=
  match file.get? "report" "output" with
  | none => .ok none
  | some path =>
    if trim path.toList = [] then
      .error (.invalid "report" "output" "output path must not be empty")
    else .ok (some (.ofText (trimText path)))

/-- Check the level of the log. -/
def checkLogLevel (file : SettingsFile) : Except SettingsError Unit :=
  match file.get? "logging" "level" with
  | none => .ok ()
  | some level =>
    if logLevels.contains (String.ofList (lower (trim level.toList))) then .ok ()
    else .error (.invalid "logging" "level"
      ("expected one of " ++ String.intercalate ", " logLevels))

/-- The run that a settings file describes. -/
def ofFile (file : SettingsFile) : Except SettingsError RunSettings := do
  let strategy ← readStrategy file
  let data ← readData file
  let output ← readOutput file
  checkLogLevel file
  return { strategy, data, output, showTrades := (file.bool? "report" "show_trades").getD true }

end RunSettings

end MarketRules
