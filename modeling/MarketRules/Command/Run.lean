import MarketRules.Command.Basic
import MarketRules.Command.Failure
import MarketRules.English.Catalog
import MarketRules.Files.Store
import MarketRules.Market.Sample
import MarketRules.Report.Console
import MarketRules.Report.Json
import MarketRules.Strategy.Signals

/-!
# Running commands

A command reads files, writes at most one, and ends with an `Outcome`: an exit code
and what it prints.  It runs on any `FileStore`, and the files it reads are the
only thing it learns from outside.

A backtest goes through its stages in order and stops at the first failure.  What
was printed before stays printed.  The report is written last, after everything
else has succeeded.  Prices are read from the path as it is shown, and the report is
written to the path as it is shown.  That is another path if the one that was given is
no text.
-/

namespace MarketRules

/-! ## Outcomes -/

/-- How a command ends. -/
structure Outcome where
  /-- The exit code. -/
  exit : Nat
  /-- What is printed. -/
  stdout : String
  /-- The messages about failures. -/
  stderr : String
deriving DecidableEq

namespace Outcome

/-- A command that reached its end. -/
def done (printed : String) : Outcome := ⟨0, printed, ""⟩

/-- A command that stopped with a message. -/
def stopped (exit : Nat) (printed message : String) : Outcome :=
  ⟨exit, printed, "error: " ++ message ++ "\n"⟩

/-- A command that failed. -/
def failed (printed : String) (f : Failure) : Outcome := stopped f.exitCode printed f.message

/-- A command that was given a strategy that does not compile.  `text` is the strategy
in the rule language. -/
def notCompiled (printed text : String) (e : CompileError) : Outcome :=
  stopped (Failure.strategy e).exitCode printed (e.inContext text)

/-- One outcome after another.  The exit code of the last that failed counts. -/
def andThen (first second : Outcome) : Outcome where
  exit := if second.exit = 0 then first.exit else second.exit
  stdout := first.stdout ++ second.stdout
  stderr := first.stderr ++ second.stderr

end Outcome

/-! ## Strategies and prices -/

/-- A strategy in the rule language. -/
def StrategySource.text : StrategySource → String
  | .english sentence => (Translation.ofText sentence).strategyText
  | .language text => text

/-- The checked strategy of a source. -/
def StrategySource.compile (s : StrategySource) : Except CompileError CheckedStrategy :=
  CheckedStrategy.ofText s.text

namespace FileStore

variable {m : Type → Type} [Monad m]

/-- The path of a price table.  It is given from the working directory. -/
def pricePath (path : String) : String :=
  if path.toList.head? = some '/' then path else "./" ++ path

/-- The bars of a source. -/
def bars (store : FileStore m) : DataSource → m (Except Failure (List Bar))
  | .sample => return Bar.sample.mapError .priceTable
  | .file path => do
    match ← store.read (pricePath path.shown) with
    | .error e => return .error (.priceFile (pricePath path.shown) e)
    | .ok text => return (Bar.readTable text).mapError .priceTable

/-- The settings of a file. -/
def settings (store : FileStore m) (path : RawText) : m (Except Failure RunSettings) := do
  match ← store.read path with
  | .error e => return .error (.settingsFile path.shown (.file e))
  | .ok text =>
    return do
      let file ← (SettingsFile.ofText text).mapError fun e => .settingsFile path.shown (.line e)
      (RunSettings.ofFile file).mapError .settings

end FileStore

/-! ## Commands -/

namespace Command

variable {m : Type → Type} [Monad m]

/-- What is printed for a report. -/
def shownReport (report : Report) (showTrades : Bool) : String :=
  report.console (.ofTrades report.trades) showTrades

/-- Show what a sentence becomes. -/
def runTranslate (sentence : String) : Outcome :=
  let t := Translation.ofText sentence
  let printed := s!"Entry: {t.entry}\nExit:  {t.exit}\n"
    ++ if t.exitSupplied then "       (no exit rule found)\n" else ""
  match CheckedStrategy.ofText t.strategyText with
  | .ok s => .done (printed ++ s!"\nCompiled: {s.text}\n")
  | .error e => .notCompiled printed t.strategyText e

/-- Write the report of a run, if its settings name a file.  `printed` is what the run
has printed before. -/
def writeReport (store : FileStore m) (output : Option RawText) (strategy : CheckedStrategy)
    (report : Report) (printed : String) : m Outcome :=
  match output with
  | none => return .done printed
  | some path => do
    match ← store.save path.asShown (report.json strategy.toStrategy).render with
    | .error e => return .failed printed (.reportFile e)
    | .ok () => return .done (printed ++ s!"\nReport written to: {path.shown}\n")

/-- Run a backtest. -/
def runBacktestSettings (store : FileStore m) (s : RunSettings) : m Outcome := do
  match s.strategy.compile with
  | .error e => return .notCompiled "" s.strategy.text e
  | .ok strategy =>
    let heading := s!"Strategy: {strategy.text}\n"
    match ← store.bars s.data with
    | .error f => return .failed heading f
    | .ok bars =>
      match strategy.backtest bars with
      | .error e => return .failed heading (.backtest e)
      | .ok report =>
        writeReport store s.output strategy report
          (heading ++ "\n" ++ shownReport report s.showTrades)

/-- List examples with their numbers. -/
def listExamples (examples : List ExampleStrategy) : Outcome :=
  .done ("=== Example Strategies ===\n" ++ String.join (examples.mapIdx fun i e =>
    s!"\n{decimal (i + 1)}. {e.name}:\n   {e.text}\n"))

/-- Run one strategy over bars, under a name. -/
def runExample (bars : List Bar) (name : String) (s : CheckedStrategy) : Outcome :=
  let heading := s!"\n>>> {name}\nStrategy: {s.text}\n"
  match s.backtest bars with
  | .ok report => .done (heading ++ shownReport report true)
  | .error e => .failed heading (.backtest e)

/-- Compile examples.  The first that does not compile stops the command. -/
def compileExamples : List ExampleStrategy → Except Outcome (List (String × CheckedStrategy))
  | [] => .ok []
  | e :: es => do
    let source : StrategySource := .english e.text
    let s ← source.compile.mapError (.notCompiled "" source.text)
    return (e.name, s) :: (← compileExamples es)

/-- Run examples over the sample series. -/
def runExamples (examples : List ExampleStrategy) : Outcome :=
  match Bar.sample, compileExamples examples with
  | .error e, _ => .failed "" (.priceTable e)
  | .ok _, .error outcome => outcome
  | .ok bars, .ok strategies =>
    (strategies.map fun (name, s) => runExample bars name s).foldl .andThen (.done "")

/-- The message about a name that no example has. -/
def unknownExample (name : String) : String :=
  let known := String.intercalate ", " (ExampleStrategy.all.map (·.name))
  s!"no example named '{name}' (known: {known})"

/-- List examples or run them. -/
def showExamples (toRun : Bool) (examples : List ExampleStrategy) : Outcome :=
  if toRun then runExamples examples else listExamples examples

/-- List the examples or run them, or only the one with a name. -/
def showChosenExamples (toRun : Bool) : Option String → Outcome
  | none => showExamples toRun ExampleStrategy.all
  | some name =>
    match ExampleStrategy.ofName? name with
    | some e => showExamples toRun [e]
    | none => .stopped 2 "" (unknownExample name)

/-- A subject with its phrases. -/
def phraseLines (g : PhraseGroup) : String :=
  let phrases := String.intercalate ", " g.phrases
  s!"\n{g.title}:\n  - {phrases}\n"

/-- List the supported phrases. -/
def listPhrases : Outcome :=
  .done ("=== Supported English Phrases ===\n" ++ String.join (PhraseGroup.all.map phraseLines))

/-- Run a command. -/
def run (store : FileStore m) : Command → m Outcome
  | .translate sentence => return runTranslate sentence
  | .backtestOfFile path => do
    match ← store.settings path with
    | .error f => return .failed "" f
    | .ok s => runBacktestSettings store s
  | .backtest (some s) => runBacktestSettings store s
  | .backtest none => return .stopped 2 "" "one of --config, --text or --dsl is required"
  | .examples toRun name => return showChosenExamples toRun name
  | .phrases => return listPhrases

/-! ## Arguments -/

/-- Carry out a list of arguments. -/
def runArguments (store : FileStore m) (args : List RawText) : m (Except UsageError Outcome) :=
  match ofArguments args with
  | .error e => return .error e
  | .ok command => do return .ok (← command.run store)

/-- The exit code after a list of arguments. -/
def exitCode : Except UsageError Outcome → Nat
  | .error e => e.exitCode
  | .ok outcome => outcome.exit

end Command

end MarketRules
