import MarketRules.Command.Arguments
import MarketRules.Settings.Run

/-!
# Commands

The commands of the program and how they are given.

* `translate SENTENCE` shows what a sentence becomes in the rule language.
* `backtest` runs a strategy over prices.
* `examples` lists the examples or runs them.
* `phrases` lists the supported phrases.
* `help` explains a command.

The options `--log-level` and `--log-json` can be given with every command and in
front of it.  They have no bearing on what a command does.
-/

namespace MarketRules

/-- What the program is asked to do. -/
inductive Command where
  /-- Translate a sentence. -/
  | translate (sentence : String)
  /-- Run the backtest that a settings file describes. -/
  | backtestOfFile (path : RawText)
  /-- Run a backtest.  There are no settings if no strategy was given. -/
  | backtest (settings : Option RunSettings)
  /-- List the examples, or run them, or only the one with a name. -/
  | examples (run : Bool) (name : Option String)
  /-- List the supported phrases. -/
  | phrases
deriving DecidableEq

namespace Command

/-! ## Options -/

/-- The options of every list of arguments. -/
def commonOptions : List OptionSpec := [
  ⟨"log-level", none, .text⟩,
  ⟨"log-json", none, .flag⟩,
  ⟨"help", some 'h', .help⟩]

/-- The options of `backtest`. -/
def backtestOptions : List OptionSpec := [
  ⟨"config", some 'c', .path⟩,
  ⟨"text", some 't', .text⟩,
  ⟨"dsl", none, .text⟩,
  ⟨"data", some 'd', .path⟩,
  ⟨"output", some 'o', .path⟩,
  ⟨"no-trades", none, .flag⟩]

/-- The options of `examples`. -/
def exampleOptions : List OptionSpec := [⟨"run", none, .flag⟩, ⟨"name", some 'n', .text⟩]

/-- The names of the commands. -/
def names : List String := ["translate", "backtest", "examples", "phrases", "help"]

/-- What can stand in front of a command. -/
def beforeSpec : ArgumentSpec := ⟨commonOptions, false, names⟩

/-! ## Reading -/

/-- What `translate` is asked to do. -/
def ofTranslateArguments (args : List RawText) : Except UsageError Command := do
  let a ← Arguments.read ⟨commonOptions, true, []⟩ args
  match a.wordText? with
  | some sentence => return .translate sentence
  | none => throw .missingWord

/-- Are there options that rule each other out? -/
def conflicting (a : Arguments) : Bool :=
  (a.has "config" && (a.has "text" || a.has "dsl" || a.has "data"))
    || (a.has "text" && a.has "dsl")

/-- The settings that the options of `backtest` describe, if they give a strategy. -/
def settings? (a : Arguments) : Option RunSettings :=
  let source : Option StrategySource :=
    match a.text? "text" with
    | some text => some (.english text)
    | none => (a.text? "dsl").map .language
  source.map fun strategy =>
    { strategy
      data := ((a.value? "data").map DataSource.file).getD .sample
      output := a.value? "output"
      showTrades := !a.has "no-trades" }

/-- What `backtest` is asked to do. -/
def ofBacktestArguments (args : List RawText) : Except UsageError Command := do
  let a ← Arguments.read ⟨backtestOptions ++ commonOptions, false, []⟩ args
  if conflicting a then throw .conflict
  match a.value? "config" with
  | some path => return .backtestOfFile path
  | none => return .backtest (settings? a)

/-- What `examples` is asked to do. -/
def ofExampleArguments (args : List RawText) : Except UsageError Command := do
  let a ← Arguments.read ⟨exampleOptions ++ commonOptions, false, []⟩ args
  return .examples (a.has "run") (a.text? "name")

/-- What `phrases` is asked to do. -/
def ofPhraseArguments (args : List RawText) : Except UsageError Command := do
  let _ ← Arguments.read ⟨commonOptions, false, []⟩ args
  return .phrases

/-- What `help` is asked to do: to explain the program or one command. -/
def ofHelpArguments : List RawText → Except UsageError Command
  | [] => .error .help
  | [arg] => .error (if names.any (.ofText · = arg) then .help else .unknownCommand)
  | _ => .error .unknownCommand

/-- What a list of arguments asks for.  The arguments of the command are read before
the last option in front of it is settled. -/
def ofArguments (args : List RawText) : Except UsageError Command := do
  let (before, found) ← Arguments.readUpTo beforeSpec {} args
  match found with
  | none => throw (if (← before.settle).given = [] then .noArguments else .missingCommand)
  | some (name, args) =>
    let command ← match name with
      | "translate" => ofTranslateArguments args
      | "backtest" => ofBacktestArguments args
      | "examples" => ofExampleArguments args
      | "phrases" => ofPhraseArguments args
      | _ => ofHelpArguments args
    let _ ← before.settle
    return command

end Command

end MarketRules
