import MarketRules.Command.Run

/-!
# The program

The outer layer: it takes the arguments, runs the command on the real files and
prints the outcome.
-/

namespace MarketRules

/-- What an operation on the real file at a path answers.  Only paths that are texts lead
to real files. -/
def fileResult {α : Type} (path : RawText) (action : String → IO α) :
    IO (Except FileError α) := do
  try
    match Path.read path, path.text? with
    | .error e, _ => return .error e
    | .ok _, none => return .error .notText
    | .ok _, some path => return .ok (← action path)
  catch
    | .noFileOrDirectory .. | .noSuchThing .. => return .error .missing
    | .alreadyExists .. => return .error .occupied
    | .inappropriateType .. => return .error .isDirectory
    | e => return .error (.other e.toString)

/-- The text of a real file. -/
def readReal (path : RawText) : IO (Except FileError String) := do
  let content ← fileResult path fun path => IO.FS.readBinFile path
  return content.bind fun bytes =>
    match RawText.text? ⟨bytes.data.toList⟩ with
    | none => .error .notText
    | some text => .ok text

/-- The real files. -/
def realFiles : FileStore IO where
  read := readReal
  write path text := fileResult path fun path => IO.FS.writeFile path text
  makeDirectory path := fileResult path fun path => IO.FS.createDirAll path

/-- What is printed when the arguments are not carried out. -/
def usageText : String :=
  ofLines [
    "Usage: marketrules [OPTIONS] <COMMAND>",
    "",
    "Commands:",
    "  translate  Show the rules a sentence becomes",
    "  backtest   Run a backtest",
    "  examples   List the example strategies",
    "  phrases    List the supported phrases",
    "  help       Explain a command"]

/-- Run the program. -/
def runProgram (args : List String) : IO UInt32 := do
  let result ← Command.runArguments realFiles (args.map .ofText)
  match result with
  | .error e => if e = .help then IO.print usageText else IO.eprint usageText
  | .ok outcome =>
    IO.print outcome.stdout
    IO.eprint outcome.stderr
  return (Command.exitCode result).toUInt32

end MarketRules

/-- The entry point of the program. -/
def main (args : List String) : IO UInt32 := MarketRules.runProgram args
