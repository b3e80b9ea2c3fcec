import MarketRules.Text.RawText

/-!
# Arguments

Reading the arguments of a command line, which are raw texts.  An argument is one of
these.

* `--name` or `--name=value` gives an option by its name.
* `-c` gives an option by its letter.  Letters of options without a value can be
  put together, and the value of an option can follow its letter, with or without
  a `=`.
* `--` says that no options follow.
* Any other argument is the value of the option in front of it, if that option
  still needs one, and a word of its own otherwise.

An option or a word is *settled* when the next option or word was read, or the end.
Only then it is known that an option has its value and was not given before, and that
what has to be a text is one.  So a later argument that means nothing is reported in
preference to an option that is wrong.  Paths need not be texts.
-/

namespace MarketRules

/-! ## Options -/

/-- What an option expects. -/
inductive OptionKind where
  /-- No value. -/
  | flag
  /-- A value that is a text. -/
  | text
  /-- A value that is not empty. -/
  | path
  /-- No value.  It asks for an explanation instead of a command. -/
  | help
deriving DecidableEq

/-- Does the option need a value? -/
def OptionKind.takesValue : OptionKind → Bool
  | .text | .path => true
  | .flag | .help => false

/-- An option. -/
structure OptionSpec where
  /-- Its name. -/
  name : String
  /-- Its letter, if it has one.  It is an ASCII character. -/
  letter? : Option Char
  /-- What it expects. -/
  kind : OptionKind
deriving DecidableEq

/-- What can stand in a list of arguments. -/
structure ArgumentSpec where
  /-- The options. -/
  options : List OptionSpec
  /-- Can there be one word of its own? -/
  takesWord : Bool
  /-- The words that begin a list of arguments with other rules. -/
  commands : List String

/-! ## Errors -/

/-- Why a list of arguments is not carried out. -/
inductive UsageError where
  /-- An explanation was asked for. -/
  | help
  /-- There are no arguments at all. -/
  | noArguments
  /-- There is no command. -/
  | missingCommand
  /-- There is no command with this name. -/
  | unknownCommand
  /-- An argument means nothing. -/
  | unknownArgument
  /-- An option was given twice, or beside another that rules it out. -/
  | conflict
  /-- A value is missing, or empty where it must not be. -/
  | badValue
  /-- A value or a word that has to be a text is none. -/
  | notText
  /-- There is a value for an option that takes none. -/
  | needlessValue
  /-- A word that has to be there is missing. -/
  | missingWord
deriving DecidableEq

/-- The exit code for arguments that are not carried out. -/
def UsageError.exitCode : UsageError → Nat
  | .help => 0
  | _ => 2

/-! ## Reading -/

/-- What has been read of a list of arguments. -/
structure Arguments where
  /-- The options that were settled, with their values. -/
  given : List (String × RawText) := []
  /-- The word of its own. -/
  word : Option RawText := none
  /-- The option that was read last and is not settled, with its value if that was
  read. -/
  last : Option (OptionSpec × Option RawText) := none
  /-- Was there an argument `--`? -/
  wordsOnly : Bool := false

namespace Arguments

/-- The value of an option. -/
def value? (a : Arguments) (name : String) : Option RawText := a.given.lookup name

/-- Was an option given? -/
def has (a : Arguments) (name : String) : Bool := (a.value? name).isSome

/-- The text that is the value of an option. -/
def text? (a : Arguments) (name : String) : Option String := (a.value? name).bind RawText.text?

/-- The text that is the word of its own. -/
def wordText? (a : Arguments) : Option String := a.word.bind RawText.text?

/-- Enter an option with its value. -/
def enter (a : Arguments) (o : OptionSpec) (value : RawText) : Except UsageError Arguments :=
  if a.has o.name then .error .conflict
  else if o.kind = .path ∧ value = "" then .error .badValue
  else if o.kind = .text ∧ value.text? = none then .error .notText
  else .ok { a with given := (o.name, value) :: a.given }

/-- Settle the word, and the option that was read last. -/
def settle (a : Arguments) : Except UsageError Arguments :=
  if a.word.isSome ∧ a.wordText? = none then .error .notText
  else
    match a.last with
    | none => .ok a
    | some (_, none) => .error .badValue
    | some (o, some value) => { a with last := none }.enter o value

/-- Does the option that was read last still need its value? -/
def needsValue (a : Arguments) : Bool := a.last.any (·.2.isNone)

/-- Read an option, with the value that is part of the same argument. -/
def readOption (a : Arguments) (o : OptionSpec) (attached : Option RawText) :
    Except UsageError Arguments :=
  match o.kind.takesValue, attached with
  | false, some _ => .error .needlessValue
  | true, some value => do (← a.settle).enter o value
  | true, none => do return { (← a.settle) with last := some (o, none) }
  | false, none => do
    let a ← a.settle
    if o.kind = .help then throw .help
    a.enter o ""

/-- The byte `-`, with which options begin. -/
def dash : UInt8 := 0x2D

/-- The byte `=`, behind which a value is attached. -/
def equalsSign : UInt8 := 0x3D

/-- Read what stands behind `--`. -/
def readName (a : Arguments) (options : List OptionSpec) (bytes : List UInt8) :
    Except UsageError Arguments :=
  match options.find? (.ofText ·.name = RawText.mk (bytes.takeWhile (· != equalsSign))) with
  | none => .error .unknownArgument
  | some o => a.readOption o ((bytes.dropWhile (· != equalsSign)).tail?.map RawText.mk)

/-- The value that stands behind a letter in the same argument. -/
def attachedValue (bytes : List UInt8) : Option RawText :=
  if bytes = [] then none
  else if bytes.head? = some equalsSign then some ⟨bytes.tail⟩
  else some ⟨bytes⟩

/-- Read what stands behind `-`. -/
def readLetters (a : Arguments) (options : List OptionSpec) :
    List UInt8 → Except UsageError Arguments
  | [] => .ok a
  | byte :: bytes =>
    match options.find? (·.letter?.any fun c => c.toNat = byte.toNat) with
    | none => .error .unknownArgument
    | some o =>
      if o.kind.takesValue then a.readOption o (attachedValue bytes)
      else do readLetters (← a.readOption o none) options bytes
termination_by structural bytes => bytes

/-- Read a word of its own. -/
def readWord (a : Arguments) (spec : ArgumentSpec) (word : RawText) :
    Except UsageError Arguments :=
  if spec.takesWord ∧ a.word = none then do return { (← a.settle) with word := some word }
  else if spec.commands = [] ∨ (a.wordsOnly ∧ spec.commands.any (.ofText · = word)) then
    .error .unknownArgument
  else .error .unknownCommand

/-- How an argument begins. -/
inductive Beginning where
  /-- The argument is `--`. -/
  | dashes
  /-- It is `--` with something behind it. -/
  | name (bytes : List UInt8)
  /-- It is `-` with something else behind it. -/
  | letters (bytes : List UInt8)
  /-- It is anything else. -/
  | other

/-- How an argument begins. -/
def beginning (arg : RawText) : Beginning :=
  match arg.bytes with
  | first :: second :: rest =>
    if first ≠ dash then .other
    else if second ≠ dash then .letters (second :: rest)
    else if rest = [] then .dashes
    else .name rest
  | _ => .other

/-- Read one argument. -/
def readOne (spec : ArgumentSpec) (a : Arguments) (arg : RawText) : Except UsageError Arguments :=
  if a.wordsOnly then a.readWord spec arg
  else
    match beginning arg, a.last with
    | .dashes, _ => .ok { a with wordsOnly := true }
    | .name bytes, _ => a.readName spec.options bytes
    | .letters bytes, _ => a.readLetters spec.options bytes
    | .other, some (o, none) => .ok { a with last := some (o, some arg) }
    | .other, _ => a.readWord spec arg

/-- The command that an argument names where one can stand. -/
def command? (spec : ArgumentSpec) (a : Arguments) (arg : RawText) : Option String :=
  if a.wordsOnly || a.needsValue then none else spec.commands.find? (.ofText · = arg)

/-- Read arguments up to the name of a command.  The result has the name and what
follows it. -/
def readUpTo (spec : ArgumentSpec) (a : Arguments) :
    List RawText → Except UsageError (Arguments × Option (String × List RawText))
  | [] => .ok (a, none)
  | arg :: args =>
    match a.command? spec arg with
    | some name => .ok (a, some (name, args))
    | none => do readUpTo spec (← a.readOne spec arg) args
termination_by structural args => args

/-- Read all arguments. -/
def read (spec : ArgumentSpec) (args : List RawText) : Except UsageError Arguments := do
  (← args.foldlM (readOne spec) {}).settle

end Arguments

end MarketRules
