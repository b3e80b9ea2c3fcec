import MarketRules.Number.Decimal
import MarketRules.Number.Numeral
import MarketRules.Text.Blank
import MarketRules.Text.Casing

/-!
# Settings files

A settings file has sections, each a list of keys with values.  A section begins
with its name in brackets, and a line `key = value` or `key: value` belongs to the
section above it.  Keys in front of the first section belong to `default`.  A key
without a delimiter has no value.

A comment runs from the first `;` or `#` to the end of the line, also in the
middle of a value.  Names of sections and keys are compared in lower case.  A
section may be continued later, and a key that occurs again replaces the one
before.
-/

namespace MarketRules

/-! ## Lines -/

/-- A line of a settings file that means something. -/
inductive SettingsLine where
  /-- The name of a section. -/
  | heading (name : List Char)
  /-- A key with its value, if it has one. -/
  | key (name : List Char) (value : Option (List Char))
deriving DecidableEq

/-- Why a line is neither. -/
inductive SettingsLineError where
  /-- A name of a section is not closed. -/
  | openBracket
  /-- There is no key in front of the delimiter at this byte. -/
  | noKey (byte : Nat)
deriving DecidableEq

/-- Does a comment begin with the character? -/
def isCommentStart (c : Char) : Bool := c == ';' || c == '#'

/-- Does the character separate a key from its value? -/
def isDelimiter (c : Char) : Bool := c == '=' || c == ':'

/-- The number of bytes of a text. -/
def byteLength (cs : List Char) : Nat := (cs.map Char.utf8Size).foldr (· + ·) 0

/-- The text in front of the last closing bracket, if there is one. -/
def beforeLastBracket? (cs : List Char) : Option (List Char) :=
  match cs.reverse.dropWhile (· != ']') with
  | [] => none
  | _ :: rest => some rest.reverse

/-- A line without its comment and the blanks around it. -/
def lineContent (line : List Char) : List Char := trim (line.takeWhile (!isCommentStart ·))

/-- A key and its value.  There is no key if the delimiter comes first. -/
def readKey (cs : List Char) : Except SettingsLineError SettingsLine :=
  let name := cs.takeWhile (!isDelimiter ·)
  match cs.dropWhile (!isDelimiter ·) with
  | [] => .ok (.key (lower cs) none)
  | _ :: value =>
    if trim name = [] then .error (.noKey (byteLength name))
    else .ok (.key (lower (trim name)) (some (trim value)))

/-- What a line means, if it means something. -/
def readSettingsLine (line : List Char) : Except SettingsLineError (Option SettingsLine) :=
  match lineContent line with
  | [] => .ok none
  | '[' :: rest =>
    match beforeLastBracket? rest with
    | some name => .ok (some (.heading (lower (trim name))))
    | none => .error .openBracket
  | cs => (readKey cs).map some

/-! ## Files -/

/-- A key of a section with its value. -/
structure Setting where
  /-- The section in lower case. -/
  sectionName : List Char
  /-- The key in lower case. -/
  key : List Char
  /-- The value, if there is one. -/
  value : Option (List Char)
deriving DecidableEq

/-- The keys of a settings file in the order of the file. -/
abbrev SettingsFile := List Setting

/-- A fault with the number of its line. -/
structure SettingsFileError where
  /-- The number of the line, counted from one. -/
  line : Nat
  fault : SettingsLineError
deriving DecidableEq

def SettingsFileError.message (e : SettingsFileError) : String :=
  match e.fault with
  | .openBracket =>
    s!"line {decimal e.line}: Found opening bracket for section name but no closing bracket"
  | .noKey byte => s!"line {decimal e.line}:{decimal byte}: Key cannot be empty"

namespace SettingsFile

/-- Read lines from number `index` on, within a section. -/
def readLines (index : Nat) (current : List Char) :
    List (List Char) → Except SettingsFileError SettingsFile
  | [] => .ok []
  | line :: lines =>
    match readSettingsLine line with
    | .error fault => .error ⟨index, fault⟩
    | .ok none => readLines (index + 1) current lines
    | .ok (some (.heading name)) => readLines (index + 1) name lines
    | .ok (some (.key name value)) =>
      (readLines (index + 1) current lines).map (⟨current, name, value⟩ :: ·)
termination_by structural lines => lines

/-- Read a settings file. -/
def ofText (text : String) : Except SettingsFileError SettingsFile :=
  readLines 1 "default".toList (text.toList.splitOn '\n')

/-! ## Values -/

/-- The value of a key.  Where a key occurs more than once the last one counts, also
if it has no value. -/
def get? (file : SettingsFile) (sectionName key : String) : Option String :=
  let found := file.filter fun s =>
    s.sectionName == lower sectionName.toList && s.key == lower key.toList
  (found.getLast?.bind Setting.value).map String.ofList

/-- The value of a key, if it has a character other than blanks. -/
def nonBlank? (file : SettingsFile) (sectionName key : String) : Option String :=
  (file.get? sectionName key).filter fun v => trim v.toList ≠ []

/-- The value of a key as an integer of 64 bits. -/
def int? (file : SettingsFile) (sectionName key : String) : Option Int :=
  ((file.get? sectionName key).bind fun v => readInt? v.toList).filter fun n =>
    -9223372036854775808 ≤ n ∧ n ≤ 9223372036854775807

/-- The value of a key as a number. -/
def number? (file : SettingsFile) (sectionName key : String) : Option Binary64 :=
  (file.get? sectionName key).bind fun v => readNumeral? v.toList

/-- The truth value that a word stands for, in any letter case. -/
def truth? (word : String) : Option Bool :=
  let w := String.ofList (lower (trim word.toList))
  if ["true", "yes", "on", "1"].contains w then some true
  else if ["false", "no", "off", "0"].contains w then some false
  else none

/-- The value of a key as a truth value. -/
def bool? (file : SettingsFile) (sectionName key : String) : Option Bool :=
  (file.get? sectionName key).bind truth?

end SettingsFile

end MarketRules
