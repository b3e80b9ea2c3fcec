import MarketRules.Text.RawText

/-!
# Files

What a program needs of a file system: to read a text file, to write one, and to
make a directory.  A `FileStore` gives these operations in some monad, so that a
program can be run on real files and on a `FileTree` alike.  Paths and the names in
them are raw texts, and a file can be read only if it holds a text.

A file is written together with the directories above it.
-/

namespace MarketRules

/-! ## Errors -/

/-- Why a file or a directory cannot be used. -/
inductive FileError where
  /-- It does not exist. -/
  | missing
  /-- There is a file in the place of a directory that is to be made. -/
  | occupied
  /-- There is a file on the way to it. -/
  | notDirectory
  /-- There is a directory in its place. -/
  | isDirectory
  /-- Its path, or a name in it, is too long. -/
  | tooLong
  /-- There is a zero byte in its path. -/
  | zeroByte
  /-- It does not hold a text. -/
  | notText
  /-- It cannot be used for another reason. -/
  | other (reason : String)
deriving DecidableEq

def FileError.message : FileError → String
  | .missing => "No such file or directory (os error 2)"
  | .occupied => "File exists (os error 17)"
  | .notDirectory => "Not a directory (os error 20)"
  | .isDirectory => "Is a directory (os error 21)"
  | .tooLong => "File name too long (os error 36)"
  | .zeroByte => "file name contained an unexpected NUL byte"
  | .notText => "stream did not contain valid UTF-8"
  | .other reason => reason

/-! ## Paths -/

/-- A path as its pieces between separators.  A first piece that is empty says that it
begins at the root. -/
structure Path where
  /-- The pieces.  Those that are empty or a single point lead nowhere. -/
  names : List RawText
deriving DecidableEq

namespace Path

/-- The byte between two pieces, which is `/`. -/
def separator : UInt8 := 0x2F

/-- The path that is written down. -/
def ofRaw (r : RawText) : Path where
  names := (r.bytes.splitOn separator).map RawText.mk

/-- A path written down. -/
def raw (p : Path) : RawText := ⟨[separator].intercalate (p.names.map RawText.bytes)⟩

/-- Does it begin at the root? -/
def absolute (p : Path) : Bool := p.names.head? = some ""

/-- Does a piece lead nowhere? -/
def isIdle (name : RawText) : Bool := name = "" || name = "."

/-- The pieces up to the last one that leads somewhere. -/
def dropIdleEnd (names : List RawText) : List RawText := (names.reverse.dropWhile isIdle).reverse

/-- The directory of a file.  There are no pieces if it is the working directory or
the root. -/
def parent (p : Path) : Path where
  names := dropIdleEnd (dropIdleEnd p.names).dropLast

/-- The largest number of bytes in a path. -/
def maxLength : Nat := 4095

/-- The path that is written down, if a file system takes it for a path at all. -/
def read (r : RawText) : Except FileError Path :=
  if 0 ∈ r.bytes then .error .zeroByte
  else if r = "" then .error .missing
  else if maxLength < r.bytes.length then .error .tooLong
  else .ok (ofRaw r)

end Path

/-! ## Stores -/

/-- The operations of a file system. -/
structure FileStore (m : Type → Type) where
  /-- The text of a file. -/
  read : RawText → m (Except FileError String)
  /-- Write a text to a file in a directory that exists. -/
  write : RawText → String → m (Except FileError Unit)
  /-- Make a directory, unless it exists, in a directory that exists. -/
  makeDirectory : RawText → m (Except FileError Unit)

namespace FileStore

variable {m : Type → Type} [Monad m]

/-- Make a directory with those above it.  The pieces of its path come in reverse,
from the last to the first. -/
def makeDirectories (store : FileStore m) : List RawText → m (Except FileError Unit)
  | [] => return .ok ()
  | name :: above => do
    if Path.isIdle name then makeDirectories store above
    else
      let path := Path.raw ⟨(name :: above).reverse⟩
      match ← store.makeDirectory path with
      | .error .missing =>
        match ← makeDirectories store above with
        | .error e => return .error e
        | .ok () => store.makeDirectory path
      | result => return result
termination_by structural names => names

/-- Write a file and make the directories above it. -/
def save (store : FileStore m) (path : RawText) (content : String) : m (Except FileError Unit) := do
  match ← store.makeDirectories (Path.ofRaw path).parent.names.reverse with
  | .error e => return .error e
  | .ok () => store.write path content

end FileStore

example : (Path.ofRaw "a//b/./c.json").parent.raw = "a//b" := by decide +kernel
example : (Path.ofRaw "/x").parent.names = [] := by decide +kernel

end MarketRules
