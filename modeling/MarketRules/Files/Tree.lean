import MarketRules.Files.Store

/-!
# Trees of files

A `FileTree` is a file system as a value: the files and directories below a root,
and the directory in which a program works.  `FileTree.store` runs a program on
such a tree.

A path is followed piece by piece.  Each name has to be looked up in a directory, so
a file can only be at its end, and nothing can stand behind a name that does not
exist.  A `FilePlace` is where a path has led so far.  It remembers the directories
it came through, so going back up and writing are local.
-/

namespace MarketRules

/-! ## Nodes -/

/-- What a name stands for in a directory. -/
inductive FileNode where
  /-- A file with its bytes. -/
  | file (content : RawText)
  /-- A directory with its names. -/
  | directory (entries : List (RawText × FileNode))

/-- The names of a directory and what they stand for. -/
abbrev Directory := List (RawText × FileNode)

/-- The directory in which a name stands for `node`. -/
def Directory.set (name : RawText) (node : FileNode) : Directory → Directory
  | [] => [(name, node)]
  | (other, old) :: d =>
    if other = name then (name, node) :: d else (other, old) :: Directory.set name node d
termination_by structural d => d

/-- What the end of a list of names stands for, each looked up in the directory before
it. -/
def FileNode.below? (node : FileNode) : List RawText → Option FileNode
  | [] => some node
  | name :: names =>
    match node with
    | .file _ => none
    | .directory d => (d.lookup name).bind (FileNode.below? · names)
termination_by structural names => names

/-! ## Places -/

/-- A place in a tree. -/
structure FilePlace where
  /-- The names that led here with the directories they were looked up in, the last one
  first. -/
  way : List (RawText × Directory)
  /-- What the place holds. -/
  node? : Option FileNode

namespace FilePlace

/-- The largest number of bytes in a name. -/
def maxNameLength : Nat := 255

/-- The directory at the place. -/
def directory (p : FilePlace) : Except FileError Directory :=
  match p.node? with
  | none => .error .missing
  | some (.file _) => .error .notDirectory
  | some (.directory d) => .ok d

/-- The place above.  Nothing is above the root. -/
def parent (p : FilePlace) : FilePlace :=
  match p.way with
  | [] => p
  | (_, d) :: way => ⟨way, some (.directory d)⟩

/-- The place behind one piece of a path. -/
def step (p : FilePlace) (name : RawText) : Except FileError FilePlace := do
  let d ← p.directory
  if Path.isIdle name then return p
  if name = ".." then return p.parent
  if maxNameLength < name.bytes.length then throw .tooLong
  return ⟨(name, d) :: p.way, d.lookup name⟩

/-- The root of the tree in which the place at the end of a way holds `node`. -/
def rootWith (node : FileNode) : List (RawText × Directory) → FileNode
  | [] => node
  | (name, d) :: way => rootWith (.directory (d.set name node)) way
termination_by structural way => way

end FilePlace

/-! ## Trees -/

/-- Files and directories below a root. -/
structure FileTree where
  /-- The root, which is a directory. -/
  root : FileNode
  /-- The names that lead from the root to the directory in which a program works. -/
  current : List RawText

namespace FileTree

/-- A working directory with nothing in it. -/
def empty : FileTree := ⟨.directory [("work", .directory [])], ["work"]⟩

/-- What the end of a list of names from the root stands for. -/
def node? (t : FileTree) (names : List RawText) : Option FileNode := t.root.below? names

/-- The place that a path leads to, whether or not it holds something. -/
def follow (t : FileTree) (p : Path) : Except FileError FilePlace :=
  ((if p.absolute then [] else t.current) ++ p.names).foldlM FilePlace.step ⟨[], some t.root⟩

/-- The tree in which a place holds `node`. -/
def put (t : FileTree) (place : FilePlace) (node : FileNode) : FileTree :=
  { t with root := FilePlace.rootWith node place.way }

/-! ## Operations -/

/-- The text of the file at the end of a path. -/
def read (t : FileTree) (path : RawText) : Except FileError String := do
  let place ← t.follow (← Path.read path)
  match place.node? with
  | none => throw .missing
  | some (.directory _) => throw .isDirectory
  | some (.file content) =>
    match content.text? with
    | none => throw .notText
    | some text => return text

/-- The tree after a text was written to a file.  A path with a separator at its end stands for
a directory, whatever its last name. -/
def write (t : FileTree) (path : RawText) (text : String) : Except FileError FileTree := do
  let names := (← Path.read path).names
  match names.reverse.dropWhile fun name : RawText => name = "" with
  | [] => throw .isDirectory
  | name :: above =>
    let place ← t.follow ⟨above.reverse⟩
    let _ ← place.directory
    if names.getLast? = some "" then throw .isDirectory
    let place ← place.step name
    match place.node? with
    | some (.directory _) => throw .isDirectory
    | _ => return t.put place (.file (.ofText text))

/-- The tree after a directory was made.  If it exists already nothing changes. -/
def makeDirectory (t : FileTree) (path : RawText) : Except FileError FileTree := do
  let place ← t.follow (← Path.read path)
  match place.node? with
  | some (.directory _) => return t
  | some (.file _) => throw .occupied
  | none => return t.put place (.directory [])

/-- Change the tree, or leave it as it was if that fails. -/
def change (f : FileTree → Except FileError FileTree) : StateM FileTree (Except FileError Unit) :=
  fun t =>
    match f t with
    | .ok t' => (.ok (), t')
    | .error e => (.error e, t)

/-- The operations on a tree. -/
def store : FileStore (StateM FileTree) where
  read path := fun t => (t.read path, t)
  write path text := change (·.write path text)
  makeDirectory path := change (·.makeDirectory path)

end FileTree

end MarketRules
