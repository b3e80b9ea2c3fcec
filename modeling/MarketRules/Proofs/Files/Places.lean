import MarketRules.Files.Tree
import MarketRules.Proofs.Success

/-!
# Places of a tree

A tree is seen through lists of names: `FileTree.file?` is what the file holds that the
names lead to from the root.  A place that a path leads to holds what its names stand for
(`FilePlace.Reached`), because the directories it remembers are those of the tree.

So a node that is put at a place changes nothing but what stands at the place and below
it.  The directories above keep all other entries.
-/

namespace MarketRules

/-! ## Directories -/

namespace Directory

theorem lookup_set_self (name : RawText) (node : FileNode) (d : Directory) :
    (d.set name node).lookup name = some node := by
  induction d with
  | nil => rw [set, List.lookup_cons_self]
  | cons entry d ih =>
    obtain ⟨other, old⟩ := entry
    rw [set]
    split
    · rw [List.lookup_cons_self]
    · next ne =>
      rw [List.lookup_cons, beq_eq_false_iff_ne.mpr (Ne.symm ne)]
      exact ih

/-- Other names are looked up as before. -/
theorem lookup_set_of_ne {name other : RawText} (ne : other ≠ name) (node : FileNode)
    (d : Directory) : (d.set name node).lookup other = d.lookup other := by
  have different : (other == name) = false := beq_eq_false_iff_ne.mpr ne
  induction d with
  | nil => rw [set, List.lookup_cons, different]
  | cons entry d ih =>
    obtain ⟨first, old⟩ := entry
    rw [set]
    split
    · next same =>
      rw [List.lookup_cons, List.lookup_cons, same, different]
    · rw [List.lookup_cons, List.lookup_cons, ih]

end Directory

/-! ## Nodes -/

namespace FileNode

/-- What a file holds. -/
def content? : FileNode → Option RawText
  | file content => some content
  | directory _ => none

/-- Names are followed one list after the other. -/
theorem below?_append (node : FileNode) (names names' : List RawText) :
    node.below? (names ++ names') = (node.below? names).bind (·.below? names') := by
  induction names generalizing node with
  | nil => rfl
  | cons name names ih =>
    cases node with
    | file content => rfl
    | directory d =>
      rw [List.cons_append, below?, below?]
      cases d.lookup name with
      | none => rfl
      | some node => exact ih node

end FileNode

/-! ## Places -/

namespace FilePlace

/-- The names that lead to a place. -/
def names (p : FilePlace) : List RawText := (p.way.map Prod.fst).reverse

theorem names_cons (name : RawText) (d : Directory) (way : List (RawText × Directory))
    (node? node?' : Option FileNode) :
    names ⟨(name, d) :: way, node?⟩ = names ⟨way, node?'⟩ ++ [name] := by
  rw [names, List.map_cons, List.reverse_cons, names]

/-- Following a path from the root can lead to this place. -/
inductive Reached (root : FileNode) : FilePlace → Prop where
  | origin : Reached root ⟨[], some root⟩
  | child {way : List (RawText × Directory)} {d : Directory} (name : RawText)
      (above : Reached root ⟨way, some (.directory d)⟩) :
      Reached root ⟨(name, d) :: way, d.lookup name⟩

variable {root : FileNode} {p q : FilePlace}

/-- A place holds what its names stand for. -/
theorem Reached.below?_names (reached : p.Reached root) : root.below? p.names = p.node? := by
  induction reached with
  | origin => rfl
  | @child way d name above ih =>
    rw [names_cons name d way _ (some (.directory d)), FileNode.below?_append, ih,
      Option.bind_some, FileNode.below?]
    exact Option.bind_fun_some (d.lookup name)

/-- The place above a place of a tree is a place of the tree. -/
theorem Reached.parent (reached : p.Reached root) : p.parent.Reached root := by
  cases reached with
  | origin => exact .origin
  | child name above => exact above

theorem names_parent (p : FilePlace) : p.parent.names = p.names.dropLast := by
  obtain ⟨way, node?⟩ := p
  cases way with
  | nil => rfl
  | cons step way =>
    obtain ⟨name, d⟩ := step
    rw [names_cons name d way node? (some (.directory d)), List.dropLast_concat]
    rfl

/-- In a directory a name is skipped, leads up, is too long, or leads to what is there. -/
theorem step_of_directory {d : Directory} (holds : p.node? = some (.directory d)) (name : RawText) :
    p.step name =
      if Path.isIdle name then .ok p
      else if name = ".." then .ok p.parent
      else if maxNameLength < name.bytes.length then .error .tooLong
      else .ok ⟨(name, d) :: p.way, d.lookup name⟩ := by
  have found : p.directory = .ok d := by rw [directory, holds]
  rw [step, found]
  rfl

/-- Only a directory can be left, and one piece of a path leads nowhere, up or down. -/
theorem step_cases {name : RawText} (stepped : p.step name = .ok q) :
    ∃ d, p.node? = some (.directory d) ∧
      (Path.isIdle name = true ∧ q = p ∨
        Path.isIdle name = false ∧ name = ".." ∧ q = p.parent ∨
        Path.isIdle name = false ∧ name ≠ ".." ∧ name.bytes.length ≤ maxNameLength ∧
          q = ⟨(name, d) :: p.way, d.lookup name⟩) := by
  obtain ⟨d, holds⟩ : ∃ d, p.node? = some (.directory d) := by
    obtain ⟨d, found, -⟩ := exists_of_bind_eq_ok stepped
    rw [directory] at found
    split at found
    · cases found
    · cases found
    · next d' holds => exact ⟨d', holds⟩
  refine ⟨d, holds, ?_⟩
  rw [step_of_directory holds] at stepped
  split at stepped
  · next idle => exact .inl ⟨idle, (Except.ok.inj stepped).symm⟩
  · next busy =>
    have notIdle := Bool.eq_false_iff.mpr busy
    split at stepped
    · next up => exact .inr (.inl ⟨notIdle, up, (Except.ok.inj stepped).symm⟩)
    · next down =>
      split at stepped
      · cases stepped
      · next short =>
        exact .inr (.inr ⟨notIdle, down, Nat.le_of_not_lt short, (Except.ok.inj stepped).symm⟩)

/-- A step from a place of a tree leads to a place of the tree. -/
theorem Reached.step {name : RawText} (reached : p.Reached root) (stepped : p.step name = .ok q) :
    q.Reached root := by
  obtain ⟨d, holds, idle | up | down⟩ := step_cases stepped
  · exact idle.2 ▸ reached
  · exact up.2.2 ▸ reached.parent
  · obtain ⟨way, node?⟩ := p
    subst holds
    exact down.2.2.2 ▸ .child name reached

theorem Reached.foldlM {names : List RawText} (reached : p.Reached root)
    (run : names.foldlM FilePlace.step p = .ok q) : q.Reached root := by
  induction names generalizing p with
  | nil =>
    cases run
    exact reached
  | cons name names ih =>
    rw [List.foldlM_cons] at run
    cases stepped : p.step name with
    | error e =>
      rw [stepped] at run
      cases run
    | ok p' =>
      rw [stepped] at run
      exact ih (reached.step stepped) run

/-! ## Putting a node at a place -/

/-- What is put at a place is found below the names that lead there. -/
theorem below?_rootWith (node : FileNode) (p : FilePlace) (rest : List RawText) :
    (rootWith node p.way).below? (p.names ++ rest) = node.below? rest := by
  obtain ⟨way, node?⟩ := p
  induction way generalizing node node? rest with
  | nil => rfl
  | cons step way ih =>
    obtain ⟨name, d⟩ := step
    rw [names_cons name d way node? node?, List.append_assoc, List.singleton_append, rootWith, ih,
      FileNode.below?, Directory.lookup_set_self, Option.bind_some]

/-- Names that do not go through the place stand for what they stood for, directories
with other entries aside. -/
theorem Reached.map_below?_rootWith (reached : p.Reached root) (node : FileNode)
    {other : List RawText} (apart : ¬ p.names <+: other) :
    ((rootWith node p.way).below? other).map FileNode.content? =
      (root.below? other).map FileNode.content? := by
  induction reached generalizing node with
  | origin => exact absurd List.nil_prefix apart
  | @child way d name above ih =>
    rw [names_cons name d way _ (some (.directory d))] at apart
    by_cases through : names ⟨way, some (.directory d)⟩ <+: other
    · obtain ⟨rest, rfl⟩ := through
      have before := above.below?_names
      have after := below?_rootWith (.directory (d.set name node)) ⟨way, some (.directory d)⟩ rest
      rw [rootWith, after, FileNode.below?_append, before, Option.bind_some]
      cases rest with
      | nil => rfl
      | cons next rest =>
        have ne : next ≠ name := by
          rintro rfl
          exact apart ⟨rest, by rw [List.append_assoc, List.singleton_append]⟩
        rw [FileNode.below?, FileNode.below?, Directory.lookup_set_of_ne ne]
    · exact ih (.directory (d.set name node)) through

end FilePlace

/-! ## Files of a tree -/

namespace FileTree

/-- What the file holds that a list of names leads to from the root. -/
def file? (t : FileTree) (names : List RawText) : Option RawText :=
  (t.node? names).bind FileNode.content?

/-- The names lead to a directory. -/
def HasDirectory (t : FileTree) (names : List RawText) : Prop :=
  ∃ d, t.node? names = some (.directory d)

variable {t t' : FileTree} {p : FilePlace}

theorem follow_reached {path : Path} (followed : t.follow path = .ok p) : p.Reached t.root :=
  FilePlace.Reached.origin.foldlM followed

theorem file?_eq_of_map {names : List RawText}
    (same : (t'.node? names).map FileNode.content? = (t.node? names).map FileNode.content?) :
    t'.file? names = t.file? names := by
  have seen (node? : Option FileNode) :
      node?.bind FileNode.content? = (node?.map FileNode.content?).bind id := by
    cases node? <;> rfl
  rw [file?, file?, seen, seen, same]

theorem hasDirectory_iff_map {names : List RawText} :
    t.HasDirectory names ↔ (t.node? names).map FileNode.content? = some none := by
  constructor
  · rintro ⟨d, holds⟩
    rw [holds]
    rfl
  · intro shown
    obtain ⟨node, holds, noFile⟩ := Option.map_eq_some_iff.mp shown
    cases node with
    | file content => cases noFile
    | directory d => exact ⟨d, holds⟩

/-- Below the place where a node was put there is what the node has below it. -/
theorem node?_put_append (p : FilePlace) (node : FileNode) (rest : List RawText) :
    (t.put p node).node? (p.names ++ rest) = node.below? rest :=
  FilePlace.below?_rootWith node p rest

/-- A file that was put at a place is found there. -/
theorem file?_put_file (p : FilePlace) (content : RawText) :
    (t.put p (.file content)).file? p.names = some content := by
  rw [file?, ← List.append_nil p.names, node?_put_append]
  rfl

section

variable (reached : p.Reached t.root)
include reached

theorem node?_append_names (rest : List RawText) :
    t.node? (p.names ++ rest) = p.node?.bind (·.below? rest) := by
  rw [node?, FileNode.below?_append, reached.below?_names]

/-- Where no directory was, a new node takes no directory away. -/
theorem HasDirectory.put {names : List RawText} (hasDirectory : t.HasDirectory names)
    (free : ∀ d, p.node? ≠ some (.directory d)) (node : FileNode) :
    (t.put p node).HasDirectory names := by
  have apart : ¬ p.names <+: names := by
    rintro ⟨rest, rfl⟩
    obtain ⟨d, holds⟩ := hasDirectory
    rw [node?_append_names reached] at holds
    obtain ⟨below, there, holds⟩ := Option.bind_eq_some_iff.mp holds
    cases below with
    | directory d' => exact free d' there
    | file content =>
      cases rest with
      | nil => cases holds
      | cons name rest => cases holds
  rw [hasDirectory_iff_map] at hasDirectory ⊢
  rw [← hasDirectory]
  exact reached.map_below?_rootWith node apart

/-- A new directory brings no file and takes none away. -/
theorem file?_put_directory (missing : p.node? = none) (names : List RawText) :
    (t.put p (.directory [])).file? names = t.file? names := by
  by_cases through : p.names <+: names
  · obtain ⟨rest, rfl⟩ := through
    rw [file?, file?, node?_put_append, node?_append_names reached, missing]
    cases rest with
    | nil => rfl
    | cons name rest => rfl
  · exact file?_eq_of_map (reached.map_below?_rootWith _ through)

/-- Where no directory was, a new file changes no other file. -/
theorem file?_put_file_of_ne (free : ∀ d, p.node? ≠ some (.directory d)) (content : RawText)
    {names : List RawText} (ne : names ≠ p.names) :
    (t.put p (.file content)).file? names = t.file? names := by
  by_cases through : p.names <+: names
  · obtain ⟨rest, rfl⟩ := through
    rw [file?, file?, node?_put_append, node?_append_names reached]
    cases rest with
    | nil => exact absurd (List.append_nil p.names) ne
    | cons name rest =>
      cases holds : p.node? with
      | none => rfl
      | some node =>
        cases node with
        | file old => rfl
        | directory d => exact absurd holds (free d)
  · exact file?_eq_of_map (reached.map_below?_rootWith _ through)

end

end FileTree

end MarketRules
