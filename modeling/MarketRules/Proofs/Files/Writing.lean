import MarketRules.Proofs.Files.Places
import MarketRules.Proofs.Text.Decoding

/-!
# What writing changes

Writing a file that succeeds changes one file, and that is the one its path leads to
afterwards.  Making a directory changes no file, and neither does an operation that
fails.  `FileStore.save` makes the directories above a file before it writes the file, so
either it succeeds and one file is changed, or all files are as they were.
-/

namespace MarketRules

namespace FilePlace

variable {p p' q : FilePlace}

/-- What a piece of a path does to the names depends on the names only. -/
theorem exists_step {name : RawText} (names : p'.names = p.names)
    (directories : ∀ d, p.node? = some (.directory d) → ∃ d', p'.node? = some (.directory d'))
    (stepped : p.step name = .ok q) : ∃ q', p'.step name = .ok q' ∧ q'.names = q.names := by
  obtain ⟨d, holds, led⟩ := step_cases stepped
  obtain ⟨d', holds'⟩ := directories d holds
  rw [step_of_directory holds']
  rcases led with ⟨idle, rfl⟩ | ⟨busy, up, rfl⟩ | ⟨busy, down, short, rfl⟩
  · exact ⟨p', if_pos idle, names⟩
  · rw [if_neg (Bool.eq_false_iff.mp busy), if_pos up]
    exact ⟨p'.parent, rfl, by rw [names_parent, names_parent, names]⟩
  · rw [if_neg (Bool.eq_false_iff.mp busy), if_neg down, if_neg (Nat.not_lt.mpr short)]
    refine ⟨_, rfl, ?_⟩
    rw [names_cons name d' p'.way _ p'.node?, names_cons name d p.way _ p.node?]
    exact congrArg (· ++ [name]) names

end FilePlace

namespace FileTree

variable {t t' t'' : FileTree}

/-! ## Trees with the same files -/

/-- The same names lead to the same files. -/
def SameFiles (t t' : FileTree) : Prop := ∀ names, t'.file? names = t.file? names

theorem SameFiles.refl (t : FileTree) : t.SameFiles t := fun _ => rfl

theorem SameFiles.trans (first : t.SameFiles t') (second : t'.SameFiles t'') : t.SameFiles t'' :=
  fun names => (second names).trans (first names)

/-- The names that a path leads to. -/
def names? (t : FileTree) (path : RawText) : Except FileError (List RawText) := do
  return (← t.follow (← Path.read path)).names

/-- After a text was written to a file it is read from the path, and all files but the one
that the path leads to are as they were. -/
def Wrote (t : FileTree) (path : RawText) (text : String) (t' : FileTree) : Prop :=
  t'.read path = .ok text ∧ ∃ names, t'.names? path = .ok names ∧
    t'.file? names = some (.ofText text) ∧ ∀ other, other ≠ names → t'.file? other = t.file? other

/-- Changes to directories in front of a write do not matter to what it has written. -/
theorem SameFiles.wrote {path : RawText} {text : String} (same : t.SameFiles t')
    (wrote : t'.Wrote path text t'') : t.Wrote path text t'' := by
  obtain ⟨read, names, leads, written, others⟩ := wrote
  exact ⟨read, names, leads, written, fun other ne => (others other ne).trans (same other)⟩

theorem names?_eq_ok {path : RawText} {p : Path} {place : FilePlace}
    (isPath : Path.read path = .ok p) (followed : t.follow p = .ok place) :
    t.names? path = .ok place.names := by
  rw [names?, isPath]
  show (t.follow p >>= fun place => pure place.names) = _
  rw [followed]
  rfl

/-- The file at the place that a path leads to is the file that is found by its names. -/
theorem file?_names {p : Path} {place : FilePlace} (followed : t.follow p = .ok place) :
    t.file? place.names = place.node?.bind FileNode.content? := by
  rw [file?, node?, (follow_reached followed).below?_names]

/-- A text is read from the file that the path leads to, if the file holds its encoding. -/
theorem read_eq_ok_iff {path : RawText} {text : String} :
    t.read path = .ok text ↔
      ∃ names, t.names? path = .ok names ∧ t.file? names = some (.ofText text) := by
  constructor
  · intro read
    obtain ⟨p, isPath, read⟩ := exists_of_bind_eq_ok read
    obtain ⟨place, followed, read⟩ := exists_of_bind_eq_ok read
    refine ⟨place.names, names?_eq_ok isPath followed, ?_⟩
    rw [file?_names followed]
    split at read
    · cases read
    · cases read
    · next content holds =>
      split at read
      · cases read
      · next decoded =>
        cases read
        rw [holds, ← RawText.text?_eq_some_iff.mp decoded]
        rfl
  · rintro ⟨names, leads, holds⟩
    obtain ⟨p, isPath, leads⟩ := exists_of_bind_eq_ok leads
    obtain ⟨place, followed, leads⟩ := exists_of_bind_eq_ok leads
    cases leads
    rw [file?_names followed] at holds
    obtain ⟨node, there, content⟩ := Option.bind_eq_some_iff.mp holds
    cases node with
    | directory d => cases content
    | file old =>
      cases content
      simp only [FileTree.read, isPath, followed, there, RawText.text?_ofText, bind, Except.bind,
        pure, Except.pure]

/-! ## Following a path in another tree -/

/-- A walk of names can be repeated where the same directories are, and leads to the same
names. -/
theorem exists_foldlM {names : List RawText} {p p' q : FilePlace}
    (directories : ∀ names, t.HasDirectory names → t'.HasDirectory names)
    (reached : p.Reached t.root) (reached' : p'.Reached t'.root) (same : p'.names = p.names)
    (run : names.foldlM FilePlace.step p = .ok q) :
    ∃ q', names.foldlM FilePlace.step p' = .ok q' ∧ q'.names = q.names := by
  induction names generalizing p p' with
  | nil =>
    cases run
    exact ⟨p', rfl, same⟩
  | cons name names ih =>
    rw [List.foldlM_cons] at run
    obtain ⟨next, stepped, run⟩ := exists_of_bind_eq_ok run
    have stays (d : Directory) (holds : p.node? = some (.directory d)) :
        ∃ d', p'.node? = some (.directory d') := by
      rw [← reached.below?_names] at holds
      rw [← reached'.below?_names, same]
      exact directories p.names ⟨d, holds⟩
    obtain ⟨next', stepped', same'⟩ := FilePlace.exists_step same stays stepped
    obtain ⟨q', run', names'⟩ := ih (reached.step stepped) (reached'.step stepped') same' run
    refine ⟨q', ?_, names'⟩
    rw [List.foldlM_cons, stepped']
    exact run'

/-- A path leads to the same names in a tree that has all the directories. -/
theorem exists_follow {path : Path} {p : FilePlace}
    (directories : ∀ names, t.HasDirectory names → t'.HasDirectory names)
    (current : t'.current = t.current) (followed : t.follow path = .ok p) :
    ∃ p', t'.follow path = .ok p' ∧ p'.names = p.names := by
  rw [follow, current]
  exact exists_foldlM directories .origin .origin rfl followed

/-! ## Operations -/

/-- A path is followed to its last name by one more step. -/
theorem follow_append {names : List RawText} {name : RawText} {place next : FilePlace}
    (named : name ≠ "") (followed : t.follow ⟨names⟩ = .ok place)
    (stepped : place.step name = .ok next) : t.follow ⟨names ++ [name]⟩ = .ok next := by
  have absolute : (⟨names ++ [name]⟩ : Path).absolute = (⟨names⟩ : Path).absolute := by
    cases names with
    | nil => simpa [Path.absolute] using named
    | cons first names => rfl
  rw [follow] at followed ⊢
  rw [absolute, ← List.append_assoc, List.foldlM_append, followed]
  show [name].foldlM FilePlace.step place = .ok next
  rw [List.foldlM_cons, stepped]
  rfl

/-- Behind the last name of a path there are no separators if its last piece is not
empty. -/
theorem names_eq_of_dropWhile {names above : List RawText} {name : RawText}
    (cut : (names.reverse.dropWhile fun name : RawText => name = "") = name :: above)
    (noSeparator : ¬ names.getLast? = some "") : name ≠ "" ∧ names = above.reverse ++ [name] := by
  rcases List.eq_nil_or_concat names with rfl | ⟨front, last, rfl⟩
  · cases cut
  · rw [List.concat_eq_append] at cut noSeparator ⊢
    rw [List.getLast?_concat] at noSeparator
    have named : last ≠ "" := fun empty => noSeparator (congrArg some empty)
    rw [List.reverse_append, List.reverse_singleton, List.singleton_append, List.dropWhile_cons,
      decide_eq_false named] at cut
    obtain ⟨rfl, rfl⟩ := List.cons.inj cut
    exact ⟨named, by rw [List.reverse_reverse]⟩

/-- A file is written at the place that its path leads to, where no directory is. -/
theorem write_cases {path : RawText} {text : String} (wrote : t.write path text = .ok t') :
    ∃ p place, Path.read path = .ok p ∧ t.follow p = .ok place ∧
      (∀ d, place.node? ≠ some (.directory d)) ∧ t' = t.put place (.file (.ofText text)) := by
  obtain ⟨p, isPath, wrote⟩ := exists_of_bind_eq_ok wrote
  simp only at wrote
  split at wrote
  · cases wrote
  · next name above names =>
    obtain ⟨place, followed, wrote⟩ := exists_of_bind_eq_ok wrote
    obtain ⟨d, -, wrote⟩ := exists_of_bind_eq_ok wrote
    split at wrote
    · cases wrote
    · next noSeparator =>
      obtain ⟨next, stepped, wrote⟩ := exists_of_bind_eq_ok wrote
      obtain ⟨named, spelled⟩ := names_eq_of_dropWhile names noSeparator
      refine ⟨p, next, isPath, ?_, ?_⟩
      · have whole := follow_append named followed stepped
        rw [← spelled] at whole
        exact whole
      · split at wrote
        · cases wrote
        · next free =>
          cases wrote
          exact ⟨free, rfl⟩

/-- A write that succeeds has written the file at its path, and no other. -/
theorem write_wrote {path : RawText} {text : String} (written : t.write path text = .ok t') :
    t.Wrote path text t' := by
  obtain ⟨p, place, isPath, followed, free, rfl⟩ := write_cases written
  have reached := follow_reached followed
  have directories (names : List RawText) (hasDirectory : t.HasDirectory names) :
      (t.put place (.file (.ofText text))).HasDirectory names :=
    hasDirectory.put reached free (.file (.ofText text))
  obtain ⟨place', followed', names⟩ := exists_follow directories rfl followed
  have leads : (t.put place (.file (.ofText text))).names? path = .ok place.names := by
    rw [names?_eq_ok isPath followed', names]
  have written := file?_put_file (t := t) place (.ofText text)
  exact ⟨read_eq_ok_iff.mpr ⟨_, leads, written⟩, place.names, leads, written,
    fun other ne => file?_put_file_of_ne reached free (.ofText text) ne⟩

/-- A new directory has no files, and all others stay. -/
theorem makeDirectory_sameFiles {path : RawText} (made : t.makeDirectory path = .ok t') :
    t.SameFiles t' := by
  obtain ⟨p, isPath, made⟩ := exists_of_bind_eq_ok made
  obtain ⟨place, followed, made⟩ := exists_of_bind_eq_ok made
  split at made
  · cases made
    exact .refl t
  · cases made
  · next missing =>
    cases made
    exact file?_put_directory (follow_reached followed) missing

/-! ## Running on a tree -/

theorem bind_apply {α β : Type} (x : StateM FileTree α) (f : α → StateM FileTree β) (t : FileTree) :
    (x >>= f) t = f (x t).1 (x t).2 := rfl

/-- A change that fails leaves the tree as it was. -/
theorem change_cases (f : FileTree → Except FileError FileTree) (t : FileTree) :
    (∃ t', f t = .ok t' ∧ change f t = (.ok (), t')) ∨ ∃ e, change f t = (.error e, t) := by
  rw [change]
  cases f t with
  | ok t' => exact .inl ⟨t', rfl, rfl⟩
  | error e => exact .inr ⟨e, rfl⟩

theorem store_makeDirectory_sameFiles (path : RawText) (t : FileTree) :
    t.SameFiles (store.makeDirectory path t).2 := by
  show t.SameFiles (change (·.makeDirectory path) t).2
  rcases change_cases (·.makeDirectory path) t with ⟨t', made, run⟩ | ⟨e, run⟩
  · rw [run]
    exact makeDirectory_sameFiles made
  · rw [run]
    exact .refl t

/-- Making directories changes no file, also if those above are missing and are made first. -/
theorem makeDirectories_sameFiles (names : List RawText) (t : FileTree) :
    t.SameFiles (store.makeDirectories names t).2 := by
  induction names generalizing t with
  | nil => exact .refl t
  | cons name above ih =>
    rw [FileStore.makeDirectories]
    split
    · exact ih t
    · have made := store_makeDirectory_sameFiles (Path.raw ⟨(name :: above).reverse⟩) t
      rw [bind_apply]
      generalize store.makeDirectory (Path.raw ⟨(name :: above).reverse⟩) t = run at made ⊢
      obtain ⟨result, t'⟩ := run
      rcases result with e | ⟨⟩
      · cases e with
        | missing =>
          have madeAbove := made.trans (ih t')
          show t.SameFiles ((store.makeDirectories above >>= _) t').2
          rw [bind_apply]
          generalize store.makeDirectories above t' = run at madeAbove ⊢
          obtain ⟨result, t''⟩ := run
          cases result with
          | error e => exact madeAbove
          | ok _ => exact madeAbove.trans (store_makeDirectory_sameFiles _ t'')
        | _ => exact made
      · exact made

/-- Either a file is saved and no other file is changed, or no file is changed. -/
theorem save_cases (path : RawText) (text : String) (t : FileTree) :
    (∃ t', store.save path text t = (.ok (), t') ∧ t.Wrote path text t') ∨
      ∃ e t', store.save path text t = (.error e, t') ∧ t.SameFiles t' := by
  have made := makeDirectories_sameFiles (Path.ofRaw path).parent.names.reverse t
  rw [FileStore.save, bind_apply]
  generalize store.makeDirectories (Path.ofRaw path).parent.names.reverse t = run at made ⊢
  obtain ⟨result, t'⟩ := run
  cases result with
  | error e => exact .inr ⟨e, t', rfl, made⟩
  | ok _ =>
    rcases change_cases (·.write path text) t' with ⟨t'', written, run⟩ | ⟨e, run⟩
    · exact .inl ⟨t'', run, made.wrote (write_wrote written)⟩
    · exact .inr ⟨e, t', run, made⟩

end FileTree

end MarketRules
