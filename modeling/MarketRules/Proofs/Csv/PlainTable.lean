import MarketRules.Csv.Records

/-!
# Tables without quotation

A character is plain if it means itself wherever a field may stand.  A table of fields
with plain characters needs no quotation.  It is read as it was written, line by line, if
every line has a comma, since a line with a comma is never empty.

The reader is followed over one field, over a line and over the lines below it.  What it
holds in between is the record so far, in reverse order, and the invariant says which
record this is going to be (`exists_readFrom_line`).
-/

namespace MarketRules.Csv

/-! ## Plain tables -/

/-- Does the character stand for itself in a field that is not quoted, also at its start
and at the start of a table? -/
def isPlain (c : Char) : Bool := c != ',' && c != '"' && !isLineEnd c && c != '\ufeff'

/-- How a line ends. -/
inductive LineEnd where
  | lineFeed
  | returnAndFeed
deriving DecidableEq

/-- The characters of a line end. -/
def LineEnd.chars : LineEnd → List Char
  | .lineFeed => ['\n']
  | .returnAndFeed => ['\r', '\n']

/-- A table as it is written, with fields of some type. -/
structure Table (α : Type) where
  /-- The first line. -/
  header : List α
  /-- The other lines, each with the line end in front of it. -/
  rows : List (LineEnd × List α)
  /-- The line end behind the last line, if there is one. -/
  last : Option LineEnd

namespace Table

variable {α β : Type}

/-- The lines of a table. -/
def lines (t : Table α) : List (List α) := t.header :: t.rows.map Prod.snd

/-- The same table with other fields. -/
def map (f : α → β) (t : Table α) : Table β where
  header := t.header.map f
  rows := t.rows.map fun r => (r.1, r.2.map f)
  last := t.last

theorem lines_map (f : α → β) (t : Table α) : (t.map f).lines = t.lines.map (List.map f) := by
  simp [lines, map]

end Table

/-- The characters of a line. -/
def lineChars (fields : List (List Char)) : List Char := [','].intercalate fields

/-- The characters of the lines below another one. -/
def rowsChars (rows : List (LineEnd × List (List Char))) (last : Option LineEnd) : List Char :=
  rows.flatMap (fun r => r.1.chars ++ lineChars r.2) ++ last.elim [] LineEnd.chars

/-- The characters of a table. -/
def Table.chars (t : Table (List Char)) : List Char := lineChars t.header ++ rowsChars t.rows t.last

/-- A line that needs no quotation and is not empty. -/
structure IsPlainLine (fields : List (List Char)) : Prop where
  two_le_length : 2 ≤ fields.length
  plain : ∀ f ∈ fields, ∀ c ∈ f, isPlain c = true

theorem IsPlainLine.nonempty {fields : List (List Char)} (isPlainLine : IsPlainLine fields) :
    fields ≠ [] :=
  List.ne_nil_of_length_pos (Nat.lt_of_lt_of_le Nat.two_pos isPlainLine.two_le_length)

/-! ## What a character means -/

namespace Place

/-- A field that is not quoted can begin or go on here. -/
def IsOpen (place : Place) : Prop :=
  place = .recordStart ∨ place = .fieldStart ∨ place = .plain

/-- A record has begun, and its last field is not quoted. -/
def InRecord (place : Place) : Prop := place = .fieldStart ∨ place = .plain

variable {place : Place}

theorem InRecord.isOpen (inRecord : place.InRecord) : place.IsOpen := .inr inRecord

/-- A plain character is kept. -/
theorem IsOpen.meaning_plain (isOpen : place.IsOpen) {c : Char} (plain : isPlain c = true) :
    place.meaning c = .keep .plain := by
  simp only [isPlain, Bool.and_eq_true, bne_iff_ne, Bool.not_eq_true'] at plain
  obtain ⟨⟨⟨noComma, noMark⟩, noEnd⟩, -⟩ := plain
  rcases isOpen with rfl | rfl | rfl <;>
    simp [meaning, plainMeaning, noComma, noMark, noEnd]

theorem IsOpen.meaning_comma (isOpen : place.IsOpen) : place.meaning ',' = .endField := by
  rcases isOpen with rfl | rfl | rfl <;> rfl

theorem InRecord.meaning_lineFeed (inRecord : place.InRecord) :
    place.meaning '\n' = .endRecord := by
  rcases inRecord with rfl | rfl <;> rfl

theorem InRecord.meaning_return (inRecord : place.InRecord) :
    place.meaning '\r' = .endRecord := by
  rcases inRecord with rfl | rfl <;> rfl

end Place

/-! ## Reading a line -/

/-- The fields of a record of which the last field is `field` and `fields` are the others,
all in reverse order. -/
def pending (fields : List (List Char)) (field : List Char) : List (List Char) :=
  (field.reverse :: fields).reverse

section

variable {start here : Mark} {place next : Place} {fields : List (List Char)} {field : List Char}

theorem readFrom_keep {c : Char} (means : place.meaning c = .keep next) (cs : List Char) :
    readFrom start here place fields field (c :: cs) =
      readFrom start (here.after c) next fields (c :: field) cs := by
  rw [readFrom, means]

theorem readFrom_endField {c : Char} (means : place.meaning c = .endField) (cs : List Char) :
    readFrom start here place fields field (c :: cs) =
      readFrom start (here.after c) .fieldStart (field.reverse :: fields) [] cs := by
  rw [readFrom, means]

theorem readFrom_endRecord {c : Char} (means : place.meaning c = .endRecord) (cs : List Char) :
    readFrom start here place fields field (c :: cs) =
      ⟨start, pending fields field⟩ ::
        readFrom (here.after c) (here.after c) .recordStart [] [] cs := by
  rw [readFrom, means, pending]

theorem readFrom_nil (inRecord : place.InRecord) :
    readFrom start here place fields field [] = [⟨start, pending fields field⟩] := by
  rcases inRecord with rfl | rfl <;> rfl

variable (start here fields field)

/-- The plain characters of a field are collected, and the place stays open. -/
theorem exists_readFrom_field {cs : List Char} (plain : ∀ c ∈ cs, isPlain c = true)
    (rest : List Char) {place : Place} (isOpen : place.IsOpen) :
    ∃ here' place', place'.IsOpen ∧ (place.InRecord → place'.InRecord) ∧
      readFrom start here place fields field (cs ++ rest) =
        readFrom start here' place' fields (cs.reverse ++ field) rest := by
  induction cs generalizing here place field with
  | nil => exact ⟨here, place, isOpen, id, rfl⟩
  | cons c cs ih =>
    obtain ⟨here', place', isOpen', inRecord', run⟩ :=
      ih (here.after c) (c :: field) (fun d member => plain d (List.mem_cons_of_mem c member))
        (.inr (.inr rfl))
    refine ⟨here', place', isOpen', fun _ => inRecord' (.inr rfl), ?_⟩
    rw [List.cons_append, readFrom_keep (isOpen.meaning_plain (plain c List.mem_cons_self)), run,
      List.reverse_cons, List.append_assoc, List.singleton_append]

/-- The fields of a line become the last ones of the record, which goes on until the line
ends.  At the start of a record the line needs a comma, since an empty field is no record. -/
theorem exists_readFrom_line {line : List (List Char)} (nonempty : line ≠ [])
    (plain : ∀ f ∈ line, ∀ c ∈ f, isPlain c = true) (rest : List Char) {place : Place}
    (isOpen : place.IsOpen) (begins : place.InRecord ∨ 2 ≤ line.length) :
    ∃ here' place' fields' field', place'.InRecord ∧
      pending fields' field' = fields.reverse ++ line ∧
      readFrom start here place fields [] (lineChars line ++ rest) =
        readFrom start here' place' fields' field' rest := by
  induction line generalizing here place fields with
  | nil => exact absurd rfl nonempty
  | cons f fs ih =>
    have plainHead := plain f List.mem_cons_self
    cases fs with
    | nil =>
      have inRecord : place.InRecord := begins.resolve_right (by simp)
      obtain ⟨here', place', -, inRecord', run⟩ :=
        exists_readFrom_field start here fields [] plainHead rest isOpen
      refine ⟨here', place', fields, f.reverse ++ [], inRecord' inRecord, by simp [pending], ?_⟩
      rw [lineChars, List.intercalate_singleton, run]
    | cons g gs =>
      obtain ⟨here', place', isOpen', -, run⟩ :=
        exists_readFrom_field start here fields [] plainHead
          (',' :: (lineChars (g :: gs) ++ rest)) isOpen
      obtain ⟨here'', place'', fields', field', inRecord, record, run'⟩ :=
        ih (here'.after ',') (f :: fields) (List.cons_ne_nil g gs)
          (fun h member => plain h (List.mem_cons_of_mem f member))
          (Place.InRecord.isOpen (.inl rfl)) (.inl (.inl rfl))
      refine ⟨here'', place'', fields', field', inRecord, ?_, ?_⟩
      · rw [record, List.reverse_cons, List.append_assoc, List.singleton_append]
      · rw [← run', lineChars, List.intercalate_cons_cons, ← lineChars, List.append_assoc,
          List.append_assoc, List.singleton_append, run, readFrom_endField isOpen'.meaning_comma,
          List.append_nil, List.reverse_reverse]

/-- At the end of a line the record is complete, and the next one begins. -/
theorem exists_readFrom_lineEnd (inRecord : place.InRecord) (lineEnd : LineEnd)
    (rest : List Char) :
    ∃ start' here', readFrom start here place fields field (lineEnd.chars ++ rest) =
      ⟨start, pending fields field⟩ :: readFrom start' here' .recordStart [] [] rest := by
  cases lineEnd with
  | lineFeed => exact ⟨_, _, readFrom_endRecord inRecord.meaning_lineFeed rest⟩
  | returnAndFeed =>
    refine ⟨here.after '\r', (here.after '\r').after '\n', ?_⟩
    exact readFrom_endRecord inRecord.meaning_return ('\n' :: rest)

/-- Plain rows are read one record after the other, with their fields as they are. -/
theorem fields_readFrom_rows {rows : List (LineEnd × List (List Char))}
    (plain : ∀ r ∈ rows, IsPlainLine r.2) (last : Option LineEnd) {place : Place}
    (inRecord : place.InRecord) :
    (readFrom start here place fields field (rowsChars rows last)).map Record.fields =
      pending fields field :: rows.map Prod.snd := by
  induction rows generalizing start here fields field place with
  | nil =>
    cases last with
    | none =>
      rw [rowsChars, List.flatMap_nil, List.nil_append, Option.elim_none, readFrom_nil inRecord]
      rfl
    | some lineEnd =>
      obtain ⟨start', here', ended⟩ :=
        exists_readFrom_lineEnd start here fields field inRecord lineEnd []
      rw [List.append_nil] at ended
      rw [rowsChars, List.flatMap_nil, List.nil_append, Option.elim_some, ended]
      rfl
  | cons r rows ih =>
    obtain ⟨start', here', ended⟩ := exists_readFrom_lineEnd start here fields field inRecord r.1
      (lineChars r.2 ++ rowsChars rows last)
    have isPlainLine := plain r List.mem_cons_self
    obtain ⟨here'', place', fields', field', inRecord', record, run⟩ :=
      exists_readFrom_line start' here' [] isPlainLine.nonempty isPlainLine.plain
        (rowsChars rows last) (.inl rfl) (.inr isPlainLine.two_le_length)
    have chars : rowsChars (r :: rows) last =
        r.1.chars ++ (lineChars r.2 ++ rowsChars rows last) := by
      simp [rowsChars]
    have plainRows : ∀ r' ∈ rows, IsPlainLine r'.2 := fun r' member =>
      plain r' (List.mem_cons_of_mem r member)
    rw [chars, ended, run, List.map_cons, ih _ _ _ _ plainRows inRecord', record]
    rfl

end

/-! ## Reading a table -/

/-- Without a byte order mark the text is read from its first character. -/
theorem records_eq_readFrom {cs : List Char} (noMark : cs.head? ≠ some '\ufeff') :
    records cs = readFrom ⟨1, 0⟩ ⟨1, 0⟩ .recordStart [] [] cs := by
  unfold records
  split
  · exact absurd rfl noMark
  · rfl

/-- A plain line does not begin with a byte order mark. -/
theorem IsPlainLine.head?_ne {line : List (List Char)} (isPlainLine : IsPlainLine line)
    (rest : List Char) : (lineChars line ++ rest).head? ≠ some '\ufeff' := by
  obtain ⟨length, plain⟩ := isPlainLine
  match line, length with
  | [] :: g :: gs, _ =>
    rw [lineChars, List.intercalate_cons_cons]
    exact fun mark => absurd (Option.some.inj mark) (by decide)
  | (c :: cs) :: g :: gs, _ =>
    rw [lineChars, List.intercalate_cons_cons]
    intro mark
    have plainMark := plain _ List.mem_cons_self c List.mem_cons_self
    rw [Option.some.inj mark] at plainMark
    cases plainMark

/-- A table without quotation is read line by line. -/
theorem Table.fields_records {t : Table (List Char)} (plain : ∀ line ∈ t.lines, IsPlainLine line) :
    (records t.chars).map Record.fields = t.lines := by
  have plainHeader := plain t.header List.mem_cons_self
  have plainRows : ∀ r ∈ t.rows, IsPlainLine r.2 := fun r member =>
    plain r.2 (List.mem_cons_of_mem _ (List.mem_map_of_mem member))
  obtain ⟨here, place, fields, field, inRecord, record, run⟩ :=
    exists_readFrom_line ⟨1, 0⟩ ⟨1, 0⟩ [] plainHeader.nonempty plainHeader.plain
      (rowsChars t.rows t.last) (.inl rfl) (.inr plainHeader.two_le_length)
  rw [chars, records_eq_readFrom (plainHeader.head?_ne _), run,
    fields_readFrom_rows _ _ _ _ plainRows t.last inRecord, record]
  rfl

end MarketRules.Csv
