import MarketRules.Csv.PriceTable
import MarketRules.Proofs.Success

/-!
# The line of a faulty row

A price table counts its records and calls the number of a record its line.  That is the
line on which the record stands only if every line in front of it is a record.  Lines
without any character and line ends in quotation marks are not counted, and the place of the
record in the text is as many lines further down (`Bar.readTable_counts_records`).
-/

namespace MarketRules

namespace Csv

/-! ## Lines of a text -/

/-- Does the character end a line?  A line feed behind a carriage return belongs to the line
end that the carriage return is. -/
def endsLine (behindReturn : Bool) (c : Char) : Bool :=
  isLineEnd c && !(behindReturn && c == '\n')

/-- The number of lines that end in a text. -/
def lineEnds (behindReturn : Bool) : List Char → Nat
  | [] => 0
  | c :: cs => (if endsLine behindReturn c then 1 else 0) + lineEnds (c == '\r') cs

/-- The line on which a text goes on behind `front`, where the first line is line one. -/
def lineBehind (front : List Char) : Nat := lineEnds false front + 1

/-! ## How far the reading has come -/

/-- What has been read of a text. -/
structure Progress where
  place : Place
  /-- The number of records that have ended. -/
  records : Nat
  /-- The number of line ends that ended no record. -/
  idle : Nat
  /-- Was the last character a carriage return? -/
  behindReturn : Bool
deriving DecidableEq

namespace Progress

/-- Nothing has been read. -/
def initial : Progress := ⟨.recordStart, 0, 0, false⟩

/-- Read a character.  A line end is idle if no character of the record has been read, so
that the line is empty, and if it stands in quotation marks. -/
def step (p : Progress) (c : Char) : Progress where
  place :=
    match p.place.meaning c with
    | .skip place | .keep place => place
    | .endField => .fieldStart
    | .endRecord => .recordStart
  records := if p.place.meaning c = .endRecord then p.records + 1 else p.records
  idle :=
    if endsLine p.behindReturn c && (p.place = .recordStart || p.place = .quoted) then p.idle + 1
    else p.idle
  behindReturn := c == '\r'

/-- Read a text. -/
def ofText : List Char → Progress
  | '\ufeff' :: cs => cs.foldl step initial
  | cs => cs.foldl step initial

/-- Behind a carriage return no record is under way, or a quoted field is. -/
def Settled (p : Progress) : Prop :=
  p.behindReturn = true → p.place = .recordStart ∨ p.place = .quoted

end Progress

theorem isLineEnd_iff {c : Char} : isLineEnd c = true ↔ c = '\n' ∨ c = '\r' := by
  rw [isLineEnd, Bool.or_eq_true, beq_iff_eq, beq_iff_eq]

theorem plainMeaning_eq_endRecord_iff {c : Char} :
    plainMeaning c = .endRecord ↔ isLineEnd c = true := by
  unfold plainMeaning
  split
  · next comma =>
    subst comma
    decide
  · split
    · next lineEnd => simp [lineEnd]
    · next noEnd => simp [noEnd]

/-- A record ends where a line does, unless the line is empty or the line end is quoted. -/
theorem Place.meaning_eq_endRecord_iff (place : Place) {c : Char} :
    place.meaning c = .endRecord ↔
      isLineEnd c = true ∧ ¬ (place = .recordStart ∨ place = .quoted) := by
  by_cases lineEnd : isLineEnd c = true
  · rcases isLineEnd_iff.mp lineEnd with rfl | rfl <;> cases place <;> decide
  · have noRecord : plainMeaning c ≠ .endRecord := fun ends =>
      lineEnd (plainMeaning_eq_endRecord_iff.mp ends)
    have noMeaning : place.meaning c ≠ .endRecord := by
      cases place <;> unfold Place.meaning <;> dsimp only <;> repeat' split
      all_goals first | exact noRecord | nofun
    simp [lineEnd, noMeaning]

namespace Progress

variable {p : Progress}

theorem settled_step (c : Char) : (p.step c).Settled := by
  intro behindReturn
  obtain rfl : c = '\r' := eq_of_beq behindReturn
  obtain ⟨place, records, idle, behind⟩ := p
  cases place
  case quoted => exact .inr rfl
  all_goals exact .inl rfl

/-- Each line end is counted once, as the end of a record or as one that says nothing.  Behind
a carriage return a line feed ends no further line. -/
theorem counted_step (settled : p.Settled) (c : Char) :
    (p.step c).records + (p.step c).idle =
      p.records + p.idle + if endsLine p.behindReturn c then 1 else 0 := by
  have ends := p.place.meaning_eq_endRecord_iff (c := c)
  by_cases counts : endsLine p.behindReturn c = true
  · have lineEnd : isLineEnd c = true := (Bool.and_eq_true_iff.mp counts).1
    by_cases resting : p.place = .recordStart ∨ p.place = .quoted
    · simp [step, counts, ends, resting, Nat.add_assoc]
    · have moving : ¬ p.place = .recordStart ∧ ¬ p.place = .quoted := not_or.mp resting
      simp [step, counts, ends, lineEnd, moving, Nat.add_right_comm]
  · have noRecord : p.place.meaning c ≠ .endRecord := by
      intro ended
      obtain ⟨lineEnd, moving⟩ := ends.mp ended
      have returned : p.behindReturn = true := by
        simp only [endsLine, lineEnd, Bool.true_and, Bool.not_eq_true', Bool.not_eq_false,
          Bool.and_eq_true] at counts
        exact counts.1
      exact moving (settled returned)
    simp [step, counts, noRecord]

/-- Every line end ends a record or is idle. -/
theorem counted_foldl (cs : List Char) : ∀ {p : Progress}, p.Settled →
    (cs.foldl step p).records + (cs.foldl step p).idle =
      p.records + p.idle + lineEnds p.behindReturn cs := by
  induction cs with
  | nil => exact fun _ => rfl
  | cons c cs ih =>
    intro p settled
    rw [List.foldl_cons, ih (settled_step c), counted_step settled, lineEnds, Nat.add_assoc]
    rfl

/-- The line behind a text is one more than the records and the idle line ends in it. -/
theorem lineBehind_eq (front : List Char) :
    lineBehind front = (ofText front).records + 1 + (ofText front).idle := by
  have counted (cs : List Char) : lineEnds false cs =
      (cs.foldl step initial).records + (cs.foldl step initial).idle := by
    have whole := counted_foldl cs (p := initial) nofun
    rw [whole]
    exact (Nat.zero_add _).symm
  rw [lineBehind, Nat.add_right_comm]
  unfold ofText
  split
  · next cs =>
    have mark : lineEnds false ('\ufeff' :: cs) = lineEnds false cs := Nat.zero_add _
    rw [mark, counted]
  · rw [counted]

end Progress

/-! ## Where a record begins -/

/-- The record is read off `rest`, behind `index` records in `front`. -/
def Record.Begins (r : Record) (index : Nat) (front rest : List Char) : Prop :=
  (Progress.ofText front).place = .recordStart ∧ (Progress.ofText front).records = index ∧
    (∃ c cs, rest = c :: cs ∧ isLineEnd c = false) ∧
    ∃ start here rs, readFrom start here .recordStart [] [] rest = r :: rs

section

variable {start here : Mark} {p : Progress} {fields : List (List Char)} {field : List Char}
  {before after : List Record} {r : Record} {c : Char} {cs : List Char}

/-- At the end of the text at most the record that was begun is left. -/
theorem ne_nil_of_readFrom_nil
    (read : readFrom start here p.place fields field [] = before ++ r :: after) : before = [] ∧
      p.place ≠ .recordStart := by
  rw [readFrom] at read
  split at read
  · simp at read
  · next underWay =>
    refine ⟨?_, underWay⟩
    cases before with
    | nil => rfl
    | cons b bs => simp at read

/-- A character that is read before the first character of a record leads to a place where the
record is still to be read.  In front of the first record only line ends are read, and they
are left out. -/
theorem exists_readFrom_step
    (read : readFrom start here p.place fields field (c :: cs) = before ++ r :: after)
    (atStart : before = [] → p.place = .recordStart ∧ fields = [] ∧ field = [])
    (lineEnd : before = [] → isLineEnd c = true) :
    ∃ start' here' fields' field' before',
      readFrom start' here' (p.step c).place fields' field' cs = before' ++ r :: after ∧
      (before' = [] → (p.step c).place = .recordStart ∧ fields' = [] ∧ field' = []) ∧
      (p.step c).records + before'.length = p.records + before.length := by
  have skipped (noRecord : before = []) : p.place.meaning c = .skip .recordStart := by
    rw [(atStart noRecord).1]
    exact if_pos (lineEnd noRecord)
  rw [readFrom] at read
  cases means : p.place.meaning c with
  | skip place =>
    rw [means] at read
    have next : (p.step c).place = place := by simp [Progress.step, means]
    refine ⟨_, _, _, _, before, next.symm ▸ read, fun noRecord => ?_, ?_⟩
    · have same := means.symm.trans (skipped noRecord)
      rw [next, (Meaning.skip.inj same)]
      exact ⟨rfl, (atStart noRecord).2⟩
    · simp [Progress.step, means]
  | keep place =>
    rw [means] at read
    have next : (p.step c).place = place := by simp [Progress.step, means]
    refine ⟨_, _, _, _, before, next.symm ▸ read, fun noRecord => ?_, ?_⟩
    · cases means.symm.trans (skipped noRecord)
    · simp [Progress.step, means]
  | endField =>
    rw [means] at read
    have next : (p.step c).place = .fieldStart := by simp [Progress.step, means]
    refine ⟨_, _, _, _, before, next.symm ▸ read, fun noRecord => ?_, ?_⟩
    · cases means.symm.trans (skipped noRecord)
    · simp [Progress.step, means]
  | endRecord =>
    rw [means] at read
    have next : (p.step c).place = .recordStart := by simp [Progress.step, means]
    cases before with
    | nil => cases means.symm.trans (skipped rfl)
    | cons b bs =>
      obtain ⟨-, later⟩ := List.cons.inj read
      refine ⟨_, _, _, _, bs, next.symm ▸ later, fun _ => ⟨next, rfl, rfl⟩, ?_⟩
      simp [Progress.step, means]
      omega

end

/-- Every record begins somewhere in the text, behind the records before it. -/
theorem exists_begin {cs : List Char} {r : Record} {after : List Record} :
    ∀ {start here : Mark} {p : Progress} {fields : List (List Char)} {field : List Char}
      {before : List Record}, readFrom start here p.place fields field cs = before ++ r :: after →
      (before = [] → p.place = .recordStart ∧ fields = [] ∧ field = []) →
      ∃ front rest, cs = front ++ rest ∧ (front.foldl Progress.step p).place = .recordStart ∧
        (front.foldl Progress.step p).records = p.records + before.length ∧
        (∃ c cs, rest = c :: cs ∧ isLineEnd c = false) ∧
        ∃ start here, readFrom start here .recordStart [] [] rest = r :: after := by
  induction cs with
  | nil =>
    intro start here p fields field before read atStart
    obtain ⟨noRecord, underWay⟩ := ne_nil_of_readFrom_nil read
    exact absurd (atStart noRecord).1 underWay
  | cons c cs ih =>
    intro start here p fields field before read atStart
    by_cases begins : before = [] ∧ isLineEnd c = false
    · obtain ⟨rfl, notEnd⟩ := begins
      obtain ⟨place, rfl, rfl⟩ := atStart rfl
      rw [place] at read
      exact ⟨[], c :: cs, rfl, place, rfl, ⟨c, cs, rfl, notEnd⟩, start, here, read⟩
    · have lineEnd (noRecord : before = []) : isLineEnd c = true := by simpa [noRecord] using begins
      obtain ⟨_, _, _, _, before', read', atStart', count⟩ :=
        exists_readFrom_step read atStart lineEnd
      obtain ⟨front, rest, rfl, place, records, begun⟩ := ih read' atStart'
      exact ⟨c :: front, rest, rfl, place, records.trans count, begun⟩

/-- A record begins behind as many records as stand in front of it. -/
theorem exists_begins {cs : List Char} {before after : List Record} {r : Record}
    (listed : records cs = before ++ r :: after) :
    ∃ front rest, cs = front ++ rest ∧ r.Begins before.length front rest := by
  have begins {origin here : Mark} {body : List Char}
      (read : readFrom origin here .recordStart [] [] body = before ++ r :: after) :=
    exists_begin (p := .initial) read fun _ => ⟨rfl, rfl, rfl⟩
  unfold records at listed
  dsimp only at listed
  split at listed
  · obtain ⟨front, rest, rfl, place, count, begun, start, here, read⟩ := begins listed
    exact ⟨'\ufeff' :: front, rest, rfl, place, count.trans (Nat.zero_add _), begun, start, here,
      after, read⟩
  · next noMark =>
    obtain ⟨front, rest, rfl, place, count, begun, start, here, read⟩ := begins listed
    have unmarked : Progress.ofText front = front.foldl Progress.step .initial := by
      unfold Progress.ofText
      split
      · next cs => exact absurd rfl (noMark (cs ++ rest))
      · rfl
    rw [← unmarked] at place count
    exact ⟨front, rest, rfl, place, count.trans (Nat.zero_add _), begun, start, here, after, read⟩

end Csv

/-! ## The faults of a row -/

/-- The error of a computation that fails. -/
def errorsOf {ε α : Type} : Except ε α → List ε
  | .error e => [e]
  | .ok _ => []

theorem errorsOf_eq_nil_iff {ε α : Type} {x : Except ε α} : errorsOf x = [] ↔ ∃ a, x = .ok a := by
  cases x <;> simp [errorsOf]

theorem errorsOf_mapError {ε ε' α : Type} (f : ε → ε') (x : Except ε α) :
    errorsOf (x.mapError f) = (errorsOf x).map f := by
  cases x <;> rfl

/-- The line that an error names. -/
def PriceTableError.line? : PriceTableError → Option Nat
  | .badDate line .. => some line
  | .badValue line .. => some line
  | _ => none

/-- An error that names a line says so at the beginning of its message. -/
theorem PriceTableError.message_of_line {e : PriceTableError} {line : Nat}
    (named : e.line? = some line) :
    ∃ detail : String, e.message = "line " ++ decimal line ++ ": " ++ detail := by
  cases e with
  | missingColumn | fieldCount => cases named
  | badDate n text fault =>
    obtain rfl : n = line := Option.some.inj named
    have split : ": invalid date '" = ": " ++ "invalid date '" := rfl
    refine ⟨"invalid date '" ++ text ++ "': " ++ fault.message, ?_⟩
    show "line " ++ decimal n ++ ": invalid date '" ++ text ++ "': " ++ fault.message = _
    rw [split]
    simp only [String.append_assoc]
  | badValue n field text fault =>
    obtain rfl : n = line := Option.some.inj named
    have split : ": invalid " = ": " ++ "invalid " := rfl
    refine ⟨"invalid " ++ field.name ++ " value '" ++ text ++ "': " ++ fault.message, ?_⟩
    show "line " ++ decimal n ++ ": invalid " ++ field.name ++ " value '" ++ text ++ "': " ++
      fault.message = _
    rw [split]
    simp only [String.append_assoc]

namespace Columns

variable (columns : Columns) (line : Nat) (cells : List String)

/-- The faults of a row: its date, if it is none, and then each of its fields that is no
number, in their order. -/
def faults : List PriceTableError :=
  let date := cells.getD columns.date ""
  errorsOf ((Date.read date.toList).mapError (.badDate line date)) ++
    PriceField.all.flatMap fun f => errorsOf (columns.readValue line cells f)

variable {columns line cells}

/-- The first error of two steps is that of the first step, if it has one. -/
theorem head?_errorsOf_bind {α β : Type} (x : Except PriceTableError α)
    (f : α → Except PriceTableError β) (later : List PriceTableError)
    (rest : ∀ a, (errorsOf (f a)).head? = later.head?) :
    (errorsOf (x >>= f)).head? = (errorsOf x ++ later).head? := by
  cases x with
  | error e => rfl
  | ok a => exact rest a

/-- A row is refused for the first of its faults. -/
theorem head?_faults :
    (errorsOf (columns.readBar line cells)).head? = (columns.faults line cells).head? := by
  refine head?_errorsOf_bind _ _ _ fun date => ?_
  refine head?_errorsOf_bind _ _ _ fun opening => ?_
  refine head?_errorsOf_bind _ _ _ fun high => ?_
  refine head?_errorsOf_bind _ _ _ fun low => ?_
  refine head?_errorsOf_bind _ _ _ fun closing => ?_
  exact head?_errorsOf_bind _ _ [] fun volume => rfl

theorem line?_of_mem_faults {e : PriceTableError} (member : e ∈ columns.faults line cells) :
    e.line? = some line := by
  rw [faults, errorsOf_mapError] at member
  rcases List.mem_append.mp member with date | value
  · obtain ⟨fault, -, rfl⟩ := List.mem_map.mp date
    rfl
  · obtain ⟨f, -, inField⟩ := List.mem_flatMap.mp value
    rw [readValue, errorsOf_mapError] at inField
    obtain ⟨fault, -, rfl⟩ := List.mem_map.mp inField
    rfl

variable (columns cells) in
/-- The date of the row is a date, and its fields are numbers. -/
def Readable : Prop :=
  (∃ d, Date.read (cells.getD columns.date "").toList = .ok d) ∧
    ∀ f, ∃ x, readNumeral (cells.getD (columns.column f) "").toList = .ok x

/-- A row without faults is a row whose cells can all be read. -/
theorem faults_eq_nil_iff : columns.faults line cells = [] ↔ columns.Readable cells := by
  have all (f : PriceField) : f ∈ PriceField.all := by cases f <;> decide
  simp only [faults, readValue, errorsOf_mapError, List.append_eq_nil_iff, List.map_eq_nil_iff,
    List.flatMap_eq_nil_iff, errorsOf_eq_nil_iff, all, true_implies, Readable]

/-- A row that gives a bar can be read. -/
theorem readable_of_readBar {bar : Bar} (read : columns.readBar line cells = .ok bar) :
    columns.Readable cells := by
  have noFault : columns.faults line cells = [] := by
    rw [← List.head?_eq_none_iff, ← head?_faults, read]
    rfl
  exact faults_eq_nil_iff.mp noFault

/-- A table that is refused for a date or a number is refused for the first row with such a
fault, and for the first of its faults.  The line that the error names counts the rows. -/
theorem exists_of_readBars {width : Nat} {rows : List Csv.Record} {e : PriceTableError} :
    ∀ {index : Nat}, columns.readBars width index rows = .error e → e.line? = some line →
      ∃ before r after, rows = before ++ r :: after ∧
        (∀ b ∈ before, b.fields.length = width ∧ columns.Readable b.cells) ∧
        r.fields.length = width ∧ line = index + before.length + 1 ∧
        (columns.faults line r.cells).head? = some e := by
  induction rows with
  | nil =>
    intro index failed
    cases failed
  | cons r rs ih =>
    intro index failed named
    rw [readBars] at failed
    by_cases width_ne : r.fields.length ≠ width
    · rw [if_pos width_ne] at failed
      cases failed
      cases named
    · rw [if_neg width_ne] at failed
      have sameWidth : r.fields.length = width := Decidable.not_not.mp width_ne
      cases bar : columns.readBar (index + 1) r.cells with
      | error e' =>
        rw [bar] at failed
        obtain rfl : e' = e := Except.error.inj failed
        have first : (errorsOf (columns.readBar (index + 1) r.cells)).head? =
            (columns.faults (index + 1) r.cells).head? := head?_faults
        rw [bar] at first
        have member := List.mem_of_head? first.symm
        obtain rfl := Option.some.inj ((line?_of_mem_faults member).symm.trans named)
        exact ⟨[], r, rs, rfl, by simp, sameWidth, rfl, first.symm⟩
      | ok b =>
        cases bars : columns.readBars width (index + 1) rs with
        | ok bs =>
          rw [bar, bars] at failed
          cases failed
        | error e' =>
          rw [bar, bars] at failed
          obtain rfl : e' = e := Except.error.inj failed
          obtain ⟨before, r', after, rfl, sound, sameWidth', count, first⟩ := ih bars named
          refine ⟨r :: before, r', after, rfl, ?_, sameWidth', ?_, first⟩
          · exact List.forall_mem_cons.mpr ⟨⟨sameWidth, readable_of_readBar bar⟩, sound⟩
          · rw [List.length_cons]
            omega

end Columns

/-! ## The line of the table -/

/-- No error of the computation names a line. -/
def NamesNoLine {α : Type} (x : Except PriceTableError α) : Prop :=
  ∀ e, x = .error e → e.line? = none

theorem NamesNoLine.bind {α β : Type} {x : Except PriceTableError α}
    {f : α → Except PriceTableError β} (first : NamesNoLine x) (later : ∀ a, NamesNoLine (f a)) :
    NamesNoLine (x >>= f) := by
  cases x with
  | error e =>
    rintro e' ⟨⟩
    exact first e rfl
  | ok a => exact later a

theorem namesNoLine_findColumn (header : List String) (name : String) :
    NamesNoLine (findColumn header name) := by
  intro e failed
  unfold findColumn at failed
  split at failed <;> cases failed
  rfl

theorem Columns.namesNoLine_ofHeader (header : List String) : NamesNoLine (ofHeader header) :=
  (namesNoLine_findColumn header _).bind fun _ => (namesNoLine_findColumn header _).bind fun _ =>
    (namesNoLine_findColumn header _).bind fun _ => (namesNoLine_findColumn header _).bind fun _ =>
      (namesNoLine_findColumn header _).bind fun _ =>
        (namesNoLine_findColumn header _).bind fun _ => nofun

namespace Bar

/-- A table that is refused for a date or a number is refused for its first such row, in
which the date is judged before the fields, and the fields are judged in their order.  The
error names the number of the record, and the record begins as many lines further down as
there are empty lines and quoted line ends in front of it. -/
theorem readTable_counts_records {text : String} {e : PriceTableError} {line : Nat}
    (failed : readTable text = .error e) (named : e.line? = some line) :
    (∃ detail : String, e.message = "line " ++ decimal line ++ ": " ++ detail) ∧
    ∃ header before r after columns,
      Csv.records text.toList = header :: (before ++ r :: after) ∧
      Columns.ofHeader header.cells = .ok columns ∧
      (∀ b ∈ before, b.fields.length = header.fields.length ∧ columns.Readable b.cells) ∧
      r.fields.length = header.fields.length ∧ line = before.length + 2 ∧
      (columns.faults line r.cells).head? = some e ∧
      ∃ front rest, text.toList = front ++ rest ∧ r.Begins (before.length + 1) front rest ∧
        Csv.lineBehind front = line + (Csv.Progress.ofText front).idle := by
  refine ⟨e.message_of_line named, ?_⟩
  unfold readTable at failed
  split at failed
  · cases header : Columns.ofHeader [] with
    | ok columns =>
      rw [header] at failed
      cases failed
    | error e' =>
      rw [header] at failed
      cases failed
      cases (Columns.namesNoLine_ofHeader _ _ header).symm.trans named
  · next header rows listed =>
    obtain ⟨columns, found, failed⟩ : ∃ columns, Columns.ofHeader header.cells = .ok columns ∧
        columns.readBars header.fields.length 1 rows = .error e := by
      cases found : Columns.ofHeader header.cells with
      | ok columns =>
        rw [found] at failed
        exact ⟨columns, rfl, failed⟩
      | error e' =>
        rw [found] at failed
        cases failed
        cases (Columns.namesNoLine_ofHeader _ _ found).symm.trans named
    obtain ⟨before, r, after, rfl, sound, sameWidth, count, first⟩ :=
      Columns.exists_of_readBars failed named
    have listed' : Csv.records text.toList = (header :: before) ++ r :: after := listed
    obtain ⟨front, rest, chars, begins⟩ := Csv.exists_begins listed'
    refine ⟨header, before, r, after, columns, listed, found, sound, sameWidth, by omega, first,
      front, rest, chars, begins, ?_⟩
    have records : (Csv.Progress.ofText front).records = before.length + 1 := begins.2.1
    rw [Csv.Progress.lineBehind_eq, records, count, Nat.add_comm 1]

/-- Two cells of the third line are wrong, and the line is named. -/
theorem readTable_counts_records_second_row :
    ∃ e, readTable "date,open,high,low,close,volume\n2024-01-02,1,1,1,1,1\n2024-01-03,1,y,1,x,1\n" =
        .error e ∧ e.line? = some 3 ∧
      ∃ (r : Csv.Record) (front rest : List Char), r.Begins 2 front rest ∧
        Csv.lineBehind front = 3 + (Csv.Progress.ofText front).idle := by
  have failed : readTable
      "date,open,high,low,close,volume\n2024-01-02,1,1,1,1,1\n2024-01-03,1,y,1,x,1\n" =
      .error (.badValue 3 .high "y" .malformed) := by rfl
  obtain ⟨-, header, before, r, after, columns, listed, -, -, -, count, -, front, rest, -, begins,
    stands⟩ := readTable_counts_records failed rfl
  have second : before.length + 1 = 2 := by omega
  exact ⟨_, failed, rfl, r, front, rest, second ▸ begins, stands⟩

/-- A record behind an empty line stands on line three and is reported on line two. -/
theorem readTable_ignores_empty_line :
    readTable "date,open,high,low,close,volume\n\nx,1,1,1,1,1\n" =
        .error (.badDate 2 "x" .invalid) ∧
      ∃ (r : Csv.Record) (front rest : String),
        "date,open,high,low,close,volume\n\nx,1,1,1,1,1\n" = front ++ rest ∧
          r.Begins 1 front.toList rest.toList ∧ Csv.lineBehind front.toList = 3 :=
  ⟨by rfl, ⟨⟨1, 0⟩, ["x", "1", "1", "1", "1", "1"].map String.toList⟩,
    "date,open,high,low,close,volume\n\n", "x,1,1,1,1,1\n", rfl,
    ⟨rfl, rfl, ⟨'x', _, rfl, rfl⟩, ⟨1, 0⟩, ⟨1, 0⟩, [], rfl⟩, rfl⟩

end Bar

end MarketRules
