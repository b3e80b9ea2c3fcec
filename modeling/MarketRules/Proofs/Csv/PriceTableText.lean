import Mathlib.Data.List.Forall2
import MarketRules.Csv.PriceTable
import MarketRules.Proofs.Calendar.DateReading
import MarketRules.Proofs.Csv.PlainTable
import MarketRules.Proofs.Number.ReadBack

/-!
# Price tables read back

Bars can be written as a price table in many ways: with the columns in any order and their
names in any letter case, with other columns between them, with blanks around every field
and with either line end.  `Prints` says that a table is such a text of the bars, and
the reader finds these bars in it, in their order (`Bar.readTable_text`).

The columns are searched in the header, so the place of a column is where the header has
it.  Every line below the header has the columns at the same places.
-/

namespace MarketRules

/-! ## Cells -/

namespace Csv

/-- A field as it is written, with blanks around its content. -/
structure Cell where
  before : List Char
  content : List Char
  after : List Char
  /-- What stands around the content are blanks, and none of them ends the line. -/
  blank : ∀ c ∈ before ++ after, isBlank c = true ∧ isLineEnd c = false

namespace Cell

/-- The characters of a cell. -/
def chars (cell : Cell) : List Char := cell.before ++ cell.content ++ cell.after

/-- What is read of a cell. -/
def text (cell : Cell) : String := String.ofList (trim cell.content)

/-- The padding of a cell is cut off with the blanks of its content. -/
theorem trim_chars (cell : Cell) : trim cell.chars = trim cell.content :=
  trim_append_append (fun c member => (cell.blank c member).1) cell.content

end Cell

/-- The cells that are read are the texts of the cells that were written. -/
theorem Record.cells_eq {r : Record} {line : List Cell} (fields : r.fields = line.map Cell.chars) :
    r.cells = line.map Cell.text := by
  rw [cells, fields, List.map_map]
  refine List.map_congr_left fun cell _ => ?_
  rw [Function.comp_apply, cell.trim_chars, Cell.text]

/-! ## Plain characters -/

theorem isPlain_of_isBlank {c : Char} (blank : isBlank c = true) (noEnd : isLineEnd c = false) :
    isPlain c = true := by
  have noComma : c ≠ ',' := by
    rintro rfl
    cases blank
  have noMark : c ≠ '"' := by
    rintro rfl
    cases blank
  have noOrderMark : c ≠ '\ufeff' := by
    rintro rfl
    cases blank
  simp [isPlain, noComma, noMark, noOrderMark, noEnd]

/-- A cell is plain if its content is, since its padding has no line end. -/
theorem Cell.plain_chars {cell : Cell} (plain : ∀ c ∈ cell.content, isPlain c = true) :
    ∀ c ∈ cell.chars, isPlain c = true := by
  intro c member
  rw [chars, List.append_assoc, List.mem_append, List.mem_append] at member
  rcases member with before | content | after
  · have blank := cell.blank c (List.mem_append_left _ before)
    exact isPlain_of_isBlank blank.1 blank.2
  · exact plain c content
  · have blank := cell.blank c (List.mem_append_right _ after)
    exact isPlain_of_isBlank blank.1 blank.2

/-- Every character is a printed one of ASCII that stands behind the comma.  Dates, numerals
and names are such texts. -/
def IsSolid (cs : List Char) : Prop := ∀ c ∈ cs, 45 ≤ c.toNat ∧ c.toNat ≤ 126

theorem IsSolid.plain {cs : List Char} (solid : IsSolid cs) : ∀ c ∈ cs, isPlain c = true := by
  intro c member
  have bounds := solid c member
  have ne (d : Char) (out : d.toNat < 45 ∨ 126 < d.toNat) : c ≠ d := by
    rintro rfl
    omega
  simp [isPlain, isLineEnd, ne ',' (by decide), ne '"' (by decide), ne '\n' (by decide),
    ne '\r' (by decide), ne '\ufeff' (by decide)]

/-- A solid text has nothing that is cut off. -/
theorem IsSolid.trim_eq {cs : List Char} (solid : IsSolid cs) : trim cs = cs :=
  trim_eq_self_of_forall_mem fun c member => by
    have bounds := solid c member
    exact isBlank_eq_false_of_between (by omega) bounds.2

end Csv

/-- Numbers and dates are solid. -/
theorem isSolid_of_numeric {cs : List Char}
    (numeric : ∀ c ∈ cs, c.isDigit = true ∨ c = '-' ∨ c = '.') : Csv.IsSolid cs := by
  intro c member
  rcases numeric c member with digit | rfl | rfl
  · have bounds := toNat_of_isDigit digit
    omega
  · decide
  · decide

theorem Date.isSolid_chars {d : Date} (plain : 0 ≤ d.year ∧ d.year ≤ 9999) :
    Csv.IsSolid d.chars := by
  refine isSolid_of_numeric fun c member => ?_
  rw [chars, yearChars, if_pos plain] at member
  simp only [List.mem_append, List.mem_cons] at member
  rcases member with (year | rfl | month) | rfl | day
  · exact .inl (isDigit_of_mem_paddedDigits year)
  · exact .inr (.inl rfl)
  · exact .inl (isDigit_of_mem_paddedDigits month)
  · exact .inr (.inl rfl)
  · exact .inl (isDigit_of_mem_paddedDigits day)

theorem Binary64.isSolid_plainChars {x : Binary64} (finite : x.isFinite = true) :
    Csv.IsSolid x.plainChars := by
  obtain ⟨negative, p, written, -⟩ := exists_plainChars_eq finite
  refine isSolid_of_numeric fun c member => ?_
  rw [written, List.mem_append] at member
  rcases member with minus | numeral
  · cases negative with
    | false => cases minus
    | true => exact .inr (.inl (List.mem_singleton.mp minus))
  · exact (p.numeric_chars c numeral).imp_right .inr

/-! ## Columns -/

/-- A column that every price table has. -/
inductive PriceColumn where
  | date
  | value (field : PriceField)
deriving DecidableEq

namespace PriceColumn

/-- The columns in the order of the fields of a bar. -/
def all : List PriceColumn := .date :: PriceField.all.map .value

theorem mem_all (k : PriceColumn) : k ∈ all := by
  rcases k with _ | f
  · decide
  · cases f <;> decide

instance (p : PriceColumn → Prop) [DecidablePred p] : Decidable (∀ k, p k) :=
  decidable_of_iff (∀ k ∈ all, p k) ⟨fun holds k => holds k k.mem_all, fun holds k _ => holds k⟩

/-- The name of a column. -/
def name : PriceColumn → String
  | date => "date"
  | value f => f.name

/-- How a bar is written in a column. -/
def shown (b : Bar) : PriceColumn → List Char
  | date => b.date.chars
  | value f => (b.value f).plainChars

/-- The names of columns differ in any letter case. -/
theorem sameIgnoringAsciiCase_name (k k' : PriceColumn) :
    sameIgnoringAsciiCase k.name k'.name = (k == k') := by
  rcases k with _ | f <;> rcases k' with _ | f'
  · rfl
  · cases f' <;> decide
  · cases f <;> decide
  · cases f <;> cases f' <;> decide

/-- The cell is the heading of a column, or of another column than those of a price
table. -/
def IsHeading : Option PriceColumn → Csv.Cell → Prop
  | some k, cell => sameIgnoringAsciiCase (String.ofList cell.content) k.name = true
  | none, cell => (∀ c ∈ cell.content, Csv.isPlain c = true) ∧
      ∀ k : PriceColumn, sameIgnoringAsciiCase cell.text k.name = false

instance (cell : Csv.Cell) : Decidable (∀ c ∈ cell.content, Csv.isPlain c = true) :=
  decidable_of_iff (cell.content.all Csv.isPlain = true) List.all_eq_true

instance : DecidableRel IsHeading
  | some k, _ => inferInstanceAs (Decidable (sameIgnoringAsciiCase _ k.name = true))
  | none, _ => inferInstanceAs (Decidable (_ ∧ _))

/-- The cell shows a bar in a column, or anything in another column than those of a price
table. -/
def IsEntry (b : Bar) : Option PriceColumn → Csv.Cell → Prop
  | some k, cell => cell.content = k.shown b
  | none, cell => ∀ c ∈ cell.content, Csv.isPlain c = true

instance (b : Bar) : DecidableRel (IsEntry b)
  | some k, cell => inferInstanceAs (Decidable (cell.content = k.shown b))
  | none, cell => inferInstanceAs (Decidable (∀ c ∈ cell.content, Csv.isPlain c = true))

end PriceColumn

/-- The table shows the bars in these columns, which `none` stands for if they are no columns
of a price table. -/
structure Csv.Table.Prints (t : Csv.Table Csv.Cell) (columns : List (Option PriceColumn))
    (bars : List Bar) : Prop where
  /-- Every column of a price table is there. -/
  complete : ∀ k, some k ∈ columns
  /-- The first line names the columns. -/
  header : List.Forall₂ PriceColumn.IsHeading columns t.header
  /-- Every other line shows a bar. -/
  rows : List.Forall₂ (fun b r => List.Forall₂ (PriceColumn.IsEntry b) columns r.2) bars t.rows

/-- A bar that can be read back from a text: its date has a year of four digits and its
numbers are finite. -/
structure Bar.Writable (b : Bar) : Prop where
  year : 0 ≤ b.date.year ∧ b.date.year ≤ 9999
  finite : ∀ f, (b.value f).isFinite = true

/-! ## What the cells say -/

theorem toNat_of_toLower {c : Char} (letter : 97 ≤ c.toLower.toNat ∧ c.toLower.toNat ≤ 122) :
    65 ≤ c.toNat ∧ c.toNat ≤ 122 := by
  by_cases capital : c.isUpper = true
  · have bounds := toNat_of_isUpper capital
    omega
  · have same : c.toLower = c := dif_neg fun upper => capital (decide_eq_true upper)
    rw [same] at letter
    omega

/-- The name of a column is solid in any letter case. -/
theorem PriceColumn.isSolid_of_same {cs : List Char} {k : PriceColumn}
    (same : sameIgnoringAsciiCase (String.ofList cs) k.name = true) : Csv.IsSolid cs := by
  have letters : (k.name.toList.map Char.toLower).all
      (fun c => 97 ≤ c.toNat ∧ c.toNat ≤ 122) = true := by
    rcases k with _ | f
    · decide
    · cases f <;> decide
  intro c member
  have lowered : c.toLower ∈ k.name.toList.map Char.toLower := by
    rw [← eq_of_beq same, String.toList_ofList]
    exact List.mem_map_of_mem member
  have bounds := toNat_of_toLower (of_decide_eq_true (List.all_eq_true.mp letters _ lowered))
  omega

/-- What a bar shows in a column is solid. -/
theorem Bar.Writable.isSolid_shown {b : Bar} (writable : b.Writable) (k : PriceColumn) :
    Csv.IsSolid (k.shown b) := by
  cases k with
  | date => exact Date.isSolid_chars writable.year
  | value f => exact Binary64.isSolid_plainChars (writable.finite f)

namespace PriceColumn

variable {cell : Csv.Cell} {b : Bar} {column : Option PriceColumn} {k : PriceColumn}

theorem IsHeading.plain_chars (heading : IsHeading column cell) :
    ∀ c ∈ cell.chars, Csv.isPlain c = true := by
  cases column with
  | none => exact Csv.Cell.plain_chars heading.1
  | some k => exact Csv.Cell.plain_chars (isSolid_of_same heading).plain

/-- A heading agrees with the name of its own column and no other. -/
theorem IsHeading.same_eq (heading : IsHeading column cell) (k : PriceColumn) :
    sameIgnoringAsciiCase cell.text k.name = (column == some k) := by
  cases column with
  | none => exact heading.2 k
  | some k' =>
    have named : sameIgnoringAsciiCase (String.ofList cell.content) k'.name = true := heading
    have lower : cell.content.map Char.toLower = k'.name.toList.map Char.toLower := by
      rw [← eq_of_beq named, String.toList_ofList]
    rw [Csv.Cell.text, (isSolid_of_same named).trim_eq, sameIgnoringAsciiCase,
      String.toList_ofList, lower, ← sameIgnoringAsciiCase, sameIgnoringAsciiCase_name]
    rfl

theorem IsEntry.plain_chars (writable : b.Writable) (entry : IsEntry b column cell) :
    ∀ c ∈ cell.chars, Csv.isPlain c = true := by
  cases column with
  | none => exact Csv.Cell.plain_chars entry
  | some k =>
    have content : cell.content = k.shown b := entry
    refine Csv.Cell.plain_chars ?_
    rw [content]
    exact (writable.isSolid_shown k).plain

/-- The cell of a bar in a column reads as what the bar shows there. -/
theorem IsEntry.text_eq (writable : b.Writable) (entry : IsEntry b (some k) cell) :
    cell.text = String.ofList (k.shown b) := by
  have content : cell.content = k.shown b := entry
  rw [Csv.Cell.text, content, (writable.isSolid_shown k).trim_eq]

end PriceColumn

/-! ## Reading the header -/

section

variable {columns : List (Option PriceColumn)}

/-- The places of the columns in a line. -/
def Columns.ofOrder (columns : List (Option PriceColumn)) : Columns where
  date := columns.idxOf (some .date)
  column f := columns.idxOf (some (.value f))

/-- Every column is found where it stands in the header. -/
theorem findColumn_eq {header : List Csv.Cell}
    (headings : List.Forall₂ PriceColumn.IsHeading columns header) {k : PriceColumn}
    (member : some k ∈ columns) :
    findColumn (header.map Csv.Cell.text) k.name = .ok (columns.idxOf (some k)) := by
  have found : (header.map Csv.Cell.text).findIdx? (sameIgnoringAsciiCase · k.name) =
      columns.findIdx? (· == some k) := by
    clear member
    induction headings with
    | nil => rfl
    | cons head _ ih =>
      rw [List.map_cons, List.findIdx?_cons, List.findIdx?_cons, head.same_eq, ih]
  have place : columns.findIdx? (· == some k) = some (columns.idxOf (some k)) :=
    List.findIdx?_eq_some_iff_findIdx_eq.mpr ⟨List.idxOf_lt_length_iff.mpr member, rfl⟩
  rw [findColumn, found, place]

/-- A header in which every column has its heading gives the places of the columns. -/
theorem Columns.ofHeader_eq {header : List Csv.Cell}
    (headings : List.Forall₂ PriceColumn.IsHeading columns header)
    (complete : ∀ k, some k ∈ columns) :
    Columns.ofHeader (header.map Csv.Cell.text) = .ok (.ofOrder columns) := by
  have found (k : PriceColumn) := findColumn_eq headings (complete k)
  have date := found .date
  have value (f : PriceField) := found (.value f)
  rw [PriceColumn.name] at date
  simp only [PriceColumn.name] at value
  simp only [ofHeader, date, value, bind, Except.bind, pure, Except.pure]
  congr 2
  funext f
  cases f <;> rfl

/-! ## Reading a bar -/

variable {b : Bar} {line : List Csv.Cell}

theorem getD_text_idxOf (writable : b.Writable)
    (entries : List.Forall₂ (PriceColumn.IsEntry b) columns line) {k : PriceColumn}
    (member : some k ∈ columns) :
    (line.map Csv.Cell.text).getD (columns.idxOf (some k)) "" = String.ofList (k.shown b) := by
  induction entries with
  | nil => cases member
  | @cons column cell _ _ head _ ih =>
    by_cases same : column = some k
    · subst same
      rw [List.idxOf_cons_self, List.map_cons, List.getD_cons_zero, head.text_eq writable]
    · rw [List.idxOf_cons_ne _ same, List.map_cons, List.getD_cons_succ]
      exact ih ((List.mem_cons.mp member).resolve_left (Ne.symm same))

/-- A row that shows a bar is read as this bar. -/
theorem Columns.readBar_eq (writable : b.Writable) (complete : ∀ k, some k ∈ columns)
    (entries : List.Forall₂ (PriceColumn.IsEntry b) columns line) (number : Nat) :
    (Columns.ofOrder columns).readBar number (line.map Csv.Cell.text) = .ok b := by
  have value (f : PriceField) :
      (Columns.ofOrder columns).readValue number (line.map Csv.Cell.text) f = .ok (b.value f) := by
    have cell := getD_text_idxOf writable entries (complete (.value f))
    rw [readValue, ofOrder, cell, String.toList_ofList, PriceColumn.shown,
      Binary64.readNumeral_plainChars (writable.finite f)]
    rfl
  have date := getD_text_idxOf writable entries (complete .date)
  rw [readBar, ofOrder]
  simp only
  rw [date, String.toList_ofList, PriceColumn.shown, Date.read_chars writable.year, ← ofOrder]
  simp only [value, bind, Except.bind, Except.mapError, pure, Except.pure]
  rfl

end

/-! ## Reading a table -/

/-- Rows that show bars are read as these bars. -/
theorem Columns.readBars_eq {columns : List (Option PriceColumn)} {bars : List Bar}
    {rows : List (Csv.LineEnd × List Csv.Cell)} {records : List Csv.Record}
    (writable : ∀ b ∈ bars, b.Writable) (complete : ∀ k, some k ∈ columns)
    (entries : List.Forall₂ (fun b r => List.Forall₂ (PriceColumn.IsEntry b) columns r.2) bars rows)
    (fields : records.map Csv.Record.fields = rows.map fun r => r.2.map Csv.Cell.chars)
    (number : Nat) :
    (Columns.ofOrder columns).readBars columns.length number records = .ok bars := by
  induction entries generalizing records number with
  | nil =>
    rw [List.map_eq_nil_iff.mp fields]
    rfl
  | cons line _ ih =>
    obtain ⟨r, rs, rfl, first, others⟩ := List.map_eq_cons_iff.mp fields
    have width : r.fields.length = columns.length := by
      rw [first, List.length_map, line.length_eq]
    have bar := readBar_eq (writable _ List.mem_cons_self) complete line (number + 1)
    have bars := ih (fun b member => writable b (List.mem_cons_of_mem _ member)) others (number + 1)
    rw [← Csv.Record.cells_eq first] at bar
    simp only [readBars, width, ne_eq, not_true_eq_false, if_false, bar, bars, bind, Except.bind,
      pure, Except.pure]

theorem exists_of_mem_right {α β : Type} {R : α → β → Prop} {xs : List α} {ys : List β}
    (related : List.Forall₂ R xs ys) {y : β} (member : y ∈ ys) : ∃ x ∈ xs, R x y := by
  induction related with
  | nil => cases member
  | @cons x' y' _ _ head _ ih =>
    rcases List.mem_cons.mp member with rfl | behind
    · exact ⟨x', List.mem_cons_self, head⟩
    · obtain ⟨x, inside, holds⟩ := ih behind
      exact ⟨x, List.mem_cons_of_mem x' inside, holds⟩

theorem two_le_length_of_complete {columns : List (Option PriceColumn)}
    (complete : ∀ k, some k ∈ columns) : 2 ≤ columns.length := by
  match columns with
  | [] => exact absurd (complete .date) List.not_mem_nil
  | [column] =>
    have date := List.mem_singleton.mp (complete .date)
    have opening := List.mem_singleton.mp (complete (.value .opening))
    rw [← date] at opening
    cases opening
  | _ :: _ :: rest => exact Nat.le_add_left 2 rest.length

/-- No line of a printed table needs quotation. -/
theorem Csv.Table.Prints.isPlainLine {t : Csv.Table Csv.Cell} {columns : List (Option PriceColumn)}
    {bars : List Bar} (prints : t.Prints columns bars) (writable : ∀ b ∈ bars, b.Writable) :
    ∀ line ∈ t.lines, IsPlainLine (line.map Cell.chars) := by
  have plainLine {R : Option PriceColumn → Cell → Prop} {line : List Cell}
      (related : List.Forall₂ R columns line)
      (plain : ∀ {column cell}, R column cell → ∀ c ∈ cell.chars, isPlain c = true) :
      IsPlainLine (line.map Cell.chars) := by
    constructor
    · rw [List.length_map, ← related.length_eq]
      exact two_le_length_of_complete prints.complete
    · intro f member
      obtain ⟨cell, inLine, rfl⟩ := List.mem_map.mp member
      obtain ⟨column, -, holds⟩ := exists_of_mem_right related inLine
      exact plain holds
  intro line member
  rcases List.mem_cons.mp member with rfl | below
  · exact plainLine prints.header PriceColumn.IsHeading.plain_chars
  · obtain ⟨r, inRows, rfl⟩ := List.mem_map.mp below
    obtain ⟨b, inBars, entries⟩ := exists_of_mem_right prints.rows inRows
    exact plainLine entries (PriceColumn.IsEntry.plain_chars (writable b inBars))

/-- However bars are written as a price table, the same bars are read from it. -/
theorem Bar.readTable_text {t : Csv.Table Csv.Cell} {columns : List (Option PriceColumn)}
    {bars : List Bar} (prints : t.Prints columns bars) (writable : ∀ b ∈ bars, b.Writable) :
    Bar.readTable (String.ofList (t.map Csv.Cell.chars).chars) = .ok bars := by
  have plain : ∀ line ∈ (t.map Csv.Cell.chars).lines, Csv.IsPlainLine line := by
    intro line member
    rw [Csv.Table.lines_map] at member
    obtain ⟨cells, inTable, rfl⟩ := List.mem_map.mp member
    exact prints.isPlainLine writable cells inTable
  have fields := Csv.Table.fields_records plain
  rw [Csv.Table.lines_map] at fields
  obtain ⟨header, rows, read, first, others⟩ := List.map_eq_cons_iff.mp fields
  rw [List.map_map] at others
  have width : header.fields.length = columns.length := by
    rw [first, List.length_map, prints.header.length_eq]
  have found := Columns.ofHeader_eq prints.header prints.complete
  rw [← Csv.Record.cells_eq first] at found
  have bars := Columns.readBars_eq writable prints.complete prints.rows others 1
  rw [readTable, String.toList_ofList, read]
  simp only [found, width, bars, bind, Except.bind]

/-- A cell with texts for its parts. -/
def Csv.Cell.ofTexts (before content after : String)
    (blank :
      (before.toList ++ after.toList).all (fun c => isBlank c ∧ isLineEnd c = false) = true) :
    Cell where
  before := before.toList
  content := content.toList
  after := after.toList
  blank c member := of_decide_eq_true (List.all_eq_true.mp blank c member)

/-- The columns of `notedTable`. -/
def notedColumns : List (Option PriceColumn) :=
  [some (.value .closing), none, some .date, some (.value .opening), some (.value .high),
    some (.value .low), some (.value .volume)]

/-- The bar in `notedTable`. -/
def notedBar : Bar := ⟨⟨2024, 2, 29, by decide⟩, 10, .ofRatio false 25 2, 9, 11, 1000⟩

/-- A table with notes, the columns in another order, blanks and both line ends. -/
def notedTable : Csv.Table Csv.Cell where
  header := [.ofTexts "" "Close" " " (by decide), .ofTexts " " "note" "" (by decide),
    .ofTexts "" "DATE" "" (by decide), .ofTexts "" "open" "" (by decide),
    .ofTexts "" "high" "" (by decide), .ofTexts "\t" "LOW" "" (by decide),
    .ofTexts "" "volume" "" (by decide)]
  rows := [(.returnAndFeed, [.ofTexts "" "11" "" (by decide), .ofTexts "" "ok" "" (by decide),
    .ofTexts " " "2024-02-29" " " (by decide), .ofTexts "" "10" "" (by decide),
    .ofTexts "" "12.5" "" (by decide), .ofTexts "" "9" "" (by decide),
    .ofTexts "" "1000" "" (by decide)])]
  last := some .lineFeed

/-- One bar, with the columns out of order, a note among them and blanks around cells. -/
theorem Bar.readTable_notedTable :
    String.ofList (notedTable.map Csv.Cell.chars).chars =
        "Close , note,DATE,open,high,\tLOW,volume\r\n11,ok, 2024-02-29 ,10,12.5,9,1000\n" ∧
      Bar.readTable (String.ofList (notedTable.map Csv.Cell.chars).chars) = .ok [notedBar] := by
  have prints : notedTable.Prints notedColumns [notedBar] :=
    ⟨by decide, by decide, by decide +kernel⟩
  have writable : ∀ b ∈ [notedBar], b.Writable :=
    List.forall_mem_singleton.mpr ⟨by decide, fun f => by cases f <;> decide +kernel⟩
  exact ⟨by decide, Bar.readTable_text prints writable⟩

end MarketRules
