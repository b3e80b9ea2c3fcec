import MarketRules.Calendar.DateText
import MarketRules.Csv.Records
import MarketRules.Market.Bar
import MarketRules.Number.Numeral

/-!
# Price tables

A table of prices has a header that names the columns `date`, `open`, `high`,
`low`, `close` and `volume`, in any order and any ASCII letter case.  Other
columns mean nothing.  Every record below it is a bar and has as many fields as
the header.  Blanks around a field mean nothing.

The records are read from top to bottom, and the first fault counts.  Within a
record the number of fields is judged first, then the date, then the numbers in
the order of the fields.
-/

namespace MarketRules

/-! ## Errors -/

/-- Why a text is not a price table. -/
inductive PriceTableError where
  /-- The header does not name a column. -/
  | missingColumn (name : String)
  /-- A record has another number of fields than the header. -/
  | fieldCount (record : Nat) (start : Csv.Mark) (found expected : Nat)
  /-- A date cannot be read.  `line` counts the records from the header on. -/
  | badDate (line : Nat) (text : String) (fault : DateError)
  /-- A number cannot be read. -/
  | badValue (line : Nat) (field : PriceField) (text : String) (fault : NumeralError)
deriving DecidableEq

def PriceTableError.message : PriceTableError → String
  | .missingColumn name => s!"missing {name} column"
  | .fieldCount record start found expected =>
    let place :=
      s!"record {decimal record} (line: {decimal start.line}, byte: {decimal start.byte})"
    s!"CSV parse error: CSV error: {place}: found record with {decimal found} fields, "
      ++ s!"but the previous record has {decimal expected} fields"
  | .badDate line text fault =>
    s!"line {decimal line}: invalid date '{text}': {fault.message}"
  | .badValue line field text fault =>
    s!"line {decimal line}: invalid {field.name} value '{text}': {fault.message}"

/-! ## Columns -/

/-- The places of the columns in a record. -/
structure Columns where
  /-- The column of the date. -/
  date : Nat
  /-- The column of each field. -/
  column : PriceField → Nat

/-- The fields of a record without the blanks around them. -/
def Csv.Record.cells (r : Csv.Record) : List String :=
  r.fields.map fun f => String.ofList (trim f)

/-- The first column with a name, in any ASCII letter case. -/
def findColumn (header : List String) (name : String) : Except PriceTableError Nat :=
  match header.findIdx? (sameIgnoringAsciiCase · name) with
  | some i => .ok i
  | none => .error (.missingColumn (String.ofList (name.toList.map Char.toLower)))

/-- Find all columns.  The first one that is missing, in the order date, open, high,
low, close, volume, is the fault. -/
def Columns.ofHeader (header : List String) : Except PriceTableError Columns := do
  let find (f : PriceField) := findColumn header f.name
  let date ← findColumn header "date"
  let opening ← find .opening
  let high ← find .high
  let low ← find .low
  let closing ← find .closing
  let volume ← find .volume
  return ⟨date, fun
    | .opening => opening
    | .high => high
    | .low => low
    | .closing => closing
    | .volume => volume⟩

/-! ## Bars -/

/-- The number of a field in a record. -/
def Columns.readValue (columns : Columns) (line : Nat) (cells : List String) (f : PriceField) :
    Except PriceTableError Binary64 :=
  let cell := cells.getD (columns.column f) ""
  (readNumeral cell.toList).mapError (.badValue line f cell)

/-- The bar of a record. -/
def Columns.readBar (columns : Columns) (line : Nat) (cells : List String) :
    Except PriceTableError Bar := do
  let cell := cells.getD columns.date ""
  let date ← (Date.read cell.toList).mapError (.badDate line cell)
  let opening ← columns.readValue line cells .opening
  let high ← columns.readValue line cells .high
  let low ← columns.readValue line cells .low
  let closing ← columns.readValue line cells .closing
  let volume ← columns.readValue line cells .volume
  return ⟨date, opening, high, low, closing, volume⟩

/-- The bars of the records below a header with `width` fields.  The header is record
zero and stands in the first line, so the record `index` is counted as the line
`index + 1`. -/
def Columns.readBars (columns : Columns) (width index : Nat) :
    List Csv.Record → Except PriceTableError (List Bar)
  | [] => .ok []
  | r :: rs => do
    if r.fields.length ≠ width then
      throw (.fieldCount index r.start r.fields.length width)
    let bar ← columns.readBar (index + 1) r.cells
    let bars ← columns.readBars width (index + 1) rs
    return bar :: bars
termination_by structural records => records

/-- The bars of a price table, in the order of the text. -/
def Bar.readTable (text : String) : Except PriceTableError (List Bar) :=
  match Csv.records text.toList with
  | [] => (Columns.ofHeader []).map fun _ => []
  | header :: rows => do
    let columns ← Columns.ofHeader header.cells
    columns.readBars header.fields.length 1 rows

end MarketRules
