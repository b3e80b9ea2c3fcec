/-!
# Comma-separated records

A table is written one record a line, with commas between the fields.  A line
ends at a line feed, a carriage return, or both.  Lines without any character are
no records.

A field that begins with a quotation mark is quoted.  Commas and line ends are
ordinary characters in it, and a quotation mark is written twice.  Behind the
closing mark the field goes on as if it had not been quoted.  A mark inside a
field that is not quoted is an ordinary character.

A record remembers the place where the line before it ended.
-/

namespace MarketRules.Csv

/-- A place in a text. -/
structure Mark where
  /-- The number of the line, counted by line feeds from one. -/
  line : Nat
  /-- The number of bytes in front of it. -/
  byte : Nat
deriving DecidableEq

/-- The place behind a character. -/
def Mark.after (m : Mark) (c : Char) : Mark where
  line := if c = '\n' then m.line + 1 else m.line
  byte := m.byte + c.utf8Size

/-- A record of the table. -/
structure Record where
  /-- The place behind the last character of the record before this one. -/
  start : Mark
  fields : List (List Char)
deriving DecidableEq

/-- The part of a record that is being read. -/
inductive Place where
  /-- No character of the record has been read. -/
  | recordStart
  /-- No character of the field has been read. -/
  | fieldStart
  /-- A field that is not quoted. -/
  | plain
  /-- A quoted field. -/
  | quoted
  /-- Behind a quotation mark in a quoted field. -/
  | mark
deriving DecidableEq

/-- Does the character end a line? -/
def isLineEnd (c : Char) : Bool := c == '\n' || c == '\r'

/-- What a character means at a place. -/
inductive Meaning where
  /-- It is left out, and the reading goes on at another place. -/
  | skip (place : Place)
  /-- It belongs to the field. -/
  | keep (place : Place)
  /-- It ends the field. -/
  | endField
  /-- It ends the record. -/
  | endRecord
deriving DecidableEq

/-- What a character means where a quotation mark is an ordinary character. -/
def plainMeaning (c : Char) : Meaning :=
  if c = ',' then .endField else if isLineEnd c then .endRecord else .keep .plain

/-- What a character means. -/
def Place.meaning (place : Place) (c : Char) : Meaning :=
  match place with
  | .recordStart =>
    if isLineEnd c then .skip .recordStart
    else if c = '"' then .skip .quoted else plainMeaning c
  | .fieldStart => if c = '"' then .skip .quoted else plainMeaning c
  | .plain => plainMeaning c
  | .quoted => if c = '"' then .skip .mark else .keep .quoted
  | .mark => if c = '"' then .keep .quoted else plainMeaning c

/-- Read records.  `start` is where the last one ended and `here` the place of the
text.  `fields` and `field` are what has been read of the record, the last part
first. -/
def readFrom (start here : Mark) (place : Place) (fields : List (List Char))
    (field : List Char) : List Char → List Record
  | [] =>
    if place = .recordStart then [] else [⟨start, (field.reverse :: fields).reverse⟩]
  | c :: cs =>
    let next := here.after c
    match place.meaning c with
    | .skip place => readFrom start next place fields field cs
    | .keep place => readFrom start next place fields (c :: field) cs
    | .endField => readFrom start next .fieldStart (field.reverse :: fields) [] cs
    | .endRecord =>
      ⟨start, (field.reverse :: fields).reverse⟩ :: readFrom next next .recordStart [] [] cs
termination_by structural cs => cs

/-- The records of a text.  A byte order mark in front of it is no part of the
first field. -/
def records (cs : List Char) : List Record :=
  let origin : Mark := ⟨1, 0⟩
  match cs with
  | '\ufeff' :: rest => readFrom origin (origin.after '\ufeff') .recordStart [] [] rest
  | _ => readFrom origin origin .recordStart [] [] cs

example : (records "a,b\r\n\r\n1,\"x,\"\"y\"z\n".toList).map (·.fields.map String.ofList) =
    [["a", "b"], ["1", "x,\"yz"]] := by decide
example : (records "a,b\n1,".toList).map (·.fields.length) = [2, 2] := by decide
example : (records "a\r\n\r\n1".toList).map (·.start) = [⟨1, 0⟩, ⟨1, 2⟩] := by decide

end MarketRules.Csv
