/-!
# Raw texts

What stands in a file, in a path or on a command line is a list of bytes.  As a rule
the bytes encode a text in UTF-8, but nothing makes them do so.  `RawText.text?` is the
text that is encoded, if there is one.  `RawText.shown` is a text in any case: a piece
of the bytes that encodes nothing is shown as the character U+FFFD.

The bytes are decoded one at a time.  The first byte of a character says how many
follow, and where the second one has to lie so that no character has two encodings and
surrogates have none.  A piece ends in front of the first byte that cannot follow.
-/

namespace MarketRules

/-- A list of bytes that encodes a text as a rule. -/
structure RawText where
  bytes : List UInt8
deriving DecidableEq

/-! ## Decoding -/

/-- A character of which some bytes were read and some are to come. -/
structure PartialChar where
  /-- How many bytes come behind the next one. -/
  later : Nat
  /-- The least value of the next byte. -/
  low : Nat
  /-- The largest value of the next byte. -/
  high : Nat
  /-- The bits of the bytes that were read. -/
  bits : Nat
deriving DecidableEq

namespace PartialChar

/-- What is known behind the first byte of a character of several bytes. -/
def ofFirst? (byte : Nat) : Option PartialChar :=
  if byte < 0xC2 then none
  else if byte < 0xE0 then some ⟨0, 0x80, 0xBF, byte - 0xC0⟩
  else if byte < 0xF0 then
    some ⟨1, if byte = 0xE0 then 0xA0 else 0x80, if byte = 0xED then 0x9F else 0xBF, byte - 0xE0⟩
  else if byte < 0xF5 then
    some ⟨2, if byte = 0xF0 then 0x90 else 0x80, if byte = 0xF4 then 0x8F else 0xBF, byte - 0xF0⟩
  else none

/-- Can the byte be the next one? -/
def admits (p : PartialChar) (byte : Nat) : Bool := p.low ≤ byte && byte ≤ p.high

/-- The bits with those of the next byte. -/
def bitsWith (p : PartialChar) (byte : Nat) : Nat := p.bits * 64 + (byte - 0x80)

end PartialChar

namespace RawText

/-- What is read between two bytes: the characters that end here, with `none` for a piece
that encodes none, and the character that goes on. -/
structure Decoding where
  done : List (Option Char)
  open? : Option PartialChar

/-- Decode a byte with which a character has to begin. -/
def decodeFirst (byte : Nat) : Decoding :=
  if byte < 0x80 then ⟨[some (Char.ofNat byte)], none⟩
  else
    match PartialChar.ofFirst? byte with
    | some p => ⟨[], some p⟩
    | none => ⟨[none], none⟩

/-- Decode a byte behind those of the character that goes on. -/
def decodeNext (p : PartialChar) (byte : Nat) : Decoding :=
  if p.admits byte then
    match p.later with
    | 0 => ⟨[some (Char.ofNat (p.bitsWith byte))], none⟩
    | later + 1 => ⟨[], some ⟨later, 0x80, 0xBF, p.bitsWith byte⟩⟩
  else ⟨none :: (decodeFirst byte).done, (decodeFirst byte).open?⟩

/-- Decode a byte. -/
def decodeByte : Option PartialChar → Nat → Decoding
  | none, byte => decodeFirst byte
  | some p, byte => decodeNext p byte

/-- Decode bytes. -/
def decodeFrom (open? : Option PartialChar) : List UInt8 → List (Option Char)
  | [] => if open?.isSome then [none] else []
  | byte :: bytes =>
    match decodeByte open? byte.toNat with
    | ⟨done, open?⟩ => done ++ decodeFrom open? bytes
termination_by structural bytes => bytes

/-- The characters that are encoded, with `none` for a piece that encodes none. -/
def decode (r : RawText) : List (Option Char) := decodeFrom none r.bytes

/-! ## Texts -/

/-- The encoding of a text. -/
def ofText (s : String) : RawText := ⟨s.toByteArray.data.toList⟩

instance : Coe String RawText := ⟨ofText⟩

/-- The text that is encoded, if there is one. -/
def text? (r : RawText) : Option String :=
  if r.decode.all Option.isSome then some (String.ofList (r.decode.filterMap id)) else none

/-- A text for all bytes, with U+FFFD for a piece that encodes no character. -/
def shown (r : RawText) : String := String.ofList (r.decode.map (·.getD '\uFFFD'))

/-- The encoding of what is shown.  It stands in for bytes that are no text. -/
def asShown (r : RawText) : RawText := ofText r.shown

-- The first byte of a character ends the piece in front of it.
example : (⟨[0x6F, 0xFF, 0xE2, 0x82, 0xC3, 0xA9]⟩ : RawText).shown = "o��é" := by decide +kernel
example : (⟨[0xED, 0xA0, 0x80]⟩ : RawText).shown = "���" := by decide +kernel

end RawText

end MarketRules
