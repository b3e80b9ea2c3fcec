import MarketRules.Text.RawText

/-!
# Decoding raw texts

Decoding undoes encoding: `RawText.text?` is a text exactly for the bytes that encode it,
and such bytes are shown as that text.  Both directions go byte by byte through the four
shapes that the encoding of a character can have.
-/

namespace MarketRules

/-! ## One byte -/

namespace PartialChar

theorem ofFirst?_two : ∀ n < 32, 2 ≤ n → ofFirst? (n + 0xC0) = some ⟨0, 0x80, 0xBF, n⟩ := by
  decide

theorem ofFirst?_three : ∀ n < 16, ofFirst? (n + 0xE0) =
    some ⟨1, if n = 0 then 0xA0 else 0x80, if n = 13 then 0x9F else 0xBF, n⟩ := by
  decide

theorem ofFirst?_four : ∀ n < 5, ofFirst? (n + 0xF0) =
    some ⟨2, if n = 0 then 0x90 else 0x80, if n = 4 then 0x8F else 0xBF, n⟩ := by
  decide

/-- The three shapes of a character of several bytes.  The bounds of the second byte leave
out what has a shorter encoding, surrogates, and what is too large. -/
theorem ofFirst?_cases {byte : Nat} {p : PartialChar} (first : ofFirst? byte = some p) :
    0xC2 ≤ byte ∧ byte < 0xE0 ∧ p = ⟨0, 0x80, 0xBF, byte - 0xC0⟩ ∨
    0xE0 ≤ byte ∧ byte < 0xF0 ∧ (∃ low high, p = ⟨1, low, high, byte - 0xE0⟩ ∧
      0x80 ≤ low ∧ high ≤ 0xBF ∧ (byte = 0xE0 → 0xA0 ≤ low) ∧ (byte = 0xED → high ≤ 0x9F)) ∨
    0xF0 ≤ byte ∧ byte < 0xF5 ∧ ∃ low high, p = ⟨2, low, high, byte - 0xF0⟩ ∧
      0x80 ≤ low ∧ high ≤ 0xBF ∧ (byte = 0xF0 → 0x90 ≤ low) ∧ (byte = 0xF4 → high ≤ 0x8F) := by
  unfold ofFirst? at first
  split at first
  · cases first
  split at first
  · next two => exact .inl ⟨by omega, two, (Option.some.inj first).symm⟩
  split at first
  · next three =>
    refine .inr (.inl ⟨by omega, three, _, _, (Option.some.inj first).symm, ?_⟩)
    exact ⟨by split <;> omega, by split <;> omega, fun e0 => Nat.le_of_eq (if_pos e0).symm,
      fun ed => Nat.le_of_eq (if_pos ed)⟩
  split at first
  · next four =>
    refine .inr (.inr ⟨by omega, four, _, _, (Option.some.inj first).symm, ?_⟩)
    exact ⟨by split <;> omega, by split <;> omega, fun f0 => Nat.le_of_eq (if_pos f0).symm,
      fun f4 => Nat.le_of_eq (if_pos f4)⟩
  · cases first

end PartialChar

namespace RawText

theorem decodeFrom_cons (open? : Option PartialChar) (byte : UInt8) (bytes : List UInt8) :
    decodeFrom open? (byte :: bytes) = (decodeByte open? byte.toNat).done ++
      decodeFrom (decodeByte open? byte.toNat).open? bytes := rfl

theorem decodeFrom_ascii {byte : UInt8} (ascii : byte.toNat < 0x80) (bytes : List UInt8) :
    decodeFrom none (byte :: bytes) = some (Char.ofNat byte.toNat) :: decodeFrom none bytes := by
  rw [decodeFrom_cons, decodeByte, decodeFirst, if_pos ascii]
  rfl

/-- Behind the first byte of several a character is open. -/
theorem decodeFrom_first {byte : UInt8} {p : PartialChar}
    (first : PartialChar.ofFirst? byte.toNat = some p) (bytes : List UInt8) :
    decodeFrom none (byte :: bytes) = decodeFrom (some p) bytes := by
  have high : ¬ byte.toNat < 0x80 := by
    intro ascii
    rw [PartialChar.ofFirst?, if_pos (by omega)] at first
    cases first
  rw [decodeFrom_cons, decodeByte, decodeFirst, if_neg high, first]
  rfl

/-- The last byte of a character completes it. -/
theorem decodeFrom_last {byte : UInt8} {low high bits : Nat} (above : low ≤ byte.toNat)
    (below : byte.toNat ≤ high) (bytes : List UInt8) :
    decodeFrom (some ⟨0, low, high, bits⟩) (byte :: bytes) =
      some (Char.ofNat (bits * 64 + (byte.toNat - 0x80))) :: decodeFrom none bytes := by
  have admitted : (⟨0, low, high, bits⟩ : PartialChar).admits byte.toNat = true := by
    simp [PartialChar.admits, above, below]
  rw [decodeFrom_cons, decodeByte, decodeNext, if_pos admitted]
  rfl

/-- A byte in the middle of a character adds its bits. -/
theorem decodeFrom_next {byte : UInt8} {later low high bits : Nat} (above : low ≤ byte.toNat)
    (below : byte.toNat ≤ high) (bytes : List UInt8) :
    decodeFrom (some ⟨later + 1, low, high, bits⟩) (byte :: bytes) =
      decodeFrom (some ⟨later, 0x80, 0xBF, bits * 64 + (byte.toNat - 0x80)⟩) bytes := by
  have admitted : (⟨later + 1, low, high, bits⟩ : PartialChar).admits byte.toNat = true := by
    simp [PartialChar.admits, above, below]
  rw [decodeFrom_cons, decodeByte, decodeNext, if_pos admitted]
  rfl

/-! ## Encoded characters -/

/-- A character is decoded from its encoding. -/
theorem decodeFrom_utf8EncodeChar (c : Char) (bytes : List UInt8) :
    decodeFrom none (String.utf8EncodeChar c ++ bytes) = some c :: decodeFrom none bytes := by
  have valid : c.toNat < 0xD800 ∨ 0xDFFF < c.toNat ∧ c.toNat < 0x110000 := c.valid
  have back (n : Nat) (same : n = c.toNat) : Char.ofNat n = c := by
    rw [same, Char.ofNat_toNat]
  have value : c.val.toNat = c.toNat := rfl
  unfold String.utf8EncodeChar
  dsimp only
  rw [value]
  generalize c.toNat = v at *
  split
  · next one =>
    have byte : (UInt8.ofNat v).toNat = v := by simp; omega
    rw [List.singleton_append, decodeFrom_ascii (by omega), back _ byte]
  split
  · next two =>
    have first : (UInt8.ofNat (v / 64 % 0x20 + 0xc0)).toNat = v / 64 + 0xC0 := by simp; omega
    have second : (UInt8.ofNat (v % 0x40 + 0x80)).toNat = v % 64 + 0x80 := by simp; omega
    have begun := PartialChar.ofFirst?_two (v / 64) (by omega) (by omega)
    rw [← first] at begun
    rw [List.cons_append, decodeFrom_first begun, List.singleton_append,
      decodeFrom_last (by omega) (by omega), back _ (by omega)]
  split
  · next three =>
    have first : (UInt8.ofNat (v / 4096 % 0x10 + 0xe0)).toNat = v / 4096 + 0xE0 := by simp; omega
    have second : (UInt8.ofNat (v / 64 % 0x40 + 0x80)).toNat = v / 64 % 64 + 0x80 := by simp; omega
    have third : (UInt8.ofNat (v % 0x40 + 0x80)).toNat = v % 64 + 0x80 := by simp; omega
    have begun := PartialChar.ofFirst?_three (v / 4096) (by omega)
    rw [← first] at begun
    rw [List.cons_append, decodeFrom_first begun, List.cons_append,
      decodeFrom_next (by split <;> omega) (by split <;> omega), List.singleton_append,
      decodeFrom_last (by omega) (by omega), back _ (by omega)]
  · have first : (UInt8.ofNat (v / 262144 % 0x08 + 0xf0)).toNat = v / 262144 + 0xF0 := by
      simp; omega
    have second : (UInt8.ofNat (v / 4096 % 0x40 + 0x80)).toNat = v / 4096 % 64 + 0x80 := by
      simp; omega
    have third : (UInt8.ofNat (v / 64 % 0x40 + 0x80)).toNat = v / 64 % 64 + 0x80 := by simp; omega
    have fourth : (UInt8.ofNat (v % 0x40 + 0x80)).toNat = v % 64 + 0x80 := by simp; omega
    have begun := PartialChar.ofFirst?_four (v / 262144) (by omega)
    rw [← first] at begun
    rw [List.cons_append, decodeFrom_first begun, List.cons_append,
      decodeFrom_next (by split <;> omega) (by split <;> omega), List.cons_append,
      decodeFrom_next (by omega) (by omega), List.singleton_append,
      decodeFrom_last (by omega) (by omega), back _ (by omega)]

/-- The bytes of a text are those of its characters. -/
theorem bytes_ofText (s : String) : (ofText s).bytes = s.toList.flatMap String.utf8EncodeChar := by
  have encoded : (ofText (String.ofList s.toList)).bytes = _ :=
    congrArg (·.data.toList) String.toByteArray_ofList
  rw [String.ofList_toList] at encoded
  rw [encoded, List.utf8Encode]
  simp

theorem bytes_ofText_append (s s' : String) :
    (ofText (s ++ s')).bytes = (ofText s).bytes ++ (ofText s').bytes := by
  rw [bytes_ofText, bytes_ofText, bytes_ofText, String.toList_append, List.flatMap_append]

/-- The encoding of a text is decoded to its characters, and no piece is left over. -/
theorem decode_ofText (s : String) : (ofText s).decode = s.toList.map some := by
  rw [decode, bytes_ofText]
  induction s.toList with
  | nil => rfl
  | cons c cs ih => rw [List.flatMap_cons, decodeFrom_utf8EncodeChar, List.map_cons, ih]

/-! ## Decoded bytes -/

/-- Where no piece is left over, a character that goes on takes the next byte. -/
theorem exists_of_decodeFrom {p : PartialChar} {bytes : List UInt8} {cs : List Char}
    (decoded : decodeFrom (some p) bytes = cs.map some) :
    ∃ byte rest, bytes = byte :: rest ∧ p.low ≤ byte.toNat ∧ byte.toNat ≤ p.high ∧
      (p.later = 0 → ∃ cs', cs = Char.ofNat (p.bitsWith byte.toNat) :: cs' ∧
        decodeFrom none rest = cs'.map some) ∧
      ∀ later, p.later = later + 1 →
        decodeFrom (some ⟨later, 0x80, 0xBF, p.bitsWith byte.toNat⟩) rest = cs.map some := by
  cases bytes with
  | nil =>
    cases cs with
    | nil => cases decoded
    | cons c cs => cases decoded
  | cons byte rest =>
    rw [decodeFrom_cons, decodeByte, decodeNext] at decoded
    split at decoded
    · next admitted =>
      simp only [PartialChar.admits, Bool.and_eq_true, decide_eq_true_eq] at admitted
      refine ⟨byte, rest, rfl, admitted.1, admitted.2, fun last => ?_, fun later more => ?_⟩
      · rw [last] at decoded
        cases cs with
        | nil => cases decoded
        | cons c cs =>
          obtain ⟨same, others⟩ := List.cons.inj decoded
          exact ⟨cs, by rw [Option.some.inj same], others⟩
      · rw [more] at decoded
        exact decoded
    · cases cs with
      | nil => cases decoded
      | cons c cs => cases decoded

/-- The encoding of the character with a number. -/
theorem utf8EncodeChar_ofNat {v : Nat} (valid : v.isValidChar) :
    String.utf8EncodeChar (Char.ofNat v) =
      if v ≤ 0x7F then [.ofNat v]
      else if v ≤ 0x7FF then [.ofNat (v / 64 % 32 + 0xC0), .ofNat (v % 64 + 0x80)]
      else if v ≤ 0xFFFF then
        [.ofNat (v / 4096 % 16 + 0xE0), .ofNat (v / 64 % 64 + 0x80), .ofNat (v % 64 + 0x80)]
      else [.ofNat (v / 262144 % 8 + 0xF0), .ofNat (v / 4096 % 64 + 0x80),
        .ofNat (v / 64 % 64 + 0x80), .ofNat (v % 64 + 0x80)] := by
  have number : (Char.ofNat v).val.toNat = v := by
    rw [Char.ofNat, dif_pos valid]
    rfl
  rw [String.utf8EncodeChar, number]

theorem ofNat_eq_of_toNat (byte : UInt8) {n : Nat} (same : byte.toNat = n) :
    UInt8.ofNat n = byte := by
  rw [← same, UInt8.ofNat_toNat]

/-- Two bytes in the ranges in which they are read encode the character that is read. -/
theorem utf8EncodeChar_two {first second : UInt8} (lower : 0xC2 ≤ first.toNat)
    (upper : first.toNat < 0xE0) (above : 0x80 ≤ second.toNat) (below : second.toNat ≤ 0xBF) :
    String.utf8EncodeChar (.ofNat ((first.toNat - 0xC0) * 64 + (second.toNat - 0x80))) =
      [first, second] := by
  rw [utf8EncodeChar_ofNat (.inl (by omega)), if_neg (by omega), if_pos (by omega),
    ofNat_eq_of_toNat first (by omega), ofNat_eq_of_toNat second (by omega)]

theorem utf8EncodeChar_three {first second third : UInt8} {low high : Nat}
    (lower : 0xE0 ≤ first.toNat) (upper : first.toNat < 0xF0)
    (bounds : 0x80 ≤ low ∧ high ≤ 0xBF ∧ (first.toNat = 0xE0 → 0xA0 ≤ low) ∧
      (first.toNat = 0xED → high ≤ 0x9F))
    (above : low ≤ second.toNat) (below : second.toNat ≤ high) (above' : 0x80 ≤ third.toNat)
    (below' : third.toNat ≤ 0xBF) :
    String.utf8EncodeChar (.ofNat (((first.toNat - 0xE0) * 64 + (second.toNat - 0x80)) * 64 +
      (third.toNat - 0x80))) = [first, second, third] := by
  rw [utf8EncodeChar_ofNat (by unfold Nat.isValidChar; omega), if_neg (by omega),
    if_neg (by omega), if_pos (by omega), ofNat_eq_of_toNat first (by omega),
    ofNat_eq_of_toNat second (by omega), ofNat_eq_of_toNat third (by omega)]

theorem utf8EncodeChar_four {first second third fourth : UInt8} {low high : Nat}
    (lower : 0xF0 ≤ first.toNat) (upper : first.toNat < 0xF5)
    (bounds : 0x80 ≤ low ∧ high ≤ 0xBF ∧ (first.toNat = 0xF0 → 0x90 ≤ low) ∧
      (first.toNat = 0xF4 → high ≤ 0x8F))
    (above : low ≤ second.toNat) (below : second.toNat ≤ high) (above' : 0x80 ≤ third.toNat)
    (below' : third.toNat ≤ 0xBF) (above'' : 0x80 ≤ fourth.toNat) (below'' : fourth.toNat ≤ 0xBF) :
    String.utf8EncodeChar (.ofNat ((((first.toNat - 0xF0) * 64 + (second.toNat - 0x80)) * 64 +
      (third.toNat - 0x80)) * 64 + (fourth.toNat - 0x80))) = [first, second, third, fourth] := by
  rw [utf8EncodeChar_ofNat (by unfold Nat.isValidChar; omega), if_neg (by omega),
    if_neg (by omega), if_neg (by omega), ofNat_eq_of_toNat first (by omega),
    ofNat_eq_of_toNat second (by omega), ofNat_eq_of_toNat third (by omega),
    ofNat_eq_of_toNat fourth (by omega)]

/-- The first character that is decoded takes the bytes of its encoding. -/
theorem exists_of_decodeFrom_cons {byte : UInt8} {rest : List UInt8} {cs : List Char}
    (decoded : decodeFrom none (byte :: rest) = cs.map some) :
    ∃ c cs' rest', cs = c :: cs' ∧ byte :: rest = String.utf8EncodeChar c ++ rest' ∧
      decodeFrom none rest' = cs'.map some := by
  by_cases ascii : byte.toNat < 0x80
  · rw [decodeFrom_ascii ascii] at decoded
    cases cs with
    | nil => cases decoded
    | cons c cs =>
      obtain ⟨same, others⟩ := List.cons.inj decoded
      refine ⟨c, cs, rest, rfl, ?_, others⟩
      rw [← Option.some.inj same, utf8EncodeChar_ofNat (.inl (by omega)), if_pos (by omega),
        ofNat_eq_of_toNat byte rfl]
      rfl
  · cases first : PartialChar.ofFirst? byte.toNat with
    | none =>
      rw [decodeFrom_cons, decodeByte, decodeFirst, if_neg ascii, first] at decoded
      cases cs <;> cases decoded
    | some p =>
      rw [decodeFrom_first first] at decoded
      obtain ⟨second, rest, rfl, above, below, last, next⟩ := exists_of_decodeFrom decoded
      rcases PartialChar.ofFirst?_cases first with
        ⟨lower, upper, rfl⟩ | ⟨lower, upper, low, high, rfl, bounds⟩ |
          ⟨lower, upper, low, high, rfl, bounds⟩
      · obtain ⟨cs', same, others⟩ := last rfl
        have encoded := utf8EncodeChar_two lower upper above below
        exact ⟨_, cs', rest, same, congrArg (· ++ rest) encoded.symm, others⟩
      · obtain ⟨third, rest, rfl, above', below', last, -⟩ := exists_of_decodeFrom (next 0 rfl)
        obtain ⟨cs', same, others⟩ := last rfl
        have encoded := utf8EncodeChar_three lower upper bounds above below above' below'
        exact ⟨_, cs', rest, same, congrArg (· ++ rest) encoded.symm, others⟩
      · obtain ⟨third, rest, rfl, above', below', -, next⟩ := exists_of_decodeFrom (next 1 rfl)
        obtain ⟨fourth, rest, rfl, above'', below'', last, -⟩ := exists_of_decodeFrom (next 0 rfl)
        obtain ⟨cs', same, others⟩ := last rfl
        have encoded :=
          utf8EncodeChar_four lower upper bounds above below above' below' above'' below''
        exact ⟨_, cs', rest, same, congrArg (· ++ rest) encoded.symm, others⟩

/-- Bytes that are decoded without a piece left over are the encoding of what they are
decoded to. -/
theorem eq_flatMap_of_decodeFrom {cs : List Char} : ∀ {bytes : List UInt8},
    decodeFrom none bytes = cs.map some → bytes = cs.flatMap String.utf8EncodeChar := by
  induction cs with
  | nil =>
    intro bytes decoded
    cases bytes with
    | nil => rfl
    | cons byte rest =>
      obtain ⟨c, cs', rest', empty, -⟩ := exists_of_decodeFrom_cons decoded
      cases empty
  | cons c cs ih =>
    intro bytes decoded
    cases bytes with
    | nil => cases decoded
    | cons byte rest =>
      obtain ⟨c', cs', rest', same, encoded, others⟩ := exists_of_decodeFrom_cons decoded
      obtain ⟨rfl, rfl⟩ := List.cons.inj same
      rw [encoded, ih others, List.flatMap_cons]

/-! ## Texts -/

/-- A text is read back from its encoding. -/
theorem text?_ofText (s : String) : (ofText s).text? = some s := by
  rw [text?, decode_ofText]
  simp [List.filterMap_map, Function.comp_def]

/-- Bytes that encode a text are shown as it. -/
theorem shown_ofText (s : String) : (ofText s).shown = s := by
  rw [shown, decode_ofText]
  simp [Function.comp_def]

theorem eq_map_some_of_all {pieces : List (Option Char)} (whole : pieces.all Option.isSome = true) :
    pieces = (pieces.filterMap id).map some := by
  induction pieces with
  | nil => rfl
  | cons piece pieces ih =>
    rw [List.all_cons, Bool.and_eq_true] at whole
    obtain ⟨c, rfl⟩ := Option.isSome_iff_exists.mp whole.1
    exact congrArg (some c :: ·) (ih whole.2)

/-- Bytes are a text exactly if they are its encoding. -/
theorem text?_eq_some_iff {r : RawText} {s : String} : r.text? = some s ↔ r = ofText s := by
  constructor
  · intro decoded
    rw [text?] at decoded
    split at decoded
    · next whole =>
      obtain rfl := Option.some.inj decoded
      have encoded : (ofText (String.ofList (r.decode.filterMap id))).bytes = r.bytes := by
        rw [bytes_ofText, String.toList_ofList]
        exact (eq_flatMap_of_decodeFrom (eq_map_some_of_all whole)).symm
      exact congrArg RawText.mk encoded.symm
    · cases decoded
  · rintro rfl
    exact text?_ofText s

/-- What is shown stands for the bytes themselves exactly if they are a text. -/
theorem asShown_eq_self_iff (r : RawText) : r.asShown = r ↔ r.text?.isSome = true := by
  rw [Option.isSome_iff_exists]
  constructor
  · intro same
    exact ⟨r.shown, text?_eq_some_iff.mpr same.symm⟩
  · rintro ⟨s, decoded⟩
    rw [text?_eq_some_iff.mp decoded, asShown, shown_ofText]

/-- What is shown stays the same when it is shown once more. -/
theorem shown_asShown (r : RawText) : r.asShown.shown = r.shown := shown_ofText r.shown

end RawText

end MarketRules
