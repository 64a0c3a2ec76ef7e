import ImportRank.Text.Utf8
import Mathlib.Data.List.Basic

/-!
# Encoded text

A text that is written out as UTF-8 is read back as it was: none of its characters needs a
replacement, whatever the decoder accepts besides. Main statement: `decodeLenient_toUTF8`.
-/

namespace ImportRank.Text

variable {c : Char} {n : ℕ}

/-! ## Single bytes -/

lemma toNat_ofNat_byte (hn : n < 0x100) : (UInt8.ofNat n).toNat = n := UInt8.toNat_ofNat_of_lt' hn

/-- The byte that continues a sequence with the last six bits of a number. -/
def continuation (n : ℕ) : UInt8 := UInt8.ofNat (n % 0x40 + 0x80)

lemma toNat_continuation (n : ℕ) : (continuation n).toNat = n % 0x40 + 0x80 :=
  toNat_ofNat_byte (by omega)

@[simp] lemma isContinuation_continuation (n : ℕ) : isContinuation (continuation n) := by
  simp only [isContinuation, Bool.and_eq_true, decide_eq_true_eq, UInt8.le_iff_toNat_le,
    toNat_continuation, UInt8.reduceToNat]
  omega

@[simp] lemma payload_continuation (n : ℕ) : payload (continuation n) = n % 0x40 := by
  rw [payload, toNat_continuation]
  omega

/-! ## Single characters -/

lemma toNat_valid (c : Char) : c.toNat < 0xD800 ∨ 0xDFFF < c.toNat ∧ c.toNat < 0x110000 := c.valid

/-- The second byte of a longer sequence is one that the first allows: overlong forms would be of
smaller numbers, and no character is a surrogate or beyond the last one. -/
lemma allowsSecond_of_three (hlow : 0x800 ≤ c.toNat) (hhigh : c.toNat < 0x10000) :
    allowsSecond (UInt8.ofNat (c.toNat / 0x1000 % 0x10 + 0xE0))
      (continuation (c.toNat / 0x40)) := by
  have hvalid := toNat_valid c
  have hlead : (UInt8.ofNat (c.toNat / 0x1000 % 0x10 + 0xE0)).toNat = c.toNat / 0x1000 + 0xE0 := by
    rw [toNat_ofNat_byte (by omega)]
    omega
  have hsecond : (continuation (c.toNat / 0x40)).toNat = c.toNat / 0x40 % 0x40 + 0x80 :=
    toNat_continuation _
  simp only [allowsSecond, isContinuation, ← UInt8.toNat_inj, UInt8.le_iff_toNat_le, hlead, hsecond,
    UInt8.reduceToNat]
  split_ifs <;> simp only [Bool.and_eq_true, decide_eq_true_eq] <;> omega

lemma allowsSecond_of_four (hlow : 0x10000 ≤ c.toNat) :
    allowsSecond (UInt8.ofNat (c.toNat / 0x40000 % 0x08 + 0xF0))
      (continuation (c.toNat / 0x1000)) := by
  have hvalid := toNat_valid c
  have hlead : (UInt8.ofNat (c.toNat / 0x40000 % 0x08 + 0xF0)).toNat =
      c.toNat / 0x40000 + 0xF0 := by
    rw [toNat_ofNat_byte (by omega)]
    omega
  have hsecond : (continuation (c.toNat / 0x1000)).toNat = c.toNat / 0x1000 % 0x40 + 0x80 :=
    toNat_continuation _
  simp only [allowsSecond, isContinuation, ← UInt8.toNat_inj, UInt8.le_iff_toNat_le, hlead, hsecond,
    UInt8.reduceToNat]
  split_ifs <;> simp only [Bool.and_eq_true, decide_eq_true_eq] <;> omega

/-- The bytes of a character, by the size of its number. -/
lemma utf8EncodeChar_eq (c : Char) : String.utf8EncodeChar c =
    if c.toNat ≤ 0x7F then [UInt8.ofNat c.toNat]
    else if c.toNat ≤ 0x7FF then
      [UInt8.ofNat (c.toNat / 0x40 % 0x20 + 0xC0), continuation c.toNat]
    else if c.toNat ≤ 0xFFFF then
      [UInt8.ofNat (c.toNat / 0x1000 % 0x10 + 0xE0), continuation (c.toNat / 0x40),
        continuation c.toNat]
    else
      [UInt8.ofNat (c.toNat / 0x40000 % 0x08 + 0xF0), continuation (c.toNat / 0x1000),
        continuation (c.toNat / 0x40), continuation c.toNat] := rfl

/-- The number that is put together from the parts that its bytes carry is the number itself. -/
lemma leadCharacter_one (hone : c.toNat ≤ 0x7F) (rest : List UInt8) :
    leadCharacter (UInt8.ofNat c.toNat) rest = (some c, 0) := by
  have hlead := toNat_ofNat_byte (n := c.toNat) (by omega)
  have hascii : UInt8.ofNat c.toNat < 0x80 := by
    rw [UInt8.lt_iff_toNat_lt, hlead]
    exact Nat.lt_succ_of_le hone
  unfold leadCharacter
  rw [if_pos hascii, hlead, Char.ofNat_toNat]

lemma leadCharacter_two (hlow : 0x80 ≤ c.toNat) (hhigh : c.toNat ≤ 0x7FF) (rest : List UInt8) :
    leadCharacter (UInt8.ofNat (c.toNat / 0x40 % 0x20 + 0xC0)) (continuation c.toNat :: rest) =
      (some c, 1) := by
  have hlead := toNat_ofNat_byte (n := c.toNat / 0x40 % 0x20 + 0xC0) (by omega)
  have hnumber : (c.toNat / 0x40 % 0x20 + 0xC0) % 0x20 * 0x40 + c.toNat % 0x40 = c.toNat := by omega
  simp only [leadCharacter, UInt8.lt_iff_toNat_lt, UInt8.le_iff_toNat_le, hlead, UInt8.reduceToNat,
    Bool.and_eq_true, decide_eq_true_eq, isContinuation_continuation, payload_continuation, if_true,
    hnumber, Char.ofNat_toNat]
  rw [if_neg (by omega), if_pos (by omega)]

lemma leadCharacter_three (hlow : 0x800 ≤ c.toNat) (hhigh : c.toNat ≤ 0xFFFF) (rest : List UInt8) :
    leadCharacter (UInt8.ofNat (c.toNat / 0x1000 % 0x10 + 0xE0))
      (continuation (c.toNat / 0x40) :: continuation c.toNat :: rest) = (some c, 2) := by
  have hlead := toNat_ofNat_byte (n := c.toNat / 0x1000 % 0x10 + 0xE0) (by omega)
  have hsecond := allowsSecond_of_three hlow (by omega)
  have hnumber : ((c.toNat / 0x1000 % 0x10 + 0xE0) % 0x10 * 0x40 + c.toNat / 0x40 % 0x40) * 0x40 +
      c.toNat % 0x40 = c.toNat := by omega
  simp only [leadCharacter, UInt8.lt_iff_toNat_lt, UInt8.le_iff_toNat_le, hlead, UInt8.reduceToNat,
    Bool.and_eq_true, decide_eq_true_eq, isContinuation_continuation, payload_continuation, hsecond,
    Bool.not_true, Bool.false_eq_true, if_false, hnumber, Char.ofNat_toNat]
  rw [if_neg (by omega), if_neg (by omega), if_pos (by omega)]

lemma leadCharacter_four (hlow : 0x10000 ≤ c.toNat) (rest : List UInt8) :
    leadCharacter (UInt8.ofNat (c.toNat / 0x40000 % 0x08 + 0xF0))
      (continuation (c.toNat / 0x1000) :: continuation (c.toNat / 0x40) :: continuation c.toNat ::
        rest) = (some c, 3) := by
  have hvalid := toNat_valid c
  have hlead := toNat_ofNat_byte (n := c.toNat / 0x40000 % 0x08 + 0xF0) (by omega)
  have hsecond := allowsSecond_of_four hlow
  have hnumber : (((c.toNat / 0x40000 % 0x08 + 0xF0) % 0x08 * 0x40 + c.toNat / 0x1000 % 0x40) *
      0x40 + c.toNat / 0x40 % 0x40) * 0x40 + c.toNat % 0x40 = c.toNat := by omega
  simp only [leadCharacter, UInt8.lt_iff_toNat_lt, UInt8.le_iff_toNat_le, hlead, UInt8.reduceToNat,
    Bool.and_eq_true, decide_eq_true_eq, isContinuation_continuation, payload_continuation, hsecond,
    Bool.not_true, Bool.false_eq_true, if_false, hnumber, Char.ofNat_toNat]
  rw [if_neg (by omega), if_neg (by omega), if_neg (by omega), if_pos (by omega)]

/-! ## Texts -/

/-- The bytes of a character are read as that character. -/
lemma scalars_utf8EncodeChar (c : Char) (rest : List UInt8) :
    scalars (String.utf8EncodeChar c ++ rest) = some c :: scalars rest := by
  rw [utf8EncodeChar_eq]
  split_ifs with hone htwo hthree
  · rw [List.singleton_append, scalars, leadCharacter_one hone]
    rfl
  · rw [List.cons_append, List.singleton_append, scalars, leadCharacter_two (by omega) htwo]
    rfl
  · rw [List.cons_append, List.cons_append, List.singleton_append, scalars,
      leadCharacter_three (by omega) hthree]
    rfl
  · rw [List.cons_append, List.cons_append, List.cons_append, List.singleton_append, scalars,
      leadCharacter_four (by omega)]
    rfl

/-- So a text is read back from its bytes. -/
theorem decodeLenient_flatMap (text : List Char) :
    decodeLenient (text.flatMap String.utf8EncodeChar) = text := by
  have hscalars : scalars (text.flatMap String.utf8EncodeChar) = text.map some := by
    induction text with
    | nil => rw [List.flatMap_nil, scalars, List.map_nil]
    | cons c text ih => rw [List.flatMap_cons, scalars_utf8EncodeChar, List.map_cons, ih]
  rw [decodeLenient, hscalars, List.map_map]
  exact List.map_id text

theorem decodeLenient_toUTF8 (text : String) :
    decodeLenient text.toUTF8.data.toList = text.toList := by
  have hbytes : text.toUTF8.data.toList = text.toList.flatMap String.utf8EncodeChar := by
    rw [String.toUTF8_eq_toByteArray, ← String.utf8Encode_toList, List.utf8Encode,
      List.data_toByteArray, List.toList_toArray]
  rw [hbytes, decodeLenient_flatMap]

lemma decodeLenient_encode (text : List Char) : decodeLenient (encode text) = text := by
  rw [encode, decodeLenient_toUTF8, String.toList_ofList]

lemma decodeLenient_nil : decodeLenient [] = [] := by
  rw [decodeLenient, scalars, List.map_nil]

/-- Things that are each printed as something leave no bytes only where there are none. -/
lemma eq_nil_of_encode {α : Type} {text : α → List Char} (htext : ∀ thing, text thing ≠ [])
    {things : List α} (hbytes : encode (things.flatMap text) = []) : things = [] := by
  have hflat : things.flatMap text = [] := by
    rw [← decodeLenient_encode (things.flatMap text), hbytes, decodeLenient_nil]
  rw [List.flatMap_eq_nil_iff] at hflat
  exact List.eq_nil_iff_forall_not_mem.mpr fun thing hthing => htext thing (hflat thing hthing)

end ImportRank.Text
