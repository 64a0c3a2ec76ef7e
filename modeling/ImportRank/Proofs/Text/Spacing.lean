import ImportRank.Text.Blank
import Mathlib.Data.List.Basic

/-!
# Separators and words

What a word of a source is, given the characters that can be in words. No letter and no digit
separates words.
-/

namespace ImportRank.Text

variable {c : Char}

/-- A word: one or more characters that can be in words, of which the first is no digit. -/
structure IsWord (isWordChar : Char → Bool) (text : List Char) : Prop where
  nonempty : text ≠ []
  wordChars : ∀ c ∈ text, isWordChar c = true
  noNumber : ∀ c ∈ text.head?, c.isDigit = false

instance (isWordChar : Char → Bool) (text : List Char) : Decidable (IsWord isWordChar text) :=
  match text with
  | [] => isFalse fun hword => hword.nonempty rfl
  | c :: rest =>
    -- as `Bool`s: a quantifier over characters may be decided over all of them
    decidable_of_iff (((c :: rest).all isWordChar && !c.isDigit) = true) (by
      rw [Bool.and_eq_true, List.all_eq_true, Bool.not_eq_true']
      constructor
      · rintro ⟨hword, hnumber⟩
        exact ⟨List.cons_ne_nil c rest, hword, fun d hd => Option.some.inj hd ▸ hnumber⟩
      · rintro ⟨-, hword, hnumber⟩
        exact ⟨hword, hnumber c rfl⟩)

lemma isSpacing_of_isAlphanum (hc : c.isAlphanum = true) : isSpacing c = false := by
  have hranges : ((0x41 ≤ c.toNat ∧ c.toNat ≤ 0x5A) ∨ 0x61 ≤ c.toNat ∧ c.toNat ≤ 0x7A) ∨
      0x30 ≤ c.toNat ∧ c.toNat ≤ 0x39 := by
    change ((decide (0x41 ≤ c.toNat ∧ c.toNat ≤ 0x5A) ||
      (decide (0x61 ≤ c.toNat) && decide (c.toNat ≤ 0x7A))) ||
      (decide (0x30 ≤ c.toNat) && decide (c.toNat ≤ 0x39))) = true at hc
    simpa only [Bool.or_eq_true, Bool.and_eq_true, decide_eq_true_eq] using hc
  simp only [isSpacing, isBlank, Bool.or_eq_false_iff, Bool.and_eq_false_iff,
    decide_eq_false_iff_not, beq_eq_false_iff_ne]
  omega

end ImportRank.Text
