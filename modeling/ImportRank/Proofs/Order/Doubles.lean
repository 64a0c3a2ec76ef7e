import ImportRank.Proofs.Order.Grade

/-!
# The order of doubles

Doubles other than "not a number" are ordered by class, then exponent, then mantissa. Reading the
three as one lexicographic `magnitude` gives the comparisons of the solver a linear order behind
them, so candidates whose weights are numbers have grades.
-/

namespace ImportRank.Double

open Float.Model

/-- The place of a double among all: how it compares is how its class, its exponent and its mantissa
compare, in this order and against their sense for a negative number. -/
def magnitude : UnpackedFloat → ℤ ×ₗ ℤ ×ₗ ℤ
  | .infinity .negative => toLex (-2, toLex (0, 0))
  | .finite .negative mantissa exponent _ => toLex (-1, toLex (-exponent, -mantissa))
  | .notANumber => toLex (0, toLex (0, 0))
  | .zero _ => toLex (0, toLex (0, 0))
  | .finite .positive mantissa exponent _ => toLex (1, toLex (exponent, mantissa))
  | .infinity .positive => toLex (2, toLex (0, 0))

/-! ## Comparisons of whole numbers -/

lemma compare_neg (x y : ℤ) : compare (-x) (-y) = (compare x y).swap := by
  have hneg : StrictAnti fun z : ℤ => -z := fun _ _ => Int.neg_lt_neg
  rw [← cmp_eq_compare, ← cmp_eq_compare, hneg.cmp_map_eq, cmp_swap]

lemma compare_natCast (m n : ℕ) : compare (m : ℤ) n = compare m n := by
  rw [← cmp_eq_compare, ← cmp_eq_compare, Nat.strictMono_cast.cmp_map_eq]

lemma compare_toLex (x x' y y' z z' : ℤ) :
    compare (toLex (x, toLex (y, z))) (toLex (x', toLex (y', z'))) =
      (compare x x').then ((compare y y').then (compare z z')) := rfl

/-! ## Comparisons of doubles -/

/-- Two doubles that are numbers compare as their magnitudes. -/
theorem compare_eq_compare_magnitude {a b : UnpackedFloat} (ha : a.isNaN = false)
    (hb : b.isNaN = false) : a.compare b = some (compare (magnitude a) (magnitude b)) := by
  -- the class decides in all cases but those of two finite numbers of the same sign
  rcases a with sign | _ | sign | ⟨sign, mantissa, exponent, _⟩
  · rcases b with sign' | _ | sign' | ⟨sign', mantissa', exponent', _⟩
    · cases sign <;> cases sign' <;> rfl
    · cases hb
    · cases sign <;> rfl
    · cases sign <;> cases sign' <;> rfl
  · cases ha
  · rcases b with sign' | _ | sign' | ⟨sign', mantissa', exponent', _⟩
    · cases sign' <;> rfl
    · cases hb
    · rfl
    · cases sign' <;> rfl
  · rcases b with sign' | _ | sign' | ⟨sign', mantissa', exponent', _⟩
    · cases sign <;> cases sign' <;> rfl
    · cases hb
    · cases sign <;> rfl
    · cases sign <;> cases sign'
      · show some ((compare exponent exponent').then (compare mantissa mantissa')).swap =
          some (compare (toLex (-1, toLex (-exponent, -(mantissa : ℤ))))
            (toLex (-1, toLex (-exponent', -(mantissa' : ℤ)))))
        rw [compare_toLex, compare_neg exponent, compare_neg (mantissa : ℤ), compare_natCast,
          Ordering.swap_then]
        rfl
      · rfl
      · rfl
      · show some ((compare exponent exponent').then (compare mantissa mantissa')) =
          some (compare (toLex (1, toLex (exponent, (mantissa : ℤ))))
            (toLex (1, toLex (exponent', (mantissa' : ℤ)))))
        rw [compare_toLex, compare_natCast]
        rfl

section Float

variable {x y : Float} (hx : x.isNaN = false) (hy : y.isNaN = false)

include hx hy

lemma lt_iff_magnitude_lt : x < y ↔
    magnitude x.toModel.unpack < magnitude y.toModel.unpack := by
  have hcompare := @compare_eq_compare_magnitude x.toModel.unpack y.toModel.unpack hx hy
  have hless : decide (x < y) = (x.toModel.unpack.compare y.toModel.unpack == some .lt) := by
    show decide (decide (_ = true) = true) = _
    rw [Bool.decide_eq_true, Bool.decide_eq_true]
    rfl
  rw [← decide_eq_true_iff (p := x < y), hless, hcompare, beq_iff_eq, Option.some_inj,
    compare_lt_iff_lt]

lemma beq_iff_magnitude_eq : (x == y) = true ↔
    magnitude x.toModel.unpack = magnitude y.toModel.unpack := by
  have hcompare := @compare_eq_compare_magnitude x.toModel.unpack y.toModel.unpack hx hy
  have hsame : (x == y) = (x.toModel.unpack.compare y.toModel.unpack == some .eq) := rfl
  rw [hsame, hcompare, beq_iff_eq, Option.some_inj, compare_eq_iff_eq]

end Float

end ImportRank.Double

namespace ImportRank.Candidate

/-- The grade of a candidate over doubles: the magnitude of its weight, then its number of
dependents. -/
def doubleGrade (candidate : Candidate Float) : (ℤ ×ₗ ℤ ×ₗ ℤ) ×ₗ ℤ :=
  toLex (Double.magnitude candidate.weight.toModel.unpack, candidate.dependents)

section Numbers

variable {candidates : List (Candidate Float)}
  (hnumbers : ∀ candidate ∈ candidates, candidate.weight.isNaN = false)

include hnumbers

/-- Candidates whose weights are numbers have grades. -/
theorem graded_double : (standing : Standing (Candidate Float)).Graded doubleGrade candidates := by
  refine graded_of_measure (fun weight : Float => Double.magnitude weight.toModel.unpack) ?_ ?_
  · intro a ha b hb
    exact decide_eq_decide.mpr (Double.lt_iff_magnitude_lt (hnumbers a ha) (hnumbers b hb))
  · intro a ha b hb
    rw [Bool.eq_iff_iff, decide_eq_true_iff]
    exact Double.beq_iff_magnitude_eq (hnumbers a ha) (hnumbers b hb)

/-- The grade is lower for a smaller weight or, if the weights are equal, for fewer dependents. -/
lemma doubleGrade_lt_iff {a b : Candidate Float} (ha : a ∈ candidates) (hb : b ∈ candidates) :
    a.doubleGrade < b.doubleGrade ↔
      a.weight < b.weight ∨ (a.weight == b.weight) = true ∧ a.dependents < b.dependents := by
  rw [doubleGrade, doubleGrade, Prod.Lex.toLex_lt_toLex,
    Double.lt_iff_magnitude_lt (hnumbers a ha) (hnumbers b hb),
    Double.beq_iff_magnitude_eq (hnumbers a ha) (hnumbers b hb)]

/-- The grade is the same if the weights are equal and so are the numbers of dependents. -/
lemma doubleGrade_eq_iff {a b : Candidate Float} (ha : a ∈ candidates) (hb : b ∈ candidates) :
    a.doubleGrade = b.doubleGrade ↔
      (a.weight == b.weight) = true ∧ a.dependents = b.dependents := by
  rw [doubleGrade, doubleGrade, toLex_inj, Prod.mk.injEq,
    Double.beq_iff_magnitude_eq (hnumbers a ha) (hnumbers b hb)]

end Numbers

end ImportRank.Candidate
