import ImportRank.Rank.Arithmetic
import Mathlib.Algebra.BigOperators.Fin
import Mathlib.Algebra.BigOperators.Group.List.Lemmas
import Mathlib.Algebra.Order.Ring.Rat
import Mathlib.Algebra.Order.Group.Unbundled.Abs
import Mathlib.Algebra.Field.Rat

/-!
# Exact arithmetic

The solver's operations read over fractions, where each of them has the laws it lacks on doubles.
The lemmas rewrite an operation of the solver into the field's own.
-/

namespace ImportRank

/-- Fractions: no operation rounds. -/
instance : Arithmetic ℚ where
  ofInt n := n
  add x y := x + y
  sub x y := x - y
  mul x y := x * y
  div x y := x / y
  abs x := |x|
  less x y := decide (x < y)
  same x y := decide (x = y)

namespace Arithmetic

@[simp] lemma ofInt_rat (n : ℤ) : (ofInt n : ℚ) = n := rfl

@[simp] lemma add_rat (x y : ℚ) : add x y = x + y := rfl

@[simp] lemma sub_rat (x y : ℚ) : sub x y = x - y := rfl

@[simp] lemma mul_rat (x y : ℚ) : mul x y = x * y := rfl

@[simp] lemma div_rat (x y : ℚ) : div x y = x / y := rfl

@[simp] lemma abs_rat (x : ℚ) : abs x = |x| := rfl

@[simp] lemma less_rat (x y : ℚ) : less x y = decide (x < y) := rfl

@[simp] lemma same_rat (x y : ℚ) : same x y = decide (x = y) := rfl

end Arithmetic

/-! ## Sums over lists -/

/-- A fold that adds up is a sum. -/
lemma foldl_add_eq_sum {β : Type} (items : List β) (amount : β → ℚ) (total : ℚ) :
    items.foldl (fun total item => total + amount item) total =
      total + (items.map amount).sum := by
  induction items generalizing total with
  | nil => simp
  | cons item items ih => rw [List.foldl_cons, ih, List.map_cons, List.sum_cons, add_assoc]

/-- A sum over a list with its positions is a sum over the positions. -/
lemma sum_zipIdx {β : Type} (items : List β) (amount : β × ℕ → ℚ) :
    (items.zipIdx.map amount).sum = ∑ i : Fin items.length, amount (items[i], i) := by
  have hlist : items.zipIdx.map amount = List.ofFn fun i : Fin items.length =>
      amount (items[i], i) := by
    refine List.ext_getElem (by simp) fun i hi hi' => ?_
    simp
  rw [hlist, List.sum_ofFn]

/-- The sum over the members of a list that pass a test. -/
lemma sum_map_filter {β : Type} (items : List β) (test : β → Bool) (amount : β → ℚ) :
    ((items.filter test).map amount).sum =
      (items.map fun item => if test item then amount item else 0).sum := by
  induction items with
  | nil => rfl
  | cons item items ih =>
    by_cases htest : test item
    · rw [List.filter_cons_of_pos htest, List.map_cons, List.sum_cons, ih, List.map_cons,
        List.sum_cons, if_pos htest]
    · rw [List.filter_cons_of_neg htest, ih, List.map_cons, List.sum_cons, if_neg htest, zero_add]

end ImportRank
