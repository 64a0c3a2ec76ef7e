/-!
# The numbers of the solver

The rank solver is written once, over any type that has the operations below. No law is asked
for: the program runs it on doubles, where addition is not associative and a comparison with
"not a number" is always false, and the theory reads the same definitions over exact fractions.
-/

namespace ImportRank

/-- The operations the solver uses. `less` and `same` are the comparisons it branches on. -/
class Arithmetic (α : Type) where
  ofInt : Int → α
  add : α → α → α
  sub : α → α → α
  mul : α → α → α
  div : α → α → α
  abs : α → α
  less : α → α → Bool
  same : α → α → Bool

/-- Doubles: integers are rounded to the nearest double, each operation rounds once. -/
instance : Arithmetic Float where
  ofInt := Float.ofInt
  add := (· + ·)
  sub := (· - ·)
  mul := (· * ·)
  div := (· / ·)
  abs := Float.abs
  less := fun x y => x < y
  same := fun x y => x == y

end ImportRank
