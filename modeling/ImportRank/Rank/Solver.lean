import ImportRank.Rank.Network

/-!
# The solver

From equal weights, iterations follow until the change is no longer above a tolerance. A ceiling
bounds their number; a run that stops there keeps the weights it has reached, and the solution
says so.
-/

namespace ImportRank

/-- What the solver is told: the damping factor, the change that is small enough, and how many
iterations there may be. -/
structure Settings (α : Type) where
  alpha : α
  epsilon : α
  ceiling : Nat
deriving Repr

/-- The settings of a ranking run. -/
def Settings.standard : Settings Float :=
  { alpha := 0.85, epsilon := 0.00001, ceiling := 10000 }

/-- Where the iteration stands: the weights, how many steps led to them, and the last change. -/
structure Iterate (α : Type) where
  weights : Array α
  steps : Nat
  change : α

/-- How an iteration ended: at a change that is small enough, or at the ceiling. -/
structure Solution (α : Type) where
  final : Iterate α
  converged : Bool

namespace Network

variable {α : Type} [Arithmetic α]

/-- The next iterate. -/
def next (network : Network α) (alpha : α) (now : Iterate α) : Iterate α :=
  let weights := network.advance alpha now.weights
  { weights, steps := now.steps + 1, change := network.change now.weights weights }

/-- Iterates while the change is above the tolerance, at most `remaining` times. -/
def settle (network : Network α) (alpha epsilon : α) (remaining : Nat) (now : Iterate α) :
    Solution α :=
  if Arithmetic.less epsilon now.change then
    match remaining with
    | 0 => { final := now, converged := false }
    | remaining + 1 => settle network alpha epsilon remaining (network.next alpha now)
  else { final := now, converged := true }

/-- Equal weights that sum to one, before any step. -/
def start (network : Network α) : Iterate α :=
  let share := Arithmetic.div (Arithmetic.ofInt 1) (Arithmetic.ofInt network.length)
  { weights := Array.replicate network.length share, steps := 0, change := Arithmetic.ofInt 1 }

end Network

namespace Candidate

variable {α : Type} [Arithmetic α]

/-- The candidates a solver ends with and how it ended. -/
structure Solved (α : Type) where
  candidates : List (Candidate α)
  solution : Solution α

/-- Links the candidates and solves for their weights. -/
def solve (settings : Settings α) (candidates : List (Candidate α)) : Solved α :=
  let linked := link candidates
  let network := Network.ofCandidates linked
  let solution := network.settle settings.alpha settings.epsilon settings.ceiling network.start
  { candidates := withWeights linked solution.final.weights, solution }

end Candidate

end ImportRank
