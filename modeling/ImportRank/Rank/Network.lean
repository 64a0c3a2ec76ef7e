import ImportRank.Rank.Graph

/-!
# One iteration

While weights flow, everything else about the candidates stands still. A `Network` is that
standing part, with targets looked up once: a link to something that is no candidate leads
nowhere and is gone. The state of the iteration is then an array of weights, and one step
collects what each candidate holds, empties it, and deposits shares in order.
-/

namespace ImportRank

/-- One candidate of a network. `holder` is where the weight it passes on is collected, `shares`
are its links to positions, and `dangling` says that it has no outbound weight. -/
structure Station (α : Type) where
  holder : Nat
  shares : List (Nat × α)
  dangling : Bool
deriving Repr

/-- The candidates of an iteration by position. -/
abbrev Network (α : Type) := List (Station α)

namespace Network

variable {α : Type} [Arithmetic α]

/-- The network of linked candidates. -/
def ofCandidates (candidates : List (Candidate α)) : Network α :=
  candidates.mapIdx fun place candidate =>
    { holder := (Candidate.position? candidates candidate.key).getD place
      shares := candidate.links.filterMap fun (target, amount) =>
        (Candidate.position? candidates target).map (·, amount.value)
      dangling := Arithmetic.same candidate.outbound (Arithmetic.ofInt 0) }

/-- The weight at a position. -/
def weightAt (weights : Array α) (place : Nat) : α :=
  weights.getD place (Arithmetic.ofInt 0)

/-- Adds to the weight at a position. -/
def deposit (weights : Array α) (place : Nat) (amount : α) : Array α :=
  weights.modify place (Arithmetic.add · amount)

@[simp] theorem size_deposit (weights : Array α) (place : Nat) (amount : α) :
    (deposit weights place amount).size = weights.size :=
  Array.size_modify

/-- The weight that the dangling candidates hold. -/
def danglingWeight (network : Network α) (weights : Array α) : α :=
  (network.zipIdx.filter (·.1.dangling)).foldl
    (fun held (_, place) => Arithmetic.add held (weightAt weights place)) (Arithmetic.ofInt 0)

/-- What every candidate receives whoever links to it: the teleport share and its part of the
weight that dangling candidates hold. -/
def baseShare (network : Network α) (alpha : α) (weights : Array α) : α :=
  let inverse := Arithmetic.div (Arithmetic.ofInt 1) (Arithmetic.ofInt network.length)
  let leaked := Arithmetic.mul (danglingWeight network weights) alpha
  Arithmetic.add (Arithmetic.mul (Arithmetic.sub (Arithmetic.ofInt 1) alpha) inverse)
    (Arithmetic.mul leaked inverse)

/-- Deposits what one candidate passes on, and then the base share it receives. -/
def spread (alpha base : α) (old : Array α) (weights : Array α) (station : Station α)
    (place : Nat) : Array α :=
  let passed := Arithmetic.mul alpha (weightAt old station.holder)
  let weights := station.shares.foldl
    (fun weights (target, share) => deposit weights target (Arithmetic.mul passed share)) weights
  deposit weights place base

@[simp] theorem size_spread (alpha base : α) (old weights : Array α) (station : Station α)
    (place : Nat) : (spread alpha base old weights station place).size = weights.size := by
  rw [spread, size_deposit]
  induction station.shares generalizing weights with
  | nil => rfl
  | cons link shares ih => rw [List.foldl_cons, ih, size_deposit]

/-- The weights after one iteration. -/
def advance (network : Network α) (alpha : α) (weights : Array α) : Array α :=
  let base := baseShare network alpha weights
  network.zipIdx.foldl (fun next (station, place) => spread alpha base weights next station place)
    (Array.replicate weights.size (Arithmetic.ofInt 0))

@[simp] theorem size_advance (network : Network α) (alpha : α) (weights : Array α) :
    (network.advance alpha weights).size = weights.size := by
  have hfold : ∀ (stations : List (Station α × Nat)) (base : α) (next : Array α),
      (stations.foldl (fun next (station, place) => spread alpha base weights next station place)
        next).size = next.size := by
    intro stations base next
    induction stations generalizing next with
    | nil => rfl
    | cons head stations ih => rw [List.foldl_cons, ih, size_spread]
  rw [advance, hfold, Array.size_replicate]

/-- The sum over all candidates of how far the weight moved. -/
def change (network : Network α) (old new : Array α) : α :=
  network.zipIdx.foldl
    (fun total (station, place) =>
      Arithmetic.add total
        (Arithmetic.abs (Arithmetic.sub (weightAt new place) (weightAt old station.holder))))
    (Arithmetic.ofInt 0)

end Network

namespace Candidate

variable {α : Type} [Arithmetic α]

/-- The weights of candidates by position. -/
def weights (candidates : List (Candidate α)) : Array α := (candidates.map weight).toArray

/-- The candidates with other weights. -/
def withWeights (candidates : List (Candidate α)) (weights : Array α) : List (Candidate α) :=
  candidates.zipWith (fun candidate weight => { candidate with weight }) weights.toList

/-- One iteration on candidates: the change it makes and the candidates after it. There is none
without a candidate, whose number divides the teleport share. -/
def step? (alpha : α) (candidates : List (Candidate α)) : Option (α × List (Candidate α)) :=
  if candidates.isEmpty then none
  else
    let network := Network.ofCandidates candidates
    let next := network.advance alpha (weights candidates)
    some (network.change (weights candidates) next, withWeights candidates next)

end Candidate

end ImportRank
