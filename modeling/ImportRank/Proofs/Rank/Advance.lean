import ImportRank.Proofs.Rank.Exact
import ImportRank.Rank.Network
import Mathlib.Algebra.BigOperators.Field
import Mathlib.Data.Matrix.Mul
import Mathlib.Tactic.Ring
import Mathlib.Tactic.FieldSimp

/-!
# One iteration as a product

An iteration deposits shares into an array, one after the other. Over exact fractions the order of
the deposits does not matter: what a position holds in the end is a sum over the stations. Main
statement: `reading_advance`, by which an iteration is one multiplication by the matrix `flow`,
damped, plus the teleport share.
-/

namespace ImportRank.Network

/-! ## Deposits -/

lemma weightAt_of_lt {weights : Array ℚ} {place : ℕ} (hplace : place < weights.size) :
    weightAt weights place = weights[place] := by
  simp [weightAt, hplace]

lemma weightAt_deposit {weights : Array ℚ} {place : ℕ} (hplace : place < weights.size)
    (target : ℕ) (amount : ℚ) :
    weightAt (deposit weights target amount) place =
      weightAt weights place + if target = place then amount else 0 := by
  have hplace' : place < (deposit weights target amount).size := by simpa using hplace
  rw [weightAt_of_lt hplace, weightAt_of_lt hplace']
  simp only [deposit, Array.getElem_modify, Arithmetic.add_rat]
  split <;> simp

end Network

/-- The part of the weight it passes on that a station sends to a position. -/
def Station.shareTo (station : Station ℚ) (place : ℕ) : ℚ :=
  (station.shares.map fun (target, share) => if target = place then share else 0).sum

namespace Network

lemma size_foldl_deposit (passed : ℚ) (shares : List (ℕ × ℚ)) (weights : Array ℚ) :
    (shares.foldl (fun weights (target, share) =>
      deposit weights target (Arithmetic.mul passed share)) weights).size = weights.size := by
  induction shares generalizing weights with
  | nil => rfl
  | cons link shares ih => rw [List.foldl_cons, ih, size_deposit]

lemma weightAt_foldl_deposit {place : ℕ} (passed : ℚ) (shares : List (ℕ × ℚ))
    {weights : Array ℚ} (hplace : place < weights.size) :
    weightAt (shares.foldl (fun weights (target, share) =>
      deposit weights target (Arithmetic.mul passed share)) weights) place =
      weightAt weights place +
        passed * (shares.map fun (target, share) => if target = place then share else 0).sum := by
  induction shares generalizing weights with
  | nil => simp
  | cons link shares ih =>
    obtain ⟨target, share⟩ := link
    have hnext : place < (deposit weights target (Arithmetic.mul passed share)).size := by
      simpa using hplace
    simp only [List.foldl_cons, List.map_cons, List.sum_cons]
    rw [ih hnext, weightAt_deposit hplace, Arithmetic.mul_rat]
    split <;> ring

lemma weightAt_spread {weights : Array ℚ} {place : ℕ} (hplace : place < weights.size)
    (alpha base : ℚ) (old : Array ℚ) (station : Station ℚ) (source : ℕ) :
    weightAt (spread alpha base old weights station source) place =
      weightAt weights place + (alpha * weightAt old station.holder * station.shareTo place +
        if source = place then base else 0) := by
  rw [spread, weightAt_deposit (by rwa [size_foldl_deposit]), weightAt_foldl_deposit _ _ hplace,
    Station.shareTo, Arithmetic.mul_rat, add_assoc]

/-! ## An iteration -/

lemma weightAt_foldl_spread {place : ℕ} (alpha base : ℚ) (old : Array ℚ)
    (stations : List (Station ℚ × ℕ)) {next : Array ℚ} (hplace : place < next.size) :
    weightAt (stations.foldl (fun next (station, source) =>
      spread alpha base old next station source) next) place =
      weightAt next place + (stations.map fun (station, source) =>
        alpha * weightAt old station.holder * station.shareTo place +
          if source = place then base else 0).sum := by
  induction stations generalizing next with
  | nil => simp
  | cons head stations ih =>
    have hnext : place < (spread alpha base old next head.1 head.2).size := by simpa using hplace
    rw [List.foldl_cons, ih hnext, weightAt_spread hplace, List.map_cons, List.sum_cons, add_assoc]

/-- What an iteration leaves at a position: what every station sends there, and the base share. -/
lemma weightAt_advance (network : Network ℚ) (alpha : ℚ) (weights : Array ℚ) {place : ℕ}
    (hplace : place < weights.size) :
    weightAt (network.advance alpha weights) place =
      ∑ i : Fin network.length, (alpha * weightAt weights network[i].holder *
        network[i].shareTo place +
          if (i : ℕ) = place then network.baseShare alpha weights else 0) := by
  have hsize : place < (Array.replicate weights.size (Arithmetic.ofInt 0 : ℚ)).size := by
    simpa using hplace
  rw [advance, weightAt_foldl_spread _ _ _ _ hsize, weightAt_of_lt hsize,
    Array.getElem_replicate, sum_zipIdx]
  simp

lemma danglingWeight_eq_sum (network : Network ℚ) (weights : Array ℚ) :
    network.danglingWeight weights =
      ∑ i : Fin network.length, if network[i].dangling then weightAt weights i else 0 := by
  unfold danglingWeight
  simp only [Arithmetic.add_rat]
  rw [foldl_add_eq_sum _ (fun entry : Station ℚ × ℕ => weightAt weights entry.2), sum_map_filter,
    sum_zipIdx]
  simp

lemma baseShare_eq (network : Network ℚ) (alpha : ℚ) (weights : Array ℚ) :
    network.baseShare alpha weights =
      ((1 - alpha) + alpha * network.danglingWeight weights) / network.length := by
  simp only [baseShare, Arithmetic.add_rat, Arithmetic.mul_rat, Arithmetic.sub_rat,
    Arithmetic.div_rat, Arithmetic.ofInt_rat, Int.cast_one, Int.cast_natCast]
  ring

/-! ## The flow matrix -/

/-- A network whose stations pass on their own weight, to positions that exist. -/
structure Wired (network : Network ℚ) : Prop where
  holder_eq : ∀ i : Fin network.length, network[i].holder = i
  target_lt : ∀ station ∈ network, ∀ link ∈ station.shares, link.1 < network.length

/-- The part of the weight at a source that an undamped iteration takes to a target: the share
that links to it, and an equal part of what dangles. -/
def flow (network : Network ℚ) : Matrix (Fin network.length) (Fin network.length) ℚ :=
  fun target source => network[source].shareTo target +
    if network[source].dangling then 1 / (network.length : ℚ) else 0

/-- The weights of a network's positions as a vector. -/
def reading (network : Network ℚ) (weights : Array ℚ) : Fin network.length → ℚ :=
  fun i => weightAt weights i

/-- What holds of all that is read holds of all weights. -/
lemma forall_mem_toList_of_reading {network : Network ℚ} {weights : Array ℚ} {holds : ℚ → Prop}
    (hsize : weights.size = network.length) (hreading : ∀ i, holds (network.reading weights i)) :
    ∀ weight ∈ weights.toList, holds weight := by
  intro weight hweight
  obtain ⟨place, hplace, rfl⟩ := List.getElem_of_mem hweight
  have hlt : place < weights.size := hplace
  have hread := hreading ⟨place, hsize ▸ hlt⟩
  rwa [reading, weightAt_of_lt hlt] at hread

/-- The sum of all weights is the sum of all that is read. -/
lemma sum_toList_eq {network : Network ℚ} {weights : Array ℚ}
    (hsize : weights.size = network.length) :
    weights.toList.sum = ∑ i, network.reading weights i := by
  have hlength : network.length = weights.toList.length :=
    hsize.symm.trans Array.length_toList.symm
  rw [← Fin.sum_univ_getElem]
  refine (Fintype.sum_equiv (finCongr hlength) _ _ fun i => ?_).symm
  have hlt : (i : ℕ) < weights.size := hsize.symm ▸ i.isLt
  rw [reading, weightAt_of_lt hlt]
  rfl

/-- An iteration multiplies by the flow, damps the result and adds the teleport share. -/
theorem reading_advance {network : Network ℚ} (hwired : network.Wired) (alpha : ℚ)
    {weights : Array ℚ} (hsize : weights.size = network.length) :
    network.reading (network.advance alpha weights) =
      alpha • network.flow.mulVec (network.reading weights) +
        fun _ => (1 - alpha) / network.length := by
  funext place
  have hplace : (place : ℕ) < weights.size := by rw [hsize]; exact place.isLt
  -- every position receives the base share once, from the station that stands at it
  have hbase : ∑ i : Fin network.length, (if (i : ℕ) = place then
      network.baseShare alpha weights else 0) = network.baseShare alpha weights := by
    simp only [← Fin.ext_iff]
    rw [Finset.sum_ite_eq' Finset.univ place, if_pos (Finset.mem_univ _)]
  have hterm : ∀ i : Fin network.length, alpha * (network.flow place i * network.reading weights i)
      = alpha * weightAt weights network[i].holder * network[i].shareTo place +
        alpha * (if network[i].dangling then weightAt weights i else 0) / network.length := by
    intro i
    rw [hwired.holder_eq, flow, reading]
    split <;> ring
  calc network.reading (network.advance alpha weights) place
      = ∑ i : Fin network.length, alpha * weightAt weights network[i].holder *
          network[i].shareTo place +
            (1 - alpha + alpha * network.danglingWeight weights) / network.length := by
        rw [reading, weightAt_advance _ _ _ hplace, Finset.sum_add_distrib, hbase, baseShare_eq]
    _ = ∑ i, alpha * (network.flow place i * network.reading weights i) +
          (1 - alpha) / network.length := by
        rw [Finset.sum_congr rfl fun i _ => hterm i, Finset.sum_add_distrib,
          danglingWeight_eq_sum, add_comm (1 - alpha), add_div, Finset.mul_sum, Finset.sum_div]
        ring
    _ = _ := by
        rw [← Finset.mul_sum]
        rfl

/-- The change of an iteration is the sum over all positions of how far the weight moved. -/
theorem change_eq {network : Network ℚ} (hwired : network.Wired) (old new : Array ℚ) :
    network.change old new =
      ∑ i, |network.reading new i - network.reading old i| := by
  unfold change
  simp only [Arithmetic.add_rat, Arithmetic.abs_rat, Arithmetic.sub_rat, Arithmetic.ofInt_rat,
    Int.cast_zero]
  rw [foldl_add_eq_sum _ (fun entry : Station ℚ × ℕ =>
    |weightAt new entry.2 - weightAt old entry.1.holder|), sum_zipIdx, zero_add]
  refine Finset.sum_congr rfl fun i _ => ?_
  rw [hwired.holder_eq]
  rfl

end ImportRank.Network
