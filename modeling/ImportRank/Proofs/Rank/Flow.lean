import ImportRank.Proofs.Rank.Advance
import ImportRank.Proofs.Rank.Linking
import Mathlib.Algebra.Order.BigOperators.Group.Finset
import Mathlib.Algebra.Order.BigOperators.Group.List
import Mathlib.Tactic.Linarith

/-!
# How weight flows

What an iteration does to the sum of all weights, to their signs and to the distance between two
assignments of them, for any network whose stations owe no more than a whole. Main statements:
`sum_reading_advance_eq_one`, `reading_advance_pos` and `distance_advance_le`.
-/

namespace ImportRank.Network

/-! ## Networks that create nothing -/

/-- Stations owe no negative shares and together no more than a whole. What dangles is spread
evenly, so a station that dangles owes nothing besides. -/
structure Substochastic (network : Network ℚ) : Prop where
  share_nonneg : ∀ station ∈ network, ∀ link ∈ station.shares, 0 ≤ link.2
  total_le : ∀ station ∈ network,
    (station.shares.map Prod.snd).sum ≤ if station.dangling then 0 else 1

/-- Stations owe exactly a whole, or nothing where they dangle. -/
def Conserving (network : Network ℚ) : Prop :=
  ∀ station ∈ network, (station.shares.map Prod.snd).sum = if station.dangling then 0 else 1

variable {network : Network ℚ}

lemma shareTo_nonneg (hsub : network.Substochastic) {station : Station ℚ}
    (hstation : station ∈ network) (place : ℕ) : 0 ≤ station.shareTo place := by
  refine List.sum_nonneg fun amount hamount => ?_
  obtain ⟨link, hlink, rfl⟩ := List.mem_map.mp hamount
  dsimp only
  split
  · exact hsub.share_nonneg station hstation link hlink
  · rfl

/-- Summed over all positions, the shares that lead to positions are all shares. -/
lemma sum_shareTo {count : ℕ} {station : Station ℚ}
    (htarget : ∀ link ∈ station.shares, link.1 < count) :
    ∑ place : Fin count, station.shareTo place = (station.shares.map Prod.snd).sum := by
  obtain ⟨holder, shares, dangling⟩ := station
  unfold Station.shareTo
  dsimp only at htarget ⊢
  induction shares with
  | nil => simp
  | cons link shares ih =>
    have hlink : link.1 < count := htarget link List.mem_cons_self
    have hplace : ∀ place : Fin count,
        link.1 = (place : ℕ) ↔ (⟨link.1, hlink⟩ : Fin count) = place := by
      intro place
      rw [Fin.ext_iff]
    have hfirst : ∑ place : Fin count, (if link.1 = (place : ℕ) then link.2 else 0) = link.2 := by
      simp only [hplace]
      rw [Finset.sum_ite_eq, if_pos (Finset.mem_univ _)]
    simp only [List.map_cons, List.sum_cons, Finset.sum_add_distrib]
    rw [ih fun other hother => htarget other (List.mem_cons_of_mem _ hother), hfirst]

lemma flow_nonneg (hsub : network.Substochastic) (target source : Fin network.length) :
    0 ≤ network.flow target source := by
  rw [flow]
  refine add_nonneg (shareTo_nonneg hsub (List.get_mem network source) _) ?_
  split
  · positivity
  · rfl

/-- The column of a source: all it owes, and the whole of what dangles. -/
lemma sum_flow (hwired : network.Wired) (source : Fin network.length) :
    ∑ target, network.flow target source =
      ((network.get source).shares.map Prod.snd).sum +
        if (network.get source).dangling then 1 else 0 := by
  have hlength : (network.length : ℚ) ≠ 0 := by
    exact_mod_cast (Nat.zero_lt_of_lt source.isLt).ne'
  show ∑ target : Fin network.length, ((network.get source).shareTo target +
    if (network.get source).dangling then 1 / (network.length : ℚ) else 0) = _
  rw [Finset.sum_add_distrib, sum_shareTo (hwired.target_lt _ (List.get_mem network source)),
    Finset.sum_const, Finset.card_univ, Fintype.card_fin, nsmul_eq_mul]
  split
  · rw [mul_one_div_cancel hlength]
  · rw [mul_zero]

lemma sum_flow_le_one (hwired : network.Wired) (hsub : network.Substochastic)
    (source : Fin network.length) : ∑ target, network.flow target source ≤ 1 := by
  have htotal := hsub.total_le _ (List.get_mem network source)
  rw [sum_flow hwired]
  by_cases hdangling : (network.get source).dangling = true
  · rw [if_pos hdangling] at htotal ⊢
    linarith
  · rw [if_neg hdangling] at htotal ⊢
    linarith

lemma sum_flow_eq_one (hwired : network.Wired) (hconserving : network.Conserving)
    (source : Fin network.length) : ∑ target, network.flow target source = 1 := by
  rw [sum_flow hwired, hconserving _ (List.get_mem network source)]
  split <;> simp

/-! ## The sum of all weights -/

/-- An iteration keeps the damped part of the weight as far as the columns are whole, and adds the
teleport share. -/
lemma sum_reading_advance (hwired : network.Wired) (hnonempty : network ≠ []) (alpha : ℚ)
    {weights : Array ℚ} (hsize : weights.size = network.length) :
    ∑ i, network.reading (network.advance alpha weights) i =
      alpha * ∑ source, (∑ target, network.flow target source) * network.reading weights source +
        (1 - alpha) := by
  have hlength : (network.length : ℚ) ≠ 0 := by
    exact_mod_cast (List.length_pos_iff.mpr hnonempty).ne'
  rw [reading_advance hwired alpha hsize]
  simp only [Pi.add_apply, Pi.smul_apply, smul_eq_mul, Finset.sum_add_distrib]
  congr 1
  · rw [← Finset.mul_sum]
    simp only [Matrix.mulVec, dotProduct]
    rw [Finset.sum_comm]
    simp only [Finset.sum_mul]
  · rw [Finset.sum_const, Finset.card_univ, Fintype.card_fin, nsmul_eq_mul,
      mul_div_cancel₀ _ hlength]

/-- In a network that conserves weight a sum of one stays one. -/
theorem sum_reading_advance_eq_one (hwired : network.Wired) (hconserving : network.Conserving)
    (hnonempty : network ≠ []) (alpha : ℚ) {weights : Array ℚ}
    (hsize : weights.size = network.length) (hsum : ∑ i, network.reading weights i = 1) :
    ∑ i, network.reading (network.advance alpha weights) i = 1 := by
  rw [sum_reading_advance hwired hnonempty alpha hsize]
  simp only [sum_flow_eq_one hwired hconserving, one_mul]
  rw [hsum]
  ring

lemma mulVec_nonneg (hsub : network.Substochastic) {vector : Fin network.length → ℚ}
    (hnonneg : ∀ i, 0 ≤ vector i) (i : Fin network.length) : 0 ≤ network.flow.mulVec vector i :=
  Finset.sum_nonneg fun source _ => mul_nonneg (flow_nonneg hsub i source) (hnonneg source)

/-- An iteration leaves no weight negative. -/
theorem reading_advance_nonneg (hwired : network.Wired) (hsub : network.Substochastic) {alpha : ℚ}
    (halpha : 0 ≤ alpha) (halpha' : alpha ≤ 1) {weights : Array ℚ}
    (hsize : weights.size = network.length) (hnonneg : ∀ i, 0 ≤ network.reading weights i)
    (i : Fin network.length) : 0 ≤ network.reading (network.advance alpha weights) i := by
  rw [reading_advance hwired alpha hsize]
  simp only [Pi.add_apply, Pi.smul_apply, smul_eq_mul]
  exact add_nonneg (mul_nonneg halpha (mulVec_nonneg hsub hnonneg i))
    (div_nonneg (by linarith) (Nat.cast_nonneg _))

/-- An iteration that teleports leaves weight everywhere. -/
theorem reading_advance_pos (hwired : network.Wired) (hsub : network.Substochastic) {alpha : ℚ}
    (halpha : 0 ≤ alpha) (halpha' : alpha < 1) {weights : Array ℚ}
    (hsize : weights.size = network.length) (hnonneg : ∀ i, 0 ≤ network.reading weights i)
    (i : Fin network.length) : 0 < network.reading (network.advance alpha weights) i := by
  have hlength : (0 : ℚ) < network.length := by exact_mod_cast Nat.zero_lt_of_lt i.isLt
  rw [reading_advance hwired alpha hsize]
  simp only [Pi.add_apply, Pi.smul_apply, smul_eq_mul]
  exact add_pos_of_nonneg_of_pos (mul_nonneg halpha (mulVec_nonneg hsub hnonneg i))
    (div_pos (by linarith) hlength)

/-- Where columns hold at most a whole, a sum of at most one stays so. -/
theorem sum_reading_advance_le_one (hwired : network.Wired) (hsub : network.Substochastic)
    (hnonempty : network ≠ []) {alpha : ℚ} (halpha : 0 ≤ alpha) {weights : Array ℚ}
    (hsize : weights.size = network.length) (hnonneg : ∀ i, 0 ≤ network.reading weights i)
    (hsum : ∑ i, network.reading weights i ≤ 1) :
    ∑ i, network.reading (network.advance alpha weights) i ≤ 1 := by
  have hcolumns : ∑ source, (∑ target, network.flow target source) *
      network.reading weights source ≤ ∑ source, network.reading weights source :=
    Finset.sum_le_sum fun source _ =>
      mul_le_of_le_one_left (hnonneg source) (sum_flow_le_one hwired hsub source)
  have hdamped := mul_le_mul_of_nonneg_left (hcolumns.trans hsum) halpha
  rw [sum_reading_advance hwired hnonempty alpha hsize]
  linarith

/-! ## Distances -/

/-- The sum over all positions of how far two assignments of weights are apart. -/
def distance (network : Network ℚ) (a b : Array ℚ) : ℚ :=
  ∑ i, |network.reading a i - network.reading b i|

lemma distance_nonneg (network : Network ℚ) (a b : Array ℚ) : 0 ≤ network.distance a b :=
  Finset.sum_nonneg fun _ _ => abs_nonneg _

lemma distance_comm (network : Network ℚ) (a b : Array ℚ) :
    network.distance a b = network.distance b a :=
  Finset.sum_congr rfl fun _ _ => abs_sub_comm _ _

lemma distance_triangle (network : Network ℚ) (a b c : Array ℚ) :
    network.distance a c ≤ network.distance a b + network.distance b c := by
  unfold distance
  rw [← Finset.sum_add_distrib]
  exact Finset.sum_le_sum fun i _ => abs_sub_le _ _ _

/-- A flow lengthens no vector: its columns hold no negative share and at most a whole. -/
lemma sum_abs_mulVec_le (hwired : network.Wired) (hsub : network.Substochastic)
    (vector : Fin network.length → ℚ) :
    ∑ target, |network.flow.mulVec vector target| ≤ ∑ source, |vector source| := by
  calc ∑ target, |network.flow.mulVec vector target|
      ≤ ∑ target, ∑ source, |network.flow target source * vector source| :=
        Finset.sum_le_sum fun target _ => Finset.abs_sum_le_sum_abs _ _
    _ = ∑ source, (∑ target, network.flow target source) * |vector source| := by
        -- column by column, since it is the columns that hold at most a whole
        rw [Finset.sum_comm]
        refine Finset.sum_congr rfl fun source _ => ?_
        rw [Finset.sum_mul]
        refine Finset.sum_congr rfl fun target _ => ?_
        rw [abs_mul, abs_of_nonneg (flow_nonneg hsub target source)]
    _ ≤ ∑ source, |vector source| := by
        refine Finset.sum_le_sum fun source _ => ?_
        exact mul_le_of_le_one_left (abs_nonneg _) (sum_flow_le_one hwired hsub source)

/-- An iteration brings two assignments of weights together by the damping factor. -/
theorem distance_advance_le (hwired : network.Wired) (hsub : network.Substochastic) {alpha : ℚ}
    (halpha : 0 ≤ alpha) {a b : Array ℚ} (ha : a.size = network.length)
    (hb : b.size = network.length) :
    network.distance (network.advance alpha a) (network.advance alpha b) ≤
      alpha * network.distance a b := by
  have hdifference : ∀ i, |network.reading (network.advance alpha a) i -
      network.reading (network.advance alpha b) i| =
        alpha * |network.flow.mulVec (network.reading a - network.reading b) i| := by
    intro i
    rw [reading_advance hwired alpha ha, reading_advance hwired alpha hb, Matrix.mulVec_sub,
      ← abs_of_nonneg halpha, ← abs_mul, abs_of_nonneg halpha]
    congr 1
    simp only [Pi.add_apply, Pi.sub_apply, Pi.smul_apply, smul_eq_mul]
    ring
  rw [distance, Finset.sum_congr rfl fun i _ => hdifference i, ← Finset.mul_sum]
  exact mul_le_mul_of_nonneg_left (sum_abs_mulVec_le hwired hsub _) halpha

end ImportRank.Network
