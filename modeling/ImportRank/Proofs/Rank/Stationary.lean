import ImportRank.Proofs.Rank.Convergence
import Mathlib.LinearAlgebra.FiniteDimensional.Basic
import Mathlib.LinearAlgebra.Matrix.ToLin

/-!
# Weights that an iteration keeps

A damped network has exactly one assignment of weights that an iteration leaves as it is: the
equation for it is linear, and two solutions would be brought together by the damping factor. Every
iterate is at most the factor times as far from that assignment as the one before, so a run that
stops at a small change stops close to it.
-/

namespace ImportRank

open Network

namespace Network

variable {network : Network ℚ} {alpha : ℚ}

/-! ## Vectors that vanish -/

lemma eq_zero_of_sum_abs_eq_zero {count : ℕ} {vector : Fin count → ℚ}
    (hsum : ∑ i, |vector i| = 0) : vector = 0 := by
  funext i
  have hterm := (Finset.sum_eq_zero_iff_of_nonneg fun _ _ => abs_nonneg _).mp hsum i
    (Finset.mem_univ i)
  exact abs_eq_zero.mp hterm

/-- What a damping factor does not shrink is nothing. -/
lemma eq_zero_of_le_mul {length : ℚ} (halpha' : alpha < 1) (hnonneg : 0 ≤ length)
    (hle : length ≤ alpha * length) : length = 0 := by
  nlinarith

/-! ## Weights and vectors -/

lemma reading_ofFn (network : Network ℚ) (vector : Fin network.length → ℚ) :
    network.reading (Array.ofFn vector) = vector := by
  funext i
  rw [reading, weightAt_of_lt (by simp)]
  simp

/-- Weights at all positions of a network are determined by their reading. -/
lemma eq_of_reading_eq {a b : Array ℚ} (ha : a.size = network.length)
    (hb : b.size = network.length) (hreading : network.reading a = network.reading b) : a = b := by
  refine Array.ext (ha.trans hb.symm) fun place hplace hplace' => ?_
  have hread := congrFun hreading ⟨place, ha ▸ hplace⟩
  rw [reading, reading, weightAt_of_lt hplace, weightAt_of_lt hplace'] at hread
  exact hread

lemma eq_of_distance_eq_zero {a b : Array ℚ} (ha : a.size = network.length)
    (hb : b.size = network.length) (hzero : network.distance a b = 0) : a = b := by
  have hdifference : network.reading a - network.reading b = 0 := eq_zero_of_sum_abs_eq_zero hzero
  exact eq_of_reading_eq ha hb (sub_eq_zero.mp hdifference)

section Damped

variable (hwired : network.Wired) (hsub : network.Substochastic) (halpha : 0 ≤ alpha)
  (halpha' : alpha < 1)

include hwired hsub halpha halpha'

/-! ## Existence -/

/-- Only the zero vector is its own damped flow. -/
lemma eq_zero_of_eq_smul_mulVec {vector : Fin network.length → ℚ}
    (hvector : vector = alpha • network.flow.mulVec vector) : vector = 0 := by
  have hle : ∑ i, |vector i| ≤ alpha * ∑ i, |vector i| := by
    calc ∑ i, |vector i| = ∑ i, alpha * |network.flow.mulVec vector i| := by
          refine Finset.sum_congr rfl fun i _ => ?_
          nth_rewrite 1 [hvector]
          rw [Pi.smul_apply, smul_eq_mul, abs_mul, abs_of_nonneg halpha]
      _ = alpha * ∑ i, |network.flow.mulVec vector i| := by rw [Finset.mul_sum]
      _ ≤ alpha * ∑ i, |vector i| :=
          mul_le_mul_of_nonneg_left (sum_abs_mulVec_le hwired hsub vector) halpha
  have hnonneg : 0 ≤ ∑ i, |vector i| := Finset.sum_nonneg fun _ _ => abs_nonneg _
  exact eq_zero_of_sum_abs_eq_zero (eq_zero_of_le_mul halpha' hnonneg hle)

/-- The equation of weights that an iteration keeps has a solution for every right-hand side. -/
lemma exists_eq_smul_mulVec_add (source : Fin network.length → ℚ) :
    ∃ vector, vector = alpha • network.flow.mulVec vector + source := by
  -- In finite dimension an equation whose solutions are unique has one for every right-hand side.
  have hinjective : Function.Injective
      (LinearMap.id - alpha • network.flow.mulVecLin :
        (Fin network.length → ℚ) →ₗ[ℚ] Fin network.length → ℚ) := by
    rw [← LinearMap.ker_eq_bot, LinearMap.ker_eq_bot']
    intro vector hvector
    refine eq_zero_of_eq_smul_mulVec hwired hsub halpha halpha' (sub_eq_zero.mp ?_)
    simpa using hvector
  obtain ⟨vector, hvector⟩ := LinearMap.injective_iff_surjective.mp hinjective source
  refine ⟨vector, ?_⟩
  rw [← hvector]
  simp

/-- Some weights are left as they are by an iteration. -/
theorem exists_advance_eq :
    ∃ fixed : Array ℚ, fixed.size = network.length ∧ network.advance alpha fixed = fixed := by
  obtain ⟨vector, hvector⟩ := exists_eq_smul_mulVec_add hwired hsub halpha halpha'
    fun _ => (1 - alpha) / network.length
  have hsize : (Array.ofFn vector).size = network.length := by simp
  refine ⟨Array.ofFn vector, hsize, eq_of_reading_eq (by simp) hsize ?_⟩
  rw [reading_advance hwired alpha hsize, reading_ofFn]
  exact hvector.symm

/-! ## Uniqueness and distance -/

/-- No two assignments are. -/
theorem eq_of_advance_eq {a b : Array ℚ} (ha : a.size = network.length)
    (hb : b.size = network.length) (hfixed : network.advance alpha a = a)
    (hfixed' : network.advance alpha b = b) : a = b := by
  have hle := distance_advance_le hwired hsub halpha ha hb
  rw [hfixed, hfixed'] at hle
  exact eq_of_distance_eq_zero ha hb
    (eq_zero_of_le_mul halpha' (network.distance_nonneg a b) hle)

/-- An iterate is no further from weights that an iteration keeps than its change allows. -/
theorem distance_iterate_le {fixed : Array ℚ} (hsize : fixed.size = network.length)
    (hfixed : network.advance alpha fixed = fixed) (count : ℕ) :
    network.distance (network.iterate alpha (count + 1)).weights fixed ≤
      alpha * (network.iterate alpha (count + 1)).change / (1 - alpha) := by
  set now := (network.iterate alpha count).weights with hnow
  set new := (network.iterate alpha (count + 1)).weights with hnew
  have hchange : (network.iterate alpha (count + 1)).change = network.distance now new := by
    rw [change_iterate_succ hwired, distance_comm]
  have hstep : network.distance new fixed ≤ alpha * network.distance now fixed := by
    have hle := distance_advance_le hwired hsub halpha (size_weights_iterate network alpha count)
      hsize
    rwa [← weights_iterate_succ, hfixed] at hle
  have htriangle := network.distance_triangle now new fixed
  rw [hchange, le_div_iff₀ (by linarith)]
  calc network.distance new fixed * (1 - alpha)
      = network.distance new fixed - alpha * network.distance new fixed := by ring
    _ ≤ alpha * network.distance now fixed - alpha * network.distance new fixed :=
        sub_le_sub_right hstep _
    _ = alpha * (network.distance now fixed - network.distance new fixed) := by ring
    _ ≤ alpha * network.distance now new :=
        mul_le_mul_of_nonneg_left (by linarith) halpha

end Damped

end Network

namespace Candidate

variable {candidates : List (Candidate ℚ)}

/-- An assignment of weights that an iteration on candidates leaves as it is. -/
def Stationary (alpha : ℚ) (candidates : List (Candidate ℚ)) (weights : Array ℚ) : Prop :=
  weights.size = candidates.length ∧
    (step? alpha (withWeights candidates weights)).map Prod.snd =
      some (withWeights candidates weights)

/-- It is one that the network of the candidates advances to itself. -/
lemma stationary_iff (hnonempty : candidates ≠ []) {alpha : ℚ} {weights : Array ℚ} :
    Stationary alpha candidates weights ↔
      weights.size = candidates.length ∧
        (ofCandidates candidates).advance alpha weights = weights := by
  refine and_congr_right fun hsize => ?_
  have hadvance : ((ofCandidates candidates).advance alpha weights).size = candidates.length := by
    rw [size_advance, hsize]
  rw [step?_withWeights hnonempty hsize, Option.map_some, Option.some_inj]
  constructor
  · intro heq
    have hweights := congrArg Candidate.weights heq
    rwa [weights_withWeights hadvance, weights_withWeights hsize] at hweights
  · intro heq
    rw [heq]

/-- Exactly one assignment of weights is left as it is by an iteration over freshly linked
candidates, and a run that converges returns weights no further from it, summed over all
candidates, than the damped tolerance allows. -/
theorem solve_accurate (hnonempty : candidates ≠ []) (hunlinked : Unlinked candidates)
    {alpha epsilon : ℚ} (halpha : 0 ≤ alpha) (halpha' : alpha < 1) (hepsilon : epsilon < 1) :
    ∃ fixed : Array ℚ, Stationary alpha (link candidates) fixed ∧
      (∀ other : Array ℚ, Stationary alpha (link candidates) other → other = fixed) ∧
      ∀ ceiling : ℕ, (solve ⟨alpha, epsilon, ceiling⟩ candidates).solution.converged = true →
        (ofCandidates (link candidates)).distance
          (Candidate.weights (solve ⟨alpha, epsilon, ceiling⟩ candidates).candidates) fixed ≤
            alpha * epsilon / (1 - alpha) := by
  have hwired := wired_link hunlinked
  have hsub := substochastic_link hunlinked
  have hlinked := link_ne_nil hnonempty
  have hlength := length_ofCandidates (link candidates)
  obtain ⟨fixed, hsize, hfixed⟩ := exists_advance_eq hwired hsub halpha halpha'
  refine ⟨fixed, (stationary_iff hlinked).mpr ⟨hsize.trans hlength, hfixed⟩, fun other hother => ?_,
    fun ceiling hconverged => ?_⟩
  · obtain ⟨hsize', hfixed'⟩ := (stationary_iff hlinked).mp hother
    exact eq_of_advance_eq hwired hsub halpha halpha' (hsize'.trans hlength.symm) hsize hfixed'
      hfixed
  · obtain ⟨count, _, hsolution⟩ := solution_solve ⟨alpha, epsilon, ceiling⟩ candidates
    have hweights : Candidate.weights (solve ⟨alpha, epsilon, ceiling⟩ candidates).candidates =
        ((ofCandidates (link candidates)).iterate alpha count).weights := by
      rw [weights_solve, hsolution]
    have hchange : ((ofCandidates (link candidates)).iterate alpha count).change ≤ epsilon := by
      simpa [hsolution] using hconverged
    -- Before the first iteration the change counts as one, so a run at tolerance below one goes on.
    obtain ⟨count, rfl⟩ := Nat.exists_eq_succ_of_ne_zero (n := count) (by
      rintro rfl
      rw [iterate_zero] at hchange
      simp [start] at hchange
      linarith)
    rw [hweights]
    refine (distance_iterate_le hwired hsub halpha halpha' hsize hfixed count).trans ?_
    gcongr

/-- A ranking run over the sample ends within the bound of the one assignment that stays. -/
theorem solve_accurate_sample :
    sampleUnlinked ≠ [] ∧ Unlinked sampleUnlinked ∧ (0 : ℚ) ≤ 17 / 20 ∧ (17 / 20 : ℚ) < 1 ∧
    (1 / 100000 : ℚ) < 1 ∧
    ∃ fixed : Array ℚ, Stationary (17 / 20) (link sampleUnlinked) fixed ∧
      (ofCandidates (link sampleUnlinked)).distance
        (Candidate.weights (solve Settings.exact sampleUnlinked).candidates) fixed ≤
          17 / 20 * (1 / 100000) / (1 - 17 / 20) := by
  have hnonempty : sampleUnlinked ≠ [] := by simp [sampleUnlinked]
  have halpha : (0 : ℚ) ≤ 17 / 20 := by norm_num
  have halpha' : (17 / 20 : ℚ) < 1 := by norm_num
  have hepsilon : (1 / 100000 : ℚ) < 1 := by norm_num
  obtain ⟨fixed, hfixed, _, hclose⟩ :=
    solve_accurate hnonempty unlinked_sample halpha halpha' hepsilon
  exact ⟨hnonempty, unlinked_sample, halpha, halpha', hepsilon, fixed, hfixed,
    hclose Settings.standard.ceiling (solve_exact hnonempty unlinked_sample).1⟩

end Candidate

end ImportRank
