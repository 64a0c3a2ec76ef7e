import ImportRank.Proofs.Rank.Iteration
import ImportRank.Proofs.Rank.LinkedNetwork
import Mathlib.Algebra.Order.Archimedean.Basic
import Mathlib.Order.Bounds.Basic
import Mathlib.Tactic.NormNum

/-!
# The run converges

Over exact fractions each iteration brings two assignments of weights together by the damping
factor, so the changes of a run fall at least as fast as the powers of that factor. The main
statement, `solve_converges`, turns this into a bound on the number of iterations.
-/

namespace ImportRank

open Network

namespace Network

variable {network : Network ℚ} {alpha : ℚ}

/-! ## Weights on the way -/

lemma reading_start (network : Network ℚ) (i : Fin network.length) :
    network.reading network.start.weights i = 1 / (network.length : ℚ) := by
  have hi : (i : ℕ) < network.start.weights.size := by simp [start]
  rw [reading, weightAt_of_lt hi]
  simp [start]

/-- Equal weights sum to one. -/
lemma sum_reading_start (hnonempty : network ≠ []) :
    ∑ i, network.reading network.start.weights i = 1 := by
  have hlength : (network.length : ℚ) ≠ 0 := by
    exact_mod_cast (List.length_pos_iff.mpr hnonempty).ne'
  simp only [reading_start]
  rw [Finset.sum_const, Finset.card_univ, Fintype.card_fin, nsmul_eq_mul,
    mul_one_div_cancel hlength]

/-! ## Changes on the way -/

/-- The change of an iterate is its distance from the one before. -/
lemma change_iterate_succ (hwired : network.Wired) (alpha : ℚ) (count : ℕ) :
    (network.iterate alpha (count + 1)).change =
      network.distance (network.iterate alpha (count + 1)).weights
        (network.iterate alpha count).weights := by
  rw [iterate_succ]
  exact change_eq hwired _ _

section Damped

variable (hwired : network.Wired) (hsub : network.Substochastic)

include hwired hsub

/-- From equal weights the first change is at most twice the damping factor: the damped part of
the weight moves at most as far as all of it leaving and arriving. -/
theorem change_iterate_one_le (hnonempty : network ≠ []) (halpha : 0 ≤ alpha) :
    (network.iterate alpha 1).change ≤ 2 * alpha := by
  have hsize : network.start.weights.size = network.length := size_weights_iterate network alpha 0
  have huniform := sum_reading_start hnonempty
  set uniform := network.reading network.start.weights with hdef
  have habs : ∑ i, |uniform i| = 1 := by
    rw [← huniform]
    refine Finset.sum_congr rfl fun i _ => abs_of_nonneg ?_
    rw [hdef, reading_start]
    positivity
  -- the teleport share is what equal weights hold anyway, so only the damped part moves
  have hmove : ∀ i, |network.reading (network.advance alpha network.start.weights) i - uniform i| ≤
      alpha * (|network.flow.mulVec uniform i| + |uniform i|) := by
    intro i
    have hdifference : network.reading (network.advance alpha network.start.weights) i - uniform i =
        alpha * (network.flow.mulVec uniform i - uniform i) := by
      rw [reading_advance hwired alpha hsize]
      simp only [Pi.add_apply, Pi.smul_apply, smul_eq_mul, ← hdef]
      rw [show uniform i = 1 / (network.length : ℚ) from reading_start network i]
      ring
    rw [hdifference, abs_mul, abs_of_nonneg halpha]
    exact mul_le_mul_of_nonneg_left (abs_sub _ _) halpha
  have hflow := sum_abs_mulVec_le hwired hsub uniform
  calc (network.iterate alpha 1).change
      = ∑ i, |network.reading (network.advance alpha network.start.weights) i - uniform i| :=
        change_iterate_succ hwired alpha 0
    _ ≤ ∑ i, alpha * (|network.flow.mulVec uniform i| + |uniform i|) :=
        Finset.sum_le_sum fun i _ => hmove i
    _ = alpha * (∑ i, |network.flow.mulVec uniform i| + 1) := by
        rw [← Finset.mul_sum, Finset.sum_add_distrib, habs]
    _ ≤ alpha * 2 := mul_le_mul_of_nonneg_left (by linarith) halpha
    _ = 2 * alpha := mul_comm _ _

/-- Each later change is at most the damping factor times the one before. -/
theorem change_iterate_succ_le (halpha : 0 ≤ alpha) (count : ℕ) :
    (network.iterate alpha (count + 2)).change ≤
      alpha * (network.iterate alpha (count + 1)).change := by
  have hle := distance_advance_le hwired hsub halpha
    (size_weights_iterate network alpha (count + 1)) (size_weights_iterate network alpha count)
  rwa [← weights_iterate_succ, ← weights_iterate_succ, ← change_iterate_succ hwired,
    ← change_iterate_succ hwired] at hle

/-- So the changes fall as fast as the powers of the damping factor. -/
theorem change_iterate_le (hnonempty : network ≠ []) (halpha : 0 ≤ alpha) {count : ℕ}
    (hcount : 1 ≤ count) :
    (network.iterate alpha count).change ≤ 2 * alpha ^ count := by
  induction count, hcount using Nat.le_induction with
  | base => simpa using change_iterate_one_le hwired hsub hnonempty halpha
  | succ count hcount ih =>
    obtain ⟨count, rfl⟩ := Nat.exists_eq_add_of_le' hcount
    calc (network.iterate alpha (count + 2)).change
        ≤ alpha * (network.iterate alpha (count + 1)).change :=
          change_iterate_succ_le hwired hsub halpha count
      _ ≤ alpha * (2 * alpha ^ (count + 1)) := mul_le_mul_of_nonneg_left ih halpha
      _ = 2 * alpha ^ (count + 2) := by ring

/-- A run converges no later than where the bound on its changes meets the tolerance. -/
theorem settle_of_bound (hnonempty : network ≠ []) (halpha : 0 ≤ alpha) {epsilon : ℚ}
    {count ceiling : ℕ} (hcount : 1 ≤ count) (hbound : 2 * alpha ^ count ≤ epsilon)
    (hceiling : count ≤ ceiling) :
    (network.settle alpha epsilon ceiling network.start).converged = true ∧
      (network.settle alpha epsilon ceiling network.start).final.steps ≤ count := by
  have hchange := change_iterate_le hwired hsub hnonempty halpha hcount
  have hsmall : Arithmetic.less epsilon (network.iterate alpha count).change = false := by
    rw [Arithmetic.less_rat, decide_eq_false_iff_not, not_lt]
    exact hchange.trans hbound
  obtain ⟨first, hfirst, _, hsettle⟩ := settle_of_small hceiling hsmall
  rw [hsettle]
  exact ⟨rfl, by rwa [steps_iterate]⟩

end Damped

end Network

/-- There is a first positive power of the damping factor that is small enough. -/
lemma exists_isLeast_power {alpha epsilon : ℚ} (halpha : 0 ≤ alpha) (halpha' : alpha < 1)
    (hepsilon : 0 < epsilon) : ∃ bound, IsLeast {k | 1 ≤ k ∧ 2 * alpha ^ k ≤ epsilon} bound := by
  obtain ⟨k, hk⟩ := exists_pow_lt_of_lt_one (half_pos hepsilon) halpha'
  have hmem : k + 1 ∈ {k | 1 ≤ k ∧ 2 * alpha ^ k ≤ epsilon} := by
    have hle : alpha ^ (k + 1) ≤ alpha ^ k := pow_le_pow_of_le_one halpha halpha'.le (by omega)
    exact ⟨by omega, by linarith⟩
  classical
  exact ⟨Nat.find ⟨k + 1, hmem⟩, Nat.find_spec ⟨k + 1, hmem⟩, fun _ hother => Nat.find_le hother⟩

/-- The settings of a ranking run, as the fractions they are written as. -/
def Settings.exact : Settings ℚ :=
  { alpha := 17 / 20, epsilon := 1 / 100000, ceiling := Settings.standard.ceiling }

namespace Candidate

section Steps

variable {α : Type} [Arithmetic α] {candidates : List (Candidate α)}

lemma link_ne_nil (hnonempty : candidates ≠ []) : link candidates ≠ [] := by
  simpa [link] using hnonempty

/-- One after the other, iterations on the linked candidates go through the iterates. -/
theorem step?_iterate (hnonempty : candidates ≠ []) (alpha : α) (count : ℕ) :
    step? alpha (withWeights (link candidates)
        ((ofCandidates (link candidates)).iterate alpha count).weights) =
      some (((ofCandidates (link candidates)).iterate alpha (count + 1)).change,
        withWeights (link candidates)
          ((ofCandidates (link candidates)).iterate alpha (count + 1)).weights) := by
  rw [step?_withWeights (link_ne_nil hnonempty) (by simp), iterate_succ]
  rfl

end Steps

variable {candidates : List (Candidate ℚ)}

lemma network_ne_nil (hnonempty : candidates ≠ []) : ofCandidates (link candidates) ≠ [] := by
  simpa [ofCandidates] using link_ne_nil hnonempty

lemma wired_link (hunlinked : Unlinked candidates) : (ofCandidates (link candidates)).Wired :=
  wired_ofCandidates (by rw [map_key_link]; exact hunlinked.nodup_keys)

/-- A ranking run converges within 76 iterations: twice the 76th power of 0.85 is below 0.00001. -/
lemma solve_exact (hnonempty : candidates ≠ []) (hunlinked : Unlinked candidates) :
    (solve Settings.exact candidates).solution.converged = true ∧
      (solve Settings.exact candidates).solution.final.steps ≤ 76 := by
  refine settle_of_bound (wired_link hunlinked) (substochastic_link hunlinked)
    (network_ne_nil hnonempty) ?_ (by omega) ?_ (by decide)
  · norm_num [Settings.exact]
  · norm_num [Settings.exact]

/-- Freshly linked candidates are solved in a bounded number of iterations. The first change is at
most twice the damping factor and each later one at most that factor times the one before. The run
converges no later than at the first positive power of the factor that is at most half the
tolerance, and at once for a tolerance of one or more; a ranking run takes at most 76 iterations. -/
theorem solve_converges (hnonempty : candidates ≠ []) (hunlinked : Unlinked candidates)
    {alpha epsilon : ℚ} (halpha : 0 ≤ alpha) (halpha' : alpha < 1) (hepsilon : 0 < epsilon) :
    ((ofCandidates (link candidates)).iterate alpha 1).change ≤ 2 * alpha ∧
    (∀ count, ((ofCandidates (link candidates)).iterate alpha (count + 2)).change ≤
      alpha * ((ofCandidates (link candidates)).iterate alpha (count + 1)).change) ∧
    (∀ ceiling, (solve ⟨alpha, epsilon, ceiling⟩ candidates).solution.final =
      (ofCandidates (link candidates)).iterate alpha
        (solve ⟨alpha, epsilon, ceiling⟩ candidates).solution.final.steps) ∧
    (∃ bound, IsLeast {k | 1 ≤ k ∧ 2 * alpha ^ k ≤ epsilon} bound ∧ ∀ ceiling, bound ≤ ceiling →
      (solve ⟨alpha, epsilon, ceiling⟩ candidates).solution.converged = true ∧
      (solve ⟨alpha, epsilon, ceiling⟩ candidates).solution.final.steps ≤ bound) ∧
    (1 ≤ epsilon → ∀ ceiling,
      (solve ⟨alpha, epsilon, ceiling⟩ candidates).solution.converged = true ∧
      (solve ⟨alpha, epsilon, ceiling⟩ candidates).solution.final.steps = 0) ∧
    (solve Settings.exact candidates).solution.converged = true ∧
    (solve Settings.exact candidates).solution.final.steps ≤ 76 := by
  have hwired := wired_link hunlinked
  have hsub := substochastic_link hunlinked
  have hnetwork := network_ne_nil hnonempty
  refine ⟨change_iterate_one_le hwired hsub hnetwork halpha,
    change_iterate_succ_le hwired hsub halpha, fun ceiling => ?_, ?_, fun hone ceiling => ?_,
    solve_exact hnonempty hunlinked⟩
  · obtain ⟨count, _, hsolution⟩ := solution_solve ⟨alpha, epsilon, ceiling⟩ candidates
    rw [hsolution, steps_iterate]
  · obtain ⟨bound, hleast⟩ := exists_isLeast_power halpha halpha' hepsilon
    exact ⟨bound, hleast, fun ceiling hceiling =>
      settle_of_bound hwired hsub hnetwork halpha hleast.1.1 hleast.1.2 hceiling⟩
  · have hstop : Arithmetic.less epsilon ((ofCandidates (link candidates)).iterate alpha 0).change =
        false := by
      simpa [iterate_zero, start] using hone
    obtain ⟨first, hfirst, _, hsettle⟩ := settle_of_small (Nat.zero_le ceiling) hstop
    rw [solve, hsettle]
    exact ⟨rfl, by rw [steps_iterate]; omega⟩

/-- Files that import themselves, each other, one another twice and something unknown, one of them
empty. -/
def sampleUnlinked : List (Candidate ℚ) :=
  [fresh "a.py" 3 [] ["b.py", "a.py", "b.py", "gone.py"], fresh "b.py" 0 [] ["a.py"],
    fresh "c.py" 7 [] []]

lemma unlinked_sample : Unlinked sampleUnlinked := by
  constructor <;> simp [sampleUnlinked, fresh]

/-- The sample is solved at the settings of a ranking run. -/
theorem solve_converges_sample :
    sampleUnlinked ≠ [] ∧ Unlinked sampleUnlinked ∧ (0 : ℚ) ≤ 17 / 20 ∧ (17 / 20 : ℚ) < 1 ∧
    (0 : ℚ) < 1 / 100000 ∧
    (solve Settings.exact sampleUnlinked).solution.converged = true ∧
    (solve Settings.exact sampleUnlinked).solution.final.steps ≤ 76 := by
  have hnonempty : sampleUnlinked ≠ [] := by simp [sampleUnlinked]
  have halpha : (0 : ℚ) ≤ 17 / 20 := by norm_num
  have halpha' : (17 / 20 : ℚ) < 1 := by norm_num
  have hepsilon : (0 : ℚ) < 1 / 100000 := by norm_num
  exact ⟨hnonempty, unlinked_sample, halpha, halpha', hepsilon,
    (solve_converges hnonempty unlinked_sample halpha halpha' hepsilon).2.2.2.2.2⟩

end Candidate

end ImportRank
