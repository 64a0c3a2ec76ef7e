import ImportRank.Proofs.Rank.Convergence

/-!
# Weight is conserved

A network that creates no weight keeps its weights contained: whatever iterate a run stops at, no
weight is negative and all of them sum to at most one. Where every dependency of freshly linked
candidates is a candidate, no weight leaks either: all weights are positive and they sum to one.
-/

namespace ImportRank

open Network

namespace Network

variable {network : Network ℚ} {alpha : ℚ}

/-! ## Contained weights -/

/-- Weights for all positions of a network that are not negative and sum to at most one. -/
structure Contained (network : Network ℚ) (weights : Array ℚ) : Prop where
  size_eq : weights.size = network.length
  nonneg : ∀ i, 0 ≤ network.reading weights i
  sum_le : ∑ i, network.reading weights i ≤ 1

lemma contained_start (hnonempty : network ≠ []) : network.Contained network.start.weights := by
  refine ⟨by simp [start], fun i => ?_, (sum_reading_start hnonempty).le⟩
  rw [reading_start]
  positivity

section Damped

variable (hwired : network.Wired) (hsub : network.Substochastic) (hnonempty : network ≠ [])
  (halpha : 0 ≤ alpha) (halpha' : alpha ≤ 1)

include hwired hsub hnonempty halpha halpha'

/-- An iteration keeps weights contained. -/
lemma contained_advance {weights : Array ℚ} (hcontained : network.Contained weights) :
    network.Contained (network.advance alpha weights) where
  size_eq := by rw [size_advance, hcontained.size_eq]
  nonneg := reading_advance_nonneg hwired hsub halpha halpha' hcontained.size_eq hcontained.nonneg
  sum_le := sum_reading_advance_le_one hwired hsub hnonempty halpha hcontained.size_eq
    hcontained.nonneg hcontained.sum_le

/-- So all iterates are contained. -/
theorem contained_iterate (count : ℕ) :
    network.Contained (network.iterate alpha count).weights := by
  induction count with
  | zero => exact contained_start hnonempty
  | succ count ih =>
    rw [weights_iterate_succ]
    exact contained_advance hwired hsub hnonempty halpha halpha' ih

end Damped

/-! ## Whole weights -/

/-- Weights for all positions of a network that are positive and sum to one. -/
structure Whole (network : Network ℚ) (weights : Array ℚ) : Prop where
  size_eq : weights.size = network.length
  pos : ∀ i, 0 < network.reading weights i
  sum_eq : ∑ i, network.reading weights i = 1

lemma whole_start (hnonempty : network ≠ []) : network.Whole network.start.weights := by
  refine ⟨by simp [start], fun i => ?_, sum_reading_start hnonempty⟩
  have hlength : (0 : ℚ) < network.length := by exact_mod_cast List.length_pos_iff.mpr hnonempty
  rw [reading_start]
  positivity

section Damped

variable (hwired : network.Wired) (hsub : network.Substochastic)
  (hconserving : network.Conserving) (hnonempty : network ≠ []) (halpha : 0 ≤ alpha)
  (halpha' : alpha < 1)

include hwired hsub hconserving hnonempty halpha halpha'

/-- An iteration keeps weights whole. -/
lemma whole_advance {weights : Array ℚ} (hwhole : network.Whole weights) :
    network.Whole (network.advance alpha weights) where
  size_eq := by rw [size_advance, hwhole.size_eq]
  pos := reading_advance_pos hwired hsub halpha halpha' hwhole.size_eq fun i => (hwhole.pos i).le
  sum_eq := sum_reading_advance_eq_one hwired hconserving hnonempty alpha hwhole.size_eq
    hwhole.sum_eq

/-- So all iterates are whole. -/
theorem whole_iterate (count : ℕ) : network.Whole (network.iterate alpha count).weights := by
  induction count with
  | zero => exact whole_start hnonempty
  | succ count ih =>
    rw [weights_iterate_succ]
    exact whole_advance hwired hsub hconserving hnonempty halpha halpha' ih

end Damped

end Network

namespace Candidate

variable {candidates : List (Candidate ℚ)}

/-- Candidates whose weights are not negative and sum to at most one. -/
structure Contained (candidates : List (Candidate ℚ)) : Prop where
  weight_nonneg : ∀ candidate ∈ candidates, 0 ≤ candidate.weight
  sum_weight_le : (candidates.map Candidate.weight).sum ≤ 1

/-- Candidates are contained with the weights that are contained for their network. -/
lemma contained_withWeights {weights : Array ℚ}
    (hcontained : (ofCandidates candidates).Contained weights) :
    Contained (withWeights candidates weights) := by
  have hsize : weights.size = candidates.length := by
    rw [hcontained.size_eq, length_ofCandidates]
  constructor
  · intro candidate hcandidate
    have hweight := List.mem_map_of_mem (f := Candidate.weight) hcandidate
    rw [map_weight_withWeights hsize] at hweight
    exact forall_mem_toList_of_reading hcontained.size_eq hcontained.nonneg _ hweight
  · rw [map_weight_withWeights hsize, sum_toList_eq hcontained.size_eq]
    exact hcontained.sum_le

/-- The solver keeps weights contained if linking leaves a network that creates none, whether the
run converges or stops at its ceiling. -/
theorem contained_solve (hdistinct : (candidates.map Candidate.key).Nodup)
    (hsub : (ofCandidates (link candidates)).Substochastic) {settings : Settings ℚ}
    (halpha : 0 ≤ settings.alpha) (halpha' : settings.alpha ≤ 1) :
    Contained (solve settings candidates).candidates := by
  by_cases hnonempty : candidates = []
  · subst hnonempty
    rw [List.map_eq_nil_iff.mp (map_profile_solve settings [])]
    exact ⟨by simp, by simp⟩
  · obtain ⟨count, _, hsolution⟩ := solution_solve settings candidates
    have hwired : (ofCandidates (link candidates)).Wired :=
      wired_ofCandidates (by rwa [map_key_link])
    have hcandidates : (solve settings candidates).candidates =
        withWeights (link candidates) (solve settings candidates).solution.final.weights := rfl
    rw [hcandidates, hsolution]
    exact contained_withWeights
      (contained_iterate hwired hsub (network_ne_nil hnonempty) halpha halpha' count)

/-- Candidates whose weights are positive and sum to one. -/
structure Whole (candidates : List (Candidate ℚ)) : Prop where
  weight_pos : ∀ candidate ∈ candidates, 0 < candidate.weight
  sum_weight : (candidates.map Candidate.weight).sum = 1

/-- Candidates are whole with the weights that are whole for their network. -/
lemma whole_withWeights {weights : Array ℚ} (hwhole : (ofCandidates candidates).Whole weights) :
    Whole (withWeights candidates weights) := by
  have hsize : weights.size = candidates.length := by
    rw [hwhole.size_eq, length_ofCandidates]
  constructor
  · intro candidate hcandidate
    have hweight := List.mem_map_of_mem (f := Candidate.weight) hcandidate
    rw [map_weight_withWeights hsize] at hweight
    exact forall_mem_toList_of_reading hwhole.size_eq hwhole.pos _ hweight
  · rw [map_weight_withWeights hsize, sum_toList_eq hwhole.size_eq]
    exact hwhole.sum_eq

/-- All iterates of freshly linked candidates are whole where every dependency is a candidate. -/
theorem whole_iterate_link (hnonempty : candidates ≠ []) (hunlinked : Unlinked candidates)
    (hclosed : Closed candidates) {alpha : ℚ} (halpha : 0 ≤ alpha) (halpha' : alpha < 1)
    (count : ℕ) :
    Whole (withWeights (link candidates)
      ((ofCandidates (link candidates)).iterate alpha count).weights) :=
  whole_withWeights (whole_iterate (wired_link hunlinked) (substochastic_link hunlinked)
    (conserving_link hunlinked hclosed) (network_ne_nil hnonempty) halpha halpha' count)

/-- And so are the candidates that the solver returns. -/
theorem whole_solve (hnonempty : candidates ≠ []) (hunlinked : Unlinked candidates)
    (hclosed : Closed candidates) {settings : Settings ℚ} (halpha : 0 ≤ settings.alpha)
    (halpha' : settings.alpha < 1) :
    Whole (solve settings candidates).candidates := by
  obtain ⟨count, _, hsolution⟩ := solution_solve settings candidates
  have hwhole := whole_iterate_link hnonempty hunlinked hclosed halpha halpha' count
  have hcandidates : (solve settings candidates).candidates =
      withWeights (link candidates) (solve settings candidates).solution.final.weights := rfl
  rw [hcandidates, hsolution]
  exact hwhole

end Candidate

end ImportRank
