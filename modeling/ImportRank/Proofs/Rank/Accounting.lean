import ImportRank.Proofs.Rank.History

/-!
# Where the weight goes

An iteration creates no weight, and all it can lose is what candidates pass on to files that are no
candidates. The account is exact: after one iteration the weights sum to the teleport share and to
the damped part of what was there before, less what went `lost`. Main statement:
`step?_sum_weight`.
-/

namespace ImportRank.Candidate

open Network

variable {candidates : List (Candidate ℚ)}

/-! ## What stays -/

/-- The part of its weight that a candidate passes on to some keys: what its links to them take, and
all of it where the candidate dangles, since that weight is spread among the candidates. -/
def retained (keys : List String) (candidate : Candidate ℚ) : ℚ :=
  (candidate.links.map fun (target, amount) => if target ∈ keys then amount.value else 0).sum +
    if candidate.outbound = 0 then 1 else 0

/-- The column of a candidate is the part of its weight that stays among the candidates. -/
lemma sum_flow_ofCandidates (hdistinct : (candidates.map key).Nodup)
    (hlength : (ofCandidates candidates).length = candidates.length)
    (source : Fin (ofCandidates candidates).length) :
    ∑ target, (ofCandidates candidates).flow target source =
      (candidates.get (source.cast hlength)).retained (candidates.map key) := by
  have hsource : (source : ℕ) < candidates.length := hlength ▸ source.isLt
  -- a link counts towards the column where its target has a place among the candidates
  have hplaced := sum_placed_all candidates
    (candidates[(source : ℕ)].links.map fun (target, amount) => (target, amount.value))
  rw [List.filterMap_map, List.map_map] at hplaced
  rw [sum_flow (wired_ofCandidates hdistinct), retained, List.get_eq_getElem, List.get_eq_getElem]
  simp only [ofCandidates, List.getElem_mapIdx, Arithmetic.same_rat, Arithmetic.ofInt_rat,
    Int.cast_zero, decide_eq_true_eq]
  exact congrArg (· + _) hplaced

/-- An iteration keeps the damped part of what stays among the candidates, and adds the teleport
share, whatever their links and weights are. -/
theorem exists_step?_eq_some (hnonempty : candidates ≠ [])
    (hdistinct : (candidates.map key).Nodup) (alpha : ℚ) :
    ∃ change next, step? alpha candidates = some (change, next) ∧
      (next.map weight).sum = (1 - alpha) + alpha * (candidates.map fun source =>
        source.weight * source.retained (candidates.map key)).sum := by
  have hlength := length_ofCandidates candidates
  have hnetwork : ofCandidates candidates ≠ [] := by
    rw [← List.length_pos_iff, hlength]
    exact List.length_pos_iff.mpr hnonempty
  have hsize : (weights candidates).size = candidates.length := by simp [weights]
  have hnext : ((ofCandidates candidates).advance alpha (weights candidates)).size =
      candidates.length := by rw [size_advance, hsize]
  refine ⟨_, _, by rw [step?, if_neg (by simpa using hnonempty)], ?_⟩
  rw [map_weight_withWeights hnext, sum_toList_eq (hnext.trans hlength.symm),
    sum_reading_advance (wired_ofCandidates hdistinct) hnetwork alpha (hsize.trans hlength.symm),
    add_comm]
  -- position by position, what stays is what the column of the candidate there leaves of its weight
  simp only [sum_flow_ofCandidates hdistinct hlength, reading_weights hlength]
  rw [sum_places hlength fun source => source.retained (candidates.map key) * source.weight]
  simp only [mul_comm]

/-! ## What is lost -/

/-- The fraction of the dependencies of a candidate, repetitions counted, that are not among some
keys. -/
def strayFraction (keys : List String) (candidate : Candidate ℚ) : ℚ :=
  (candidate.dependencies.countP (· ∉ keys) : ℚ) / candidate.dependencies.length

/-- The weight that candidates pass on to what is no candidate. -/
def lost (candidates : List (Candidate ℚ)) : ℚ :=
  ((candidates.filter (0 < ·.outbound)).map fun source =>
    source.weight * source.strayFraction (candidates.map key)).sum

/-- The dependencies on candidates and the others are all dependencies. -/
lemma countP_div_add_strayFraction {candidate : Candidate ℚ} (hsome : candidate.dependencies ≠ [])
    (keys : List String) :
    (candidate.dependencies.countP (· ∈ keys) : ℚ) / candidate.dependencies.length +
      candidate.strayFraction keys = 1 := by
  have hlength : (candidate.dependencies.length : ℚ) ≠ 0 := by simpa using hsome
  have hcount := candidate.dependencies.length_eq_countP_add_countP (· ∈ keys)
  rw [strayFraction, ← add_div, div_eq_one_iff_eq hlength, hcount]
  push_cast
  simp

/-- A candidate that has been linked once keeps all but the stray part of its weight, and all of it
where it has no outbound weight. -/
lemma LinkedTimes.retained_eq {candidate : Candidate ℚ} (htimes : candidate.LinkedTimes 1)
    (hlines : 0 ≤ candidate.lines) (keys : List String) :
    candidate.retained keys =
      1 - if 0 < candidate.outbound then candidate.strayFraction keys else 0 := by
  have hvalues := htimes.sum_values_of fun target => decide (target ∈ keys)
  have houtbound : candidate.outbound = candidate.outlay := by
    rw [htimes.outbound_eq, Nat.cast_one, one_mul]
  simp only [decide_eq_true_eq] at hvalues
  rw [retained, hvalues, houtbound]
  rcases outlay_eq_zero_or_one_le hlines with hzero | hone
  · -- whatever links there are, they weigh nothing
    rw [hzero, compounded_zero_outlay]
    simp
  · have hpositive : 0 < candidate.outlay := by linarith
    have hsome : candidate.dependencies ≠ [] := by
      intro hnone
      simp [outlay, hnone] at hpositive
    have hparts := countP_div_add_strayFraction hsome keys
    rw [compounded_one hpositive, if_neg hpositive.ne', if_pos hpositive]
    linarith

/-- What all candidates keep is all they have but what is lost. -/
lemma sum_retained_eq (hrelinked : Relinked 1 candidates) :
    (candidates.map fun source => source.weight * source.retained (candidates.map key)).sum =
      (candidates.map weight).sum - lost candidates := by
  rw [eq_sub_iff_add_eq, lost, sum_map_filter, ← List.sum_map_add]
  refine congrArg List.sum (List.map_congr_left fun source hsource => ?_)
  rw [(hrelinked.linkedTimes source hsource).retained_eq (hrelinked.lines_nonneg source hsource)]
  by_cases hpositive : 0 < source.outbound
  · rw [if_pos hpositive, if_pos (decide_eq_true hpositive)]
    ring
  · rw [if_neg hpositive, if_neg (by simpa using hpositive)]
    ring

/-! ## The account of an iteration -/

/-- Freshly linked candidates are linked once, whatever their weights are. -/
lemma Unlinked.relinked_withWeights (hunlinked : Unlinked candidates) {weights : Array ℚ}
    (hsize : weights.size = candidates.length) :
    Relinked 1 (withWeights (link candidates) weights) := by
  refine hunlinked.relinked.link.of_unweighed ?_
  exact map_withWeights (by simpa [link] using hsize) fun _ _ => rfl

/-- After one iteration over freshly linked candidates with any weights the weights sum to the
teleport share and to the damped part of what was there, less what is lost to files that are no
candidates. From a sum of one, the sum stays one exactly where nothing is damped or nothing lost. -/
theorem step?_sum_weight (hnonempty : candidates ≠ []) (hunlinked : Unlinked candidates)
    (alpha : ℚ) {weights : Array ℚ} (hsize : weights.size = candidates.length) :
    ∃ change next,
      step? alpha (withWeights (link candidates) weights) = some (change, next) ∧
      (next.map weight).sum = (1 - alpha) + alpha *
        (((withWeights (link candidates) weights).map weight).sum -
          lost (withWeights (link candidates) weights)) ∧
      (((withWeights (link candidates) weights).map weight).sum = 1 →
        ((next.map weight).sum = 1 ↔
          alpha = 0 ∨ lost (withWeights (link candidates) weights) = 0)) := by
  have hrelinked := hunlinked.relinked_withWeights hsize
  have hnonempty' : withWeights (link candidates) weights ≠ [] := by
    rw [← List.length_pos_iff] at hnonempty ⊢
    simpa [withWeights, link, hsize] using hnonempty
  obtain ⟨change, next, hstep, hsum⟩ :=
    exists_step?_eq_some hnonempty' hrelinked.nodup_keys alpha
  rw [sum_retained_eq hrelinked] at hsum
  refine ⟨change, next, hstep, hsum, fun hone => ?_⟩
  rw [hsum, hone, ← mul_eq_zero]
  constructor
  · intro hstays
    linarith
  · intro hnothing
    linarith

/-- The sample with weights that sum to one, the first file losing a quarter of what it has. -/
theorem step?_sum_weight_sample :
    sampleUnlinked ≠ [] ∧ Unlinked sampleUnlinked ∧
    (#[1 / 2, 1 / 3, 1 / 6] : Array ℚ).size = sampleUnlinked.length ∧
    lost (withWeights (link sampleUnlinked) #[1 / 2, 1 / 3, 1 / 6]) = 1 / 8 ∧
    ∃ change next,
      step? (17 / 20) (withWeights (link sampleUnlinked) #[1 / 2, 1 / 3, 1 / 6]) =
        some (change, next) ∧
      (next.map weight).sum = 143 / 160 ∧ (next.map weight).sum ≠ 1 := by
  have hnonempty : sampleUnlinked ≠ [] := by simp [sampleUnlinked]
  have hsize : (#[1 / 2, 1 / 3, 1 / 6] : Array ℚ).size = sampleUnlinked.length := by
    simp [sampleUnlinked]
  have hlost : lost (withWeights (link sampleUnlinked) #[1 / 2, 1 / 3, 1 / 6]) = 1 / 8 := by
    decide +kernel
  have hwhole : ((withWeights (link sampleUnlinked) #[1 / 2, 1 / 3, 1 / 6]).map weight).sum = 1 := by
    decide +kernel
  obtain ⟨change, next, hstep, hsum, hstays⟩ :=
    step?_sum_weight hnonempty unlinked_sample (17 / 20) hsize
  refine ⟨hnonempty, unlinked_sample, hsize, hlost, change, next, hstep, ?_, ?_⟩
  · rw [hsum, hwhole, hlost]
    norm_num
  · rw [Ne, hstays hwhole, hlost]
    norm_num

end ImportRank.Candidate
