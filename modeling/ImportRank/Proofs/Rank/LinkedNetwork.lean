import ImportRank.Proofs.Rank.Flow

/-!
# The network of linked candidates

Linking candidates that nothing has linked before gives a network whose stations are known in
full: each owes its portions to the targets that are candidates, at their positions. So it creates
no weight, and it loses weight only through dependencies that are no candidates.
-/

namespace ImportRank

open Network

namespace Candidate

/-! ## Candidates with other weights -/

section Weights

variable {α : Type} {weights : Array α} {candidates : List (Candidate α)}

/-- A network does not depend on the weights of its candidates. -/
lemma ofCandidates_withWeights [Arithmetic α] (hsize : weights.size = candidates.length) :
    ofCandidates (withWeights candidates weights) = ofCandidates candidates := by
  have hposition : ∀ key,
      position? (withWeights candidates weights) key = position? candidates key :=
    position?_congr (map_withWeights hsize fun _ _ => rfl)
  unfold ofCandidates
  simp only [hposition]
  exact List.ext_getElem (by simp [withWeights, hsize]) fun place _ _ => by simp [withWeights]

/-- An iteration replaces the weights of its candidates by the ones its network advances to. -/
lemma step?_withWeights [Arithmetic α] (hnonempty : candidates ≠ [])
    (hsize : weights.size = candidates.length) (alpha : α) :
    step? alpha (withWeights candidates weights) =
      some ((ofCandidates candidates).change weights
          ((ofCandidates candidates).advance alpha weights),
        withWeights candidates ((ofCandidates candidates).advance alpha weights)) := by
  have hweighed : withWeights candidates weights ≠ [] := by
    rw [← List.length_pos_iff] at hnonempty ⊢
    simpa [withWeights, hsize] using hnonempty
  rw [step?, if_neg (by simpa using hweighed), ofCandidates_withWeights hsize,
    weights_withWeights hsize]
  dsimp only
  rw [withWeights_withWeights hsize]

end Weights

/-! ## Stations -/

variable {candidates : List (Candidate ℚ)}

/-- Where keys are distinct, every station passes on its own weight to positions that exist. -/
theorem wired_ofCandidates (hdistinct : (candidates.map Candidate.key).Nodup) :
    (ofCandidates candidates).Wired := by
  have hlength : (ofCandidates candidates).length = candidates.length := by simp [ofCandidates]
  constructor
  · intro i
    have hi : (i : ℕ) < candidates.length := hlength ▸ i.isLt
    show ((ofCandidates candidates)[(i : ℕ)]).holder = i
    simp only [ofCandidates, List.getElem_mapIdx, position?_getElem hdistinct i hi,
      Option.getD_some]
  · intro station hstation link hlink
    rw [hlength]
    obtain ⟨place, hplace, rfl⟩ := List.mem_mapIdx.mp hstation
    obtain ⟨⟨target, amount⟩, _, hfound⟩ := List.mem_filterMap.mp hlink
    obtain ⟨found, hposition, rfl⟩ := Option.map_eq_some_iff.mp hfound
    exact position?_lt hposition

/-- Shares by name, found at positions: the ones at the position of a key are the ones with its
name. -/
lemma sum_placed (hdistinct : (candidates.map Candidate.key).Nodup) {target : ℕ}
    (htarget : target < candidates.length) (shares : List (String × ℚ)) :
    ((shares.filterMap fun (name, share) => (position? candidates name).map (·, share)).map
      fun (place, share) => if place = target then share else 0).sum =
      (shares.map fun (name, share) =>
        if name = candidates[target].key then share else 0).sum := by
  -- a share is at the position if the name it is for is the key that stands there
  have hposition : ∀ name, position? candidates name = some target ↔
      name = candidates[target].key := by
    intro name
    constructor
    · intro hname
      obtain ⟨_, hname⟩ := List.getElem?_eq_some_iff.mp (getElem?_of_position? hname)
      rw [← hname, List.getElem_map]
    · rintro rfl
      exact position?_getElem hdistinct target htarget
  induction shares with
  | nil => rfl
  | cons share shares ih =>
    obtain ⟨name, share⟩ := share
    rw [List.filterMap_cons, List.map_cons, List.sum_cons, ← ih]
    dsimp only
    cases hfound : position? candidates name with
    | none =>
      have hother : name ≠ candidates[target].key := by
        rintro rfl
        rw [(hposition _).mpr rfl] at hfound
        cases hfound
      simp [hother]
    | some found =>
      have hsame : found = target ↔ name = candidates[target].key := by
        rw [← hposition, hfound, Option.some_inj]
      simp [hsame]

/-- All shares at positions are the ones with the names of candidates. -/
lemma sum_placed_all (candidates : List (Candidate ℚ)) (shares : List (String × ℚ)) :
    ((shares.filterMap fun (name, share) => (position? candidates name).map (·, share)).map
      Prod.snd).sum =
      (shares.map fun (name, share) =>
        if name ∈ candidates.map Candidate.key then share else 0).sum := by
  induction shares with
  | nil => rfl
  | cons share shares ih =>
    obtain ⟨name, share⟩ := share
    rw [List.filterMap_cons, List.map_cons, List.sum_cons, ← ih]
    dsimp only
    cases hfound : position? candidates name with
    | none => rw [if_neg (position?_eq_none_iff.mp hfound)]; simp
    | some found =>
      have hknown : name ∈ candidates.map Candidate.key := by
        by_contra hunknown
        rw [position?_eq_none_iff.mpr hunknown] at hfound
        cases hfound
      rw [if_pos hknown]
      simp

/-- A network creates no weight where no link is negative and all links of a candidate together take
at most a whole, or nothing where the candidate dangles. -/
theorem substochastic_ofCandidates
    (hnonneg : ∀ candidate ∈ candidates, ∀ link ∈ candidate.links, 0 ≤ link.2.value)
    (htotal : ∀ candidate ∈ candidates, (candidate.links.map fun link => link.2.value).sum ≤
      if candidate.outbound = 0 then 0 else 1) :
    (ofCandidates candidates).Substochastic := by
  constructor
  · intro station hstation entry hentry
    obtain ⟨place, hplace, rfl⟩ := List.mem_mapIdx.mp hstation
    obtain ⟨link, hlink, hfound⟩ := List.mem_filterMap.mp hentry
    obtain ⟨found, _, rfl⟩ := Option.map_eq_some_iff.mp hfound
    exact hnonneg _ (List.getElem_mem hplace) link hlink
  · intro station hstation
    obtain ⟨place, hplace, rfl⟩ := List.mem_mapIdx.mp hstation
    have hmem := List.getElem_mem hplace
    -- links that lead to no candidate are left out, which makes the total no larger
    have hplaced := sum_placed_all candidates
      (candidates[place].links.map fun link => (link.1, link.2.value))
    rw [List.filterMap_map, List.map_map] at hplaced
    have hle : (candidates[place].links.map fun link =>
        if link.1 ∈ candidates.map Candidate.key then link.2.value else 0).sum ≤
          (candidates[place].links.map fun link => link.2.value).sum := by
      refine List.sum_le_sum fun link hlink => ?_
      split
      · rfl
      · exact hnonneg _ hmem link hlink
    have hbound := (hplaced.le.trans hle).trans (htotal _ hmem)
    simpa using hbound

/-- Candidates that nothing has linked yet: their keys are distinct, their sizes not negative. -/
structure Unlinked (candidates : List (Candidate ℚ)) : Prop where
  nodup_keys : (candidates.map Candidate.key).Nodup
  lines_nonneg : ∀ candidate ∈ candidates, 0 ≤ candidate.lines
  links_eq_nil : ∀ candidate ∈ candidates, candidate.links = []
  outbound_eq_zero : ∀ candidate ∈ candidates, candidate.outbound = 0

/-- The station of an unlinked candidate once all of them are linked. -/
def station (candidates : List (Candidate ℚ)) (place : ℕ) (candidate : Candidate ℚ) : Station ℚ :=
  { holder := place
    shares := (distinct candidate.dependencies).filterMap fun target =>
      (position? candidates target).map (·, candidate.portion target)
    dangling := decide (candidate.lines = 0 ∨ candidate.dependencies = []) }

/-- The network of freshly linked candidates, station by station. -/
theorem ofCandidates_link (hunlinked : Unlinked candidates) :
    ofCandidates (link candidates) = candidates.mapIdx (station candidates) := by
  have hkeys := map_key_link candidates
  rw [link_eq_map hunlinked.nodup_keys] at hkeys ⊢
  refine List.ext_getElem (by simp [ofCandidates]) fun place hplace hplace' => ?_
  have hlt : place < candidates.length := by simpa using hplace'
  have hmem : candidates[place] ∈ candidates := List.getElem_mem hlt
  -- linking keeps the keys, so every position is found where it was before
  have hholder : position? (candidates.map linked) candidates[place].key = some place := by
    rw [position?_congr hkeys, position?_getElem hunlinked.nodup_keys place hlt]
  have hlinks := links_linked (hunlinked.links_eq_nil _ hmem) (hunlinked.outbound_eq_zero _ hmem)
    (hunlinked.lines_nonneg _ hmem)
  have hshares : (candidates[place].linked.links.filterMap fun link =>
      (position? (candidates.map linked) link.1).map (·, link.2.value)) =
        (distinct candidates[place].dependencies).filterMap fun target =>
          (position? candidates target).map (·, candidates[place].portion target) := by
    have hpairs := congrArg (List.filterMap fun entry : String × ℚ =>
      (position? candidates entry.1).map (·, entry.2)) hlinks
    rw [List.filterMap_map, List.filterMap_map] at hpairs
    refine Eq.trans (List.filterMap_congr fun link _ => ?_) hpairs
    simp only [Function.comp_apply, position?_congr hkeys]
  have hdangling : Arithmetic.same candidates[place].linked.outbound (Arithmetic.ofInt 0) =
      decide (candidates[place].lines = 0 ∨ candidates[place].dependencies = []) := by
    rw [outbound_linked, hunlinked.outbound_eq_zero _ hmem]
    simp
  have hstation : (ofCandidates (candidates.map linked))[place] =
      { holder := (position? (candidates.map linked) candidates[place].linked.key).getD place
        shares := candidates[place].linked.links.filterMap fun link =>
          (position? (candidates.map linked) link.1).map (·, link.2.value)
        dangling := Arithmetic.same candidates[place].linked.outbound (Arithmetic.ofInt 0) } := by
    simp only [ofCandidates, List.getElem_mapIdx, List.getElem_map]
  rw [hstation, key_linked, hholder, hshares, hdangling, List.getElem_mapIdx]
  rfl

/-- The shares of a station sum up the portions of the targets that are candidates. -/
lemma sum_shares_station (candidates : List (Candidate ℚ)) (place : ℕ) (candidate : Candidate ℚ) :
    ((station candidates place candidate).shares.map Prod.snd).sum =
      ((distinct candidate.dependencies).map fun target =>
        if target ∈ candidates.map Candidate.key then candidate.portion target else 0).sum := by
  have hplaced := sum_placed_all candidates
    ((distinct candidate.dependencies).map fun target => (target, candidate.portion target))
  rw [List.filterMap_map, List.map_map] at hplaced
  exact hplaced

/-- All that a candidate owes is nothing where it dangles and a whole elsewhere. -/
lemma sum_portion_eq (candidate : Candidate ℚ) (hlines : 0 ≤ candidate.lines) (place : ℕ) :
    ((distinct candidate.dependencies).map candidate.portion).sum =
      if (station candidates place candidate).dangling then 0 else 1 := by
  rw [sum_portion, station]
  by_cases hzero : candidate.lines = 0
  · simp [hzero]
  · have hpositive : 0 < candidate.lines := by omega
    by_cases hnone : candidate.dependencies = [] <;> simp [hzero, hpositive, hnone]

/-- The network of freshly linked candidates creates no weight. -/
theorem substochastic_link (hunlinked : Unlinked candidates) :
    (ofCandidates (link candidates)).Substochastic := by
  rw [ofCandidates_link hunlinked]
  constructor
  · intro linkedStation hstation entry hentry
    obtain ⟨place, hplace, rfl⟩ := List.mem_mapIdx.mp hstation
    obtain ⟨target, _, hfound⟩ := List.mem_filterMap.mp hentry
    obtain ⟨found, _, rfl⟩ := Option.map_eq_some_iff.mp hfound
    exact portion_nonneg _ target
  · intro linkedStation hstation
    obtain ⟨place, hplace, rfl⟩ := List.mem_mapIdx.mp hstation
    rw [sum_shares_station, ← sum_portion_eq _ (hunlinked.lines_nonneg _ (List.getElem_mem hplace))]
    refine List.sum_le_sum fun target _ => ?_
    split
    · rfl
    · exact portion_nonneg _ target

/-- Where every dependency is a candidate, no weight is lost either. -/
theorem conserving_link (hunlinked : Unlinked candidates) (hclosed : Closed candidates) :
    (ofCandidates (link candidates)).Conserving := by
  rw [ofCandidates_link hunlinked]
  intro linkedStation hstation
  obtain ⟨place, hplace, rfl⟩ := List.mem_mapIdx.mp hstation
  have hmem := List.getElem_mem hplace
  rw [sum_shares_station, ← sum_portion_eq _ (hunlinked.lines_nonneg _ hmem)]
  refine congrArg List.sum (List.map_congr_left fun target htarget => ?_)
  rw [if_pos (hclosed.target_mem _ hmem target (mem_distinct.mp htarget))]

end Candidate

end ImportRank
