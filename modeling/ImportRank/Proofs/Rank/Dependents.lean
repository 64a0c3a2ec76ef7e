import ImportRank.Proofs.Rank.Linking

/-!
# Counting dependents

Counting walks over all imports, one after the other, and each adds one to the candidate that
stands for its target. Taken together, every candidate that stands for its key gains the number of
times that the candidates of other keys name the key. Where keys are distinct, that is a gain for
every candidate, and what has no dependents before it has their number after it.
-/

namespace ImportRank.Candidate

variable {α : Type}

/-! ## Gains -/

/-- How often the candidates of other keys name a key, in a list that is read off each of them. -/
def namings (entries : Candidate α → List String) (candidates : List (Candidate α))
    (key : String) : ℕ :=
  (candidates.map fun source => if source.key = key then 0 else (entries source).count key).sum

/-- The candidates with more dependents: those that stand for their keys gain what a key gains. -/
def withGains (gain : String → ℕ) (candidates : List (Candidate α)) : List (Candidate α) :=
  candidates.mapIdx fun place candidate =>
    if position? candidates candidate.key = some place then
      { candidate with dependents := candidate.dependents + gain candidate.key }
    else candidate

variable {candidates : List (Candidate α)} {gain more : String → ℕ}

lemma getElem?_withGains (place : ℕ) :
    (withGains gain candidates)[place]? = candidates[place]?.map fun candidate =>
      if position? candidates candidate.key = some place then
        { candidate with dependents := candidate.dependents + gain candidate.key }
      else candidate := by
  rw [withGains, List.getElem?_mapIdx]

@[simp] lemma map_key_withGains :
    (withGains gain candidates).map Candidate.key = candidates.map Candidate.key := by
  refine List.ext_getElem? fun place => ?_
  rw [List.getElem?_map, getElem?_withGains, Option.map_map, List.getElem?_map]
  congr 1
  funext candidate
  simp only [Function.comp_apply]
  split <;> rfl

lemma withGains_of_eq_zero (hnone : ∀ key ∈ candidates.map Candidate.key, gain key = 0) :
    withGains gain candidates = candidates := by
  refine List.ext_getElem? fun place => ?_
  rw [getElem?_withGains]
  cases hplace : candidates[place]? with
  | none => rfl
  | some candidate =>
    have hzero := hnone _ (List.mem_map_of_mem (List.mem_of_getElem? hplace))
    simp [hzero]

/-- Gains add up, since the candidates that stand for the keys stay the same. -/
lemma withGains_withGains :
    withGains more (withGains gain candidates) =
      withGains (fun key => gain key + more key) candidates := by
  refine List.ext_getElem? fun place => ?_
  have hkeys : (withGains gain candidates).map Candidate.key = candidates.map Candidate.key :=
    map_key_withGains
  simp only [getElem?_withGains, position?_congr hkeys, Option.map_map]
  congr 1
  funext candidate
  by_cases hstands : position? candidates candidate.key = some place
  · simp [hstands, add_assoc]
  · simp [hstands]

/-! ## Imports -/

/-- One import is a gain of one for its target. -/
lemma credit_eq (candidates : List (Candidate α)) (key : String) :
    credit candidates key = withGains (fun other => if key = other then 1 else 0) candidates := by
  rw [credit]
  cases hstands : position? candidates key with
  | none =>
    refine (withGains_of_eq_zero fun other hother => if_neg fun hsame => ?_).symm
    exact position?_eq_none_iff.mp hstands (hsame ▸ hother)
  | some place =>
    have hkey := getElem?_of_position? hstands
    refine List.ext_getElem? fun other => ?_
    rw [List.getElem?_modify, getElem?_withGains]
    cases hother : candidates[other]? with
    | none => rfl
    | some candidate =>
      simp only [Option.map_eq_map, Option.map_some, Option.some.injEq]
      by_cases hplace : place = other
      · subst hplace
        rw [List.getElem?_map, hother, Option.map_some, Option.some.injEq] at hkey
        simp [hkey, hstands]
      · -- a candidate at another place may have the key as well, but it does not stand for it
        rw [if_neg hplace]
        split
        · rename_i hown
          have hnamed : key ≠ candidate.key := by
            rintro rfl
            exact hplace (Option.some.inj (hstands.symm.trans hown))
          simp [hnamed]
        · rfl

lemma foldl_credit (keys : List String) (candidates : List (Candidate α)) :
    keys.foldl credit candidates = withGains (fun key => keys.count key) candidates := by
  induction keys generalizing candidates with
  | nil => exact (withGains_of_eq_zero fun _ _ => rfl).symm
  | cons key keys ih =>
    rw [List.foldl_cons, ih, credit_eq, withGains_withGains]
    congr 1
    funext other
    simp only [List.count_cons, beq_iff_eq, add_comm]

/-- A file names a key as often as it imports it, unless the key is its own. -/
lemma count_filter_ne_key (source : Candidate α) (key : String) :
    (source.edges.filter (· ≠ source.key)).count key =
      if source.key = key then 0 else source.edges.count key := by
  split
  · rename_i hown
    rw [List.count_eq_zero, List.mem_filter]
    exact fun hmem => of_decide_eq_true hmem.2 hown.symm
  · rename_i hother
    exact List.count_filter (decide_eq_true (Ne.symm hother))

/-- Counting dependents gives every candidate that stands for its key one more dependent for each
time that another file imports the key, whether the import counts for ranking or not. -/
theorem countDependents_eq (candidates : List (Candidate α)) :
    countDependents candidates =
      withGains (namings Candidate.edges candidates) candidates := by
  have hfold : ∀ sources counted : List (Candidate α),
      sources.foldl (fun counted source =>
        (source.edges.filter (· ≠ source.key)).foldl credit counted) counted =
          withGains (namings Candidate.edges sources) counted := by
    intro sources counted
    induction sources generalizing counted with
    | nil => exact (withGains_of_eq_zero fun _ _ => rfl).symm
    | cons source sources ih =>
      rw [List.foldl_cons, ih, foldl_credit, withGains_withGains]
      congr 1
      funext key
      rw [count_filter_ne_key, namings, namings, List.map_cons, List.sum_cons]
  exact hfold candidates candidates

/-- Where keys are distinct, every candidate stands for its own. -/
theorem countDependents_eq_map (hdistinct : (candidates.map Candidate.key).Nodup) :
    countDependents candidates = candidates.map fun candidate =>
      { candidate with
        dependents := candidate.dependents +
          namings Candidate.edges candidates candidate.key } := by
  rw [countDependents_eq]
  refine List.ext_getElem? fun place => ?_
  rw [getElem?_withGains, List.getElem?_map]
  cases hplace : candidates[place]? with
  | none => rfl
  | some candidate =>
    obtain ⟨hlt, rfl⟩ := List.getElem?_eq_some_iff.mp hplace
    rw [Option.map_some, Option.map_some, if_pos (position?_getElem hdistinct place hlt)]

end ImportRank.Candidate
