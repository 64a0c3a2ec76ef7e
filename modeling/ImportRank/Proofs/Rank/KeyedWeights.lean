import ImportRank.Proofs.Rank.Stationary

/-!
# Weights by key

Once freshly linked, a candidate matters to the solver through its `Outflow` alone: its key, the
portion each key receives of what it passes on, and whether it dangles. Here the iterates are
computed from outflows, as functions of keys, with no positions and no order of deposits. The main
statement, `iterate_link`, says that these are the iterates of the solver. So what two lists of
candidates have in common as long as their outflows are the same, in any order, is all that the
solver finds out.
-/

namespace ImportRank

open Network

attribute [ext] Iterate

/-- What one source of weight passes on: a portion for each key, or an equal part to everyone if it
dangles. -/
structure Outflow where
  key : String
  portion : String → ℚ
  dangling : Bool

namespace Outflow

variable {flows others : List Outflow}

/-- The part of the weight of a source that reaches a key among a number of sources. -/
def reaching (flow : Outflow) (count : ℕ) (key : String) : ℚ :=
  flow.portion key + if flow.dangling then 1 / (count : ℚ) else 0

/-- The weight of a key after a number of steps from equal weights. -/
def weightOf (flows : List Outflow) (alpha : ℚ) : ℕ → String → ℚ
  | 0, _ => 1 / flows.length
  | steps + 1, key =>
    alpha * (flows.map fun flow =>
      flow.reaching flows.length key * weightOf flows alpha steps flow.key).sum +
        (1 - alpha) / flows.length

/-- The change of a step: the sum over all sources of how far their weights moved. -/
def changeOf (flows : List Outflow) (alpha : ℚ) : ℕ → ℚ
  | 0 => 1
  | steps + 1 => (flows.map fun flow =>
      |weightOf flows alpha (steps + 1) flow.key - weightOf flows alpha steps flow.key|).sum

/-- The order of the sources changes no weight. -/
theorem weightOf_perm (hperm : flows.Perm others) (alpha : ℚ) (steps : ℕ) :
    weightOf flows alpha steps = weightOf others alpha steps := by
  induction steps with
  | zero =>
    funext key
    rw [weightOf, weightOf, hperm.length_eq]
  | succ steps ih =>
    funext key
    rw [weightOf, weightOf, ih, hperm.length_eq]
    rw [(hperm.map _).sum_eq]

/-- And no change. -/
theorem changeOf_perm (hperm : flows.Perm others) (alpha : ℚ) (steps : ℕ) :
    changeOf flows alpha steps = changeOf others alpha steps := by
  cases steps with
  | zero => rfl
  | succ steps =>
    rw [changeOf, changeOf, weightOf_perm hperm, weightOf_perm hperm]
    exact (hperm.map _).sum_eq

end Outflow

namespace Candidate

variable {candidates : List (Candidate ℚ)}

/-- The outflow of a candidate once it is linked. -/
def outflow (candidate : Candidate ℚ) : Outflow :=
  { key := candidate.key
    portion := candidate.portion
    dangling := decide (candidate.lines = 0 ∨ candidate.dependencies = []) }

/-! ## Shares by key -/

lemma portion_of_notMem {candidate : Candidate ℚ} {target : String}
    (hunnamed : target ∉ candidate.dependencies) : candidate.portion target = 0 := by
  rw [portion, List.count_eq_zero_of_not_mem hunnamed]
  simp

/-- What a station sends to the position of a key is the portion of the key. -/
lemma shareTo_station (hdistinct : (candidates.map Candidate.key).Nodup) (place : ℕ)
    (source : Candidate ℚ) {target : ℕ} (htarget : target < candidates.length) :
    (station candidates place source).shareTo target = source.portion candidates[target].key := by
  set key := candidates[target].key with hkey
  have hplaced := sum_placed hdistinct htarget
    ((distinct source.dependencies).map fun name => (name, source.portion name))
  rw [List.filterMap_map, List.map_map, ← hkey] at hplaced
  have hnamed : ∀ name : String, (if name = key then source.portion name else 0) =
      if name = key then source.portion key else 0 := by
    intro name
    split
    · rename_i hname
      rw [hname]
    · rfl
  refine hplaced.trans ?_
  simp only [Function.comp_def, hnamed]
  rw [List.sum_map_ite_eq]
  by_cases hmem : key ∈ source.dependencies
  · rw [List.count_eq_one_of_mem (nodup_distinct _) (mem_distinct.mpr hmem)]
    simp
  · rw [portion_of_notMem hmem]
    simp

/-- The flow of freshly linked candidates, key by key. -/
lemma flow_station (hdistinct : (candidates.map Candidate.key).Nodup) {network : Network ℚ}
    (hnetwork : network = candidates.mapIdx (station candidates))
    (hlength : network.length = candidates.length) (target source : Fin network.length) :
    network.flow target source =
      (candidates.get (source.cast hlength)).outflow.reaching candidates.length
        (candidates.get (target.cast hlength)).key := by
  have htarget : (target : ℕ) < candidates.length := hlength ▸ target.isLt
  have hsource : (source : ℕ) < candidates.length := hlength ▸ source.isLt
  have hcount : (network.length : ℚ) = candidates.length := by rw [hlength]
  have hstation : network[source] = station candidates source candidates[(source : ℕ)] := by
    subst hnetwork
    exact List.getElem_mapIdx
  rw [flow, hstation, shareTo_station hdistinct _ _ htarget, hcount]
  rfl

/-! ## Iterates by key -/

/-- Candidates with a weight for each key. -/
lemma reading_keyed {network : Network ℚ} (hlength : network.length = candidates.length)
    (weight : String → ℚ) (i : Fin network.length) :
    network.reading (candidates.map fun candidate => weight candidate.key).toArray i =
      weight (candidates.get (i.cast hlength)).key := by
  have hi : (i : ℕ) < candidates.length := hlength ▸ i.isLt
  rw [reading, weightAt_of_lt (by simpa using hi)]
  simp

lemma sum_places {count : ℕ} (hlength : count = candidates.length) (amount : Candidate ℚ → ℚ) :
    ∑ i : Fin count, amount (candidates.get (i.cast hlength)) =
      (candidates.map amount).sum := by
  subst hlength
  exact Fin.sum_univ_fun_getElem candidates amount

lemma weights_iterate_link (hunlinked : Unlinked candidates) (alpha : ℚ) (steps : ℕ) :
    ((ofCandidates (link candidates)).iterate alpha steps).weights =
      (candidates.map fun candidate =>
        Outflow.weightOf (candidates.map outflow) alpha steps candidate.key).toArray := by
  have hwired := wired_link hunlinked
  have hnetwork := ofCandidates_link hunlinked
  have hlength : (ofCandidates (link candidates)).length = candidates.length := by
    rw [hnetwork, List.length_mapIdx]
  set network := ofCandidates (link candidates)
  have hcount : (network.length : ℚ) = candidates.length := by rw [hlength]
  have hflow := flow_station hunlinked.nodup_keys hnetwork hlength
  induction steps with
  | zero =>
    refine @eq_of_reading_eq network _ _ (by simp) (by simp [hlength]) ?_
    funext i
    rw [reading_keyed hlength, iterate_zero, reading_start, Outflow.weightOf, List.length_map,
      hcount]
  | succ steps ih =>
    refine @eq_of_reading_eq network _ _ (by simp) (by simp [hlength]) ?_
    funext i
    have hsize : (network.iterate alpha steps).weights.size = network.length :=
      size_weights_iterate network alpha steps
    rw [weights_iterate_succ, reading_advance hwired alpha hsize, ih, reading_keyed hlength,
      Outflow.weightOf, List.length_map, List.map_map]
    simp only [Pi.add_apply, Pi.smul_apply, smul_eq_mul, Matrix.mulVec, dotProduct, hflow,
      reading_keyed hlength]
    rw [sum_places hlength fun source => source.outflow.reaching candidates.length
      (candidates.get (i.cast hlength)).key *
        Outflow.weightOf (candidates.map outflow) alpha steps source.key, hcount]
    rfl

/-- The iterates of the solver are those of the outflows. -/
theorem iterate_link (hunlinked : Unlinked candidates) (alpha : ℚ) (steps : ℕ) :
    (ofCandidates (link candidates)).iterate alpha steps =
      { weights := (candidates.map fun candidate =>
          Outflow.weightOf (candidates.map outflow) alpha steps candidate.key).toArray
        steps
        change := Outflow.changeOf (candidates.map outflow) alpha steps } := by
  have hlength : (ofCandidates (link candidates)).length = candidates.length := by
    rw [ofCandidates_link hunlinked, List.length_mapIdx]
  have hchange : ((ofCandidates (link candidates)).iterate alpha steps).change =
      Outflow.changeOf (candidates.map outflow) alpha steps := by
    cases steps with
    | zero => simp [iterate_zero, start, Outflow.changeOf]
    | succ steps =>
      rw [change_iterate_succ (wired_link hunlinked), weights_iterate_link hunlinked,
        weights_iterate_link hunlinked, distance]
      simp only [reading_keyed hlength]
      rw [sum_places hlength fun candidate =>
        |Outflow.weightOf (candidates.map outflow) alpha (steps + 1) candidate.key -
          Outflow.weightOf (candidates.map outflow) alpha steps candidate.key|,
        Outflow.changeOf, List.map_map]
      rfl
  exact Iterate.ext (weights_iterate_link hunlinked alpha steps) (steps_iterate _ _ _) hchange

/-! ## Lists with the same outflows -/

/-- A candidate as the solver returns it, with a weight for each key. -/
def weighed (weight : String → ℚ) (candidate : Candidate ℚ) : Candidate ℚ :=
  { candidate.linked with weight := weight candidate.key }

/-- The candidates that the solver returns, given the weights by key that it ends at. -/
lemma candidates_solve_eq (hunlinked : Unlinked candidates) {settings : Settings ℚ}
    {weight : String → ℚ}
    (hweights : (solve settings candidates).solution.final.weights =
      (candidates.map fun candidate => weight candidate.key).toArray) :
    (solve settings candidates).candidates = candidates.map (weighed weight) := by
  have hreturned : (solve settings candidates).candidates =
      withWeights (link candidates) (solve settings candidates).solution.final.weights := rfl
  rw [hreturned, hweights, link_eq_map hunlinked.nodup_keys, withWeights, List.zipWith_map,
    List.zipWith_self]
  rfl

variable {others : List (Candidate ℚ)}

/-- Candidates whose outflows are the same, in any order, are solved in the same number of steps
and in the same way, and their weights are the same by key. -/
theorem exists_solution_eq (hunlinked : Unlinked candidates) (hunlinked' : Unlinked others)
    (hperm : (candidates.map outflow).Perm (others.map outflow)) (settings : Settings ℚ) :
    ∃ (weight : String → ℚ) (steps : ℕ) (change : ℚ) (converged : Bool),
      (solve settings candidates).solution =
        { final :=
            { weights := (candidates.map fun candidate => weight candidate.key).toArray
              steps, change }
          converged } ∧
      (solve settings others).solution =
        { final :=
            { weights := (others.map fun candidate => weight candidate.key).toArray
              steps, change }
          converged } := by
  have hchange : ∀ steps, ((ofCandidates (link candidates)).iterate settings.alpha steps).change =
      ((ofCandidates (link others)).iterate settings.alpha steps).change := by
    intro steps
    rw [iterate_link hunlinked, iterate_link hunlinked']
    exact Outflow.changeOf_perm hperm settings.alpha steps
  obtain ⟨steps, converged, hfirst, hsecond⟩ :=
    settle_of_same_changes hchange settings.epsilon settings.ceiling
  refine ⟨Outflow.weightOf (candidates.map outflow) settings.alpha steps, steps,
    Outflow.changeOf (candidates.map outflow) settings.alpha steps, converged, ?_, ?_⟩
  · refine hfirst.trans ?_
    rw [← iterate_link hunlinked]
    rfl
  · refine hsecond.trans ?_
    rw [Outflow.weightOf_perm hperm, Outflow.changeOf_perm hperm, ← iterate_link hunlinked']
    rfl

end Candidate

end ImportRank
