import ImportRank.Proofs.Order.Grade
import ImportRank.Proofs.Rank.KeyedWeights

/-!
# Line counts cancel

A candidate passes its weight on in portions, and how many lines it has makes no difference to
them: only whether it has any does. So candidates that differ in their sizes alone are ranked alike,
iteration by iteration, and so are candidates without lines whatever they depend on. Main statement:
`solve_cancels_lines`.
-/

namespace ImportRank.Candidate

open Network

/-! ## Candidates that pass on the same -/

/-- Two candidates that differ in their sizes alone; without lines are both or neither. -/
structure Resized (a b : Candidate ℚ) : Prop where
  key_eq : a.key = b.key
  dependencies_eq : a.dependencies = b.dependencies
  dependents_eq : a.dependents = b.dependents
  lines_eq_zero_iff : a.lines = 0 ↔ b.lines = 0

lemma Resized.outflow_eq {a b : Candidate ℚ} (hresized : Resized a b) (ha : 0 ≤ a.lines)
    (hb : 0 ≤ b.lines) : a.outflow = b.outflow := by
  have hpositive : 0 < a.lines ↔ 0 < b.lines := by
    have hzero := hresized.lines_eq_zero_iff
    omega
  have hportion : a.portion = b.portion := by
    funext target
    simp only [portion, hresized.dependencies_eq, hpositive]
  simp only [outflow, hresized.key_eq, hportion, hresized.dependencies_eq,
    hresized.lines_eq_zero_iff]

/-- The candidate without its dependencies, if it is chosen and has no lines. -/
def cleared (chosen : Candidate ℚ → Bool) (candidate : Candidate ℚ) : Candidate ℚ :=
  if candidate.lines = 0 ∧ chosen candidate = true then { candidate with dependencies := [] }
  else candidate

lemma portion_of_lines_eq_zero {candidate : Candidate ℚ} (hlines : candidate.lines = 0) :
    candidate.portion = fun _ => 0 := by
  funext target
  rw [portion, if_neg (by omega)]

/-- A candidate without lines passes nothing on to the files it depends on. -/
lemma outflow_cleared (chosen : Candidate ℚ → Bool) (candidate : Candidate ℚ) :
    (cleared chosen candidate).outflow = candidate.outflow := by
  rw [cleared]
  split
  · rename_i hcleared
    have hnothing := @portion_of_lines_eq_zero { candidate with dependencies := [] } hcleared.1
    rw [outflow, outflow, hnothing, portion_of_lines_eq_zero hcleared.1]
    simp [hcleared.1]
  · rfl

/-- Clearing touches nothing but the dependencies. -/
lemma view_cleared {β : Type} (view : Candidate ℚ → β)
    (hview : ∀ candidate dependencies, view { candidate with dependencies } = view candidate)
    (chosen : Candidate ℚ → Bool) (candidate : Candidate ℚ) :
    view (cleared chosen candidate) = view candidate := by
  rw [cleared]
  split
  · exact hview candidate []
  · rfl

lemma unlinked_cleared {candidates : List (Candidate ℚ)} (hunlinked : Unlinked candidates)
    (chosen : Candidate ℚ → Bool) : Unlinked (candidates.map (cleared chosen)) := by
  constructor
  · rw [List.map_map]
    have hkeys : Candidate.key ∘ cleared chosen = Candidate.key :=
      funext (view_cleared _ (fun _ _ => rfl) chosen)
    rw [hkeys]
    exact hunlinked.nodup_keys
  all_goals
    intro other hother
    obtain ⟨candidate, hcandidate, rfl⟩ := List.mem_map.mp hother
  · rw [view_cleared Candidate.lines (fun _ _ => rfl)]
    exact hunlinked.lines_nonneg candidate hcandidate
  · rw [view_cleared Candidate.links (fun _ _ => rfl)]
    exact hunlinked.links_eq_nil candidate hcandidate
  · rw [view_cleared Candidate.outbound (fun _ _ => rfl)]
    exact hunlinked.outbound_eq_zero candidate hcandidate

/-! ## Candidates that are ranked alike -/

/-- Two lists of candidates between which the solver sees no difference: the weights of every
iterate are the same, the run ends after as many steps, in the same way and at the same change, and
what it ends with is sorted into the same order. -/
structure RankedAlike (settings : Settings ℚ) (candidates others : List (Candidate ℚ)) : Prop where
  iterate_eq : ∀ steps, (ofCandidates (link candidates)).iterate settings.alpha steps =
    (ofCandidates (link others)).iterate settings.alpha steps
  solution_eq : (solve settings candidates).solution = (solve settings others).solution
  order_eq : (standing.sort (solve settings candidates).candidates).map
      (fun candidate => (candidate.key, candidate.weight)) =
    (standing.sort (solve settings others).candidates).map
      (fun candidate => (candidate.key, candidate.weight))

/-- The candidate with nothing left on it but what an order by rank reads or shows. -/
def bare (candidate : Candidate ℚ) : Candidate ℚ :=
  { candidate with edges := [], lines := 0, dependencies := [], links := [], outbound := 0 }

lemma bare_weighed (weight : String → ℚ) (candidate : Candidate ℚ) :
    bare (weighed weight candidate) =
      { key := candidate.key, edges := [], lines := 0, dependencies := []
        dependents := candidate.dependents, links := [], outbound := 0
        weight := weight candidate.key } := by
  have hkey : candidate.linked.key = candidate.key := key_linked candidate
  have hdependents : candidate.linked.dependents = candidate.dependents :=
    view_scaleLinks (fun _ _ _ => rfl) _ candidate
  simp only [bare, weighed, hkey, hdependents]

/-- Sorting reads nothing of a candidate that is not left on the bare one. -/
lemma map_sort_bare (candidates : List (Candidate ℚ)) :
    (standing.sort candidates).map (fun candidate => (candidate.key, candidate.weight)) =
      (standing.sort (candidates.map bare)).map
        fun candidate => (candidate.key, candidate.weight) := by
  have hsort : (standing.sort candidates).map bare = standing.sort (candidates.map bare) :=
    Standing.map_sort bare (fun _ _ => rfl) candidates
  rw [← hsort, List.map_map]
  rfl

section RankedAlike

variable {candidates others : List (Candidate ℚ)}

/-- Candidates that pass on the same, place by place, are ranked alike. -/
theorem rankedAlike_of_map_eq (hunlinked : Unlinked candidates) (hunlinked' : Unlinked others)
    (hsame : candidates.map (fun candidate => (candidate.outflow, candidate.dependents)) =
      others.map fun candidate => (candidate.outflow, candidate.dependents))
    (settings : Settings ℚ) : RankedAlike settings candidates others := by
  have hflows : candidates.map outflow = others.map outflow := by
    have hfirst := congrArg (List.map Prod.fst) hsame
    rwa [List.map_map, List.map_map] at hfirst
  have hkeyed : ∀ weight : String → ℚ, (candidates.map fun candidate => weight candidate.key) =
      others.map fun candidate => weight candidate.key := by
    intro weight
    have hkeys := congrArg (List.map fun flow : Outflow => weight flow.key) hflows
    rwa [List.map_map, List.map_map] at hkeys
  obtain ⟨weight, steps, change, converged, hsolution, hsolution'⟩ :=
    exists_solution_eq hunlinked hunlinked' (List.Perm.of_eq hflows) settings
  constructor
  · intro steps
    rw [iterate_link hunlinked, iterate_link hunlinked', hflows, hkeyed]
  · rw [hsolution, hsolution', hkeyed]
  · have hbare : (solve settings candidates).candidates.map bare =
        (solve settings others).candidates.map bare := by
      rw [candidates_solve_eq hunlinked (by rw [hsolution]),
        candidates_solve_eq hunlinked' (by rw [hsolution'])]
      have hmap := congrArg (List.map fun entry : Outflow × ℤ =>
        ({ key := entry.1.key, edges := [], lines := 0, dependencies := [], dependents := entry.2
           links := [], outbound := 0, weight := weight entry.1.key } : Candidate ℚ)) hsame
      rw [List.map_map, List.map_map] at hmap ⊢
      simp only [Function.comp_def, bare_weighed]
      exact hmap
    rw [map_sort_bare, hbare, ← map_sort_bare]

/-- Line counts cancel: candidates that differ in their sizes alone, with lines or without in the
same places, are ranked alike, and so are candidates some of which, without lines, have lost their
dependencies. -/
theorem solve_cancels_lines (hunlinked : Unlinked candidates) (settings : Settings ℚ) :
    (∀ others, Unlinked others → List.Forall₂ Resized candidates others →
      RankedAlike settings candidates others) ∧
    ∀ chosen : Candidate ℚ → Bool,
      RankedAlike settings candidates (candidates.map (cleared chosen)) := by
  constructor
  · intro others hunlinked' hresized
    refine rankedAlike_of_map_eq hunlinked hunlinked' ?_ settings
    obtain ⟨hlength, hresized⟩ := List.forall₂_iff_get.mp hresized
    refine List.ext_getElem (by simpa using hlength) fun place hplace hplace' => ?_
    rw [List.length_map] at hplace hplace'
    have hpair : Resized candidates[place] others[place] := hresized place hplace hplace'
    rw [List.getElem_map, List.getElem_map, hpair.dependents_eq,
      hpair.outflow_eq (hunlinked.lines_nonneg _ (List.getElem_mem hplace))
        (hunlinked'.lines_nonneg _ (List.getElem_mem hplace'))]
  · intro chosen
    refine rankedAlike_of_map_eq hunlinked (unlinked_cleared hunlinked chosen) ?_ settings
    rw [List.map_map]
    refine List.map_congr_left fun candidate _ => ?_
    rw [Function.comp_apply, outflow_cleared,
      view_cleared Candidate.dependents (fun _ _ => rfl)]

end RankedAlike

/-- The sample with files of other sizes. -/
def sampleResized : List (Candidate ℚ) :=
  [fresh "a.py" 40 [] ["b.py", "a.py", "b.py", "gone.py"], fresh "b.py" 0 [] ["a.py"],
    fresh "c.py" 1 [] []]

/-- The sample is ranked alike whatever the sizes of its files are, and whatever its empty file
imports. -/
theorem solve_cancels_lines_sample :
    Unlinked sampleUnlinked ∧ Unlinked sampleResized ∧
    List.Forall₂ Resized sampleUnlinked sampleResized ∧
    RankedAlike Settings.exact sampleUnlinked sampleResized ∧
    RankedAlike Settings.exact sampleUnlinked (sampleUnlinked.map (cleared fun _ => true)) := by
  have hunlinked : Unlinked sampleResized := by
    constructor <;> simp [sampleResized, fresh]
  have hresized : List.Forall₂ Resized sampleUnlinked sampleResized := by
    refine .cons ?_ (.cons ?_ (.cons ?_ .nil))
    all_goals constructor <;> simp [fresh]
  obtain ⟨halike, hcleared⟩ := solve_cancels_lines unlinked_sample Settings.exact
  exact ⟨unlinked_sample, hunlinked, hresized, halike sampleResized hunlinked hresized,
    hcleared fun _ => true⟩

end ImportRank.Candidate
