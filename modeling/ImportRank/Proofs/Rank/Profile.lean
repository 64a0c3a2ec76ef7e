import ImportRank.Rank.Network
import Mathlib.Data.Int.Notation
import Mathlib.Data.Nat.Notation
import Mathlib.Tactic.Lemma

/-!
# What stays on a candidate

Counting dependents, linking and weighing each write on fields of their own. Whatever is read off
the other fields stays as it is, candidate by candidate; the `profile` is what all three leave
alone.
-/

namespace ImportRank.Candidate

variable {α β : Type} {candidates : List (Candidate α)}

/-! ## Dependents -/

section Dependents

variable {view : Candidate α → β}
  (hview : ∀ candidate count, view { candidate with dependents := count } = view candidate)

include hview

lemma map_credit (candidates : List (Candidate α)) (key : String) :
    (credit candidates key).map view = candidates.map view := by
  rw [credit]
  split
  · refine List.ext_getElem (by simp) fun place _ _ => ?_
    simp only [List.getElem_map, List.getElem_modify]
    split
    · exact hview _ _
    · rfl
  · rfl

lemma map_foldl_credit (keys : List String) (candidates : List (Candidate α)) :
    (keys.foldl credit candidates).map view = candidates.map view := by
  induction keys generalizing candidates with
  | nil => rfl
  | cons key keys ih => rw [List.foldl_cons, ih, map_credit hview]

theorem map_countDependents (candidates : List (Candidate α)) :
    (countDependents candidates).map view = candidates.map view := by
  have hfold : ∀ sources counted : List (Candidate α),
      (sources.foldl (fun counted source =>
        (source.edges.filter (· ≠ source.key)).foldl credit counted) counted).map view =
          counted.map view := by
    intro sources counted
    induction sources generalizing counted with
    | nil => rfl
    | cons source sources ih => rw [List.foldl_cons, ih, map_foldl_credit hview]
  exact hfold candidates candidates

end Dependents

/-! ## Links -/

section Links

variable [Arithmetic α]

/-- Taking in edges writes on the links and the outbound weight and on nothing else. -/
lemma foldl_addEdge (edges : List Edge) (candidate : Candidate α) :
    edges.foldl addEdge candidate =
      { candidate with
        outbound := edges.foldl
          (fun total edge => Arithmetic.add total (Arithmetic.ofInt edge.lines)) candidate.outbound
        links := edges.foldl (fun links edge => addLink edge.target edge.lines links)
          candidate.links } := by
  induction edges generalizing candidate with
  | nil => rfl
  | cons edge edges ih => rw [List.foldl_cons, ih]; rfl

variable {view : Candidate α → β}
  (hview : ∀ candidate outbound links, view { candidate with outbound, links } = view candidate)

include hview

lemma view_scaleLinks (edges : List Edge) (candidate : Candidate α) :
    view (edges.foldl addEdge candidate).scaleLinks = view candidate := by
  rw [foldl_addEdge, scaleLinks]
  split <;> exact hview candidate _ _

theorem map_link (candidates : List (Candidate α)) :
    (link candidates).map view = candidates.map view := by
  refine List.ext_getElem (by simp [link]) fun place _ _ => ?_
  simp only [link, List.getElem_map, List.getElem_mapIdx]
  split
  · exact view_scaleLinks hview _ _
  · rfl

end Links

/-! ## Weights -/

section Weights

variable {weights : Array α} (hsize : weights.size = candidates.length)

include hsize

theorem map_withWeights {view : Candidate α → β}
    (hview : ∀ candidate weight, view { candidate with weight } = view candidate) :
    (withWeights candidates weights).map view = candidates.map view :=
  List.ext_getElem (by simp [withWeights, hsize]) fun place _ _ => by simp [withWeights, hview]

lemma map_weight_withWeights :
    (withWeights candidates weights).map Candidate.weight = weights.toList :=
  List.ext_getElem (by simp [withWeights, hsize]) fun place _ _ => by simp [withWeights]

lemma weights_withWeights : Candidate.weights (withWeights candidates weights) = weights := by
  rw [Candidate.weights, map_weight_withWeights hsize]

lemma withWeights_withWeights (others : Array α) :
    withWeights (withWeights candidates weights) others = withWeights candidates others :=
  List.ext_getElem (by simp [withWeights, hsize]) fun place _ _ => by simp [withWeights]

end Weights

/-! ## The profile -/

/-- What a candidate is before anything counts, links or weighs it. -/
structure Profile where
  key : String
  edges : List String
  lines : ℤ
  dependencies : List String

/-- The profile of a candidate, whatever has been written on it. -/
def profile (candidate : Candidate α) : Profile :=
  { key := candidate.key
    edges := candidate.edges
    lines := candidate.lines
    dependencies := candidate.dependencies }

/-- A view of candidates on which nothing shows that the solver writes: neither links, nor outbound
weights, nor weights. -/
def Steady (view : Candidate α → β) : Prop :=
  ∀ candidate links outbound weight,
    view { candidate with links, outbound, weight } = view candidate

lemma steady_profile : Steady (profile (α := α)) := fun _ _ _ _ => rfl

/-! ## Closed lists -/

/-- Candidates with distinct keys that depend on each other alone. -/
structure Closed (candidates : List (Candidate α)) : Prop where
  nodup_keys : (candidates.map Candidate.key).Nodup
  target_mem : ∀ candidate ∈ candidates, ∀ target ∈ candidate.dependencies,
    target ∈ candidates.map Candidate.key

section Perm

variable {others : List (Candidate β)}
  (hperm : (others.map profile).Perm (candidates.map profile))

include hperm

lemma perm_keys : (others.map Candidate.key).Perm (candidates.map Candidate.key) := by
  have hkeys := hperm.map Profile.key
  rwa [List.map_map, List.map_map] at hkeys

lemma exists_profile_eq {other : Candidate β} (hother : other ∈ others) :
    ∃ candidate ∈ candidates, candidate.profile = other.profile :=
  List.mem_map.mp (hperm.mem_iff.mp (List.mem_map_of_mem hother))

/-- Whether a list is closed is a matter of the profiles, in any order. -/
theorem Closed.of_perm (hclosed : Closed candidates) : Closed others := by
  have hkeys := perm_keys hperm
  refine ⟨hkeys.nodup_iff.mpr hclosed.nodup_keys, fun other hother target htarget => ?_⟩
  obtain ⟨candidate, hcandidate, hsame⟩ := exists_profile_eq hperm hother
  have hdependencies : candidate.dependencies = other.dependencies :=
    congrArg Profile.dependencies hsame
  exact hkeys.mem_iff.mpr (hclosed.target_mem candidate hcandidate target (hdependencies ▸ htarget))

/-- And so is whether the dependencies are the edges between the candidates. -/
theorem dependencies_eq_of_perm
    (hedges : ∀ candidate ∈ candidates, candidate.dependencies =
      candidate.edges.filter (· ∈ candidates.map Candidate.key)) :
    ∀ other ∈ others, other.dependencies =
      other.edges.filter (· ∈ others.map Candidate.key) := by
  intro other hother
  obtain ⟨candidate, hcandidate, hsame⟩ := exists_profile_eq hperm hother
  calc other.dependencies
      = candidate.dependencies := (congrArg Profile.dependencies hsame).symm
    _ = candidate.edges.filter (· ∈ candidates.map Candidate.key) := hedges candidate hcandidate
    _ = other.edges.filter (· ∈ candidates.map Candidate.key) :=
        congrArg (List.filter _) (congrArg Profile.edges hsame)
    _ = other.edges.filter (· ∈ others.map Candidate.key) :=
        List.filter_congr fun target _ => decide_eq_decide.mpr (perm_keys hperm).mem_iff.symm

end Perm

end ImportRank.Candidate
