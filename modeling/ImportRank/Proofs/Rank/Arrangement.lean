import ImportRank.Proofs.Order.Grade
import ImportRank.Proofs.Rank.KeyedWeights
import Mathlib.Data.List.Forall2

/-!
# The order of discovery

Which candidate comes first in a list, and which dependency comes first on a candidate, makes no
difference to the solver: every key has the same weight in the end, after as many iterations. Only
candidates that tie can change places. Main statement: `solve_rearranged`.
-/

namespace ImportRank.Candidate

open Network

/-! ## Rearranged candidates -/

/-- Two candidates that differ in the order of their dependencies and links alone. -/
structure Alike (a b : Candidate ℚ) : Prop where
  key_eq : a.key = b.key
  edges_eq : a.edges = b.edges
  lines_eq : a.lines = b.lines
  dependencies_perm : a.dependencies.Perm b.dependencies
  dependents_eq : a.dependents = b.dependents
  links_perm : (a.links.map fun (target, amount) => (target, amount.value)).Perm
    (b.links.map fun (target, amount) => (target, amount.value))
  outbound_eq : a.outbound = b.outbound
  weight_eq : a.weight = b.weight

/-- The same candidates in another order, each with its dependencies in an order of its own. -/
def Rearranged (candidates others : List (Candidate ℚ)) : Prop :=
  ∃ between, candidates.Perm between ∧ List.Forall₂ Alike between others

namespace Alike

variable {a b : Candidate ℚ}

/-- The order of dependencies changes no portion. -/
lemma portion_eq (halike : Alike a b) : a.portion = b.portion := by
  funext target
  rw [portion, portion, halike.lines_eq, halike.dependencies_perm.count_eq,
    halike.dependencies_perm.length_eq]

lemma outflow_eq (halike : Alike a b) : a.outflow = b.outflow := by
  have hnone : a.dependencies = [] ↔ b.dependencies = [] := by
    rw [← List.length_eq_zero_iff, ← List.length_eq_zero_iff, halike.dependencies_perm.length_eq]
  simp only [outflow, halike.key_eq, halike.portion_eq, halike.lines_eq, hnone]

lemma grade_eq (a b : Candidate ℚ) (halike : Alike a b) : a.grade = b.grade := by
  rw [grade, grade, halike.weight_eq, halike.dependents_eq]

lemma links_eq_nil (halike : Alike a b) (hlinks : a.links = []) : b.links = [] := by
  have hperm := halike.links_perm
  rw [hlinks, List.map_nil, List.nil_perm] at hperm
  exact List.map_eq_nil_iff.mp hperm

/-- Linked and weighed by key, they are alike as well. -/
lemma weighed (halike : Alike a b) (hlines : 0 ≤ a.lines) (hlinks : a.links = [])
    (houtbound : a.outbound = 0) (weight : String → ℚ) :
    Alike (a.weighed weight) (b.weighed weight) := by
  have houtbound' : b.outbound = 0 := halike.outbound_eq ▸ houtbound
  have hview : ∀ candidate : Candidate ℚ, candidate.linked.profile = candidate.profile ∧
      candidate.linked.dependents = candidate.dependents := fun candidate =>
    ⟨view_scaleLinks (fun _ _ _ => rfl) _ candidate, view_scaleLinks (fun _ _ _ => rfl) _ candidate⟩
  have hdistinct : (distinct a.dependencies).Perm (distinct b.dependencies) := by
    refine (List.perm_ext_iff_of_nodup (nodup_distinct _) (nodup_distinct _)).mpr fun target => ?_
    rw [mem_distinct, mem_distinct, halike.dependencies_perm.mem_iff]
  constructor
  · show a.linked.key = b.linked.key
    rw [key_linked, key_linked, halike.key_eq]
  · show a.linked.profile.edges = b.linked.profile.edges
    rw [(hview a).1, (hview b).1]
    exact halike.edges_eq
  · show a.linked.profile.lines = b.linked.profile.lines
    rw [(hview a).1, (hview b).1]
    exact halike.lines_eq
  · show a.linked.profile.dependencies.Perm b.linked.profile.dependencies
    rw [(hview a).1, (hview b).1]
    exact halike.dependencies_perm
  · show a.linked.dependents = b.linked.dependents
    rw [(hview a).2, (hview b).2, halike.dependents_eq]
  · show (a.linked.links.map _).Perm (b.linked.links.map _)
    rw [links_linked hlinks houtbound hlines,
      links_linked (halike.links_eq_nil hlinks) houtbound' (halike.lines_eq ▸ hlines),
      halike.portion_eq]
    exact hdistinct.map _
  · show a.linked.outbound = b.linked.outbound
    rw [outbound_linked, outbound_linked, halike.outbound_eq, halike.lines_eq,
      halike.dependencies_perm.length_eq]
  · show weight a.key = weight b.key
    rw [halike.key_eq]

end Alike

section Rearranged

variable {candidates others : List (Candidate ℚ)}

lemma Rearranged.exists_alike (hrearranged : Rearranged candidates others) {b : Candidate ℚ}
    (hb : b ∈ others) : ∃ a ∈ candidates, Alike a b := by
  obtain ⟨between, hperm, halike⟩ := hrearranged
  obtain ⟨hlength, halike⟩ := List.forall₂_iff_get.mp halike
  obtain ⟨place, hplace, rfl⟩ := List.getElem_of_mem hb
  have hplace' : place < between.length := hlength ▸ hplace
  exact ⟨between[place], hperm.mem_iff.mpr (List.getElem_mem hplace'), halike place hplace' hplace⟩

/-- What alike candidates have in common, the lists have up to order. -/
lemma Rearranged.perm_map {β : Type} {view : Candidate ℚ → β}
    (hrearranged : Rearranged candidates others) (hview : ∀ a b, Alike a b → view a = view b) :
    (candidates.map view).Perm (others.map view) := by
  obtain ⟨between, hperm, halike⟩ := hrearranged
  have hsame : between.map view = others.map view := by
    rw [← List.forall₂_eq_eq_eq, List.forall₂_map_left_iff, List.forall₂_map_right_iff]
    exact halike.imp hview
  rw [← hsame]
  exact hperm.map view

lemma Rearranged.unlinked (hrearranged : Rearranged candidates others)
    (hunlinked : Unlinked candidates) : Unlinked others := by
  constructor
  · rw [← (hrearranged.perm_map fun _ _ => Alike.key_eq).nodup_iff]
    exact hunlinked.nodup_keys
  all_goals
    intro other hother
    obtain ⟨candidate, hcandidate, halike⟩ := hrearranged.exists_alike hother
  · rw [← halike.lines_eq]
    exact hunlinked.lines_nonneg candidate hcandidate
  · exact halike.links_eq_nil (hunlinked.links_eq_nil candidate hcandidate)
  · rw [← halike.outbound_eq]
    exact hunlinked.outbound_eq_zero candidate hcandidate

/-- The same candidates linked and weighed by key are the same candidates. -/
lemma Rearranged.map_weighed (hrearranged : Rearranged candidates others)
    (hunlinked : Unlinked candidates) (weight : String → ℚ) :
    Rearranged (candidates.map (Candidate.weighed weight))
      (others.map (Candidate.weighed weight)) := by
  obtain ⟨between, hperm, halike⟩ := hrearranged
  refine ⟨between.map (Candidate.weighed weight), hperm.map _, ?_⟩
  have hmem : ∀ candidate ∈ between, candidate ∈ candidates := fun candidate hcandidate =>
    hperm.mem_iff.mpr hcandidate
  have hboth := (List.forall₂_and_left between others).mpr ⟨hmem, halike⟩
  rw [List.forall₂_map_left_iff, List.forall₂_map_right_iff]
  refine hboth.imp fun a b hab => ?_
  exact hab.2.weighed (hunlinked.lines_nonneg a hab.1) (hunlinked.links_eq_nil a hab.1)
    (hunlinked.outbound_eq_zero a hab.1) weight

/-- Where no two candidates tie, sorting puts the same candidates into the same order. -/
lemma Rearranged.forall₂_sort (hrearranged : Rearranged candidates others)
    (huntied : ∀ a ∈ candidates, ∀ b ∈ candidates, a.grade = b.grade → a = b) :
    List.Forall₂ Alike (standing.sort candidates) (standing.sort others) := by
  have hgrades : (standing.sort candidates).map grade = (standing.sort others).map grade :=
    Standing.map_grade_sort_eq (graded_exact candidates) (graded_exact others)
      (hrearranged.perm_map Alike.grade_eq)
  have hlength : (standing.sort candidates).length = (standing.sort others).length := by
    simpa using congrArg List.length hgrades
  refine List.forall₂_iff_get.mpr ⟨hlength, fun place hplace hplace' => ?_⟩
  have ha : (standing.sort candidates)[place] ∈ candidates :=
    (Standing.sort_perm candidates).mem_iff.mp (List.getElem_mem hplace)
  have hb : (standing.sort others)[place] ∈ others :=
    (Standing.sort_perm others).mem_iff.mp (List.getElem_mem hplace')
  have hgrade : (standing.sort candidates)[place].grade = (standing.sort others)[place].grade := by
    have hget := List.getElem_of_eq hgrades (i := place) (by simpa using hplace)
    rwa [List.getElem_map, List.getElem_map] at hget
  -- the candidate that the other one is like has its grade, and only one candidate has
  obtain ⟨a, hmem, halike⟩ := hrearranged.exists_alike hb
  have hsame : a = (standing.sort candidates)[place] := by
    refine huntied a hmem _ ha ?_
    rw [hgrade, Alike.grade_eq _ _ halike]
  rw [List.get_eq_getElem, List.get_eq_getElem, ← hsame]
  exact halike

/-- The order of candidates and of their dependencies does not matter. Every key ends with the same
weight, after as many iterations, at the same change and in the same way. The weights and dependents
of the candidates by rank are the same sequence, and where no two candidates tie on both, the
candidates by rank are the same. -/
theorem solve_rearranged (hunlinked : Unlinked candidates)
    (hrearranged : Rearranged candidates others) (settings : Settings ℚ) :
    Rearranged (solve settings candidates).candidates (solve settings others).candidates ∧
    (∀ a ∈ (solve settings candidates).candidates, ∀ b ∈ (solve settings others).candidates,
      a.key = b.key → a.weight = b.weight) ∧
    (solve settings candidates).solution.final.steps =
      (solve settings others).solution.final.steps ∧
    (solve settings candidates).solution.final.change =
      (solve settings others).solution.final.change ∧
    (solve settings candidates).solution.converged =
      (solve settings others).solution.converged ∧
    (standing.sort (solve settings candidates).candidates).map
        (fun candidate => (candidate.weight, candidate.dependents)) =
      (standing.sort (solve settings others).candidates).map
        (fun candidate => (candidate.weight, candidate.dependents)) ∧
    ((∀ a ∈ (solve settings candidates).candidates, ∀ b ∈ (solve settings candidates).candidates,
        a.weight = b.weight → a.dependents = b.dependents → a = b) →
      List.Forall₂ Alike (standing.sort (solve settings candidates).candidates)
        (standing.sort (solve settings others).candidates)) := by
  have hunlinked' := hrearranged.unlinked hunlinked
  obtain ⟨weight, steps, change, converged, hsolution, hsolution'⟩ :=
    exists_solution_eq hunlinked hunlinked' (hrearranged.perm_map fun _ _ => Alike.outflow_eq)
      settings
  have hsolved : (solve settings candidates).candidates =
      candidates.map (Candidate.weighed weight) :=
    candidates_solve_eq hunlinked (by rw [hsolution])
  have hsolved' : (solve settings others).candidates = others.map (Candidate.weighed weight) :=
    candidates_solve_eq hunlinked' (by rw [hsolution'])
  have hreturned : Rearranged (solve settings candidates).candidates
      (solve settings others).candidates := by
    rw [hsolved, hsolved']
    exact hrearranged.map_weighed hunlinked weight
  refine ⟨hreturned, ?_, by rw [hsolution, hsolution'], by rw [hsolution, hsolution'],
    by rw [hsolution, hsolution'], ?_, fun huntied => ?_⟩
  · rw [hsolved, hsolved']
    intro a ha b hb hkey
    obtain ⟨candidate, _, rfl⟩ := List.mem_map.mp ha
    obtain ⟨other, _, rfl⟩ := List.mem_map.mp hb
    have hkey : candidate.key = other.key := by
      rwa [Candidate.weighed, Candidate.weighed, key_linked, key_linked] at hkey
    show weight candidate.key = weight other.key
    rw [hkey]
  · have hgrades := Standing.map_grade_sort_eq (graded_exact (solve settings candidates).candidates)
      (graded_exact (solve settings others).candidates) (hreturned.perm_map Alike.grade_eq)
    have hpairs := congrArg (List.map ofLex) hgrades
    rwa [List.map_map, List.map_map] at hpairs
  · refine hreturned.forall₂_sort fun a ha b hb hgrade => ?_
    have hpair : (a.weight, a.dependents) = (b.weight, b.dependents) := congrArg ofLex hgrade
    obtain ⟨hweight, hdependents⟩ := Prod.mk.inj hpair
    exact huntied a ha b hb hweight hdependents

end Rearranged

/-- The sample in another order, the dependencies of the first file in another order as well. -/
def sampleRearranged : List (Candidate ℚ) :=
  [fresh "c.py" 7 [] [], fresh "a.py" 3 [] ["gone.py", "a.py", "b.py", "b.py"],
    fresh "b.py" 0 [] ["a.py"]]

/-- No two files of the sample tie, so they are ranked the same in whatever order they come. -/
theorem solve_rearranged_sample :
    Unlinked sampleUnlinked ∧ Rearranged sampleUnlinked sampleRearranged ∧
    (∀ a ∈ (solve Settings.exact sampleUnlinked).candidates,
      ∀ b ∈ (solve Settings.exact sampleUnlinked).candidates,
        a.weight = b.weight → a.dependents = b.dependents → a = b) ∧
    List.Forall₂ Alike (standing.sort (solve Settings.exact sampleUnlinked).candidates)
      (standing.sort (solve Settings.exact sampleRearranged).candidates) := by
  have hrearranged : Rearranged sampleUnlinked sampleRearranged := by
    refine ⟨[fresh "c.py" 7 [] [], fresh "a.py" 3 [] ["b.py", "a.py", "b.py", "gone.py"],
      fresh "b.py" 0 [] ["a.py"]], ?_, .cons ?_ (.cons ?_ (.cons ?_ .nil))⟩
    · exact @List.perm_append_comm _ [_, _] [_]
    all_goals constructor <;> simp [fresh]
    decide
  have hweights :
      ((solve Settings.exact sampleUnlinked).candidates.map Candidate.weight).Nodup := by
    decide +kernel
  have huntied : ∀ a ∈ (solve Settings.exact sampleUnlinked).candidates,
      ∀ b ∈ (solve Settings.exact sampleUnlinked).candidates,
        a.weight = b.weight → a.dependents = b.dependents → a = b :=
    fun a ha b hb hweight _ => List.inj_on_of_nodup_map hweights ha hb hweight
  obtain ⟨_, _, _, _, _, _, hsame⟩ :=
    solve_rearranged unlinked_sample hrearranged Settings.exact
  exact ⟨unlinked_sample, hrearranged, huntied, hsame huntied⟩

end ImportRank.Candidate
