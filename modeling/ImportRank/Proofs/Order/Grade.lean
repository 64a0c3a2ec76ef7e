import ImportRank.Order.RankOrder
import ImportRank.Proofs.Rank.Exact
import Mathlib.Data.List.Nodup
import Mathlib.Data.Prod.Lex

/-!
# Sorting by grades

Where outranking compares grades in a linear order, sorting by rank gives the one order in which
grades descend and items of the same grade stand as they came. How the grades follow each other
does then not depend on how the items came at all. Over exact fractions candidates always have
grades: the weight, and next to it the number of dependents.
-/

namespace ImportRank.Standing

variable {ι κ γ : Type} {standing : Standing ι} {items others : List ι}

/-! ## Sorting what is viewed -/

/-- Sorting commutes with a view that says all about who outranks whom. -/
lemma map_sort {other : Standing κ} (view : ι → κ)
    (hview : ∀ a b, standing.outranks a b = other.outranks (view a) (view b)) (items : List ι) :
    (standing.sort items).map view = other.sort (items.map view) := by
  unfold sort
  refine List.map_mergeSort fun a _ b _ => ?_
  rw [hview]

/-! ## Two members of a list -/

/-- Of two members of a list one stands before the other. -/
lemma sublist_pair_or {a b : ι} (ha : a ∈ items) (hb : b ∈ items) (hne : a ≠ b) :
    [a, b].Sublist items ∨ [b, a].Sublist items := by
  induction items with
  | nil => cases ha
  | cons item items ih =>
    by_cases hhead : a = item
    · subst hhead
      have hrest : b ∈ items := (List.mem_cons.mp hb).resolve_left hne.symm
      exact Or.inl ((List.singleton_sublist.mpr hrest).cons_cons a)
    · have hrest : a ∈ items := (List.mem_cons.mp ha).resolve_left hhead
      rcases List.mem_cons.mp hb with rfl | hb
      · exact Or.inr ((List.singleton_sublist.mpr hrest).cons_cons b)
      · exact (ih hrest hb).imp (List.Sublist.cons item) (List.Sublist.cons item)

/-- In a list without repetitions they do not stand both ways. -/
lemma not_sublist_pair_swap {a b : ι} (hnodup : items.Nodup) (hab : [a, b].Sublist items) :
    ¬ [b, a].Sublist items := by
  intro hba
  induction items with
  | nil => cases hab
  | cons item items ih =>
    obtain ⟨hout, hnodup⟩ := List.nodup_cons.mp hnodup
    cases hab with
    | cons _ hab =>
      cases hba with
      | cons _ hba => exact ih hnodup hab hba
      | cons_cons _ ha => exact hout (hab.subset (by simp))
    | cons_cons _ hb =>
      cases hba with
      | cons _ hba => exact hout (hba.subset (by simp))
      | cons_cons _ ha => exact hout (List.singleton_sublist.mp ha)

/-! ## Grades -/

variable [LinearOrder γ] {grade : ι → γ}

/-- On some items, outranking is having the higher grade. -/
def Graded (standing : Standing ι) (grade : ι → γ) (items : List ι) : Prop :=
  ∀ a ∈ items, ∀ b ∈ items, standing.outranks a b = decide (grade b < grade a)

lemma descends_trans (a b c : ι) (hab : decide (grade b ≤ grade a) = true)
    (hbc : decide (grade c ≤ grade b) = true) : decide (grade c ≤ grade a) = true := by
  rw [decide_eq_true_eq] at hab hbc ⊢
  exact hbc.trans hab

lemma descends_total (a b : ι) :
    (decide (grade b ≤ grade a) || decide (grade a ≤ grade b)) = true := by
  rw [Bool.or_eq_true, decide_eq_true_eq, decide_eq_true_eq]
  exact le_total _ _

section Sorted

variable (hgraded : standing.Graded grade items)

include hgraded

/-- Sorting by rank is sorting by grade. -/
lemma sort_eq_mergeSort :
    standing.sort items = items.mergeSort fun a b => decide (grade b ≤ grade a) := by
  have hle : ∀ a ∈ items, ∀ b ∈ items,
      (!standing.outranks b a) = decide (grade b ≤ grade a) := by
    intro a ha b hb
    rw [hgraded b hb a ha, ← decide_not, decide_eq_decide]
    exact not_lt
  have hmap := List.map_mergeSort (s := fun a b => decide (grade b ≤ grade a)) (f := id) hle
  rwa [List.map_id, List.map_id] at hmap

/-- The grades descend. -/
theorem pairwise_sort : (standing.sort items).Pairwise fun a b => grade b ≤ grade a := by
  rw [sort_eq_mergeSort hgraded]
  exact (List.pairwise_mergeSort descends_trans descends_total items).imp of_decide_eq_true

/-- Two items whose grades do not ascend keep their order. -/
lemma sublist_sort {a b : ι} (hle : grade b ≤ grade a) (hab : [a, b].Sublist items) :
    [a, b].Sublist (standing.sort items) := by
  rw [sort_eq_mergeSort hgraded]
  exact List.pair_sublist_mergeSort descends_trans descends_total (decide_eq_true hle) hab

/-- Sorting is determined: the grades descend, and items of the same grade stand as they came. -/
theorem pairwise_sort_stable (hnodup : items.Nodup) :
    (standing.sort items).Pairwise fun a b =>
      grade b < grade a ∨ grade a = grade b ∧ [a, b].Sublist items := by
  have hsorted : (standing.sort items).Nodup := (sort_perm items).nodup_iff.mpr hnodup
  rw [List.pairwise_iff_forall_sublist]
  intro a b hab
  have hle : grade b ≤ grade a := List.pairwise_iff_forall_sublist.mp (pairwise_sort hgraded) hab
  rcases hle.lt_or_eq with hlt | heq
  · exact Or.inl hlt
  · refine Or.inr ⟨heq.symm, ?_⟩
    have hne : a ≠ b := by
      rintro rfl
      exact not_sublist_pair_swap hsorted hab hab
    have ha : a ∈ items := (sort_perm items).mem_iff.mp (hab.subset (by simp))
    have hb : b ∈ items := (sort_perm items).mem_iff.mp (hab.subset (by simp))
    -- if they came the other way round, sorting would have kept them that way
    refine (sublist_pair_or ha hb hne).resolve_right fun hba => ?_
    exact not_sublist_pair_swap hsorted hab (sublist_sort hgraded heq.ge hba)

/-- How the grades follow each other depends only on which grades there are. -/
theorem map_grade_sort_eq (hgraded' : standing.Graded grade others)
    (hperm : (items.map grade).Perm (others.map grade)) :
    (standing.sort items).map grade = (standing.sort others).map grade := by
  have hdescends : ((standing.sort items).map grade).Pairwise fun x y => y ≤ x :=
    List.pairwise_map.mpr (pairwise_sort hgraded)
  have hdescends' : ((standing.sort others).map grade).Pairwise fun x y => y ≤ x :=
    List.pairwise_map.mpr (pairwise_sort hgraded')
  have hsorted : ((standing.sort items).map grade).Perm ((standing.sort others).map grade) :=
    ((sort_perm items).map grade).trans (hperm.trans ((sort_perm others).map grade).symm)
  exact hsorted.eq_of_pairwise (fun x y _ _ hyx hxy => le_antisymm hxy hyx) hdescends hdescends'

/-- Where no two items have the same grade, sorting does not depend on how they came. -/
lemma sort_eq_of_perm (hapart : ∀ a ∈ items, ∀ b ∈ items, grade a = grade b → a = b)
    (hperm : items.Perm others) : standing.sort items = standing.sort others := by
  have hgraded' : standing.Graded grade others := fun a ha b hb =>
    hgraded a (hperm.mem_iff.mpr ha) b (hperm.mem_iff.mpr hb)
  have hsorted : (standing.sort items).Perm (standing.sort others) :=
    (sort_perm items).trans (hperm.trans (sort_perm others).symm)
  refine hsorted.eq_of_pairwise (fun a b ha hb hba hab => ?_) (pairwise_sort hgraded)
    (pairwise_sort hgraded')
  have ha : a ∈ items := (sort_perm items).mem_iff.mp ha
  have hb : b ∈ items := hperm.mem_iff.mpr ((sort_perm others).mem_iff.mp hb)
  exact hapart a ha b hb (le_antisymm hab hba)

/-- Sorting some of the items is sorting all of them and leaving the others out. -/
lemma filter_sort (hnodup : items.Nodup) (keep : ι → Bool) :
    (standing.sort items).filter keep = standing.sort (items.filter keep) := by
  have hgraded' : standing.Graded grade (items.filter keep) := fun a ha b hb =>
    hgraded a (List.mem_of_mem_filter ha) b (List.mem_of_mem_filter hb)
  have hperm : ((standing.sort items).filter keep).Perm (standing.sort (items.filter keep)) :=
    ((sort_perm items).filter keep).trans (sort_perm _).symm
  have hstable := (pairwise_sort_stable hgraded hnodup).sublist (List.filter_sublist (p := keep))
  have hstable' := (pairwise_sort_stable hgraded' (hnodup.filter keep)).imp
    fun {a b} => Or.imp_right (And.imp_right fun hab : [a, b].Sublist (items.filter keep) =>
      hab.trans List.filter_sublist)
  -- both stand by grade and, where grades are the same, as they came
  refine hperm.eq_of_pairwise (fun a b _ _ hab hba => ?_) hstable hstable'
  rcases hab with hlt | ⟨heq, hab⟩
  · rcases hba with hgt | ⟨heq, _⟩
    · exact absurd hlt hgt.asymm
    · exact absurd heq hlt.ne
  · rcases hba with hlt | ⟨_, hba⟩
    · exact absurd heq hlt.ne
    · exact absurd hba (not_sublist_pair_swap hnodup hab)

end Sorted

end ImportRank.Standing

namespace ImportRank.Candidate

/-- Where the weights of some candidates compare as their measures in a linear order do, the
candidates have grades: the measure of the weight, then the number of dependents. -/
lemma graded_of_measure {α γ : Type} [Arithmetic α] [LinearOrder γ] (measure : α → γ)
    {candidates : List (Candidate α)}
    (hless : ∀ a ∈ candidates, ∀ b ∈ candidates,
      Arithmetic.less a.weight b.weight = decide (measure a.weight < measure b.weight))
    (hsame : ∀ a ∈ candidates, ∀ b ∈ candidates,
      Arithmetic.same a.weight b.weight = decide (measure a.weight = measure b.weight)) :
    (standing : Standing (Candidate α)).Graded
      (fun candidate => toLex (measure candidate.weight, candidate.dependents)) candidates := by
  intro a ha b hb
  show outranks a b = _
  unfold outranks
  simp only [hsame a ha b hb, hless b hb a ha, Prod.Lex.toLex_lt_toLex]
  by_cases heq : measure a.weight = measure b.weight
  · simp [heq]
  · simp [heq, Ne.symm heq]

/-- The grade of a candidate over exact fractions: its weight, then its number of dependents. -/
def grade (candidate : Candidate ℚ) : ℚ ×ₗ ℤ := toLex (candidate.weight, candidate.dependents)

/-- Over exact fractions all candidates have grades. -/
lemma graded_exact (candidates : List (Candidate ℚ)) :
    (standing : Standing (Candidate ℚ)).Graded grade candidates :=
  graded_of_measure id (fun _ _ _ _ => rfl) fun _ _ _ _ => rfl

end ImportRank.Candidate
