import ImportRank.Proofs.Rank.Exact
import ImportRank.Proofs.Rank.Profile
import Mathlib.Algebra.BigOperators.Field
import Mathlib.Algebra.BigOperators.Group.Finset.Basic
import Mathlib.Algebra.BigOperators.Ring.List
import Mathlib.Data.List.Nodup
import Mathlib.Tactic.FieldSimp
import Mathlib.Tactic.Positivity
import Mathlib.Tactic.Ring

/-!
# Linking

Where keys are distinct, linking treats every candidate by itself: `linked` takes in the edges of
one candidate, brought together by target, and scales them. For a candidate that nothing has
linked before, the lines cancel: what a target receives is the `portion` of the dependencies that
name it, or nothing where the candidate has no lines.
-/

namespace ImportRank.Candidate

variable {α : Type} {candidates : List (Candidate α)}

/-! ## Positions -/

lemma position?_eq_none_iff {key : String} :
    position? candidates key = none ↔ key ∉ candidates.map Candidate.key := by
  induction candidates with
  | nil => simp [position?]
  | cons candidate rest ih =>
    rw [position?, List.map_cons, List.mem_cons, not_or]
    cases hrest : position? rest key with
    | none =>
      rw [hrest, eq_self_iff_true, true_iff] at ih
      simp [ih, eq_comm]
    | some place =>
      rw [hrest] at ih
      simp only [reduceCtorEq, false_iff, not_not] at ih
      simp [ih]

/-- The position of a key is one where a candidate has it. -/
lemma getElem?_of_position? {key : String} {place : ℕ}
    (hplace : position? candidates key = some place) :
    (candidates.map Candidate.key)[place]? = some key := by
  induction candidates generalizing place with
  | nil => simp [position?] at hplace
  | cons candidate rest ih =>
    rw [position?] at hplace
    cases hrest : position? rest key with
    | none =>
      simp only [hrest] at hplace
      split at hplace
      · obtain rfl : 0 = place := by simpa using hplace
        simpa
      · simp at hplace
    | some below =>
      obtain rfl : below + 1 = place := by simpa [hrest] using hplace
      simpa using ih hrest

lemma position?_lt {key : String} {place : ℕ} (hplace : position? candidates key = some place) :
    place < candidates.length := by
  have hlt := (List.getElem?_eq_some_iff.mp (getElem?_of_position? hplace)).1
  rwa [List.length_map] at hlt

/-- Where keys are distinct, the position of a candidate's key is the candidate's own. -/
lemma position?_getElem (hdistinct : (candidates.map Candidate.key).Nodup) (place : ℕ)
    (hplace : place < candidates.length) :
    position? candidates candidates[place].key = some place := by
  cases hfound : position? candidates candidates[place].key with
  | none =>
    rw [position?_eq_none_iff] at hfound
    exact absurd (List.mem_map_of_mem (List.getElem_mem hplace)) hfound
  | some other =>
    obtain ⟨hother, hkey⟩ := List.getElem?_eq_some_iff.mp (getElem?_of_position? hfound)
    have hplace' : place < (candidates.map Candidate.key).length := by simpa using hplace
    have hsame : (candidates.map Candidate.key)[other] =
        (candidates.map Candidate.key)[place] := by
      rw [hkey, List.getElem_map]
    rw [hdistinct.getElem_inj_iff.mp hsame]

/-- Positions depend on nothing but the keys. -/
lemma position?_congr {β : Type} {others : List (Candidate β)}
    (hkeys : candidates.map Candidate.key = others.map Candidate.key) (key : String) :
    position? candidates key = position? others key := by
  induction candidates generalizing others with
  | nil =>
    obtain rfl : others = [] := List.map_eq_nil_iff.mp hkeys.symm
    rfl
  | cons candidate rest ih =>
    cases others with
    | nil => simp at hkeys
    | cons other others =>
      simp only [List.map_cons, List.cons.injEq] at hkeys
      rw [position?, position?, ih hkeys.2, hkeys.1]

lemma filter_key_eq (hdistinct : (candidates.map Candidate.key).Nodup) {candidate : Candidate α}
    (hmem : candidate ∈ candidates) : candidates.filter (·.key = candidate.key) = [candidate] := by
  induction candidates with
  | nil => simp at hmem
  | cons head rest ih =>
    obtain ⟨hhead, hrest⟩ := List.nodup_cons.mp hdistinct
    have hother : ∀ other ∈ rest, other.key ≠ head.key := fun other hin heq =>
      hhead (heq ▸ List.mem_map_of_mem hin)
    rcases List.mem_cons.mp hmem with rfl | hmem
    · rw [List.filter_cons_of_pos (by simp), List.filter_eq_nil_iff.mpr]
      simpa using hother
    · rw [List.filter_cons_of_neg (by simpa [eq_comm] using hother _ hmem), ih hrest hmem]

/-! ## One candidate -/

lemma byTarget_edgesOf (candidate : Candidate α) :
    Graph.byTarget (Graph.edgesOf candidate) =
      (distinct candidate.dependencies).flatMap fun target =>
        List.replicate (candidate.dependencies.count target)
          { source := candidate.key, target, lines := candidate.lines } := by
  have htargets : (Graph.edgesOf candidate).map Edge.target = candidate.dependencies := by
    rw [Graph.edgesOf, List.map_map]
    exact List.map_id _
  rw [Graph.byTarget, htargets]
  refine List.flatMap_congr fun target _ => ?_
  rw [Graph.edgesOf, List.filter_map, Function.comp_def, List.filter_eq, List.map_replicate]

/-- Bringing edges together by target loses none and doubles none. -/
lemma perm_byTarget (edges : List Edge) : (Graph.byTarget edges).Perm edges := by
  have hgroups : ∀ targets : List String, targets.Nodup →
      (targets.flatMap fun target => edges.filter (·.target = target)).Perm
        (edges.filter (·.target ∈ targets)) := by
    intro targets hnodup
    induction targets with
    | nil => simp
    | cons target targets ih =>
      obtain ⟨hout, hnodup⟩ := List.nodup_cons.mp hnodup
      -- the edges to any of the targets are those to the first and those to the others
      have hfirst : (edges.filter (·.target ∈ target :: targets)).filter (·.target = target) =
          edges.filter (·.target = target) := by
        rw [List.filter_filter]
        refine List.filter_congr fun edge _ => ?_
        by_cases hsame : edge.target = target <;> simp [hsame]
      have hothers : (edges.filter (·.target ∈ target :: targets)).filter
          (fun edge => !decide (edge.target = target)) = edges.filter (·.target ∈ targets) := by
        rw [List.filter_filter]
        refine List.filter_congr fun edge _ => ?_
        by_cases hsame : edge.target = target <;> simp [hsame, hout]
      have hsplit := List.filter_append_perm (fun edge : Edge => decide (edge.target = target))
        (edges.filter (·.target ∈ target :: targets))
      rw [hfirst, hothers] at hsplit
      exact ((ih hnodup).append_left _).trans hsplit
  refine (hgroups _ (nodup_distinct _)).trans (List.Perm.of_eq ?_)
  rw [List.filter_eq_self]
  exact fun edge hedge =>
    decide_eq_true (mem_distinct.mpr (List.mem_map_of_mem hedge))

section OneCandidate

variable [Arithmetic α]

/-- The candidate with its own edges taken in and scaled. -/
def linked (candidate : Candidate α) : Candidate α :=
  ((Graph.byTarget (Graph.edgesOf candidate)).foldl addEdge candidate).scaleLinks

/-- Where keys are distinct, linking works on every candidate by itself. -/
theorem link_eq_map (hdistinct : (candidates.map Candidate.key).Nodup) :
    link candidates = candidates.map linked := by
  refine List.ext_getElem (by simp [link]) fun place hplace hplace' => ?_
  have hlt : place < candidates.length := by simpa using hplace'
  simp only [link, List.getElem_mapIdx, List.getElem_map]
  rw [if_pos (position?_getElem hdistinct place hlt), linked, Graph.edgesFrom,
    filter_key_eq hdistinct (List.getElem_mem hlt), List.flatMap_singleton]

@[simp] lemma key_linked (candidate : Candidate α) : candidate.linked.key = candidate.key :=
  view_scaleLinks (fun _ _ _ => rfl) _ candidate

@[simp] lemma outbound_scaleLinks (candidate : Candidate α) :
    candidate.scaleLinks.outbound = candidate.outbound := by
  rw [scaleLinks]
  split <;> rfl

lemma map_key_link (candidates : List (Candidate α)) :
    (link candidates).map Candidate.key = candidates.map Candidate.key :=
  map_link (fun _ _ _ => rfl) candidates

/-! ## Links of a candidate without links -/

lemma addLink_of_notMem {links : List (String × Amount α)} {target : String}
    (hnew : target ∉ links.map Prod.fst) (lines : ℤ) :
    addLink target lines links = links ++ [(target, .lines lines)] := by
  induction links with
  | nil => rfl
  | cons link links ih =>
    obtain ⟨other, amount⟩ := link
    simp only [List.map_cons, List.mem_cons, not_or] at hnew
    rw [addLink, if_neg (Ne.symm hnew.1), ih hnew.2, List.cons_append]

lemma addLink_last {links : List (String × Amount α)} {target : String}
    (hnew : target ∉ links.map Prod.fst) (before lines : ℤ) :
    addLink target lines (links ++ [(target, .lines before)]) =
      links ++ [(target, .lines (before + lines))] := by
  induction links with
  | nil => simp [addLink, Amount.addLines]
  | cons link links ih =>
    obtain ⟨other, amount⟩ := link
    simp only [List.map_cons, List.mem_cons, not_or] at hnew
    rw [List.cons_append, addLink, if_neg (Ne.symm hnew.1), ih hnew.2, List.cons_append]

/-- Parallel edges to a new target add up in one link at the end. -/
lemma foldl_addLink_replicate {links : List (String × Amount α)} {edge : Edge}
    (hnew : edge.target ∉ links.map Prod.fst) (before : ℤ) (count : ℕ) :
    (List.replicate count edge).foldl (fun links edge => addLink edge.target edge.lines links)
      (links ++ [(edge.target, .lines before)]) =
      links ++ [(edge.target, .lines (before + count * edge.lines))] := by
  induction count generalizing before with
  | zero => simp
  | succ count ih =>
    rw [List.replicate_succ, List.foldl_cons, addLink_last hnew, ih]
    have hsum : before + edge.lines + count * edge.lines =
        before + (count + 1 : ℕ) * edge.lines := by push_cast; ring
    rw [hsum]

/-- Groups of parallel edges, each to a target of its own, leave one link for each group. -/
lemma foldl_addLink_groups (source : String) (lines : ℤ) (count : String → ℕ)
    {targets : List String} {links : List (String × Amount α)} (hnodup : targets.Nodup)
    (hnew : ∀ target ∈ targets, target ∉ links.map Prod.fst)
    (hcount : ∀ target ∈ targets, 0 < count target) :
    (targets.flatMap fun target => List.replicate (count target)
      { source, target, lines : Edge }).foldl
        (fun links edge => addLink edge.target edge.lines links) links =
      links ++ targets.map fun target => (target, .lines (count target * lines)) := by
  induction targets generalizing links with
  | nil => simp
  | cons target targets ih =>
    obtain ⟨hout, hnodup⟩ := List.nodup_cons.mp hnodup
    obtain ⟨more, hmore⟩ := Nat.exists_eq_succ_of_ne_zero (hcount target List.mem_cons_self).ne'
    have hfirst := hnew target List.mem_cons_self
    have hparallel := foldl_addLink_replicate
      (show ({ source, target, lines : Edge }).target ∉ links.map Prod.fst from hfirst) lines more
    have hlines : lines + more * lines = (count target : ℤ) * lines := by
      rw [hmore]; push_cast; ring
    -- the first edge of a group opens a link at the end, the others add their lines to it
    rw [List.flatMap_cons, List.foldl_append, hmore, List.replicate_succ, List.foldl_cons,
      addLink_of_notMem hfirst,
      hparallel, ih hnodup, List.map_cons, List.append_assoc, List.singleton_append, hlines]
    · intro other hother
      rw [List.map_append, List.mem_append, not_or]
      refine ⟨hnew other (List.mem_cons_of_mem _ hother), ?_⟩
      rintro hsame
      obtain rfl : other = target := by simpa using hsame
      exact hout hother
    · exact fun other hother => hcount other (List.mem_cons_of_mem _ hother)

/-- Where nothing is linked yet, the edges leave one link for each distinct dependency. -/
lemma links_foldl_addEdge {candidate : Candidate α} (hlinks : candidate.links = []) :
    ((Graph.byTarget (Graph.edgesOf candidate)).foldl addEdge candidate).links =
      (distinct candidate.dependencies).map fun target =>
        (target, .lines (candidate.dependencies.count target * candidate.lines)) := by
  rw [foldl_addEdge, byTarget_edgesOf, hlinks,
    foldl_addLink_groups _ _ candidate.dependencies.count (nodup_distinct _) (by simp)
      fun target htarget => List.count_pos_iff.mpr (mem_distinct.mp htarget)]
  rfl

end OneCandidate

/-! ## Exact shares -/

lemma sum_count_distinct {β : Type} [DecidableEq β] (items : List β) :
    ((distinct items).map fun item => (items.count item : ℚ)).sum = items.length := by
  -- as sets of items the two lists are the same, and there the counts are known to add up
  have hset : (distinct items).toFinset = items.toFinset := by
    ext item
    simp
  rw [← List.sum_toFinset _ (nodup_distinct items), hset, ← Nat.cast_sum,
    List.sum_toFinset_count_eq_length]

/-- Counted once for each distinct member, the members that pass a test are all that pass it. -/
lemma sum_count_distinct_of {β : Type} [DecidableEq β] (test : β → Bool) (items : List β) :
    ((distinct items).map fun item => if test item then (items.count item : ℚ) else 0).sum =
      items.countP test := by
  have hcount : ∀ item ∈ (distinct items).filter test,
      (items.count item : ℚ) = (items.filter test).count item := by
    intro item hitem
    rw [List.count_filter (List.mem_filter.mp hitem).2]
  rw [← sum_map_filter, List.map_congr_left hcount, ← distinct_filter, sum_count_distinct,
    List.countP_eq_length_filter]

/-- The part of what it passes on that a candidate owes to a target: the fraction of its
dependencies that name the target. Without lines it passes on nothing. -/
def portion (candidate : Candidate α) (target : String) : ℚ :=
  if 0 < candidate.lines then
    (candidate.dependencies.count target : ℚ) / candidate.dependencies.length
  else 0

lemma portion_nonneg (candidate : Candidate α) (target : String) :
    0 ≤ candidate.portion target := by
  rw [portion]
  split
  · positivity
  · rfl

/-- A candidate without lines or dependencies owes nothing, any other a whole. -/
lemma sum_portion (candidate : Candidate α) :
    ((distinct candidate.dependencies).map candidate.portion).sum =
      if 0 < candidate.lines ∧ candidate.dependencies ≠ [] then 1 else 0 := by
  by_cases hlines : 0 < candidate.lines
  · have hportion : candidate.portion = fun target =>
        (candidate.dependencies.count target : ℚ) / candidate.dependencies.length := by
      funext target
      rw [portion, if_pos hlines]
    simp only [hportion, div_eq_mul_inv]
    rw [List.sum_map_mul_right, sum_count_distinct]
    by_cases hnone : candidate.dependencies = []
    · simp [hnone]
    · have hlength : (candidate.dependencies.length : ℚ) ≠ 0 := by simpa using hnone
      rw [mul_inv_cancel₀ hlength, if_pos ⟨hlines, hnone⟩]
  · have hportion : candidate.portion = fun _ => 0 := by
      funext target
      rw [portion, if_neg hlines]
    simp [hportion, hlines]

/-- The outbound weight gains the lines once for each dependency. -/
lemma outbound_linked (candidate : Candidate ℚ) :
    candidate.linked.outbound =
      candidate.outbound + candidate.lines * candidate.dependencies.length := by
  have hsum : ((Graph.edgesOf candidate).map fun edge => (edge.lines : ℚ)).sum =
      candidate.lines * candidate.dependencies.length := by
    rw [Graph.edgesOf, List.map_map]
    show (candidate.dependencies.map fun _ => (candidate.lines : ℚ)).sum = _
    rw [List.map_const', List.sum_replicate, nsmul_eq_mul, mul_comm]
  rw [linked, outbound_scaleLinks, foldl_addEdge]
  simp only [Arithmetic.add_rat, Arithmetic.ofInt_rat]
  rw [foldl_add_eq_sum _ (fun edge : Edge => (edge.lines : ℚ)),
    ((perm_byTarget _).map _).sum_eq, hsum]

/-- Each distinct dependency of a candidate that nothing has linked has one link, which weighs its
portion. -/
lemma links_linked {candidate : Candidate ℚ} (hlinks : candidate.links = [])
    (houtbound : candidate.outbound = 0) (hlines : 0 ≤ candidate.lines) :
    (candidate.linked.links.map fun (target, amount) => (target, amount.value)) =
      (distinct candidate.dependencies).map fun target => (target, candidate.portion target) := by
  have houtbound' := outbound_linked candidate
  rw [linked, outbound_scaleLinks, houtbound, zero_add] at houtbound'
  have hlinks' := links_foldl_addEdge hlinks
  rw [linked, scaleLinks, houtbound']
  by_cases hpositive : 0 < candidate.lines
  · by_cases hnone : candidate.dependencies = []
    · simp [hlinks', hnone, distinct]
    · have hlines' : (0 : ℚ) < candidate.lines := by exact_mod_cast hpositive
      have hlength : (0 : ℚ) < candidate.dependencies.length := by
        exact_mod_cast List.length_pos_iff.mpr hnone
      rw [if_pos (by simpa using mul_pos hlines' hlength), hlinks', List.map_map, List.map_map]
      refine List.map_congr_left fun target _ => ?_
      simp only [Function.comp_apply, Amount.value, portion, if_pos hpositive, Arithmetic.ofInt_rat,
        Arithmetic.div_rat, Int.cast_mul, Int.cast_natCast]
      field_simp
  · -- without lines nothing is scaled, and the sums of lines are zero as they stand
    have hzero : candidate.lines = 0 := by omega
    rw [if_neg (by simp [hzero]), hlinks', List.map_map]
    refine List.map_congr_left fun target _ => ?_
    simp [Amount.value, portion, hzero]

end ImportRank.Candidate
