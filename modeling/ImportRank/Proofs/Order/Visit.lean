import ImportRank.Order.DependencyOrder
import Mathlib.Data.List.Perm.Basic

/-!
# The walk as nested visits

The walk keeps its own stack. Read without it, a list of items is visited one item after the
other, and visiting an item means visiting what it has pending before it is placed. Here live the
relation `Visit` that says so, the theorem that the walk follows it, and what any visit does to
the keys: it claims exactly the keys of what it places.
-/

namespace ImportRank.Standing

variable {ι : Type} {standing : Standing ι} {index : List ι}

/-! ## What is pending -/

theorem mem_pending {unclaimed : List String} {item dependency : ι} :
    dependency ∈ standing.pending index unclaimed item ↔
      ∃ key ∈ standing.dependencies item,
        key ∈ unclaimed ∧ standing.find? index key = some dependency := by
  unfold pending
  rw [(sort_perm _).mem_iff, List.mem_filterMap]
  simp only [mem_distinct, List.mem_filter, List.contains_iff_mem, and_assoc]

/-! ## Nested visits -/

variable (standing index) in
/-- `Visit unclaimed items left order`: visiting the items while the keys `unclaimed` are free
places `order` and leaves the keys `left` free. -/
inductive Visit : List String → List ι → List String → List ι → Prop where
  | done (unclaimed : List String) : Visit unclaimed [] unclaimed []
  | skip {unclaimed left : List String} {item : ι} {items order : List ι}
      (claimed : standing.key item ∉ unclaimed) (rest : Visit unclaimed items left order) :
      Visit unclaimed (item :: items) left order
  | enter {unclaimed between left : List String} {item : ι} {items below order : List ι}
      (free : standing.key item ∈ unclaimed)
      (inner : Visit (unclaimed.erase (standing.key item))
        (standing.pending index unclaimed item) between below)
      (rest : Visit between items left order) :
      Visit unclaimed (item :: items) left (below ++ item :: order)

namespace Visit

variable {unclaimed left : List String} {items order : List ι}

open scoped List in
/-- A visit moves the keys of what it places out of the free ones, one key for each item. -/
theorem perm (hvisit : Visit standing index unclaimed items left order) :
    unclaimed.Perm (order.map standing.key ++ left) := by
  induction hvisit with
  | done => exact List.Perm.refl _
  | skip _ _ ih => exact ih
  | @enter unclaimed between left item items below order free _ _ ihInner ihRest =>
    rw [List.map_append, List.map_cons, List.append_assoc, List.cons_append]
    calc unclaimed
      _ ~ standing.key item :: unclaimed.erase (standing.key item) := List.perm_cons_erase free
      _ ~ standing.key item :: (below.map standing.key ++ between) := ihInner.cons _
      _ ~ standing.key item :: (below.map standing.key ++ (order.map standing.key ++ left)) :=
        (ihRest.append_left _).cons _
      _ ~ below.map standing.key ++ standing.key item :: (order.map standing.key ++ left) :=
        List.perm_middle.symm

/-- A key that stays free was free before. -/
theorem mem_of_mem_left (hvisit : Visit standing index unclaimed items left order) {key : String}
    (hleft : key ∈ left) : key ∈ unclaimed :=
  hvisit.perm.mem_iff.mpr (List.mem_append_right _ hleft)

theorem length_left_le (hvisit : Visit standing index unclaimed items left order) :
    left.length ≤ unclaimed.length := by
  have hlength := hvisit.perm.length_eq
  rw [List.length_append] at hlength
  omega

theorem nodup_left (hvisit : Visit standing index unclaimed items left order)
    (hnodup : unclaimed.Nodup) : left.Nodup :=
  (List.nodup_append.mp (hvisit.perm.nodup_iff.mp hnodup)).2.1

/-- The placed items have pairwise distinct keys. -/
theorem nodup_keys (hvisit : Visit standing index unclaimed items left order)
    (hnodup : unclaimed.Nodup) : (order.map standing.key).Nodup :=
  (List.nodup_append.mp (hvisit.perm.nodup_iff.mp hnodup)).1

/-- After a visit no key of a visited item is free. -/
theorem key_notMem_left (hvisit : Visit standing index unclaimed items left order)
    (hnodup : unclaimed.Nodup) : ∀ item ∈ items, standing.key item ∉ left := by
  induction hvisit with
  | done => simp
  | skip claimed rest ih =>
    intro item hitem hleft
    rcases List.mem_cons.mp hitem with rfl | hitem
    · exact claimed (rest.mem_of_mem_left hleft)
    · exact ih hnodup item hitem hleft
  | @enter unclaimed _ _ entered _ _ _ free inner rest _ ihRest =>
    have herased : (unclaimed.erase (standing.key entered)).Nodup := hnodup.erase _
    intro item hitem hleft
    rcases List.mem_cons.mp hitem with rfl | hitem
    · exact hnodup.not_mem_erase (inner.mem_of_mem_left (rest.mem_of_mem_left hleft))
    · exact ihRest (inner.nodup_left herased) item hitem hleft

/-- What a visit places it was given, or the index knows it under its key. -/
theorem known (hvisit : Visit standing index unclaimed items left order)
    (hitems : ∀ item ∈ items, standing.find? index (standing.key item) = some item) :
    ∀ item ∈ order, standing.find? index (standing.key item) = some item := by
  induction hvisit with
  | done => simp
  | skip _ _ ih => exact ih fun item hitem => hitems item (List.mem_cons_of_mem _ hitem)
  | enter _ _ _ ihInner ihRest =>
    intro item hitem
    rcases List.mem_append.mp hitem with hbelow | hitem
    · refine ihInner (fun dependency hpending => ?_) item hbelow
      obtain ⟨key, _, _, hfind⟩ := mem_pending.mp hpending
      rwa [key_of_find? hfind]
    · rcases List.mem_cons.mp hitem with rfl | hitem
      · exact hitems _ List.mem_cons_self
      · exact ihRest (fun item hitem => hitems item (List.mem_cons_of_mem _ hitem)) item hitem

end Visit

/-! ## The walk follows the visits -/

/-- Walking a frame off the stack is visiting its siblings and then placing its owner. -/
theorem walk_of_visit {unclaimed left : List String} {items order : List ι}
    (hvisit : Visit standing index unclaimed items left order) (owner : Option ι)
    (frames : List (Frame ι)) (placed : List ι) :
    standing.walk index ⟨unclaimed, ⟨items, owner⟩ :: frames, placed⟩ =
      standing.walk index ⟨left, frames, placed ++ order ++ owner.toList⟩ := by
  induction hvisit generalizing owner frames placed with
  | done => rw [walk, List.append_nil]
  | skip claimed _ ih => rw [walk, dif_neg claimed, ih]
  | enter free _ _ ihInner ihRest =>
    -- the new frame is walked off first and places its owner, then the siblings go on
    rw [walk, dif_pos free, ihInner, ihRest]
    simp only [Option.toList_some, List.append_assoc, List.cons_append, List.nil_append]

variable (standing index) in
/-- Every list of items has a visit: each entered item leaves fewer keys free. -/
theorem exists_visit (unclaimed : List String) (items : List ι) :
    ∃ left order, Visit standing index unclaimed items left order := by
  -- entering an item claims a key, skipping one shortens the list: two inductions, one in the other
  induction hfree : unclaimed.length using Nat.strongRecOn generalizing unclaimed items with
  | _ count ihFree =>
    induction items generalizing unclaimed count with
    | nil => exact ⟨unclaimed, [], .done unclaimed⟩
    | cons item items ihItems =>
      by_cases free : standing.key item ∈ unclaimed
      · have hless : (unclaimed.erase (standing.key item)).length < count := by
          have := List.length_pos_of_mem free
          rw [List.length_erase_of_mem free]
          omega
        obtain ⟨between, below, inner⟩ :=
          ihFree _ hless _ (standing.pending index unclaimed item) rfl
        have hbetween := inner.length_left_le
        obtain ⟨left, order, rest⟩ := ihFree _ (by omega) between items rfl
        exact ⟨left, below ++ item :: order, .enter free inner rest⟩
      · obtain ⟨left, order, rest⟩ := ihItems count ihFree unclaimed hfree
        exact ⟨left, order, .skip free rest⟩

/-- What a visit of the start places when every key is free is the dependency order. -/
theorem dependencyOrder_eq_of_visit {start order : List ι} {left : List String}
    (hvisit : Visit standing index (distinct (start.map standing.key ++ index.map standing.key))
      start left order) : standing.dependencyOrder index start = order := by
  rw [dependencyOrder, walk_of_visit hvisit, walk]
  simp only [List.nil_append, Option.toList_none, List.append_nil]

variable (standing) in
/-- There is such a visit. -/
theorem visit_dependencyOrder (index start : List ι) :
    ∃ left, Visit standing index (distinct (start.map standing.key ++ index.map standing.key))
      start left (standing.dependencyOrder index start) := by
  obtain ⟨left, order, hvisit⟩ := exists_visit standing index
    (distinct (start.map standing.key ++ index.map standing.key)) start
  exact ⟨left, (dependencyOrder_eq_of_visit hvisit).symm ▸ hvisit⟩

end ImportRank.Standing
