import ImportRank.Proofs.Order.Visit
import Mathlib.Data.Finset.Card
import Mathlib.Logic.Relation

/-!
# The walk as a recursion

Without a stack, the dependency order is a recursion over lists of items that hands on the set of
keys seen so far. An item that is new is marked as seen, what was pending on it before that is
visited in the same way, and then the item is emitted. The main statement,
`dependencyOrder_eq_visitEach`, says that the passes of the walk come to an end and that they give
the list of the recursion.

The walk itself keeps the keys that are still free. The two views agree on every key that an item
of the index or of the start has; other keys lead nowhere.
-/

namespace ImportRank.Standing

open Relation (ReflTransGen)

variable {ι : Type} {standing : Standing ι} {index : List ι}

/-! ## The recursion -/

variable (standing index) in
/-- The known dependencies of an item that have not been seen: without repetitions, each where its
key appears first, and then sorted by rank. -/
def unseenDependencies (seen : Finset String) (item : ι) : List ι :=
  standing.sort
    ((distinct ((standing.dependencies item).filter (· ∉ seen))).filterMap (standing.find? index))

/-- What a visit comes to: the keys seen by then, among them all that were seen before, and the
items in the order they are emitted. -/
structure Visited (ι : Type) (before : Finset String) where
  seen : Finset String
  order : List ι
  before_subset : before ⊆ seen

variable (standing) in
/-- The keys of an index and of a list of items that have not been seen. -/
def unseenKeys (index items : List ι) (seen : Finset String) : Finset String :=
  (index.map standing.key ++ items.map standing.key).toFinset \ seen

lemma mem_unseenKeys {items : List ι} {seen : Finset String} {key : String} :
    key ∈ standing.unseenKeys index items seen ↔
      (key ∈ index.map standing.key ∨ key ∈ items.map standing.key) ∧ key ∉ seen := by
  rw [unseenKeys, Finset.mem_sdiff, List.mem_toFinset, List.mem_append]

lemma mem_index_of_mem_unseenDependencies {seen : Finset String} {item dependency : ι}
    (hpending : dependency ∈ standing.unseenDependencies index seen item) :
    dependency ∈ index := by
  rw [unseenDependencies, (sort_perm _).mem_iff, List.mem_filterMap] at hpending
  obtain ⟨key, _, hfind⟩ := hpending
  exact mem_of_find? hfind

/-- Marking a new item leaves fewer keys unseen, whatever is visited of the index next. -/
lemma card_unseenKeys_lt {items others : List ι} {seen later : Finset String} {item : ι}
    (hitem : item ∈ items) (hnew : standing.key item ∉ seen)
    (hlater : insert (standing.key item) seen ⊆ later)
    (hothers : ∀ other ∈ others, other ∈ index ∨ other ∈ items) :
    (standing.unseenKeys index others later).card <
      (standing.unseenKeys index items seen).card := by
  apply Finset.card_lt_card
  rw [Finset.ssubset_iff_of_subset]
  · refine ⟨standing.key item, ?_, ?_⟩
    · exact mem_unseenKeys.mpr ⟨Or.inr (List.mem_map_of_mem hitem), hnew⟩
    · intro hmem
      exact (mem_unseenKeys.mp hmem).2 (hlater (Finset.mem_insert_self _ _))
  · intro key hkey
    obtain ⟨hknown, hunseen⟩ := mem_unseenKeys.mp hkey
    refine mem_unseenKeys.mpr ⟨?_, fun hseen => hunseen (hlater (Finset.mem_insert_of_mem hseen))⟩
    rcases hknown with hindex | hother
    · exact Or.inl hindex
    · obtain ⟨other, hmem, rfl⟩ := List.mem_map.mp hother
      exact (hothers other hmem).imp List.mem_map_of_mem List.mem_map_of_mem

variable (standing index) in
/-- Visits the items one after the other. One that is new is marked as seen, what is pending on it
is visited, and then it is emitted. -/
def visitEach (seen : Finset String) (items : List ι) : Visited ι seen :=
  match items with
  | [] => ⟨seen, [], Finset.Subset.refl seen⟩
  | item :: rest =>
    if _seen : standing.key item ∈ seen then visitEach seen rest
    else
      let pending := standing.unseenDependencies index seen item
      let below := visitEach (insert (standing.key item) seen) pending
      let after := visitEach below.seen rest
      { seen := after.seen
        order := below.order ++ item :: after.order
        before_subset :=
          (Finset.subset_insert _ _).trans (below.before_subset.trans after.before_subset) }
termination_by ((standing.unseenKeys index items seen).card, items.length)
decreasing_by
  · have hle : (standing.unseenKeys index rest seen).card ≤
        (standing.unseenKeys index (item :: rest) seen).card := by
      apply Finset.card_le_card
      intro key hkey
      rw [mem_unseenKeys] at hkey ⊢
      exact ⟨hkey.1.imp_right (List.mem_cons_of_mem _), hkey.2⟩
    rcases Nat.lt_or_eq_of_le hle with hlt | heq
    · exact Prod.Lex.left _ _ hlt
    · rw [heq]
      apply Prod.Lex.right
      simp
  · apply Prod.Lex.left
    exact card_unseenKeys_lt List.mem_cons_self _seen (Finset.Subset.refl _)
      fun other hother => Or.inl (mem_index_of_mem_unseenDependencies hother)
  · apply Prod.Lex.left
    exact card_unseenKeys_lt List.mem_cons_self _seen below.before_subset
      fun other hother => Or.inr (List.mem_cons_of_mem _ hother)

variable {seen : Finset String} {item : ι} {items : List ι}

variable (standing index seen) in
lemma visitEach_nil : (standing.visitEach index seen []).seen = seen ∧
    (standing.visitEach index seen []).order = [] := by
  rw [visitEach]
  exact ⟨rfl, rfl⟩

lemma visitEach_of_mem (hseen : standing.key item ∈ seen) :
    standing.visitEach index seen (item :: items) = standing.visitEach index seen items := by
  rw [visitEach, dif_pos hseen]

lemma visitEach_of_notMem (hnew : standing.key item ∉ seen) (items : List ι) :
    let below := standing.visitEach index (insert (standing.key item) seen)
      (standing.unseenDependencies index seen item)
    let after := standing.visitEach index below.seen items
    (standing.visitEach index seen (item :: items)).seen = after.seen ∧
      (standing.visitEach index seen (item :: items)).order =
        below.order ++ item :: after.order := by
  rw [visitEach, dif_neg hnew]
  exact ⟨rfl, rfl⟩

/-! ## Free keys and seen keys -/

/-- A key of `keys` is free exactly when it has not been seen. -/
def Agree (keys unclaimed : List String) (seen : Finset String) : Prop :=
  ∀ key ∈ keys, key ∈ unclaimed ↔ key ∉ seen

/-- Claiming a key is seeing it. -/
lemma Agree.mark {keys unclaimed : List String} {seen : Finset String}
    (hagree : Agree keys unclaimed seen) (hnodup : unclaimed.Nodup) (key : String) :
    Agree keys (unclaimed.erase key) (insert key seen) := by
  intro other hother
  rw [hnodup.mem_erase_iff, hagree other hother, Finset.mem_insert, not_or]

/-- Where the two views agree on the keys of the index, the same items are pending. -/
lemma pending_eq_unseenDependencies {keys unclaimed : List String} {seen : Finset String}
    (hindex : index.map standing.key ⊆ keys) (hagree : Agree keys unclaimed seen) (item : ι) :
    standing.pending index unclaimed item = standing.unseenDependencies index seen item := by
  unfold pending unseenDependencies
  rw [distinct_filter, distinct_filter, List.filterMap_filter, List.filterMap_filter]
  refine congrArg standing.sort (List.filterMap_congr fun key _ => ?_)
  cases hfind : standing.find? index key with
  | none => simp
  | some dependency =>
    -- only a key that the index knows brings in an item, and on such a key the views agree
    have hknown : key ∈ keys := by
      rw [← key_of_find? hfind]
      exact hindex (List.mem_map_of_mem (mem_of_find? hfind))
    have hsame := hagree key hknown
    simp only [List.contains_iff_mem, hsame, decide_eq_true_eq]

/-- Nested visits place what the recursion emits, and leave free what it has not seen. -/
lemma Visit.order_eq_visitEach {keys unclaimed left : List String} {items order : List ι}
    {seen : Finset String} (hvisit : Visit standing index unclaimed items left order)
    (hindex : index.map standing.key ⊆ keys) (hitems : items.map standing.key ⊆ keys)
    (hnodup : unclaimed.Nodup) (hagree : Agree keys unclaimed seen) :
    order = (standing.visitEach index seen items).order ∧
      Agree keys left (standing.visitEach index seen items).seen := by
  induction hvisit generalizing seen with
  | done unclaimed =>
    obtain ⟨hseen, horder⟩ := visitEach_nil standing index seen
    rw [hseen, horder]
    exact ⟨rfl, hagree⟩
  | @skip unclaimed left item items order claimed rest ih =>
    obtain ⟨hkey, hrest⟩ := List.cons_subset.mp hitems
    have hseen : standing.key item ∈ seen := by
      by_contra hnew
      exact claimed ((hagree _ hkey).mpr hnew)
    rw [visitEach_of_mem hseen]
    exact ih hrest hnodup hagree
  | @enter unclaimed between left item items below order free inner rest ihInner ihRest =>
    obtain ⟨hkey, hrest⟩ := List.cons_subset.mp hitems
    have hnew : standing.key item ∉ seen := (hagree _ hkey).mp free
    have hpending := pending_eq_unseenDependencies hindex hagree item
    have hbelow : (standing.pending index unclaimed item).map standing.key ⊆ keys := by
      intro key hmem
      obtain ⟨dependency, hdependency, rfl⟩ := List.mem_map.mp hmem
      obtain ⟨_, _, _, hfind⟩ := mem_pending.mp hdependency
      exact hindex (List.mem_map_of_mem (mem_of_find? hfind))
    obtain ⟨horder, hbetween⟩ := ihInner hbelow (hnodup.erase _) (hagree.mark hnodup _)
    obtain ⟨horder', hleft⟩ := ihRest hrest (inner.nodup_left (hnodup.erase _)) hbetween
    obtain ⟨hseen, hvisited⟩ := @visitEach_of_notMem _ standing index seen _ hnew items
    rw [hpending] at horder hbetween horder' hleft
    rw [hseen, hvisited]
    refine ⟨?_, hleft⟩
    rw [horder, horder']

/-! ## Passes of the walk -/

variable (standing index) in
/-- One pass of the walk: there is none once the stack is empty. -/
def pass? : Walk ι → Option (Walk ι)
  | ⟨_, [], _⟩ => none
  | ⟨unclaimed, ⟨[], owner⟩ :: frames, placed⟩ =>
    some { unclaimed, stack := frames, placed := placed ++ owner.toList }
  | ⟨unclaimed, ⟨item :: siblings, owner⟩ :: frames, placed⟩ =>
    if standing.key item ∈ unclaimed then
      some
        { unclaimed := unclaimed.erase (standing.key item)
          stack := ⟨standing.pending index unclaimed item, some item⟩ :: ⟨siblings, owner⟩ :: frames
          placed }
    else some { unclaimed, stack := ⟨siblings, owner⟩ :: frames, placed }

variable (standing) in
/-- Where the walk from a list of items begins: every key is free. -/
def beginning (index start : List ι) : Walk ι :=
  { unclaimed := distinct (start.map standing.key ++ index.map standing.key)
    stack := [⟨start, none⟩]
    placed := [] }

/-- Pass by pass, every walk comes to an empty stack, and what is placed by then is its result. -/
lemma exists_passes (state : Walk ι) :
    ∃ final, ReflTransGen (fun now next => standing.pass? index now = some next) state final ∧
      final.stack = [] ∧ final.placed = standing.walk index state := by
  induction state using walk.induct standing index with
  | case1 unclaimed placed => exact ⟨_, ReflTransGen.refl, rfl, by rw [walk]⟩
  | case2 unclaimed owner frames placed ih =>
    obtain ⟨final, hpasses, hstack, hplaced⟩ := ih
    refine ⟨final, ReflTransGen.head rfl hpasses, hstack, ?_⟩
    rw [hplaced, walk]
  | case3 unclaimed item siblings owner frames placed free ih =>
    obtain ⟨final, hpasses, hstack, hplaced⟩ := ih
    refine ⟨final, ReflTransGen.head ?_ hpasses, hstack, ?_⟩
    · rw [pass?, if_pos free]
    · rw [hplaced, walk, dif_pos free]
  | case4 unclaimed item siblings owner frames placed claimed ih =>
    obtain ⟨final, hpasses, hstack, hplaced⟩ := ih
    refine ⟨final, ReflTransGen.head ?_ hpasses, hstack, ?_⟩
    · rw [pass?, if_neg claimed]
    · rw [hplaced, walk, dif_neg claimed]

/-! ## The walk is the recursion -/

/-- From any list of items and over any index the passes of the walk come to an end, and what is
placed by then, the dependency order, is what the recursion emits that starts with nothing seen. -/
theorem dependencyOrder_eq_visitEach (standing : Standing ι) (index start : List ι) :
    (∃ final, ReflTransGen (fun now next => standing.pass? index now = some next)
        (standing.beginning index start) final ∧
      final.stack = [] ∧ final.placed = standing.dependencyOrder index start) ∧
    standing.dependencyOrder index start = (standing.visitEach index ∅ start).order := by
  refine ⟨exists_passes _, ?_⟩
  obtain ⟨left, hvisit⟩ := visit_dependencyOrder standing index start
  have hagree : Agree (start.map standing.key ++ index.map standing.key)
      (distinct (start.map standing.key ++ index.map standing.key)) ∅ := by
    intro key hkey
    rw [mem_distinct]
    exact iff_of_true hkey (Finset.notMem_empty key)
  exact (hvisit.order_eq_visitEach (List.subset_append_right _ _) (List.subset_append_left _ _)
    (nodup_distinct _) hagree).1

end ImportRank.Standing
