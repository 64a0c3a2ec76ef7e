import ImportRank.Proofs.Order.Grade
import ImportRank.Proofs.Order.Precedence

/-!
# What is pending on an item

What an item has pending are its known dependencies, each once, as far as they are free. So keys
that are not known and repetitions of a key add nothing to it. The key of the item itself does: the
item is then pending on itself, but by the time its turn comes its key is claimed. Two walks whose
items have the same pending on them, but for the items themselves, stay in step. Main statement:
`dependencyOrder_map`.
-/

namespace ImportRank.Standing

variable {ι κ γ : Type} {standing : Standing ι} {index : List ι}

/-! ## What is pending, by known items -/

variable (standing index) in
/-- The items that the index knows under some keys, each where its key appears first. -/
def known (keys : List String) : List ι := (distinct keys).filterMap (standing.find? index)

variable (standing) in
/-- The items whose keys are free. -/
def freeItems (unclaimed : List String) (items : List ι) : List ι :=
  items.filter (standing.key · ∈ unclaimed)

variable (standing index) in
/-- What is pending on an item with some dependencies, but for the item itself. -/
def pendingApart (own : String) (unclaimed keys : List String) : List ι :=
  (standing.sort (standing.freeItems unclaimed (standing.known index keys))).filter
    (standing.key · ≠ own)

lemma mem_known {keys : List String} {item : ι} :
    item ∈ standing.known index keys ↔ ∃ key ∈ keys, standing.find? index key = some item := by
  simp [known]

lemma nodup_known (keys : List String) : (standing.known index keys).Nodup := by
  refine (nodup_distinct keys).filterMap fun key key' item hfind hfind' => ?_
  rw [← key_of_find? hfind, ← key_of_find? hfind']

/-- Some of the known items are those of some of the keys. -/
lemma filter_known (keep : String → Bool) (keys : List String) :
    (standing.known index keys).filter (fun item => keep (standing.key item)) =
      standing.known index (keys.filter keep) := by
  rw [known, known, distinct_filter, List.filter_filterMap, List.filterMap_filter]
  refine List.filterMap_congr fun key _ => ?_
  cases hfind : standing.find? index key with
  | none => simp
  | some item =>
    have hkey := key_of_find? hfind
    by_cases hkeep : keep key <;> simp [hkey, hkeep]

lemma pending_eq (unclaimed : List String) (item : ι) :
    standing.pending index unclaimed item =
      standing.sort (standing.freeItems unclaimed
        (standing.known index (standing.dependencies item))) := by
  have hfree : standing.freeItems unclaimed (standing.known index (standing.dependencies item)) =
      standing.known index ((standing.dependencies item).filter (· ∈ unclaimed)) :=
    filter_known (· ∈ unclaimed) _
  rw [hfree, pending, known]
  simp only [List.contains_eq_mem]

/-! ## Lists of keys with the same known items -/

lemma distinct_append_cons {key : String} {before after : List String} (hkey : key ∈ before) :
    distinct (before ++ key :: after) = distinct (before ++ after) := by
  induction before with
  | nil => cases hkey
  | cons first before ih =>
    rw [List.cons_append, List.cons_append, distinct, distinct]
    by_cases hmem : key ∈ before
    · rw [ih hmem]
    · obtain rfl : key = first := (List.mem_cons.mp hkey).resolve_right hmem
      -- what follows the first place of a key is rid of the key anyway
      rw [← distinct_filter, ← distinct_filter]
      simp

lemma known_unknown {key : String} (hunknown : standing.find? index key = none)
    (before after : List String) :
    standing.known index (before ++ key :: after) = standing.known index (before ++ after) := by
  -- keys that are not known may go before the rest is looked up
  have hkept : ∀ keys, standing.known index (keys.filter fun key =>
      (standing.find? index key).isSome) = standing.known index keys := by
    intro keys
    rw [← filter_known (fun key => (standing.find? index key).isSome), List.filter_eq_self]
    intro item hitem
    obtain ⟨key, _, hfind⟩ := mem_known.mp hitem
    rw [key_of_find? hfind, hfind, Option.isSome_some]
  rw [← hkept, ← hkept (before ++ after), List.filter_append, List.filter_append,
    List.filter_cons_of_neg (by simp [hunknown])]

lemma known_again {key : String} {before after : List String} (hkey : key ∈ before) :
    standing.known index (before ++ key :: after) = standing.known index (before ++ after) := by
  rw [known, known, distinct_append_cons hkey]

lemma known_perm {keys others : List String} (hperm : keys.Perm others) :
    (standing.known index keys).Perm (standing.known index others) := by
  refine List.Perm.filterMap _ ((List.perm_ext_iff_of_nodup (nodup_distinct keys)
    (nodup_distinct others)).mpr fun key => ?_)
  rw [mem_distinct, mem_distinct, hperm.mem_iff]

/-- Where the known items have grades, the key of the item itself makes no difference. -/
lemma pendingApart_own [LinearOrder γ] {grade : ι → γ} {own : String} {before after : List String}
    (hgraded : standing.Graded grade (standing.known index (before ++ own :: after)))
    (unclaimed : List String) :
    standing.pendingApart index own unclaimed (before ++ own :: after) =
      standing.pendingApart index own unclaimed (before ++ after) := by
  -- a sort by grades keeps the others in their order, so the item may go before it
  have hapart : ∀ keys, standing.Graded grade (standing.known index keys) →
      standing.pendingApart index own unclaimed keys =
        standing.sort (standing.freeItems unclaimed
          (standing.known index (keys.filter (· ≠ own)))) := by
    intro keys hgraded
    have hfree : standing.Graded grade
        (standing.freeItems unclaimed (standing.known index keys)) := fun a ha b hb =>
      hgraded a (List.mem_of_mem_filter ha) b (List.mem_of_mem_filter hb)
    rw [pendingApart, filter_sort hfree ((nodup_known keys).filter _), freeItems, freeItems,
      List.filter_comm, ← filter_known (· ≠ own)]
  have hgraded' : standing.Graded grade (standing.known index (before ++ after)) := by
    have hsubset : ∀ item ∈ standing.known index (before ++ after),
        item ∈ standing.known index (before ++ own :: after) := by
      intro item hitem
      obtain ⟨key, hkey, hfind⟩ := mem_known.mp hitem
      exact mem_known.mpr ⟨key, by simp at hkey ⊢; tauto, hfind⟩
    exact fun a ha b hb => hgraded a (hsubset a ha) b (hsubset b hb)
  rw [hapart _ hgraded, hapart _ hgraded', List.filter_append, List.filter_append,
    List.filter_cons_of_neg (by simp)]

/-- Where no two of the known items have the same grade, the order of the keys makes none. -/
lemma pendingApart_reordered [LinearOrder γ] {grade : ι → γ} {keys others : List String}
    (hgraded : standing.Graded grade (standing.known index keys))
    (hapart : ∀ a ∈ standing.known index keys, ∀ b ∈ standing.known index keys,
      grade a = grade b → a = b) (hperm : keys.Perm others) (own : String)
    (unclaimed : List String) :
    standing.pendingApart index own unclaimed keys =
      standing.pendingApart index own unclaimed others := by
  have hfree : standing.Graded grade
      (standing.freeItems unclaimed (standing.known index keys)) := fun a ha b hb =>
    hgraded a (List.mem_of_mem_filter ha) b (List.mem_of_mem_filter hb)
  rw [pendingApart, pendingApart, sort_eq_of_perm hfree (fun a ha b hb =>
    hapart a (List.mem_of_mem_filter ha) b (List.mem_of_mem_filter hb))
    ((known_perm hperm).filter _)]
  rfl

/-! ## Two walks in step -/

lemma freeItems_of_subset {fewer unclaimed : List String} (hsubset : fewer ⊆ unclaimed)
    (items : List ι) :
    standing.freeItems fewer (standing.freeItems unclaimed items) =
      standing.freeItems fewer items := by
  rw [freeItems, freeItems, freeItems, List.filter_filter]
  refine List.filter_congr fun item _ => ?_
  rw [← Bool.decide_and, decide_eq_decide]
  exact and_iff_left_of_imp fun hmem => hsubset hmem

/-- Once the key of an item is claimed, the item itself is not free among others. -/
lemma freeItems_erase {unclaimed : List String} (hnodup : unclaimed.Nodup) (own : String)
    (items : List ι) :
    standing.freeItems (unclaimed.erase own) items =
      standing.freeItems unclaimed (items.filter (standing.key · ≠ own)) := by
  rw [freeItems, freeItems, List.filter_filter]
  refine List.filter_congr fun item _ => ?_
  rw [← Bool.decide_and, decide_eq_decide, hnodup.mem_erase_iff, and_comm]

namespace Visit

variable {unclaimed left : List String} {items order : List ι}

/-- Items whose keys are claimed may stand in front. -/
lemma skip_all {claimed : List ι} (hclaimed : ∀ item ∈ claimed, standing.key item ∉ unclaimed)
    (hvisit : Visit standing index unclaimed items left order) :
    Visit standing index unclaimed (claimed ++ items) left order := by
  induction claimed with
  | nil => exact hvisit
  | cons item claimed ih =>
    obtain ⟨hitem, hclaimed⟩ := List.forall_mem_cons.mp hclaimed
    exact .skip hitem (ih hclaimed)

lemma of_claimed (hclaimed : ∀ item ∈ items, standing.key item ∉ unclaimed) :
    Visit standing index unclaimed items unclaimed [] := by
  have hdone : Visit standing index unclaimed [] unclaimed [] := .done unclaimed
  have hvisit := skip_all hclaimed hdone
  rwa [List.append_nil] at hvisit

end Visit

section View

variable {other : Standing κ} {view : ι → κ}
  (hkey : ∀ a, other.key (view a) = standing.key a)

include hkey

lemma freeItems_map (unclaimed : List String) (items : List ι) :
    other.freeItems unclaimed (items.map view) = (standing.freeItems unclaimed items).map view := by
  rw [freeItems, freeItems, List.filter_map]
  exact congrArg (List.map view) (List.filter_congr fun a _ => by simp [hkey])

lemma known_map (keys : List String) :
    other.known (index.map view) keys = (standing.known index keys).map view := by
  rw [known, known, List.map_filterMap]
  exact List.filterMap_congr fun key _ => find?_map hkey index key

/-- Under a view that keeps who outranks whom, what is pending apart from the item itself is the
view of what would be pending on an item with the viewed one's dependencies. -/
lemma pending_view (houtranks : ∀ a b, standing.outranks a b = other.outranks (view a) (view b))
    (unclaimed : List String) (item : ι) :
    (other.pending (index.map view) unclaimed (view item)).filter
        (other.key · ≠ standing.key item) =
      (standing.pendingApart index (standing.key item) unclaimed
        (other.dependencies (view item))).map view := by
  rw [pending_eq, known_map hkey, freeItems_map hkey, ← map_sort view houtranks, List.filter_map]
  exact congrArg (List.map view) (List.filter_congr fun a _ => by simp [hkey])

/-- Where on every known item the same is pending under the view, but for the item itself, a visit
of viewed items goes as the visit of the items: it may be given others only if their keys are
claimed. -/
lemma Visit.map_view {unclaimed left : List String} {items order : List ι}
    (hvisit : Visit standing index unclaimed items left order) (hnodup : unclaimed.Nodup)
    (hitems : ∀ item ∈ items, standing.Indexed index item)
    (hpending : ∀ item, standing.Indexed index item → ∀ unclaimed,
      (other.pending (index.map view) unclaimed (view item)).filter
          (other.key · ≠ standing.key item) =
        ((standing.pending index unclaimed item).filter
          (standing.key · ≠ standing.key item)).map view)
    {others : List κ}
    (hothers : other.freeItems unclaimed others =
      (standing.freeItems unclaimed items).map view) :
    Visit other (index.map view) unclaimed others left (order.map view) := by
  induction hvisit generalizing others with
  | done unclaimed =>
    -- nothing is left to visit, so what is left of the others is claimed
    have hclaimed : ∀ item ∈ others, other.key item ∉ unclaimed := by
      simpa [freeItems, List.filter_eq_nil_iff] using hothers
    exact Visit.of_claimed hclaimed
  | @skip unclaimed left item items order claimed _ ih =>
    refine ih hnodup (List.forall_mem_cons.mp hitems).2 ?_
    rw [hothers, freeItems, List.filter_cons_of_neg (by simpa using claimed), freeItems]
  | @enter unclaimed between left item items below order free inner rest ihInner ihRest =>
    obtain ⟨hitem, hitems⟩ := List.forall_mem_cons.mp hitems
    have herased : (unclaimed.erase (standing.key item)).Nodup := hnodup.erase _
    -- the first of the others that is not claimed is the viewed item
    rw [freeItems, freeItems, List.filter_cons_of_pos (by simpa using free), List.map_cons,
      List.filter_eq_cons_iff] at hothers
    obtain ⟨claimed, others, rfl, hclaimed, _, hrest⟩ := hothers
    -- below, the item itself makes no difference: its key has been claimed
    have hinner : other.freeItems (unclaimed.erase (standing.key item))
          (other.pending (index.map view) unclaimed (view item)) =
        (standing.freeItems (unclaimed.erase (standing.key item))
          (standing.pending index unclaimed item)).map view := by
      rw [freeItems_erase hnodup, freeItems_erase hnodup, hpending item hitem,
        freeItems_map hkey]
    -- after it, fewer keys are free, and they were free on both sides
    have hafter : other.freeItems between others =
        (standing.freeItems between items).map view := by
      have hsubset : between ⊆ unclaimed := fun key hmem =>
        List.mem_of_mem_erase (inner.mem_of_mem_left hmem)
      have hrest : other.freeItems unclaimed others =
          (standing.freeItems unclaimed items).map view := hrest
      calc other.freeItems between others
        _ = other.freeItems between (other.freeItems unclaimed others) :=
          (freeItems_of_subset hsubset others).symm
        _ = (standing.freeItems between (standing.freeItems unclaimed items)).map view := by
          rw [hrest, freeItems_map hkey]
        _ = (standing.freeItems between items).map view := by
          rw [freeItems_of_subset hsubset]
    have hbelow : Visit other (index.map view) (unclaimed.erase (other.key (view item)))
        (other.pending (index.map view) unclaimed (view item)) between (below.map view) := by
      rw [hkey]
      exact ihInner herased indexed_of_mem_pending hinner
    rw [List.map_append, List.map_cons]
    exact Visit.skip_all (by simpa using hclaimed)
      (.enter ((hkey item).symm ▸ free) hbelow (ihRest (inner.nodup_left herased) hitems hafter))

/-- Where, on every known item, the same is pending apart from the item itself with the viewed
item's dependencies, the dependency order is the same under the view. -/
theorem dependencyOrder_map
    (houtranks : ∀ a b, standing.outranks a b = other.outranks (view a) (view b))
    {start : List ι} (hstart : ∀ item ∈ start, standing.Indexed index item)
    (hapart : ∀ item, standing.Indexed index item → ∀ unclaimed,
      standing.pendingApart index (standing.key item) unclaimed (standing.dependencies item) =
        standing.pendingApart index (standing.key item) unclaimed
          (other.dependencies (view item))) :
    other.dependencyOrder (index.map view) (start.map view) =
      (standing.dependencyOrder index start).map view := by
  obtain ⟨left, hvisit⟩ := visit_dependencyOrder standing index start
  have hpending : ∀ item, standing.Indexed index item → ∀ unclaimed,
      (other.pending (index.map view) unclaimed (view item)).filter
          (other.key · ≠ standing.key item) =
        ((standing.pending index unclaimed item).filter
          (standing.key · ≠ standing.key item)).map view := by
    intro item hitem unclaimed
    rw [pending_view hkey houtranks, ← hapart item hitem, pendingApart, pending_eq]
  have hview := hvisit.map_view hkey (nodup_distinct _) hstart hpending (freeItems_map hkey _ start)
  apply dependencyOrder_eq_of_visit
  rw [map_key_map hkey, map_key_map hkey]
  exact hview

end View

/-- Things that stand for items are ordered as the items they stand for. -/
theorem dependencyOrder_comap (standing : Standing κ) (view : ι → κ) (index start : List ι)
    (hstart : ∀ item ∈ start, (standing.comap view).Indexed index item) :
    ((standing.comap view).dependencyOrder index start).map view =
      standing.dependencyOrder (index.map view) (start.map view) := by
  have hkey : ∀ a, standing.key (view a) = (standing.comap view).key a := fun _ => rfl
  exact (dependencyOrder_map hkey (fun _ _ => rfl) hstart fun _ _ _ => rfl).symm

end ImportRank.Standing
