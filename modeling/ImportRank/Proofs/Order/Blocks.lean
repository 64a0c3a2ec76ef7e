import ImportRank.Proofs.Order.Precedence
import ImportRank.Proofs.Order.Recursion

/-!
# The blocks of a dependency order

Whenever the walk is back at its start list, the keys it has claimed are closed: they are those of
all items that the visited ones lead to, and of no others. So each item of the start list brings in
what it leads to and no earlier one does, in one block that it ends itself. Main statement:
`dependencyOrder_eq_flatten`.
-/

namespace ImportRank.Standing

open Relation (ReflTransGen)

variable {ι : Type} {standing : Standing ι} {index : List ι}

/-! ## What an item leads to -/

variable (standing index) in
/-- Known dependencies lead from `a` to `b`; every item leads to itself. -/
def LeadsTo (a b : ι) : Prop := ReflTransGen (standing.DependsOn index) a b

lemma Indexed.of_leadsTo {a b : ι} (ha : standing.Indexed index a)
    (hab : standing.LeadsTo index a b) : standing.Indexed index b := by
  rcases ReflTransGen.cases_tail hab with rfl | ⟨_, _, hlast⟩
  · exact ha
  · exact hlast.indexed

/-! ## Visits one after the other -/

namespace Visit

variable {unclaimed left : List String} {items order : List ι}

/-- Visiting a list is visiting its first part and then the rest. -/
lemma of_append {first rest : List ι}
    (hvisit : Visit standing index unclaimed (first ++ rest) left order) :
    ∃ between below above, Visit standing index unclaimed first between below ∧
      Visit standing index between rest left above ∧ order = below ++ above := by
  induction first generalizing unclaimed order with
  | nil => exact ⟨unclaimed, [], order, .done unclaimed, hvisit, rfl⟩
  | cons item first ih =>
    cases hvisit with
    | skip claimed others =>
      obtain ⟨between, below, above, hfirst, hrest, rfl⟩ := ih others
      exact ⟨between, below, above, .skip claimed hfirst, hrest, rfl⟩
    | @enter _ middle _ _ _ inside _ free inner others =>
      obtain ⟨between, below, above, hfirst, hrest, rfl⟩ := ih others
      refine ⟨between, inside ++ item :: below, above, .enter free inner hfirst, hrest, ?_⟩
      rw [List.append_assoc, List.cons_append]

/-- The visit of one item ends with it, or places nothing where its key is not free. -/
lemma eq_of_singleton {item : ι} (hvisit : Visit standing index unclaimed [item] left order) :
    (standing.key item ∉ unclaimed → order = []) ∧
      (standing.key item ∈ unclaimed → ∃ below, order = below ++ [item]) := by
  cases hvisit with
  | skip claimed others =>
    cases others
    exact ⟨fun _ => rfl, fun free => absurd free claimed⟩
  | @enter _ _ _ _ _ below _ free inner others =>
    cases others
    exact ⟨fun claimed => absurd free claimed, fun _ => ⟨below, rfl⟩⟩

/-- Whatever a visit places, one of the visited items leads to it. -/
lemma exists_leadsTo (hvisit : Visit standing index unclaimed items left order) :
    ∀ b ∈ order, ∃ a ∈ items, standing.LeadsTo index a b := by
  induction hvisit with
  | done => simp
  | skip _ _ ih =>
    intro b hb
    obtain ⟨a, ha, hab⟩ := ih b hb
    exact ⟨a, List.mem_cons_of_mem _ ha, hab⟩
  | @enter _ _ _ item _ _ _ _ _ _ ihInner ihRest =>
    intro b hb
    rcases List.mem_append.mp hb with hbelow | hb
    · -- what is placed below an item is led to by something pending on it, which it depends on
      obtain ⟨dependency, hpending, hab⟩ := ihInner b hbelow
      have hstep := (mem_pending_iff.mp hpending).1
      exact ⟨item, List.mem_cons_self, ReflTransGen.head hstep hab⟩
    · rcases List.mem_cons.mp hb with rfl | hrest
      · exact ⟨b, List.mem_cons_self, ReflTransGen.refl⟩
      · obtain ⟨a, ha, hab⟩ := ihRest b hrest
        exact ⟨a, List.mem_cons_of_mem _ ha, hab⟩

end Visit

/-! ## Claimed keys at the start list -/

variable (standing index) in
/-- The known items whose keys are claimed are those that some earlier items lead to. -/
def Covers (earlier : List ι) (unclaimed : List String) : Prop :=
  ∀ b, standing.Indexed index b →
    (standing.key b ∉ unclaimed ↔ ∃ before ∈ earlier, standing.LeadsTo index before b)

section Covers

variable {unclaimed left : List String} {items order earlier : List ι}
  (hvisit : Visit standing index unclaimed items left order) (hnodup : unclaimed.Nodup)
  (hitems : ∀ item ∈ items, standing.Indexed index item)
  (hcovers : standing.Covers index earlier unclaimed)

include hvisit hnodup hitems hcovers

/-- What is claimed after a visit is closed: it leads to nothing that is free. -/
lemma Visit.notMem_left_of_leadsTo {a b : ι} (ha : standing.Indexed index a)
    (hab : standing.LeadsTo index a b) (hclaimed : standing.key a ∉ left) :
    standing.key b ∉ left := by
  induction hab using ReflTransGen.head_induction_on with
  | refl => exact hclaimed
  | @head a c hac _ ih =>
    refine ih hac.indexed ?_
    rcases hvisit.claimed_or_placed hitems ha hclaimed with hbefore | hplaced
    · -- claimed before the visit, it is led to by an earlier item, and so is what it depends on
      obtain ⟨before, hmem, hleads⟩ := (hcovers a ha).mp hbefore
      have hc : standing.key c ∉ unclaimed :=
        (hcovers c hac.indexed).mpr ⟨before, hmem, hleads.tail hac⟩
      exact fun hleft => hc (hvisit.mem_of_mem_left hleft)
    · exact hvisit.dependency_notMem_left hnodup a hplaced c hac

/-- So after a visit the claimed items are those that the earlier and the visited ones lead to. -/
lemma Covers.visit : standing.Covers index (earlier ++ items) left := by
  intro b hb
  constructor
  · intro hclaimed
    rcases hvisit.claimed_or_placed hitems hb hclaimed with hbefore | hplaced
    · obtain ⟨before, hmem, hleads⟩ := (hcovers b hb).mp hbefore
      exact ⟨before, List.mem_append_left _ hmem, hleads⟩
    · obtain ⟨a, ha, hleads⟩ := hvisit.exists_leadsTo b hplaced
      exact ⟨a, List.mem_append_right _ ha, hleads⟩
  · rintro ⟨before, hmem, hleads⟩
    rcases List.mem_append.mp hmem with hearlier | hitem
    · have hbefore : standing.key b ∉ unclaimed :=
        (hcovers b hb).mpr ⟨before, hearlier, hleads⟩
      exact fun hleft => hbefore (hvisit.mem_of_mem_left hleft)
    · exact hvisit.notMem_left_of_leadsTo hnodup hitems hcovers (hitems before hitem) hleads
        (hvisit.key_notMem_left hnodup before hitem)

/-- A visit places what the visited items lead to and no earlier one does. -/
lemma Visit.mem_order_iff {b : ι} :
    b ∈ order ↔ (∃ a ∈ items, standing.LeadsTo index a b) ∧
      ∀ before ∈ earlier, ¬ standing.LeadsTo index before b := by
  constructor
  · intro hplaced
    have hb : standing.Indexed index b := hvisit.known hitems b hplaced
    have hfree : standing.key b ∈ unclaimed :=
      hvisit.perm.mem_iff.mpr (List.mem_append_left _ (List.mem_map_of_mem hplaced))
    refine ⟨hvisit.exists_leadsTo b hplaced, fun before hmem hleads => ?_⟩
    exact (hcovers b hb).mpr ⟨before, hmem, hleads⟩ hfree
  · rintro ⟨⟨a, ha, hleads⟩, hnew⟩
    have hb : standing.Indexed index b := (hitems a ha).of_leadsTo hleads
    have hleft : standing.key b ∉ left := (Covers.visit hvisit hnodup hitems hcovers b hb).mpr
      ⟨a, List.mem_append_right _ ha, hleads⟩
    refine (hvisit.claimed_or_placed hitems hb hleft).resolve_left fun hclaimed => ?_
    obtain ⟨before, hmem, hbefore⟩ := (hcovers b hb).mp hclaimed
    exact hnew before hmem hbefore

end Covers

/-! ## Blocks -/

variable (standing index) in
/-- What an item adds to an order after some earlier ones: once each, everything it leads to and
none of them does. There is nothing to add where one of them leads to the item; anywhere else the
item comes last. -/
structure IsBlock (earlier : List ι) (root : ι) (block : List ι) : Prop where
  nodup : block.Nodup
  mem_iff : ∀ item, item ∈ block ↔ standing.LeadsTo index root item ∧
    ∀ before ∈ earlier, ¬ standing.LeadsTo index before item
  eq_nil : (∃ before ∈ earlier, standing.LeadsTo index before root) → block = []
  ends_with : (∀ before ∈ earlier, ¬ standing.LeadsTo index before root) →
    ∃ below, block = below ++ [root]

/-- The visit of one item places its block. -/
lemma Visit.isBlock {unclaimed left : List String} {order earlier : List ι} {root : ι}
    (hvisit : Visit standing index unclaimed [root] left order) (hnodup : unclaimed.Nodup)
    (hroot : standing.Indexed index root) (hcovers : standing.Covers index earlier unclaimed) :
    standing.IsBlock index earlier root order := by
  obtain ⟨hnothing, hends⟩ := hvisit.eq_of_singleton
  have hroots : ∀ item ∈ [root], standing.Indexed index item := by simpa using hroot
  refine ⟨List.Nodup.of_map _ (hvisit.nodup_keys hnodup), fun item => ?_, fun hled => ?_,
    fun hnew => ?_⟩
  · rw [hvisit.mem_order_iff hnodup hroots hcovers]
    simp
  · exact hnothing ((hcovers root hroot).mpr hled)
  · refine hends (by_contra fun hclaimed => ?_)
    obtain ⟨before, hmem, hleads⟩ := (hcovers root hroot).mp hclaimed
    exact hnew before hmem hleads

/-- A visit places one block after the other. -/
lemma Visit.exists_blocks {unclaimed left : List String} {items order earlier : List ι}
    (hvisit : Visit standing index unclaimed items left order) (hnodup : unclaimed.Nodup)
    (hitems : ∀ item ∈ items, standing.Indexed index item)
    (hcovers : standing.Covers index earlier unclaimed) :
    ∃ blocks : List (List ι), order = blocks.flatten ∧ blocks.length = items.length ∧
      ∀ (place : ℕ) (hplace : place < items.length) (hplace' : place < blocks.length),
        standing.IsBlock index (earlier ++ items.take place) items[place] blocks[place] := by
  induction items generalizing unclaimed order earlier with
  | nil =>
    cases hvisit
    exact ⟨[], rfl, rfl, fun place hplace => absurd hplace (Nat.not_lt_zero place)⟩
  | cons root items ih =>
    obtain ⟨hroot, hitems⟩ := List.forall_mem_cons.mp hitems
    have hsplit : Visit standing index unclaimed ([root] ++ items) left order := hvisit
    obtain ⟨between, block, above, hfirst, hrest, rfl⟩ := hsplit.of_append
    have hroots : ∀ item ∈ [root], standing.Indexed index item := by simpa using hroot
    have hbetween := Covers.visit hfirst hnodup hroots hcovers
    obtain ⟨blocks, rfl, hlength, hblocks⟩ :=
      ih hrest (hfirst.nodup_left hnodup) hitems hbetween
    refine ⟨block :: blocks, rfl, by simp [hlength], fun place hplace hplace' => ?_⟩
    cases place with
    | zero =>
      rw [List.take_zero, List.append_nil]
      exact hfirst.isBlock hnodup hroot hcovers
    | succ place =>
      have hblock := hblocks place (Nat.lt_of_succ_lt_succ hplace) (Nat.lt_of_succ_lt_succ hplace')
      rwa [List.append_assoc, List.singleton_append] at hblock

/-! ## The dependency order -/

variable {start : List ι}

/-- Where all keys that matter are free, a visit places what the recursion emits that has seen
nothing. -/
lemma Visit.order_eq_of_free {unclaimed left : List String} {items order : List ι}
    (hvisit : Visit standing index unclaimed items left order) (hnodup : unclaimed.Nodup)
    (hfree : items.map standing.key ++ index.map standing.key ⊆ unclaimed) :
    order = (standing.visitEach index ∅ items).order := by
  have hagree : Agree (items.map standing.key ++ index.map standing.key) unclaimed ∅ := by
    intro key hkey
    exact iff_of_true (hfree hkey) (Finset.notMem_empty key)
  exact (hvisit.order_eq_visitEach (List.subset_append_right _ _) (List.subset_append_left _ _)
    hnodup hagree).1

/-- The order from the first part of a list is the first part of the order from all of it. -/
theorem dependencyOrder_prefix (index first rest : List ι) :
    standing.dependencyOrder index first <+: standing.dependencyOrder index (first ++ rest) := by
  obtain ⟨_, hvisit⟩ := visit_dependencyOrder standing index first
  obtain ⟨_, hwhole⟩ := visit_dependencyOrder standing index (first ++ rest)
  obtain ⟨_, below, above, hfirst, _, horder⟩ := hwhole.of_append
  -- the keys of the rest make no difference to the first part, for which all that matter are free
  have hsame : standing.dependencyOrder index first = below := by
    rw [hvisit.order_eq_of_free (nodup_distinct _) fun key hkey => mem_distinct.mpr hkey]
    refine (hfirst.order_eq_of_free (nodup_distinct _) fun key hkey => ?_).symm
    rw [mem_distinct, List.map_append, List.append_assoc]
    rcases List.mem_append.mp hkey with hitem | hindex
    · exact List.mem_append_left _ hitem
    · exact List.mem_append_right _ (List.mem_append_right _ hindex)
  rw [horder, hsame]
  exact List.prefix_append below above

/-- The order from a list of known items is made of blocks, one for each item of the list: what the
item leads to and no earlier item of the list does. Nothing that comes later in the list changes
the order from a first part of it. -/
theorem dependencyOrder_eq_flatten (hstart : ∀ item ∈ start, standing.Indexed index item) :
    (∃ blocks : List (List ι), standing.dependencyOrder index start = blocks.flatten ∧
      blocks.length = start.length ∧
      ∀ (place : ℕ) (hplace : place < start.length) (hplace' : place < blocks.length),
        standing.IsBlock index (start.take place) start[place] blocks[place]) ∧
    ∀ first, first <+: start →
      standing.dependencyOrder index first <+: standing.dependencyOrder index start := by
  obtain ⟨left, hvisit⟩ := visit_dependencyOrder standing index start
  -- before the first visit nothing is claimed, and there is no earlier item
  have hcovers : standing.Covers index []
      (distinct (start.map standing.key ++ index.map standing.key)) := by
    intro b hb
    exact iff_of_false (not_not.mpr (key_mem_unclaimed start hb)) (by simp)
  refine ⟨hvisit.exists_blocks (nodup_distinct _) hstart hcovers, ?_⟩
  rintro first ⟨rest, rfl⟩
  exact dependencyOrder_prefix index first rest

/-- The sample's own items are the ones it knows. -/
lemma indexed_sampleIndex :
    ∀ item ∈ sampleIndex, Candidate.standing.Indexed sampleIndex item := by
  simp [sampleIndex, sampleImporter, sampleLeaf, Indexed, find?, Candidate.standing,
    Candidate.fresh]

/-- From the leaf of the sample, the file that imports it and the leaf once more: the second block
ends with the importer and leaves the leaf out, and the third has nothing left. -/
theorem dependencyOrder_eq_flatten_sample :
    (∀ item ∈ [sampleLeaf, sampleImporter, sampleLeaf],
      Candidate.standing.Indexed sampleIndex item) ∧
    ∃ block below,
      Candidate.standing.dependencyOrder sampleIndex [sampleLeaf, sampleImporter, sampleLeaf] =
        block ++ (below ++ [sampleImporter]) ∧
      Candidate.standing.IsBlock sampleIndex [] sampleLeaf block ∧
      Candidate.standing.IsBlock sampleIndex [sampleLeaf] sampleImporter
        (below ++ [sampleImporter]) ∧
      sampleLeaf ∉ below := by
  have hstart : ∀ item ∈ [sampleLeaf, sampleImporter, sampleLeaf],
      Candidate.standing.Indexed sampleIndex item := by
    intro item hitem
    apply indexed_sampleIndex
    simp only [List.mem_cons, List.not_mem_nil, or_false] at hitem
    rcases hitem with rfl | rfl | rfl <;> simp [sampleIndex]
  obtain ⟨⟨blocks, horder, hlength, hblocks⟩, _⟩ := dependencyOrder_eq_flatten hstart
  obtain ⟨block, second, third, rfl⟩ := List.length_eq_three.mp hlength
  have hfirst := hblocks 0 (by simp) (by simp)
  have hsecond := hblocks 1 (by simp) (by simp)
  have hthird := hblocks 2 (by simp) (by simp)
  -- the leaf leads to nothing but itself
  have hleaf : ∀ before ∈ [sampleLeaf],
      ¬ Candidate.standing.LeadsTo sampleIndex before sampleImporter := by
    simp only [List.mem_singleton, forall_eq]
    intro hleads
    rcases ReflTransGen.cases_head hleads with heq | ⟨b, hb, _⟩
    · simp [sampleLeaf, sampleImporter, Candidate.fresh] at heq
    · revert hb
      simp [sampleIndex, sampleImporter, sampleLeaf, DependsOn, find?, Candidate.standing,
        Candidate.fresh]
  obtain ⟨below, rfl⟩ := hsecond.ends_with hleaf
  have hnone : third = [] :=
    hthird.eq_nil ⟨sampleLeaf, List.mem_cons_self, ReflTransGen.refl⟩
  refine ⟨hstart, block, below, ?_, hfirst, hsecond, fun hmem => ?_⟩
  · simpa [hnone] using horder
  · have hled := ((hsecond.mem_iff sampleLeaf).mp (List.mem_append_left _ hmem)).2
    exact hled sampleLeaf List.mem_cons_self ReflTransGen.refl

end ImportRank.Standing
