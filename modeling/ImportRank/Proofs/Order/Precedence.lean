import ImportRank.Proofs.Order.Visit
import Mathlib.Data.List.Nodup
import Mathlib.Logic.Relation

/-!
# Dependencies come first

An item depends on what the index knows under one of the keys it names. The main statement,
`dependencyOrder_follows`, says that a dependency of a placed item is placed as well, and before
it, unless the two lie on a cycle. What carries it is the split of the claimed keys at any moment
of a visit: an item is either placed already or still open, and whatever is being visited is
reached from every open item.
-/

namespace ImportRank.Standing

open Relation (TransGen)

variable {ι : Type} {standing : Standing ι} {index : List ι}

/-! ## Known dependencies -/

variable (standing index) in
/-- `a` names a key under which the index knows `b`. -/
def DependsOn (a b : ι) : Prop :=
  ∃ key ∈ standing.dependencies a, standing.find? index key = some b

variable (standing index) in
/-- The item is the one that the index knows under its key. -/
def Indexed (item : ι) : Prop := standing.find? index (standing.key item) = some item

/-- Every place of `later` in an order has `earlier` somewhere before it. -/
def Precedes (order : List ι) (earlier later : ι) : Prop :=
  ∀ before after, order = before ++ later :: after → earlier ∈ before

/-- In an order without repetitions one place shows what comes before what. -/
lemma precedes_of_nodup {order before after : List ι} {earlier later : ι} (hnodup : order.Nodup)
    (horder : order = before ++ later :: after) (hearlier : earlier ∈ before) :
    Precedes order earlier later := by
  rintro before' after' rfl
  obtain ⟨_, hlater, hapart⟩ := List.nodup_append.mp hnodup
  have hbefore : later ∉ before' := fun hmem => hapart later hmem later List.mem_cons_self rfl
  have hafter : later ∉ after' := (List.nodup_cons.mp hlater).1
  obtain ⟨rfl, _, _⟩ := (List.append_cons_inj_of_notMem hbefore hafter).mp horder
  exact hearlier

section View

variable {κ : Type} {other : Standing κ} {view : ι → κ}
  (hkey : ∀ a, other.key (view a) = standing.key a)

include hkey

lemma map_key_map (items : List ι) : (items.map view).map other.key = items.map standing.key := by
  rw [List.map_map]
  exact List.map_congr_left fun a _ => hkey a

/-- Under a view that keeps keys, what is known under a key is the view of what was. -/
lemma find?_map (index : List ι) (key : String) :
    other.find? (index.map view) key = (standing.find? index key).map view := by
  have htest : (fun b => decide (other.key b = key)) ∘ view =
      fun a => decide (standing.key a = key) := funext fun a => by simp [hkey]
  rw [find?, find?, ← List.map_reverse, List.find?_map, htest]

end View

theorem DependsOn.indexed {a b : ι} (hab : standing.DependsOn index a b) :
    standing.Indexed index b := by
  obtain ⟨key, _, hfind⟩ := hab
  rwa [Indexed, key_of_find? hfind]

/-- A key stands for one item of the index. -/
theorem Indexed.eq_of_key {a b : ι} (ha : standing.Indexed index a) (hb : standing.Indexed index b)
    (hkey : standing.key a = standing.key b) : a = b := by
  rw [Indexed, hkey, hb] at ha
  exact (Option.some.inj ha).symm

theorem Indexed.mem_of_key {order : List ι} {b : ι} (hb : standing.Indexed index b)
    (horder : ∀ item ∈ order, standing.Indexed index item)
    (hkey : standing.key b ∈ order.map standing.key) : b ∈ order := by
  obtain ⟨item, hitem, hsame⟩ := List.mem_map.mp hkey
  rwa [← (horder item hitem).eq_of_key hb hsame]

/-- Where keys are distinct, every item is the one of its key. -/
theorem indexed_of_mem (hnodup : (index.map standing.key).Nodup) {item : ι} (hitem : item ∈ index) :
    standing.Indexed index item := by
  unfold Indexed
  cases hfind : standing.find? index (standing.key item) with
  | none =>
    have hother := List.find?_eq_none.mp hfind item (List.mem_reverse.mpr hitem)
    simp at hother
  | some other =>
    rw [List.inj_on_of_nodup_map hnodup (mem_of_find? hfind) hitem (key_of_find? hfind)]

/-- What is pending on an item is what it depends on under a key that is still free. -/
theorem mem_pending_iff {unclaimed : List String} {item dependency : ι} :
    dependency ∈ standing.pending index unclaimed item ↔
      standing.DependsOn index item dependency ∧ standing.key dependency ∈ unclaimed := by
  rw [mem_pending]
  constructor
  · rintro ⟨key, hkey, hfree, hfind⟩
    exact ⟨⟨key, hkey, hfind⟩, (key_of_find? hfind).symm ▸ hfree⟩
  · rintro ⟨⟨key, hkey, hfind⟩, hfree⟩
    exact ⟨key, hkey, key_of_find? hfind ▸ hfree, hfind⟩

theorem indexed_of_mem_pending {unclaimed : List String} {item : ι} :
    ∀ dependency ∈ standing.pending index unclaimed item, standing.Indexed index dependency :=
  fun _ hpending => (mem_pending_iff.mp hpending).1.indexed

/-! ## What a visit claims -/

namespace Visit

variable {unclaimed left : List String} {items order : List ι}

/-- A known item whose key is not free after a visit was claimed before or has been placed. -/
theorem claimed_or_placed (hvisit : Visit standing index unclaimed items left order)
    (hitems : ∀ item ∈ items, standing.Indexed index item) {b : ι}
    (hb : standing.Indexed index b) (hleft : standing.key b ∉ left) :
    standing.key b ∉ unclaimed ∨ b ∈ order := by
  by_cases hfree : standing.key b ∈ unclaimed
  · rcases List.mem_append.mp (hvisit.perm.mem_iff.mp hfree) with hplaced | hkept
    · exact Or.inr (hb.mem_of_key (hvisit.known hitems) hplaced)
    · exact absurd hkept hleft
  · exact Or.inl hfree

/-- After the visit of what is pending on an item no dependency of the item is free. -/
theorem dependency_notMem_between {between : List String} {below : List ι} {item b : ι}
    (inner : Visit standing index (unclaimed.erase (standing.key item))
      (standing.pending index unclaimed item) between below) (hnodup : unclaimed.Nodup)
    (hab : standing.DependsOn index item b) : standing.key b ∉ between := by
  intro hbetween
  have hunclaimed : standing.key b ∈ unclaimed :=
    List.mem_of_mem_erase (inner.mem_of_mem_left hbetween)
  exact inner.key_notMem_left (hnodup.erase _) b (mem_pending_iff.mpr ⟨hab, hunclaimed⟩) hbetween

/-- After a visit no dependency of a placed item is free. -/
theorem dependency_notMem_left (hvisit : Visit standing index unclaimed items left order)
    (hnodup : unclaimed.Nodup) :
    ∀ a ∈ order, ∀ b, standing.DependsOn index a b → standing.key b ∉ left := by
  induction hvisit with
  | done => simp
  | skip _ _ ih => exact ih hnodup
  | @enter unclaimed between left item items below order free inner rest ihInner ihRest =>
    have herased : (unclaimed.erase (standing.key item)).Nodup := hnodup.erase _
    intro a ha b hab hleft
    have hbetween : standing.key b ∈ between := rest.mem_of_mem_left hleft
    rcases List.mem_append.mp ha with hbelow | ha
    · exact ihInner herased a hbelow b hab hbetween
    · rcases List.mem_cons.mp ha with rfl | hrest
      · exact inner.dependency_notMem_between hnodup hab hbetween
      · exact ihRest (inner.nodup_left herased) a hrest b hab hleft

end Visit

/-! ## What a visit places after what -/

variable (standing index) in
/-- Placing the items one by one after those in `placed`, each other item that one of them depends
on is placed before it or leads back to it. -/
def Settled (placed : List ι) : List ι → Prop
  | [] => True
  | a :: rest =>
    (∀ b, b ≠ a → standing.DependsOn index a b →
      b ∈ placed ∨ TransGen (standing.DependsOn index) b a) ∧ Settled (placed ++ [a]) rest

theorem Settled.append {placed first second : List ι}
    (hfirst : standing.Settled index placed first)
    (hsecond : standing.Settled index (placed ++ first) second) :
    standing.Settled index placed (first ++ second) := by
  induction first generalizing placed with
  | nil => simpa using hsecond
  | cons a rest ih =>
    refine ⟨hfirst.1, ih hfirst.2 ?_⟩
    rwa [List.append_assoc, List.singleton_append]

theorem Settled.mem_or_cycle {placed before after : List ι} {a b : ι}
    (hsettled : standing.Settled index placed (before ++ a :: after)) (hne : b ≠ a)
    (hab : standing.DependsOn index a b) :
    b ∈ placed ++ before ∨ TransGen (standing.DependsOn index) b a := by
  induction before generalizing placed with
  | nil =>
    rw [List.append_nil]
    exact hsettled.1 b hne hab
  | cons c before ih =>
    have := ih hsettled.2
    rwa [List.append_assoc, List.singleton_append] at this

/-- A visit settles what it places. The items that are `opened` and not placed yet are those that
the visit is below of: each of them leads to everything the visit is about to enter. -/
theorem Visit.settled {unclaimed left : List String} {items order : List ι}
    (hvisit : Visit standing index unclaimed items left order) (hnodup : unclaimed.Nodup)
    (hitems : ∀ item ∈ items, standing.Indexed index item) (opened placed : List ι)
    (hclaimed : ∀ b, standing.Indexed index b → standing.key b ∉ unclaimed →
      b ∈ opened ∨ b ∈ placed)
    (hleads : ∀ a ∈ opened, ∀ item ∈ items, TransGen (standing.DependsOn index) a item) :
    standing.Settled index placed order := by
  induction hvisit generalizing opened placed with
  | done => trivial
  | skip _ _ ih =>
    exact ih hnodup (fun item hitem => hitems item (List.mem_cons_of_mem _ hitem)) opened placed
      hclaimed fun a ha item hitem => hleads a ha item (List.mem_cons_of_mem _ hitem)
  | @enter unclaimed between left item items below order free inner rest ihInner ihRest =>
    have herased : (unclaimed.erase (standing.key item)).Nodup := hnodup.erase _
    have hitem : standing.Indexed index item := hitems item List.mem_cons_self
    -- a key that is not free below `item` is its own or was not free above it
    have hsplit : ∀ b, standing.Indexed index b →
        standing.key b ∉ unclaimed.erase (standing.key item) →
          b = item ∨ standing.key b ∉ unclaimed := by
      intro b hb herase
      by_cases hkey : standing.key b = standing.key item
      · exact Or.inl (hb.eq_of_key hitem hkey)
      · exact Or.inr fun hfree => herase ((List.mem_erase_of_ne hkey).mpr hfree)
    have hbelow : standing.Settled index placed below := by
      refine ihInner herased indexed_of_mem_pending (item :: opened) placed ?_ ?_
      · intro b hb herase
        rcases hsplit b hb herase with rfl | hfree
        · exact Or.inl List.mem_cons_self
        · exact (hclaimed b hb hfree).imp_left (List.mem_cons_of_mem _)
      · intro a ha dependency hpending
        have hstep := (mem_pending_iff.mp hpending).1
        rcases List.mem_cons.mp ha with rfl | ha
        · exact TransGen.single hstep
        · exact (hleads a ha item List.mem_cons_self).tail hstep
    have hafter : ∀ b, standing.Indexed index b → standing.key b ∉ between →
        b = item ∨ standing.key b ∉ unclaimed ∨ b ∈ below := by
      intro b hb hbetween
      rcases inner.claimed_or_placed indexed_of_mem_pending hb hbetween with herase | hplaced
      · exact (hsplit b hb herase).imp_right Or.inl
      · exact Or.inr (Or.inr hplaced)
    refine hbelow.append ⟨fun b hne hab => ?_, ?_⟩
    · -- no dependency of `item` is free any more when it is placed
      have hbetween := inner.dependency_notMem_between hnodup hab
      rcases hafter b hab.indexed hbetween with rfl | hfree | hplaced
      · exact absurd rfl hne
      · rcases hclaimed b hab.indexed hfree with hopened | hplaced
        · exact Or.inr (hleads b hopened item List.mem_cons_self)
        · exact Or.inl (List.mem_append_left _ hplaced)
      · exact Or.inl (List.mem_append_right _ hplaced)
    · refine ihRest (inner.nodup_left herased)
        (fun next hnext => hitems next (List.mem_cons_of_mem _ hnext)) opened _ ?_
        fun a ha next hnext => hleads a ha next (List.mem_cons_of_mem _ hnext)
      intro b hb hbetween
      simp only [List.mem_append, List.mem_singleton]
      rcases hafter b hb hbetween with rfl | hfree | hplaced
      · exact Or.inr (Or.inr rfl)
      · exact (hclaimed b hb hfree).imp_right fun hplaced => Or.inl (Or.inl hplaced)
      · exact Or.inr (Or.inl (Or.inr hplaced))

/-! ## The dependency order -/

section DependencyOrder

variable {start : List ι}

/-- No item is placed twice. -/
theorem nodup_dependencyOrder (index start : List ι) :
    ((standing.dependencyOrder index start).map standing.key).Nodup := by
  obtain ⟨left, hvisit⟩ := visit_dependencyOrder standing index start
  exact hvisit.nodup_keys (nodup_distinct _)

theorem key_mem_unclaimed (start : List ι) {item : ι} (hitem : standing.Indexed index item) :
    standing.key item ∈ distinct (start.map standing.key ++ index.map standing.key) := by
  rw [mem_distinct, List.mem_append]
  exact Or.inr (List.mem_map_of_mem (mem_of_find? hitem))

/-- What is placed from known items is known. -/
lemma indexed_of_mem_dependencyOrder (hstart : ∀ item ∈ start, standing.Indexed index item) :
    ∀ item ∈ standing.dependencyOrder index start, standing.Indexed index item := by
  obtain ⟨left, hvisit⟩ := visit_dependencyOrder standing index start
  exact hvisit.known hstart

theorem mem_dependencyOrder_of_mem (hstart : ∀ item ∈ start, standing.Indexed index item)
    {item : ι} (hitem : item ∈ start) : item ∈ standing.dependencyOrder index start := by
  obtain ⟨left, hvisit⟩ := visit_dependencyOrder standing index start
  have hleft := hvisit.key_notMem_left (nodup_distinct _) item hitem
  rcases hvisit.claimed_or_placed hstart (hstart item hitem) hleft with hfree | hplaced
  · exact absurd (key_mem_unclaimed start (hstart item hitem)) hfree
  · exact hplaced

/-- What a placed item depends on is placed. -/
theorem mem_dependencyOrder_of_dependsOn (hstart : ∀ item ∈ start, standing.Indexed index item)
    {a b : ι} (ha : a ∈ standing.dependencyOrder index start)
    (hab : standing.DependsOn index a b) : b ∈ standing.dependencyOrder index start := by
  obtain ⟨left, hvisit⟩ := visit_dependencyOrder standing index start
  have hleft := hvisit.dependency_notMem_left (nodup_distinct _) a ha b hab
  rcases hvisit.claimed_or_placed hstart hab.indexed hleft with hfree | hplaced
  · exact absurd (key_mem_unclaimed start hab.indexed) hfree
  · exact hplaced

/-- The order from all items of an index with distinct keys is a rearrangement of them. -/
theorem perm_dependencyOrder (hnodup : (index.map standing.key).Nodup) (hperm : start.Perm index) :
    (standing.dependencyOrder index start).Perm index := by
  have hstart : ∀ item ∈ start, standing.Indexed index item := fun item hitem =>
    indexed_of_mem hnodup (hperm.mem_iff.mp hitem)
  have hplaced : (standing.dependencyOrder index start).Nodup :=
    List.Nodup.of_map standing.key (nodup_dependencyOrder index start)
  refine (List.perm_ext_iff_of_nodup hplaced (List.Nodup.of_map standing.key hnodup)).mpr
    fun item => ⟨fun hitem => ?_, fun hitem => ?_⟩
  · exact mem_of_find? (indexed_of_mem_dependencyOrder hstart item hitem)
  · exact mem_dependencyOrder_of_mem hstart (hperm.mem_iff.mpr hitem)

/-- A dependency stands before the item unless it leads back to it. -/
theorem precedes_or_cycle (hstart : ∀ item ∈ start, standing.Indexed index item) {a b : ι}
    (hne : b ≠ a) (hab : standing.DependsOn index a b) :
    Precedes (standing.dependencyOrder index start) b a ∨
      TransGen (standing.DependsOn index) b a := by
  obtain ⟨left, hvisit⟩ := visit_dependencyOrder standing index start
  have hsettled : standing.Settled index [] (standing.dependencyOrder index start) :=
    hvisit.settled (nodup_distinct _) hstart [] []
      (fun b hb hfree => absurd (key_mem_unclaimed start hb) hfree) (by simp)
  by_cases hcycle : TransGen (standing.DependsOn index) b a
  · exact Or.inr hcycle
  · refine Or.inl fun before after horder => ?_
    rw [horder] at hsettled
    exact (hsettled.mem_or_cycle hne hab).resolve_right hcycle

/-- The order from a list of known items holds each of them and no item twice. With an item it
holds all that the item depends on, and what does not lead back to the item stands before it. In
particular every item follows all of its dependencies where no item leads back to itself. -/
theorem dependencyOrder_follows (hstart : ∀ item ∈ start, standing.Indexed index item) :
    ((standing.dependencyOrder index start).map standing.key).Nodup ∧
    (∀ item ∈ start, item ∈ standing.dependencyOrder index start) ∧
    (∀ a ∈ standing.dependencyOrder index start, ∀ b, b ≠ a → standing.DependsOn index a b →
      b ∈ standing.dependencyOrder index start ∧
      (¬ TransGen (standing.DependsOn index) b a →
        Precedes (standing.dependencyOrder index start) b a)) ∧
    ((∀ a, ¬ TransGen (standing.DependsOn index) a a) →
      ∀ a ∈ standing.dependencyOrder index start, ∀ b, standing.DependsOn index a b →
        Precedes (standing.dependencyOrder index start) b a) := by
  refine ⟨nodup_dependencyOrder index start, fun item => mem_dependencyOrder_of_mem hstart,
    fun a ha b hne hab => ⟨mem_dependencyOrder_of_dependsOn hstart ha hab, fun hno => ?_⟩,
    fun hacyclic a _ b hab => ?_⟩
  · exact (precedes_or_cycle hstart hne hab).resolve_right hno
  · have hne : b ≠ a := fun heq => hacyclic a (TransGen.single (heq ▸ hab))
    exact (precedes_or_cycle hstart hne hab).resolve_right
      fun hback => hacyclic a (TransGen.head hab hback)

/-- A file that imports itself, a file that imports it back, and a leaf. -/
def sampleImporter : Candidate Float := Candidate.fresh "a.py" 3 [] ["b.py", "a.py", "c.py"]

/-- A file that imports nothing that is known. -/
def sampleLeaf : Candidate Float := Candidate.fresh "c.py" 1 [] ["gone.py"]

/-- Two files on a cycle, one of which imports a leaf. -/
def sampleIndex : List (Candidate Float) :=
  [sampleImporter, Candidate.fresh "b.py" 2 [] ["a.py"], sampleLeaf]

/-- Every file of the sample is known, and the leaf comes before the file that imports it. -/
theorem dependencyOrder_follows_sample :
    (∀ item ∈ sampleIndex, Candidate.standing.Indexed sampleIndex item) ∧
    sampleImporter ∈ Candidate.standing.dependencyOrder sampleIndex sampleIndex ∧
    Candidate.standing.DependsOn sampleIndex sampleImporter sampleLeaf ∧
    ¬ TransGen (Candidate.standing.DependsOn sampleIndex) sampleLeaf sampleImporter ∧
    Precedes (Candidate.standing.dependencyOrder sampleIndex sampleIndex) sampleLeaf
      sampleImporter := by
  have hstart : ∀ item ∈ sampleIndex, Candidate.standing.Indexed sampleIndex item := by
    simp [sampleIndex, sampleImporter, sampleLeaf, Indexed, find?, Candidate.standing,
      Candidate.fresh]
  have hdepends : Candidate.standing.DependsOn sampleIndex sampleImporter sampleLeaf := by
    simp [sampleIndex, sampleImporter, sampleLeaf, DependsOn, find?, Candidate.standing,
      Candidate.fresh]
  have hleaf : ∀ b, ¬ Candidate.standing.DependsOn sampleIndex sampleLeaf b := by
    simp [sampleIndex, sampleImporter, sampleLeaf, DependsOn, find?, Candidate.standing,
      Candidate.fresh]
  have hno : ¬ TransGen (Candidate.standing.DependsOn sampleIndex) sampleLeaf sampleImporter := by
    intro hback
    obtain ⟨b, hb, _⟩ := TransGen.head'_iff.mp hback
    exact hleaf b hb
  have hne : sampleLeaf ≠ sampleImporter := by simp [sampleLeaf, sampleImporter, Candidate.fresh]
  obtain ⟨_, hmem, hfollows, _⟩ := dependencyOrder_follows hstart
  have ha := hmem sampleImporter List.mem_cons_self
  exact ⟨hstart, ha, hdepends, hno, (hfollows _ ha _ hne hdepends).2 hno⟩

end DependencyOrder

end ImportRank.Standing
