import ImportRank.Proofs.Order.Blocks

/-!
# Where cycles are cut

Items that known dependencies lead to and back from are together in a component, and the walk can
honour all dependencies between them but those on the item it enters first. Everything else in the
component can be reached from that item through items that are free, so all of it is visited below
the item and placed before it, whatever else is open on the stack. Main statement:
`dependencyOrder_cuts_components`.
-/

namespace ImportRank.Standing

open Relation (ReflTransGen)

variable {ι : Type} {standing : Standing ι} {index start : List ι}

/-! ## Components -/

variable (standing index) in
/-- Two items of one strongly connected component of the known dependencies. -/
def Together (a b : ι) : Prop := standing.LeadsTo index a b ∧ standing.LeadsTo index b a

lemma Together.refl (a : ι) : standing.Together index a a := ⟨ReflTransGen.refl, ReflTransGen.refl⟩

lemma Together.trans {a b c : ι} (hab : standing.Together index a b)
    (hbc : standing.Together index b c) : standing.Together index a c :=
  ⟨hab.1.trans hbc.1, hbc.2.trans hab.2⟩

/-- Something depends on each of two items that are together, so the index knows both. -/
lemma Together.indexed_of_ne {a b : ι} (htogether : standing.Together index a b) (hne : b ≠ a) :
    standing.Indexed index a ∧ standing.Indexed index b := by
  obtain ⟨hab, hba⟩ := htogether
  constructor
  · rcases ReflTransGen.cases_tail hba with heq | ⟨_, _, hlast⟩
    · exact absurd heq.symm hne
    · exact hlast.indexed
  · rcases ReflTransGen.cases_tail hab with heq | ⟨_, _, hlast⟩
    · exact absurd heq hne
    · exact hlast.indexed

/-- While its whole component is free, the visit of an item places the others below it. -/
lemma Visit.mem_below_of_together {unclaimed between : List String} {below : List ι} {first : ι}
    (inner : Visit standing index (unclaimed.erase (standing.key first))
      (standing.pending index unclaimed first) between below) (hnodup : unclaimed.Nodup)
    (hfree : ∀ b, standing.Together index first b → standing.key b ∈ unclaimed) {b : ι}
    (htogether : standing.Together index first b) (hne : b ≠ first) : b ∈ below := by
  obtain ⟨hleads, hback⟩ := htogether
  -- along a path within the component: each item on it is the first one or is placed
  induction hleads with
  | refl => exact absurd rfl hne
  | @tail a b hleads hab ih =>
    have hbetween : standing.key b ∉ between := by
      by_cases hfirst : a = first
      · exact inner.dependency_notMem_between hnodup (hfirst ▸ hab)
      · have hplaced := ih hfirst (ReflTransGen.head hab hback)
        exact inner.dependency_notMem_left (hnodup.erase _) a hplaced b hab
    have htogether : standing.Together index first b := ⟨hleads.tail hab, hback⟩
    have hkey : standing.key b ≠ standing.key first := by
      intro hsame
      obtain ⟨hknown, hb⟩ := htogether.indexed_of_ne hne
      exact hne (hb.eq_of_key hknown hsame)
    have hbelow : standing.key b ∈ unclaimed.erase (standing.key first) :=
      (List.mem_erase_of_ne hkey).mpr (hfree b htogether)
    exact (inner.claimed_or_placed indexed_of_mem_pending hab.indexed hbetween).resolve_left
      fun hclaimed => hclaimed hbelow

/-! ## On the way of a walk -/

variable (standing index start) in
/-- The walk from a list of items comes through a state. -/
def ComesThrough (state : Walk ι) : Prop :=
  ReflTransGen (fun now next => standing.pass? index now = some next)
    (standing.beginning index start) state

variable (standing) in
/-- The next pass enters an item: it comes next, and its key is free. -/
def Enters (now : Walk ι) (item : ι) : Prop :=
  ∃ siblings owner frames, now.stack = ⟨item :: siblings, owner⟩ :: frames ∧
    standing.key item ∈ now.unclaimed

/-- What a pass does: it takes a frame off and places its owner, or it takes off a sibling, either
because it is claimed or in order to enter it. -/
lemma pass?_eq_some {now next : Walk ι} (hpass : standing.pass? index now = some next) :
    (∃ owner frames, now.stack = ⟨[], owner⟩ :: frames ∧
      next = ⟨now.unclaimed, frames, now.placed ++ owner.toList⟩) ∨
    (∃ item siblings owner frames, now.stack = ⟨item :: siblings, owner⟩ :: frames ∧
      standing.key item ∉ now.unclaimed ∧
      next = ⟨now.unclaimed, ⟨siblings, owner⟩ :: frames, now.placed⟩) ∨
    ∃ item siblings owner frames, now.stack = ⟨item :: siblings, owner⟩ :: frames ∧
      standing.key item ∈ now.unclaimed ∧
      next = ⟨now.unclaimed.erase (standing.key item),
        ⟨standing.pending index now.unclaimed item, some item⟩ :: ⟨siblings, owner⟩ :: frames,
        now.placed⟩ := by
  obtain ⟨unclaimed, stack, placed⟩ := now
  match stack with
  | [] => cases hpass
  | ⟨[], owner⟩ :: frames =>
    obtain rfl := Option.some.inj hpass
    exact Or.inl ⟨owner, frames, rfl, rfl⟩
  | ⟨item :: siblings, owner⟩ :: frames =>
    rw [pass?] at hpass
    split at hpass
    · rename_i free
      obtain rfl := Option.some.inj hpass
      exact Or.inr (Or.inr ⟨item, siblings, owner, frames, rfl, free, rfl⟩)
    · rename_i claimed
      obtain rfl := Option.some.inj hpass
      exact Or.inr (Or.inl ⟨item, siblings, owner, frames, rfl, claimed, rfl⟩)

/-- No pass changes where the walk ends. -/
lemma walk_eq_of_pass? {now next : Walk ι} (hpass : standing.pass? index now = some next) :
    standing.walk index next = standing.walk index now := by
  obtain ⟨unclaimed, stack, placed⟩ := now
  rcases pass?_eq_some hpass with ⟨owner, frames, hstack, rfl⟩ |
    ⟨item, siblings, owner, frames, hstack, claimed, rfl⟩ |
    ⟨item, siblings, owner, frames, hstack, free, rfl⟩
  · change stack = _ at hstack
    subst hstack
    conv_rhs => rw [walk]
  · change stack = _ at hstack
    subst hstack
    conv_rhs => rw [walk, dif_neg claimed]
  · change stack = _ at hstack
    subst hstack
    conv_rhs => rw [walk, dif_pos free]

variable (standing index) in
/-- What is placed stays where it is. -/
lemma prefix_walk (state : Walk ι) : state.placed <+: standing.walk index state := by
  induction state using walk.induct standing index with
  | case1 unclaimed placed =>
    rw [walk]
  | case2 unclaimed owner frames placed ih =>
    rw [walk]
    exact (List.prefix_append _ _).trans ih
  | case3 unclaimed item siblings owner frames placed free ih =>
    rw [walk, dif_pos free]
    exact ih
  | case4 unclaimed item siblings owner frames placed claimed ih =>
    rw [walk, dif_neg claimed]
    exact ih

variable (standing index start) in
/-- What holds of a walk on its way: no key is free twice, the walk still ends in the dependency
order, and whatever is left to visit was given or is known. -/
structure OnCourse (now : Walk ι) : Prop where
  nodup : now.unclaimed.Nodup
  walk_eq : standing.walk index now = standing.dependencyOrder index start
  known : ∀ frame ∈ now.stack, ∀ item ∈ frame.siblings,
    item ∈ start ∨ standing.Indexed index item

lemma OnCourse.pass {now next : Walk ι} (hcourse : standing.OnCourse index start now)
    (hpass : standing.pass? index now = some next) : standing.OnCourse index start next := by
  have hwalk := (walk_eq_of_pass? hpass).trans hcourse.walk_eq
  have hknown := hcourse.known
  rcases pass?_eq_some hpass with ⟨owner, frames, hstack, rfl⟩ |
    ⟨item, siblings, owner, frames, hstack, _, rfl⟩ |
    ⟨item, siblings, owner, frames, hstack, _, rfl⟩
  · rw [hstack, List.forall_mem_cons] at hknown
    exact ⟨hcourse.nodup, hwalk, hknown.2⟩
  · rw [hstack, List.forall_mem_cons, List.forall_mem_cons] at hknown
    obtain ⟨⟨_, hsiblings⟩, hframes⟩ := hknown
    exact ⟨hcourse.nodup, hwalk, List.forall_mem_cons.mpr ⟨hsiblings, hframes⟩⟩
  · rw [hstack, List.forall_mem_cons, List.forall_mem_cons] at hknown
    obtain ⟨⟨_, hsiblings⟩, hframes⟩ := hknown
    refine ⟨hcourse.nodup.erase _, hwalk, List.forall_mem_cons.mpr ⟨?_, ?_⟩⟩
    · intro dependency hpending
      exact Or.inr (indexed_of_mem_pending dependency hpending)
    · exact List.forall_mem_cons.mpr ⟨hsiblings, hframes⟩

/-- A walk stays on its course. -/
lemma ComesThrough.onCourse {now : Walk ι} (hnow : standing.ComesThrough index start now) :
    standing.OnCourse index start now := by
  induction hnow with
  | refl =>
    refine ⟨nodup_distinct _, rfl, ?_⟩
    intro frame hframe item hitem
    obtain rfl := List.mem_singleton.mp hframe
    exact Or.inl hitem
  | tail _ hpass ih => exact ih.pass hpass

/-- Where an item is entered, the order goes on with what is visited below it and then with the item
itself. -/
lemma OnCourse.exists_visit_of_enters {now : Walk ι} {item : ι}
    (hcourse : standing.OnCourse index start now) (henters : standing.Enters now item) :
    ∃ between below after,
      Visit standing index (now.unclaimed.erase (standing.key item))
        (standing.pending index now.unclaimed item) between below ∧
      standing.dependencyOrder index start = now.placed ++ below ++ item :: after := by
  obtain ⟨unclaimed, stack, placed⟩ := now
  obtain ⟨siblings, owner, frames, hstack, free⟩ := henters
  change stack = _ at hstack
  subst hstack
  obtain ⟨between, below, inner⟩ := exists_visit standing index
    (unclaimed.erase (standing.key item)) (standing.pending index unclaimed item)
  -- the walk goes through all that is pending on the item before it takes off the item's frame
  have hwalk := hcourse.walk_eq
  rw [walk, dif_pos free, walk_of_visit inner] at hwalk
  obtain ⟨after, hafter⟩ := prefix_walk standing index
    ⟨between, ⟨siblings, owner⟩ :: frames, placed ++ below ++ (some item).toList⟩
  refine ⟨between, below, after, inner, ?_⟩
  rw [← hwalk, ← hafter]
  simp

/-! ## The first member of a component -/

variable (standing index start) in
/-- The walk comes to enter an item. -/
def Reaches (item : ι) : Prop :=
  ∃ now, standing.ComesThrough index start now ∧ standing.Enters now item

variable (standing index start) in
/-- The walk comes to enter an item while nothing of its component is claimed: of all members, the
visit of this one starts first. -/
def Opens (first : ι) : Prop :=
  ∃ now, standing.ComesThrough index start now ∧ standing.Enters now first ∧
    ∀ b, standing.Together index first b → standing.key b ∈ now.unclaimed

/-- The component of the item that opens it is placed in full, and that item last. -/
lemma Opens.placed {first : ι} (hopens : standing.Opens index start first) {b : ι}
    (htogether : standing.Together index first b) :
    b ∈ standing.dependencyOrder index start ∧
      (b ≠ first → Precedes (standing.dependencyOrder index start) b first) := by
  obtain ⟨now, hnow, henters, hfree⟩ := hopens
  have hcourse := hnow.onCourse
  obtain ⟨between, below, after, inner, horder⟩ := hcourse.exists_visit_of_enters henters
  have hnodup : (standing.dependencyOrder index start).Nodup :=
    List.Nodup.of_map standing.key (nodup_dependencyOrder index start)
  -- the component is free where the item is entered, so all others of it are placed below it
  by_cases hne : b = first
  · subst hne
    refine ⟨?_, fun hother => absurd rfl hother⟩
    rw [horder]
    exact List.mem_append_right _ List.mem_cons_self
  · have hbelow := inner.mem_below_of_together hcourse.nodup hfree htogether hne
    have hbefore : b ∈ now.placed ++ below := List.mem_append_right _ hbelow
    refine ⟨?_, fun _ => precedes_of_nodup hnodup horder hbefore⟩
    rw [horder]
    exact List.mem_append_left _ hbefore

/-- On its way the walk leaves a component free until some member opens it, unless an item of the
start stands in for a member. -/
lemma ComesThrough.free_or_opens {now : Walk ι} (hnow : standing.ComesThrough index start now)
    {a : ι} (ha : standing.Indexed index a)
    (hstart : ∀ item ∈ start, ∀ b, standing.Together index a b →
      standing.key item = standing.key b → item = b) :
    (∀ b, standing.Together index a b → standing.key b ∈ now.unclaimed) ∨
      ∃ first, standing.Together index a first ∧ standing.Opens index start first := by
  induction hnow with
  | refl =>
    -- before the first pass every known key is free
    refine Or.inl fun b htogether => ?_
    exact key_mem_unclaimed start (ha.of_leadsTo htogether.1)
  | @tail now next hnow hpass ih =>
    rcases ih with hfree | hopens
    swap
    · exact Or.inr hopens
    -- of the three kinds of pass only the one that enters an item claims a key
    rcases pass?_eq_some hpass with ⟨_, _, _, rfl⟩ | ⟨_, _, _, _, _, _, rfl⟩ |
      ⟨item, siblings, owner, frames, hstack, free, rfl⟩
    · exact Or.inl hfree
    · exact Or.inl hfree
    · by_cases hmember : ∃ b, standing.Together index a b ∧ standing.key item = standing.key b
      · -- the item that claims the key of a member is that member
        obtain ⟨b, htogether, hkey⟩ := hmember
        have hknown := (ComesThrough.onCourse hnow).known
        rw [hstack, List.forall_mem_cons, List.forall_mem_cons] at hknown
        obtain rfl : item = b := by
          rcases hknown.1.1 with hgiven | hitem
          · exact hstart item hgiven b htogether hkey
          · exact hitem.eq_of_key (ha.of_leadsTo htogether.1) hkey
        refine Or.inr ⟨item, htogether, now, hnow, ⟨siblings, owner, frames, hstack, free⟩, ?_⟩
        intro c hc
        exact hfree c (htogether.trans hc)
      · refine Or.inl fun b htogether => ?_
        have hkey : standing.key b ≠ standing.key item :=
          fun hsame => hmember ⟨b, htogether, hsame.symm⟩
        exact (List.mem_erase_of_ne hkey).mpr (hfree b htogether)

/-- A component that the walk reaches is opened by one of its members. -/
lemma Reaches.exists_opens {a : ι} (hreaches : standing.Reaches index start a)
    (hstart : ∀ item ∈ start, ∀ b, standing.Together index a b →
      standing.key item = standing.key b → item = b) :
    ∃ first, standing.Together index a first ∧ standing.Opens index start first := by
  obtain ⟨now, hnow, henters⟩ := hreaches
  by_cases ha : standing.Indexed index a
  · rcases hnow.free_or_opens ha hstart with hfree | hopens
    · exact ⟨a, Together.refl a, now, hnow, henters, hfree⟩
    · exact hopens
  · -- nothing depends on an item that the index does not know, so it is alone in its component
    refine ⟨a, Together.refl a, now, hnow, henters, fun b htogether => ?_⟩
    obtain rfl : b = a := by
      by_contra hne
      exact ha (htogether.indexed_of_ne hne).1
    obtain ⟨_, _, _, _, free⟩ := henters
    exact free

/-- Of a component all members are placed, and the member whose visit starts first, before any of
them is claimed, is placed last. A component that the walk reaches has such a member: only an item
of the list that has the key of a member and is not that member could claim it before. -/
theorem dependencyOrder_cuts_components (standing : Standing ι) (index start : List ι) :
    (∀ first, standing.Opens index start first → ∀ b, standing.Together index first b →
      b ∈ standing.dependencyOrder index start ∧
        (b ≠ first → Precedes (standing.dependencyOrder index start) b first)) ∧
    ∀ a, standing.Reaches index start a →
      (∀ item ∈ start, ∀ b, standing.Together index a b →
        standing.key item = standing.key b → item = b) →
      ∃ first, standing.Together index a first ∧ standing.Opens index start first := by
  constructor
  · intro first hopens b htogether
    exact hopens.placed htogether
  · intro a hreaches hstart
    exact hreaches.exists_opens hstart

/-- The other file on the cycle of the sample. -/
def sampleImported : Candidate Float := Candidate.fresh "b.py" 2 [] ["a.py"]

/-- The walk over the sample reaches the importer first, so the cycle is cut there. -/
theorem dependencyOrder_cuts_components_sample :
    Candidate.standing.Opens sampleIndex sampleIndex sampleImporter ∧
    Candidate.standing.Together sampleIndex sampleImporter sampleImported ∧
    Precedes (Candidate.standing.dependencyOrder sampleIndex sampleIndex) sampleImported
      sampleImporter ∧
    Candidate.standing.Reaches sampleIndex sampleIndex sampleImporter ∧
    (∀ item ∈ sampleIndex, ∀ b, Candidate.standing.Together sampleIndex sampleImporter b →
      Candidate.standing.key item = Candidate.standing.key b → item = b) ∧
    ∃ first, Candidate.standing.Together sampleIndex sampleImporter first ∧
      Candidate.standing.Opens sampleIndex sampleIndex first := by
  have himporter : Candidate.standing.Indexed sampleIndex sampleImporter :=
    indexed_sampleIndex sampleImporter List.mem_cons_self
  have henters : Candidate.standing.Enters
      (Candidate.standing.beginning sampleIndex sampleIndex) sampleImporter :=
    ⟨_, none, [], rfl, key_mem_unclaimed sampleIndex himporter⟩
  have hreaches : Candidate.standing.Reaches sampleIndex sampleIndex sampleImporter :=
    ⟨_, ReflTransGen.refl, henters⟩
  have hopens : Candidate.standing.Opens sampleIndex sampleIndex sampleImporter :=
    ⟨_, ReflTransGen.refl, henters, fun b htogether =>
      key_mem_unclaimed sampleIndex (himporter.of_leadsTo htogether.1)⟩
  have htogether : Candidate.standing.Together sampleIndex sampleImporter sampleImported := by
    constructor <;> refine ReflTransGen.single ?_ <;>
    simp [sampleIndex, sampleImporter, sampleImported, sampleLeaf, DependsOn, find?,
      Candidate.standing, Candidate.fresh]
  have hne : sampleImported ≠ sampleImporter := by
    simp [sampleImported, sampleImporter, Candidate.fresh]
  have hstart : ∀ item ∈ sampleIndex, ∀ b,
      Candidate.standing.Together sampleIndex sampleImporter b →
        Candidate.standing.key item = Candidate.standing.key b → item = b :=
    fun item hitem b hb hkey =>
      (indexed_sampleIndex item hitem).eq_of_key (himporter.of_leadsTo hb.1) hkey
  obtain ⟨hlast, hexists⟩ :=
    dependencyOrder_cuts_components Candidate.standing sampleIndex sampleIndex
  exact ⟨hopens, htogether, (hlast _ hopens _ htogether).2 hne, hreaches, hstart,
    hexists _ hreaches hstart⟩

end ImportRank.Standing
