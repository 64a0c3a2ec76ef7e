import ImportRank.Proofs.Order.Precedence

/-!
# Lists that are in order already

A visit places a list as it is exactly when each item comes after all others that it depends on:
the first item for which that fails has something placed before it that did not stand there. Where
nothing leads back to what depends on it, every dependency order is such a list, whatever the ranks
have become since, so ordering it once more changes nothing. Main statement:
`dependencyOrder_in_place`.
-/

namespace ImportRank.Standing

open Relation (TransGen)

variable {ι κ : Type} {standing : Standing ι} {index : List ι}

/-! ## Items in turn -/

/-- What holds of every item of a list and those before it holds of the first item, with none before
it, and of those of the rest, with the first one before them. -/
lemma forall_split_cons {P : List ι → ι → Prop} {item : ι} {rest : List ι} :
    (∀ before a after, item :: rest = before ++ a :: after → P before a) ↔
      P [] item ∧ ∀ before a after, rest = before ++ a :: after → P (item :: before) a := by
  constructor
  · intro hall
    refine ⟨hall [] item rest rfl, fun before a after hrest => hall (item :: before) a after ?_⟩
    rw [hrest, List.cons_append]
  · rintro ⟨hfirst, hrest⟩ before a after hsplit
    cases before with
    | nil =>
      obtain ⟨rfl, rfl⟩ := List.cons.inj hsplit
      exact hfirst
    | cons b before =>
      obtain ⟨rfl, htail⟩ := List.cons.inj hsplit
      exact hrest before a after htail

variable (standing index) in
/-- Each item comes in turn: the others that it depends on are claimed or stand before it. -/
def InTurn (unclaimed : List String) (items : List ι) : Prop :=
  ∀ before a after, items = before ++ a :: after →
    ∀ b, b ≠ a → standing.DependsOn index a b → standing.key b ∉ unclaimed ∨ b ∈ before

lemma inTurn_cons {unclaimed : List String} {item : ι} {rest : List ι} (hnodup : unclaimed.Nodup)
    (hitem : standing.Indexed index item) :
    standing.InTurn index unclaimed (item :: rest) ↔
      (∀ b, b ≠ item → standing.DependsOn index item b → standing.key b ∉ unclaimed) ∧
        standing.InTurn index (unclaimed.erase (standing.key item)) rest := by
  -- to be claimed or the item is to be claimed once the item is
  have hclaim : ∀ b, standing.Indexed index b → ∀ before,
      (standing.key b ∉ unclaimed ∨ b ∈ item :: before ↔
        standing.key b ∉ unclaimed.erase (standing.key item) ∨ b ∈ before) := by
    intro b hb before
    have hkey : standing.key b = standing.key item ↔ b = item :=
      ⟨hb.eq_of_key hitem, fun heq => heq ▸ rfl⟩
    rw [hnodup.mem_erase_iff, List.mem_cons, ← hkey]
    tauto
  unfold InTurn
  rw [forall_split_cons]
  refine and_congr ?_ ?_
  · simp only [List.not_mem_nil, or_false]
  · refine forall_congr' fun before => forall_congr' fun a => forall_congr' fun after =>
      forall_congr' fun _ => forall_congr' fun b => forall_congr' fun _ => ?_
    exact ⟨fun h hab => (hclaim b hab.indexed before).mp (h hab),
      fun h hab => (hclaim b hab.indexed before).mpr (h hab)⟩

/-! ## Visits that change nothing -/

namespace Visit

variable {unclaimed left : List String} {items order : List ι}

/-- Items whose keys are claimed are passed over. -/
lemma eq_of_claimed (hvisit : Visit standing index unclaimed items left order)
    (hclaimed : ∀ item ∈ items, standing.key item ∉ unclaimed) :
    order = [] ∧ left = unclaimed := by
  induction hvisit with
  | done => exact ⟨rfl, rfl⟩
  | skip _ _ ih => exact ih (List.forall_mem_cons.mp hclaimed).2
  | enter free _ _ _ _ => exact absurd free (List.forall_mem_cons.mp hclaimed).1

/-- Nothing is placed below an item exactly when all others that it depends on are claimed; then
nothing is claimed below it either. -/
lemma below_eq_nil_iff {between : List String} {below : List ι} {item : ι}
    (inner : Visit standing index (unclaimed.erase (standing.key item))
      (standing.pending index unclaimed item) between below) (hnodup : unclaimed.Nodup)
    (hitem : standing.Indexed index item) :
    below = [] ↔ ∀ b, b ≠ item → standing.DependsOn index item b → standing.key b ∉ unclaimed := by
  constructor
  · rintro rfl b hne hab
    have hbetween := inner.dependency_notMem_between hnodup hab
    have hkey : standing.key b ≠ standing.key item := fun hsame =>
      hne (hab.indexed.eq_of_key hitem hsame)
    intro free
    rcases inner.claimed_or_placed indexed_of_mem_pending hab.indexed hbetween with
      hclaimed | hplaced
    · exact hclaimed ((List.mem_erase_of_ne hkey).mpr free)
    · cases hplaced
  · intro hclaimed
    refine (inner.eq_of_claimed fun b hpending free => ?_).1
    -- only the item itself can be pending, and its key is claimed by now
    obtain ⟨hab, hfree⟩ := mem_pending_iff.mp hpending
    obtain rfl : b = item := by
      by_contra hne
      exact hclaimed b hne hab hfree
    exact hnodup.not_mem_erase free

/-- Free items are placed as they come exactly when they come in turn. -/
theorem order_eq_self_iff (hvisit : Visit standing index unclaimed items left order)
    (hnodup : unclaimed.Nodup) (hitems : ∀ item ∈ items, standing.Indexed index item)
    (hkeys : (items.map standing.key).Nodup) (hfree : items.map standing.key ⊆ unclaimed) :
    order = items ↔ standing.InTurn index unclaimed items := by
  induction hvisit with
  | done =>
    refine iff_of_true rfl ?_
    intro before a after hsplit
    simp at hsplit
  | skip claimed _ _ => exact absurd (hfree List.mem_cons_self) claimed
  | @enter unclaimed between left item rest below order free inner others _ ih =>
    obtain ⟨hitem, hrest⟩ := List.forall_mem_cons.mp hitems
    obtain ⟨hout, hkeys⟩ := List.nodup_cons.mp hkeys
    have herased : (unclaimed.erase (standing.key item)).Nodup := hnodup.erase _
    have hbelow := inner.below_eq_nil_iff hnodup hitem
    -- the item itself is not placed below it, so it comes first only where nothing is
    have hout' : item ∉ below := fun hmem =>
      hnodup.not_mem_erase (inner.perm.mem_iff.mpr
        (List.mem_append_left _ (List.mem_map_of_mem hmem)))
    have hsplit : below ++ item :: order = item :: rest ↔ below = [] ∧ order = rest := by
      cases below with
      | nil => simp
      | cons first below =>
        refine iff_of_false (fun heq => ?_) (by simp)
        obtain ⟨rfl, _⟩ := List.cons.inj heq
        exact hout' List.mem_cons_self
    rw [hsplit, inTurn_cons hnodup hitem, hbelow]
    refine and_congr_right fun hclaimed => ?_
    obtain rfl := hbelow.mpr hclaimed
    have hsame : between.Perm (unclaimed.erase (standing.key item)) := inner.perm.symm
    have hbetween : rest.map standing.key ⊆ between := by
      intro key hkey
      refine hsame.mem_iff.mpr (hnodup.mem_erase_iff.mpr ⟨?_, hfree (List.mem_cons_of_mem _ hkey)⟩)
      rintro rfl
      exact hout hkey
    rw [ih (inner.nodup_left herased) hrest hkeys hbetween]
    unfold InTurn
    simp only [hsame.mem_iff]

end Visit

/-! ## The dependency order -/

/-- From known items with distinct keys, the order is the list itself exactly when every other item
that one of them depends on is one of them and stands before it. -/
lemma dependencyOrder_eq_self_iff {items : List ι}
    (hitems : ∀ item ∈ items, standing.Indexed index item)
    (hkeys : (items.map standing.key).Nodup) :
    standing.dependencyOrder index items = items ↔
      ∀ a ∈ items, ∀ b, b ≠ a → standing.DependsOn index a b →
        b ∈ items ∧ Precedes items b a := by
  obtain ⟨left, hvisit⟩ := visit_dependencyOrder standing index items
  have hfree : items.map standing.key ⊆
      distinct (items.map standing.key ++ index.map standing.key) := by
    intro key hkey
    rw [mem_distinct]
    exact List.mem_append_left _ hkey
  rw [hvisit.order_eq_self_iff (nodup_distinct _) hitems hkeys hfree]
  constructor
  · intro hturn a ha b hne hab
    have hbefore : Precedes items b a := fun before after hsplit =>
      (hturn before a after hsplit b hne hab).resolve_left
        fun hclaimed => hclaimed (key_mem_unclaimed items hab.indexed)
    obtain ⟨before, after, hsplit⟩ := List.append_of_mem ha
    refine ⟨?_, hbefore⟩
    rw [hsplit]
    exact List.mem_append_left _ (hbefore before after hsplit)
  · intro hprecedes before a after hsplit b hne hab
    have ha : a ∈ items := hsplit ▸ List.mem_append_right _ List.mem_cons_self
    exact Or.inr ((hprecedes a ha b hne hab).2 before after hsplit)

section View

variable {other : Standing κ} {view : ι → κ}
  (hkey : ∀ a, other.key (view a) = standing.key a)
  (hdependencies : ∀ a, other.dependencies (view a) = standing.dependencies a)

include hkey

lemma Indexed.map {a : ι} (ha : standing.Indexed index a) :
    other.Indexed (index.map view) (view a) := by
  rw [Indexed, hkey, find?_map hkey, ha, Option.map_some]

/-- In a list of items with distinct keys a view changes nothing about what comes before what. -/
lemma Precedes.map {items : List ι} {a b : ι} (hkeys : (items.map standing.key).Nodup)
    (ha : a ∈ items) (hba : Precedes items b a) : Precedes (items.map view) (view b) (view a) := by
  obtain ⟨before, after, rfl⟩ := List.append_of_mem ha
  have hnodup : ((before ++ a :: after).map view).Nodup := by
    refine List.Nodup.of_map other.key ?_
    rwa [map_key_map hkey]
  have hsplit : (before ++ a :: after).map view = before.map view ++ view a :: after.map view := by
    rw [List.map_append, List.map_cons]
  exact precedes_of_nodup hnodup hsplit (List.mem_map_of_mem (hba before after rfl))

include hdependencies

lemma exists_dependsOn_of_map {a : ι} {c : κ}
    (hac : other.DependsOn (index.map view) (view a) c) :
    ∃ b, standing.DependsOn index a b ∧ view b = c := by
  obtain ⟨key, hmem, hfind⟩ := hac
  rw [find?_map hkey] at hfind
  obtain ⟨b, hknown, rfl⟩ := Option.map_eq_some_iff.mp hfind
  exact ⟨b, ⟨key, hdependencies a ▸ hmem, hknown⟩, rfl⟩

/-- Where nothing leads back to what depends on it, an order stays as it is when it is ordered once
more, under any view that keeps keys and dependencies. -/
lemma dependencyOrder_map_dependencyOrder {start : List ι}
    (hstart : ∀ item ∈ start, standing.Indexed index item)
    (hacyclic : ∀ a b, b ≠ a → standing.DependsOn index a b →
      ¬ TransGen (standing.DependsOn index) b a) :
    other.dependencyOrder (index.map view) ((standing.dependencyOrder index start).map view) =
      (standing.dependencyOrder index start).map view := by
  have hkeys : ((standing.dependencyOrder index start).map standing.key).Nodup :=
    nodup_dependencyOrder index start
  have hitems : ∀ item ∈ (standing.dependencyOrder index start).map view,
      other.Indexed (index.map view) item := by
    intro item hitem
    obtain ⟨a, ha, rfl⟩ := List.mem_map.mp hitem
    exact (indexed_of_mem_dependencyOrder hstart a ha).map hkey
  rw [dependencyOrder_eq_self_iff hitems (by rwa [map_key_map hkey])]
  intro item hitem c hne hac
  obtain ⟨a, ha, rfl⟩ := List.mem_map.mp hitem
  obtain ⟨b, hab, rfl⟩ := exists_dependsOn_of_map hkey hdependencies hac
  have hne : b ≠ a := fun heq => hne (heq ▸ rfl)
  have hbefore := (precedes_or_cycle hstart hne hab).resolve_right (hacyclic a b hne hab)
  exact ⟨List.mem_map_of_mem (mem_dependencyOrder_of_dependsOn hstart ha hab),
    hbefore.map hkey hkeys ha⟩

end View

/-- A list of known items with distinct keys is its own dependency order exactly when every other
item that one of its items depends on is in it and stands before that item. So where no item leads
back to another that depends on it, a dependency order is not changed by being ordered once more,
whatever the ranks are by then: `view` may change anything about an item but its key and its
dependencies, and `other` may rank as it likes. -/
theorem dependencyOrder_in_place (standing : Standing ι) (index : List ι) :
    (∀ items, (∀ item ∈ items, standing.Indexed index item) → (items.map standing.key).Nodup →
      (standing.dependencyOrder index items = items ↔
        ∀ a ∈ items, ∀ b, b ≠ a → standing.DependsOn index a b →
          b ∈ items ∧ Precedes items b a)) ∧
    ((∀ a b, b ≠ a → standing.DependsOn index a b → ¬ TransGen (standing.DependsOn index) b a) →
      ∀ start, (∀ item ∈ start, standing.Indexed index item) →
      ∀ (κ : Type) (other : Standing κ) (view : ι → κ),
        (∀ a, other.key (view a) = standing.key a) →
        (∀ a, other.dependencies (view a) = standing.dependencies a) →
        other.dependencyOrder (index.map view) ((standing.dependencyOrder index start).map view) =
          (standing.dependencyOrder index start).map view) := by
  constructor
  · intro items hitems hkeys
    exact dependencyOrder_eq_self_iff hitems hkeys
  · intro hacyclic start hstart κ other view hkey hdependencies
    exact dependencyOrder_map_dependencyOrder hkey hdependencies hstart hacyclic

/-- A file that imports itself, the leaf of the sample and something that is not known. -/
def sampleUser : Candidate Float := Candidate.fresh "b.py" 2 [] ["b.py", "c.py", "gone.py"]

/-- The leaf and then the file that imports it are in order, and the order from that file alone is
kept when each file is given its number of lines for a weight. -/
theorem dependencyOrder_in_place_sample :
    let index := [sampleUser, sampleLeaf]
    let reweigh := fun candidate : Candidate Float =>
      { candidate with weight := Arithmetic.ofInt candidate.lines }
    let order := Candidate.standing.dependencyOrder index [sampleUser]
    (∀ item ∈ [sampleLeaf, sampleUser], Candidate.standing.Indexed index item) ∧
    ([sampleLeaf, sampleUser].map Candidate.standing.key).Nodup ∧
    Candidate.standing.dependencyOrder index [sampleLeaf, sampleUser] = [sampleLeaf, sampleUser] ∧
    (∀ a b, b ≠ a → Candidate.standing.DependsOn index a b →
      ¬ TransGen (Candidate.standing.DependsOn index) b a) ∧
    Candidate.standing.dependencyOrder (index.map reweigh) (order.map reweigh) =
      order.map reweigh := by
  intro index reweigh order
  have hitems : ∀ item ∈ [sampleLeaf, sampleUser], Candidate.standing.Indexed index item := by
    simp [index, sampleUser, sampleLeaf, Indexed, find?, Candidate.standing, Candidate.fresh]
  have hkeys : ([sampleLeaf, sampleUser].map Candidate.standing.key).Nodup := by
    simp [sampleUser, sampleLeaf, Candidate.standing, Candidate.fresh]
  have hleaf : ∀ b, ¬ Candidate.standing.DependsOn index sampleLeaf b := by
    simp [index, sampleUser, sampleLeaf, DependsOn, find?, Candidate.standing, Candidate.fresh]
  have huser : ∀ b, b ≠ sampleUser → Candidate.standing.DependsOn index sampleUser b →
      b = sampleLeaf := by
    intro b hne hab
    have hb : sampleUser = b ∨ sampleLeaf = b := by
      simpa [index, sampleUser, sampleLeaf, DependsOn, find?, Candidate.standing, Candidate.fresh]
        using hab
    exact (hb.resolve_left fun heq => hne heq.symm).symm
  have hacyclic : ∀ a b, b ≠ a → Candidate.standing.DependsOn index a b →
      ¬ TransGen (Candidate.standing.DependsOn index) b a := by
    intro a b hne hab hback
    obtain ⟨c, _, hlast⟩ := TransGen.tail'_iff.mp hback
    obtain ⟨d, hfirst, _⟩ := TransGen.head'_iff.mp hback
    -- nothing leads on from the leaf, so `a` is the other file, which depends on the leaf alone
    have ha : a = sampleUser ∨ a = sampleLeaf := by simpa [index] using mem_of_find? hlast.indexed
    rcases ha with rfl | rfl
    · exact hleaf d (huser b hne hab ▸ hfirst)
    · exact hleaf b hab
  obtain ⟨hfixed, hagain⟩ := dependencyOrder_in_place Candidate.standing index
  refine ⟨hitems, hkeys, (hfixed _ hitems hkeys).mpr ?_, hacyclic, ?_⟩
  · intro a ha b hne hab
    have ha : a = sampleLeaf ∨ a = sampleUser := by simpa using ha
    rcases ha with rfl | rfl
    · exact absurd hab (hleaf b)
    · obtain rfl := huser b hne hab
      have hsplit : [sampleLeaf, sampleUser] = [sampleLeaf] ++ sampleUser :: [] := rfl
      exact ⟨List.mem_cons_self,
        precedes_of_nodup (List.Nodup.of_map _ hkeys) hsplit List.mem_cons_self⟩
  · exact hagain hacyclic [sampleUser] (fun item hitem => hitems item (by simp_all)) _
      Candidate.standing reweigh (fun _ => rfl) fun _ => rfl

end ImportRank.Standing
