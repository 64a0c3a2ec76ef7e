import ImportRank.Proofs.Rank.Dependents
import Mathlib.Algebra.BigOperators.Group.List.Basic

/-!
# Imports and dependents

What counting dependents adds, said over all imports of all candidates at once. The last candidate
of a key gains one for each import of the key that stands under another key; nothing else changes.
So all dependents together grow by the number of imports that name a key among the candidates other
than their own, and it is the same to count the imports in another order.

Main statement: `countDependents_counts`.
-/

namespace ImportRank.Candidate

variable {α : Type} {candidates others : List (Candidate α)} {key : String} {place : ℕ}

/-- The imports of all candidates: each a key that it stands under and a key that it names. -/
def imports (candidates : List (Candidate α)) : List (String × String) :=
  candidates.flatMap fun source => source.edges.map fun target => (source.key, target)

/-- The number of imports that name a key and stand under another. -/
def importsOf (candidates : List (Candidate α)) (key : String) : ℕ :=
  (imports candidates).countP fun (source, target) => target = key ∧ source ≠ key

/-- The number of imports that name the key of a candidate and stand under another key. -/
def importsBetween (candidates : List (Candidate α)) : ℕ :=
  (imports candidates).countP fun (source, target) =>
    target ∈ candidates.map Candidate.key ∧ target ≠ source

/-- Two candidates that differ in the order of their imports at most. -/
structure SameImports (candidate other : Candidate α) : Prop where
  edges_perm : candidate.edges.Perm other.edges
  fields_eq : other = { candidate with edges := other.edges }

/-! ## Each candidate -/

lemma imports_cons (source : Candidate α) (candidates : List (Candidate α)) :
    imports (source :: candidates) =
      source.edges.map (fun target => (source.key, target)) ++ imports candidates :=
  List.flatMap_cons

lemma namings_edges_eq (candidates : List (Candidate α)) (key : String) :
    namings Candidate.edges candidates key = importsOf candidates key := by
  induction candidates with
  | nil => rfl
  | cons source candidates ih =>
    rw [importsOf, imports_cons, List.countP_append, List.countP_map]
    rw [namings, List.map_cons, List.sum_cons]
    congr 1
    by_cases hown : source.key = key
    · simp [hown, Function.comp_def]
    · simp [hown, Function.comp_def, List.count_eq_countP, beq_eq_decide]

/-- The position of a key is the last place where a candidate has it. -/
lemma position?_eq_some_iff :
    position? candidates key = some place ↔
      (candidates.map Candidate.key)[place]? = some key ∧
        key ∉ (candidates.drop (place + 1)).map Candidate.key := by
  induction candidates generalizing place with
  | nil => simp [position?]
  | cons candidate rest ih =>
    rw [position?]
    cases hrest : position? rest key with
    | none =>
      have hnone := position?_eq_none_iff.mp hrest
      cases place with
      | zero => simp [hnone]
      | succ place =>
        have hother : (rest.map Candidate.key)[place]? ≠ some key := fun hplace =>
          hnone (List.mem_of_getElem? hplace)
        simp only [List.map_cons, List.getElem?_cons_succ, hother, false_and, iff_false]
        split <;> simp
    | some below =>
      cases place with
      | zero =>
        have hlater := List.mem_of_getElem? (getElem?_of_position? hrest)
        simp [hlater]
      | succ place => simpa [hrest] using @ih place

theorem countDependents_eq_mapIdx (candidates : List (Candidate α)) :
    countDependents candidates = candidates.mapIdx fun place candidate =>
      { candidate with dependents := candidate.dependents +
          if candidate.key ∈ (candidates.drop (place + 1)).map Candidate.key then 0
          else importsOf candidates candidate.key } := by
  rw [countDependents_eq]
  refine List.ext_getElem? fun place => ?_
  rw [getElem?_withGains, List.getElem?_mapIdx]
  cases hplace : candidates[place]? with
  | none => rfl
  | some candidate =>
    have hkey : (candidates.map Candidate.key)[place]? = some candidate.key := by
      rw [List.getElem?_map, hplace, Option.map_some]
    rw [Option.map_some, Option.map_some, namings_edges_eq]
    by_cases hlater : candidate.key ∈ (candidates.drop (place + 1)).map Candidate.key
    · rw [if_neg fun hstands => (position?_eq_some_iff.mp hstands).2 hlater, if_pos hlater]
      simp
    · rw [if_pos (position?_eq_some_iff.mpr ⟨hkey, hlater⟩), if_neg hlater]

/-! ## All dependents together -/

lemma sum_dependents_modify (hplace : place < candidates.length) :
    ((candidates.modify place fun c => { c with dependents := c.dependents + 1 }).map
      Candidate.dependents).sum = (candidates.map Candidate.dependents).sum + 1 := by
  induction candidates generalizing place with
  | nil => simp at hplace
  | cons candidate rest ih =>
    cases place with
    | zero =>
      rw [List.modify_zero_cons, List.map_cons, List.map_cons, List.sum_cons, List.sum_cons,
        add_right_comm]
    | succ place =>
      rw [List.modify_succ_cons, List.map_cons, List.map_cons, List.sum_cons, List.sum_cons,
        ih (by simpa using hplace), add_assoc]

/-- One import adds one dependent, where there is a candidate of the key that it names. -/
lemma sum_dependents_credit (candidates : List (Candidate α)) (key : String) :
    ((credit candidates key).map Candidate.dependents).sum =
      (candidates.map Candidate.dependents).sum +
        if key ∈ candidates.map Candidate.key then 1 else 0 := by
  rw [credit]
  cases hstands : position? candidates key with
  | none => rw [if_neg (position?_eq_none_iff.mp hstands), add_zero]
  | some place =>
    rw [if_pos (List.mem_of_getElem? (getElem?_of_position? hstands))]
    exact sum_dependents_modify (position?_lt hstands)

lemma sum_dependents_foldl_credit (keys : List String) (candidates : List (Candidate α)) :
    ((keys.foldl credit candidates).map Candidate.dependents).sum =
      (candidates.map Candidate.dependents).sum +
        keys.countP (· ∈ candidates.map Candidate.key) := by
  induction keys generalizing candidates with
  | nil => simp
  | cons key keys ih =>
    have hkeys : (credit candidates key).map Candidate.key = candidates.map Candidate.key :=
      map_credit (fun _ _ => rfl) candidates key
    rw [List.foldl_cons, ih, sum_dependents_credit, hkeys, List.countP_cons]
    push_cast
    simp only [decide_eq_true_eq]
    ring

theorem sum_dependents_countDependents (candidates : List (Candidate α)) :
    ((countDependents candidates).map Candidate.dependents).sum =
      (candidates.map Candidate.dependents).sum + importsBetween candidates := by
  have hfold : ∀ sources counted : List (Candidate α),
      counted.map Candidate.key = candidates.map Candidate.key →
      ((sources.foldl (fun counted source =>
        (source.edges.filter (· ≠ source.key)).foldl credit counted) counted).map
          Candidate.dependents).sum =
        (counted.map Candidate.dependents).sum + (imports sources).countP fun (source, target) =>
          target ∈ candidates.map Candidate.key ∧ target ≠ source := by
    intro sources
    induction sources with
    | nil => intro counted _; simp [imports]
    | cons source sources ih =>
      intro counted hkeys
      rw [List.foldl_cons, ih _ ((map_foldl_credit (fun _ _ => rfl) _ counted).trans hkeys),
        sum_dependents_foldl_credit, hkeys, imports_cons, List.countP_append, List.countP_map,
        List.countP_filter, Nat.cast_add, add_assoc]
      congr 3
      refine List.countP_congr fun target _ => ?_
      simp
  exact hfold candidates candidates rfl

/-! ## The order of imports -/

lemma imports_perm (hsame : List.Forall₂ SameImports candidates others) :
    (imports candidates).Perm (imports others) := by
  induction hsame with
  | nil => exact List.Perm.refl _
  | cons hfirst _ ih =>
    rw [imports_cons, imports_cons, hfirst.fields_eq]
    exact (hfirst.edges_perm.map _).append ih

lemma map_key_eq_of_sameImports (hsame : List.Forall₂ SameImports candidates others) :
    candidates.map Candidate.key = others.map Candidate.key := by
  induction hsame with
  | nil => rfl
  | cons hfirst _ ih => rw [List.map_cons, List.map_cons, ih, hfirst.fields_eq]

theorem sameImports_countDependents (hsame : List.Forall₂ SameImports candidates others) :
    List.Forall₂ SameImports (countDependents candidates) (countDependents others) := by
  have hkeys := map_key_eq_of_sameImports hsame
  obtain ⟨hlength, hfields⟩ := List.forall₂_iff_get.mp hsame
  rw [countDependents_eq_mapIdx, countDependents_eq_mapIdx]
  refine List.forall₂_iff_get.mpr ⟨by simpa using hlength, fun place hplace hplace' => ?_⟩
  have hcandidate := hfields place (by simpa using hplace) (by simpa using hplace')
  have hnamed : ∀ key, importsOf candidates key = importsOf others key := fun key =>
    (imports_perm hsame).countP_eq _
  have hlater : (candidates.drop (place + 1)).map Candidate.key =
      (others.drop (place + 1)).map Candidate.key := by
    rw [List.map_drop, List.map_drop, hkeys]
  simp only [List.get_eq_getElem, List.getElem_mapIdx] at hcandidate ⊢
  rw [hlater, hnamed, hcandidate.fields_eq]
  exact ⟨hcandidate.edges_perm, rfl⟩

/-! ## Counting -/

/-- Counting dependents adds to the last candidate of each key the number of imports that name the
key and stand under another, and changes nothing else. So it adds to all dependents together the
number of imports that name a key of a candidate other than their own, and in whatever order the
candidates list their imports, the same comes of it. -/
theorem countDependents_counts (candidates : List (Candidate α)) :
    (countDependents candidates = candidates.mapIdx fun place candidate =>
      { candidate with dependents := candidate.dependents +
          if candidate.key ∈ (candidates.drop (place + 1)).map Candidate.key then 0
          else importsOf candidates candidate.key }) ∧
    ((countDependents candidates).map Candidate.dependents).sum =
      (candidates.map Candidate.dependents).sum + importsBetween candidates ∧
    ∀ others, List.Forall₂ SameImports candidates others →
      List.Forall₂ SameImports (countDependents candidates) (countDependents others) :=
  ⟨countDependents_eq_mapIdx candidates, sum_dependents_countDependents candidates,
    fun _ hsame => sameImports_countDependents hsame⟩

/-- Two candidates of one key, the first of which imports itself and a file that is unknown, and
another one between them that had dependents before. -/
def twins : List (Candidate ℕ) :=
  [{ key := "a.py", edges := ["b.py", "a.py", "c.py", "b.py"], lines := 1, dependencies := [],
     dependents := 0, links := [], outbound := 0, weight := 0 },
    { key := "b.py", edges := ["a.py"], lines := 1, dependencies := [], dependents := 5,
      links := [], outbound := 0, weight := 0 },
    { key := "a.py", edges := ["b.py"], lines := 1, dependencies := [], dependents := 0,
      links := [], outbound := 0, weight := 0 }]

/-- The import of the first goes to the second of the two, and four dependents come in all; no
fewer when each lists its imports backwards. -/
theorem countDependents_counts_twins :
    (countDependents twins).map Candidate.dependents = [0, 8, 1] ∧
      ((countDependents twins).map Candidate.dependents).sum = 5 + 4 ∧
      List.Forall₂ SameImports (countDependents twins) (countDependents
        (twins.map fun candidate => { candidate with edges := candidate.edges.reverse })) := by
  obtain ⟨heach, htotal, horder⟩ := countDependents_counts twins
  refine ⟨?_, htotal, horder _ ?_⟩
  · rw [heach]
    decide
  · exact List.forall₂_map_right_iff.mpr
      (List.forall₂_same.mpr fun candidate _ => ⟨(List.reverse_perm _).symm, rfl⟩)

end ImportRank.Candidate
