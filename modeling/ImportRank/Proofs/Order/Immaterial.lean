import ImportRank.Proofs.Order.Doubles
import ImportRank.Proofs.Order.Pending
import Mathlib.Logic.Relation

/-!
# Dependencies that make no difference

Keys that are not known and repetitions of a key leave the order as it is. A candidate's own key is
sorted with the rest of what is pending, and leaving it out leaves the others in their order only
where ranks are in a linear order, that is where no weight is "not a number"; so it is with another
order of the keys. Main statement: `dependencyOrder_ignores`.
-/

namespace ImportRank.Candidate

open Relation (EqvGen)

/-! ## Candidates with other dependencies -/

/-- The candidate with the dependencies that a revision gives it. -/
def revised (revise : Candidate Float → List String) (candidate : Candidate Float) :
    Candidate Float :=
  { candidate with dependencies := revise candidate }

/-- Changes to the dependencies of a candidate that make no difference: one more key that is not
known; one more that stands before that place already; the candidate's own key, where its weight and
those of the candidates it depends on are numbers; and another order of the keys, where the weights
are numbers and no two of the candidates it depends on have both the same weight and the same number
of dependents. -/
inductive Immaterial (index : List (Candidate Float)) (candidate : Candidate Float) :
    List String → List String → Prop
  | unknown {key : String} (hunknown : standing.find? index key = none)
      (before after : List String) :
      Immaterial index candidate (before ++ after) (before ++ key :: after)
  | again {key : String} {before : List String} (hagain : key ∈ before) (after : List String) :
      Immaterial index candidate (before ++ after) (before ++ key :: after)
  | own {before after : List String}
      (hnumbers : ∀ c ∈ candidate :: standing.known index (before ++ after),
        c.weight.isNaN = false) :
      Immaterial index candidate (before ++ after) (before ++ candidate.key :: after)
  | reordered {keys others : List String}
      (hnumbers : ∀ c ∈ standing.known index keys, c.weight.isNaN = false)
      (hapart : ∀ a ∈ standing.known index keys, ∀ b ∈ standing.known index keys, a ≠ b →
        ¬ ((a.weight == b.weight) = true ∧ a.dependents = b.dependents))
      (hperm : keys.Perm others) : Immaterial index candidate keys others

variable {index start : List (Candidate Float)} {candidate : Candidate Float}

lemma Immaterial.pendingApart_eq {keys others : List String}
    (hchange : Immaterial index candidate keys others)
    (hcandidate : standing.Indexed index candidate) (unclaimed : List String) :
    standing.pendingApart index candidate.key unclaimed keys =
      standing.pendingApart index candidate.key unclaimed others := by
  cases hchange with
  | unknown hunknown before after =>
    rw [Standing.pendingApart, Standing.pendingApart, Standing.known_unknown hunknown]
  | again hagain after =>
    rw [Standing.pendingApart, Standing.pendingApart, Standing.known_again hagain]
  | @own before after hnumbers =>
    refine (Standing.pendingApart_own (graded_double fun c hc => hnumbers c ?_) unclaimed).symm
    obtain ⟨key, hkey, hfind⟩ := Standing.mem_known.mp hc
    by_cases hown : key = candidate.key
    · -- under the candidate's own key the index knows the candidate
      have hfind : standing.find? index candidate.key = some c := hown ▸ hfind
      obtain rfl : candidate = c := Option.some.inj (hcandidate.symm.trans hfind)
      exact List.mem_cons_self
    · refine List.mem_cons_of_mem _ (Standing.mem_known.mpr ⟨key, ?_, hfind⟩)
      simpa [hown] using hkey
  | reordered hnumbers hapart hperm =>
    refine Standing.pendingApart_reordered (graded_double hnumbers) ?_ hperm _ unclaimed
    intro a ha b hb hgrade
    by_contra hne
    exact hapart a ha b hb hne ((doubleGrade_eq_iff hnumbers ha hb).mp hgrade)

lemma pendingApart_eq_of_eqvGen {keys others : List String}
    (hchanges : EqvGen (Immaterial index candidate) keys others)
    (hcandidate : standing.Indexed index candidate) (unclaimed : List String) :
    standing.pendingApart index candidate.key unclaimed keys =
      standing.pendingApart index candidate.key unclaimed others := by
  induction hchanges with
  | rel _ _ hchange => exact hchange.pendingApart_eq hcandidate unclaimed
  | refl _ => rfl
  | symm _ _ _ ih => exact ih.symm
  | trans _ _ _ _ _ ih ih' => exact ih.trans ih'

/-- Changes that make no difference, made to the dependencies of any known candidates, forwards or
backwards and any number of times, leave the order from known candidates as it is. -/
theorem dependencyOrder_ignores (revise : Candidate Float → List String)
    (hstart : ∀ item ∈ start, standing.Indexed index item)
    (hrevise : ∀ item, standing.Indexed index item →
      EqvGen (Immaterial index item) item.dependencies (revise item)) :
    standing.dependencyOrder (index.map (revised revise)) (start.map (revised revise)) =
      (standing.dependencyOrder index start).map (revised revise) := by
  have hkey : ∀ a, standing.key (revised revise a) = standing.key a := fun _ => rfl
  refine Standing.dependencyOrder_map hkey (fun _ _ => rfl) hstart ?_
  intro item hitem unclaimed
  exact pendingApart_eq_of_eqvGen (hrevise item hitem) hitem unclaimed

/-- A candidate of some weight. -/
def weighing (key : String) (weight : Float) (dependencies : List String) : Candidate Float :=
  { fresh key 1 [] dependencies with weight }

/-- A file with some dependencies, and two of different weights that it may depend on. -/
def weighedIndex (dependencies : List String) : List (Candidate Float) :=
  [weighing "a.py" 1 dependencies, weighing "b.py" 2 [], weighing "c.py" 3 []]

/-- In the dependencies of one file a key that is not known goes, the other two change places, the
first of them is repeated and the file's own key comes in. -/
theorem dependencyOrder_ignores_sample :
    let index := weighedIndex ["b.py", "gone.py", "c.py"]
    let revise := fun candidate : Candidate Float =>
      if candidate.key = "a.py" then ["c.py", "a.py", "b.py", "c.py"] else candidate.dependencies
    (∀ item ∈ index, standing.Indexed index item) ∧
    (∀ item, standing.Indexed index item →
      EqvGen (Immaterial index item) item.dependencies (revise item)) ∧
    standing.dependencyOrder (index.map (revised revise)) (index.map (revised revise)) =
      (standing.dependencyOrder index index).map (revised revise) := by
  intro index revise
  have hindex : ∀ item ∈ index, standing.Indexed index item := by
    simp [index, weighedIndex, weighing, Standing.Indexed, Standing.find?, standing, fresh]
  have hrevise : ∀ item, standing.Indexed index item →
      EqvGen (Immaterial index item) item.dependencies (revise item) := by
    intro item hitem
    have hmem : item ∈ index := Standing.mem_of_find? hitem
    simp only [index, weighedIndex, List.mem_cons, List.not_mem_nil, or_false] at hmem
    rcases hmem with rfl | rfl | rfl
    · -- one change after the other, from the first list of keys to the last
      have hgone : Immaterial index (weighing "a.py" 1 ["b.py", "gone.py", "c.py"])
          ["b.py", "c.py"] ["b.py", "gone.py", "c.py"] := .unknown rfl ["b.py"] ["c.py"]
      have hswap : Immaterial index (weighing "a.py" 1 ["b.py", "gone.py", "c.py"])
          ["b.py", "c.py"] ["c.py", "b.py"] := by
        have hknown : standing.known index ["b.py", "c.py"] =
            [weighing "b.py" 2 [], weighing "c.py" 3 []] := rfl
        have hweights : ((2 : Float) == 3) = false ∧ ((3 : Float) == 2) = false := by decide
        refine .reordered ?_ ?_ (List.Perm.swap _ _ _)
        · rw [hknown]
          decide
        · simp [hknown, weighing, hweights]
      have hagain : Immaterial index (weighing "a.py" 1 ["b.py", "gone.py", "c.py"])
          (["c.py", "b.py"] ++ []) (["c.py", "b.py"] ++ "c.py" :: []) :=
        .again List.mem_cons_self []
      have hown : Immaterial index (weighing "a.py" 1 ["b.py", "gone.py", "c.py"])
          (["c.py"] ++ ["b.py", "c.py"]) (["c.py"] ++ "a.py" :: ["b.py", "c.py"]) := by
        have hknown : standing.known index ["c.py", "b.py", "c.py"] =
            [weighing "c.py" 3 [], weighing "b.py" 2 []] := rfl
        refine .own ?_
        rw [List.singleton_append, hknown]
        decide
      exact .trans _ _ _ (.symm _ _ (.rel _ _ hgone)) (.trans _ _ _ (.rel _ _ hswap)
        (.trans _ _ _ (.rel _ _ hagain) (.rel _ _ hown)))
    · exact .refl _
    · exact .refl _
  exact ⟨hindex, hrevise, dependencyOrder_ignores revise hindex hrevise⟩

/-! ## A weight that is not a number -/

/-- A file that has no number for a weight. -/
def unrated (dependencies : List String) : Candidate Float := weighing "a.py" (0 / 0) dependencies

def light : Candidate Float := weighing "l.py" 2 []

def medium : Candidate Float := weighing "m.py" 3 []

def heavy : Candidate Float := weighing "h.py" 5 []

/-- That file with some dependencies, and three files that have none. -/
def unratedIndex (dependencies : List String) : List (Candidate Float) :=
  [unrated dependencies, light, medium, heavy]

/-- Sorting leaves the three in their order where the file without a weight parts them. -/
lemma sort_unrated (dependencies : List String) :
    standing.sort [medium, light, heavy] = [heavy, medium, light] ∧
    standing.sort [medium, light, unrated dependencies, heavy] =
      [medium, light, unrated dependencies, heavy] ∧
    standing.sort [unrated dependencies, medium, light, heavy] =
      [unrated dependencies, heavy, medium, light] := by
  -- what is no number is neither the same as a weight nor more nor less than it
  have hapart : ∀ weight ∈ [(2 : Float), 3, 5],
      (Arithmetic.same (0 / 0) weight || Arithmetic.less weight (0 / 0) ||
        Arithmetic.same weight (0 / 0) || Arithmetic.less (0 / 0) weight) = false := by
    decide
  simp only [List.forall_mem_cons, Bool.or_eq_false_iff] at hapart
  have hunrated : ∀ candidate ∈ [light, medium, heavy],
      standing.outranks (unrated dependencies) candidate = false ∧
        standing.outranks candidate (unrated dependencies) = false := by
    simp [standing, outranks, unrated, light, medium, heavy, weighing, fresh, hapart]
  simp only [List.forall_mem_cons] at hunrated
  have hlm : standing.outranks light medium = false := by decide
  have hhm : standing.outranks heavy medium = true := by decide
  have hhl : standing.outranks heavy light = true := by decide
  simp [Standing.sort, List.mergeSort, hlm, hhm, hhl, hunrated]

/-- From the file alone, the three are placed as they are sorted and the file after them. -/
lemma dependencyOrder_unrated :
    standing.dependencyOrder (unratedIndex ["m.py", "l.py", "h.py"])
        [unrated ["m.py", "l.py", "h.py"]] =
      [heavy, medium, light, unrated ["m.py", "l.py", "h.py"]] ∧
    standing.dependencyOrder (unratedIndex ["m.py", "l.py", "a.py", "h.py"])
        [unrated ["m.py", "l.py", "a.py", "h.py"]] =
      [medium, light, heavy, unrated ["m.py", "l.py", "a.py", "h.py"]] ∧
    standing.dependencyOrder (unratedIndex ["a.py", "m.py", "l.py", "h.py"])
        [unrated ["a.py", "m.py", "l.py", "h.py"]] =
      [heavy, medium, light, unrated ["a.py", "m.py", "l.py", "h.py"]] := by
  have hunrated : ∀ dependencies, standing.key (unrated dependencies) = "a.py" := fun _ => rfl
  have hlight : standing.key light = "l.py" := rfl
  have hmedium : standing.key medium = "m.py" := rfl
  have hheavy : standing.key heavy = "h.py" := rfl
  have hleaf : ∀ dependencies unclaimed, ∀ leaf ∈ [light, medium, heavy],
      standing.pending (unratedIndex dependencies) unclaimed leaf = [] := by
    simp [Standing.pending, Standing.sort, standing, light, medium, heavy, weighing, fresh,
      distinct]
  simp only [List.forall_mem_cons] at hleaf
  -- the walk enters the file and has what is pending on it before it
  have hwalk : ∀ dependencies pending,
      standing.pending (unratedIndex dependencies) ["a.py", "l.py", "m.py", "h.py"]
          (unrated dependencies) = pending →
        standing.dependencyOrder (unratedIndex dependencies) [unrated dependencies] =
          standing.walk (unratedIndex dependencies)
            { unclaimed := ["l.py", "m.py", "h.py"]
              stack := [⟨pending, some (unrated dependencies)⟩, ⟨[], none⟩]
              placed := [] } := by
    intro dependencies pending hpending
    have hkeys : distinct ([unrated dependencies].map standing.key ++
        (unratedIndex dependencies).map standing.key) = ["a.py", "l.py", "m.py", "h.py"] := rfl
    rw [Standing.dependencyOrder, hkeys, Standing.walk]
    simp [hunrated, hpending]
  refine ⟨?_, ?_, ?_⟩
  · have hpending : standing.pending (unratedIndex ["m.py", "l.py", "h.py"])
        ["a.py", "l.py", "m.py", "h.py"] (unrated ["m.py", "l.py", "h.py"]) =
        [heavy, medium, light] := (sort_unrated []).1
    rw [hwalk _ _ hpending]
    simp [Standing.walk, hleaf, hlight, hmedium, hheavy]
  · have hpending : standing.pending (unratedIndex ["m.py", "l.py", "a.py", "h.py"])
        ["a.py", "l.py", "m.py", "h.py"] (unrated ["m.py", "l.py", "a.py", "h.py"]) =
        [medium, light, unrated ["m.py", "l.py", "a.py", "h.py"], heavy] := (sort_unrated _).2.1
    rw [hwalk _ _ hpending]
    simp [Standing.walk, hleaf, hunrated, hlight, hmedium, hheavy]
  · have hpending : standing.pending (unratedIndex ["a.py", "m.py", "l.py", "h.py"])
        ["a.py", "l.py", "m.py", "h.py"] (unrated ["a.py", "m.py", "l.py", "h.py"]) =
        [unrated ["a.py", "m.py", "l.py", "h.py"], heavy, medium, light] := (sort_unrated _).2.2
    rw [hwalk _ _ hpending]
    simp [Standing.walk, hleaf, hunrated, hlight, hmedium, hheavy]

/-- The dependencies of the file rearranged, with its own key between the others. -/
def rearranged (candidate : Candidate Float) : List String :=
  if candidate.key = "a.py" then ["m.py", "l.py", "a.py", "h.py"] else candidate.dependencies

lemma indexed_unrated (dependencies : List String) :
    ∀ item ∈ [unrated dependencies], standing.Indexed (unratedIndex dependencies) item := by
  simp [unratedIndex, unrated, light, medium, heavy, weighing, Standing.Indexed, Standing.find?,
    standing, fresh]

/-- Both without the file's own key and with it in front, rearranging the dependencies changes the
order. -/
lemma dependencyOrder_rearranged_ne :
    ∀ dependencies ∈ [["m.py", "l.py", "h.py"], ["a.py", "m.py", "l.py", "h.py"]],
      standing.dependencyOrder ((unratedIndex dependencies).map (revised rearranged))
          ([unrated dependencies].map (revised rearranged)) ≠
        (standing.dependencyOrder (unratedIndex dependencies) [unrated dependencies]).map
          (revised rearranged) := by
  have hstart : ∀ dependencies, [unrated dependencies].map (revised rearranged) =
      [unrated ["m.py", "l.py", "a.py", "h.py"]] := fun _ => rfl
  have hindex : ∀ dependencies, (unratedIndex dependencies).map (revised rearranged) =
      unratedIndex ["m.py", "l.py", "a.py", "h.py"] := fun _ => rfl
  obtain ⟨hplain, hown, hinFront⟩ := dependencyOrder_unrated
  simp only [List.forall_mem_cons, List.not_mem_nil, false_implies, implies_true, and_true, hstart,
    hindex, hown, hplain, hinFront]
  refine ⟨fun heq => ?_, fun heq => ?_⟩ <;>
    · have hkeys := congrArg (List.map Candidate.key) heq
      simp [revised, unrated, light, medium, heavy, weighing, fresh] at hkeys

/-- Where weights may be no numbers, neither the own key of a file nor the order of its keys can be
left out of account. -/
theorem not_dependencyOrder_ignores :
    (¬ ∀ (index start : List (Candidate Float)) (revise : Candidate Float → List String),
      (∀ item ∈ start, standing.Indexed index item) →
      (∀ item, standing.Indexed index item → revise item = item.dependencies ∨
        ∃ before after, item.dependencies = before ++ after ∧
          revise item = before ++ item.key :: after) →
      standing.dependencyOrder (index.map (revised revise)) (start.map (revised revise)) =
        (standing.dependencyOrder index start).map (revised revise)) ∧
    (¬ ∀ (index start : List (Candidate Float)) (revise : Candidate Float → List String),
      (∀ item ∈ start, standing.Indexed index item) →
      (∀ item, standing.Indexed index item → item.dependencies.Perm (revise item) ∧
        (standing.known index item.dependencies).Pairwise fun a b =>
          ¬ ((a.weight == b.weight) = true ∧ a.dependents = b.dependents)) →
      standing.dependencyOrder (index.map (revised revise)) (start.map (revised revise)) =
        (standing.dependencyOrder index start).map (revised revise)) := by
  constructor
  · intro hignores
    refine dependencyOrder_rearranged_ne _ List.mem_cons_self
      (hignores _ _ rearranged (indexed_unrated _) fun item hitem => ?_)
    have hmem := Standing.mem_of_find? hitem
    simp only [unratedIndex, List.mem_cons, List.not_mem_nil, or_false] at hmem
    rcases hmem with rfl | rfl | rfl | rfl
    · exact .inr ⟨["m.py", "l.py"], ["h.py"], rfl, rfl⟩
    all_goals exact .inl rfl
  · intro hignores
    refine dependencyOrder_rearranged_ne _ (List.mem_cons_of_mem _ List.mem_cons_self)
      (hignores _ _ rearranged (indexed_unrated _) fun item hitem => ?_)
    have hmem := Standing.mem_of_find? hitem
    simp only [unratedIndex, List.mem_cons, List.not_mem_nil, or_false] at hmem
    rcases hmem with rfl | rfl | rfl | rfl
    · have hknown : standing.known (unratedIndex ["a.py", "m.py", "l.py", "h.py"])
          ["a.py", "m.py", "l.py", "h.py"] =
          [unrated ["a.py", "m.py", "l.py", "h.py"], medium, light, heavy] := rfl
      have hapart : [(0 : Float) / 0, 3, 2, 5].Pairwise fun a b => (a == b) = false := by decide
      refine ⟨?_, ?_⟩
      · show ["a.py", "m.py", "l.py", "h.py"].Perm ["m.py", "l.py", "a.py", "h.py"]
        decide
      · show (standing.known _ ["a.py", "m.py", "l.py", "h.py"]).Pairwise _
        rw [hknown]
        simpa [unrated, light, medium, heavy, weighing, fresh] using hapart
    all_goals exact ⟨.refl _, List.Pairwise.nil⟩

end ImportRank.Candidate
