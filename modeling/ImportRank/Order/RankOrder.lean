import ImportRank.Rank.Candidate

/-!
# The order by rank

Things that stand for candidates are sorted so that whoever outranks another comes first, and
those that tie keep the order they came in.
-/

namespace ImportRank

/-- What an order reads of the things it arranges: a key, the keys each depends on, and which of
two comes strictly first by rank. -/
structure Standing (ι : Type) where
  key : ι → String
  dependencies : ι → List String
  outranks : ι → ι → Bool

/-- Candidates by their own fields. -/
def Candidate.standing {α : Type} [Arithmetic α] : Standing (Candidate α) :=
  { key := Candidate.key, dependencies := Candidate.dependencies, outranks := Candidate.outranks }

/-- The standing of things through the candidate each stands for. -/
def Standing.comap {ι κ : Type} (standing : Standing κ) (view : ι → κ) : Standing ι :=
  { key := standing.key ∘ view
    dependencies := standing.dependencies ∘ view
    outranks := fun a b => standing.outranks (view a) (view b) }

namespace Standing

variable {ι : Type} (standing : Standing ι)

/-- Sorts by rank; ties keep their order. -/
def sort (items : List ι) : List ι :=
  items.mergeSort fun a b => !standing.outranks b a

/-- The last item of a key. -/
def find? (index : List ι) (key : String) : Option ι :=
  index.reverse.find? (standing.key · = key)

variable {standing}

/-- Sorting keeps every item and its number of occurrences. -/
theorem sort_perm (items : List ι) : (standing.sort items).Perm items :=
  List.mergeSort_perm items _

theorem key_of_find? {index : List ι} {key : String} {item : ι}
    (hfind : standing.find? index key = some item) : standing.key item = key := by
  simpa using List.find?_some hfind

theorem mem_of_find? {index : List ι} {key : String} {item : ι}
    (hfind : standing.find? index key = some item) : item ∈ index :=
  List.mem_reverse.mp (List.mem_of_find?_eq_some hfind)

end Standing

end ImportRank
