import ImportRank.Rank.Candidate

/-!
# The dependency graph

Every dependency is one edge, as heavy as its source has lines, so importing a file twice gives
two parallel edges. A dependency on something that is no candidate still gets a node. The order
of nodes and edges is the order in which they first appear; `link` reads the edges of a candidate
in that order and turns them into shares of its outbound weight.
-/

namespace ImportRank

/-- The members of a list without repetitions, each where it first appears. -/
def distinct {β : Type} [DecidableEq β] : List β → List β
  | [] => []
  | x :: rest => x :: (distinct rest).filter (· ≠ x)

@[simp] theorem mem_distinct {β : Type} [DecidableEq β] {x : β} {items : List β} :
    x ∈ distinct items ↔ x ∈ items := by
  induction items with
  | nil => rfl
  | cons y rest ih =>
    by_cases hxy : x = y
    · simp [distinct, hxy]
    · simp [distinct, hxy, ih]

theorem nodup_distinct {β : Type} [DecidableEq β] (items : List β) : (distinct items).Nodup := by
  induction items with
  | nil => exact List.nodup_nil
  | cons y rest ih =>
    refine List.nodup_cons.mpr ⟨?_, ih.filter _⟩
    simp

theorem distinct_filter {β : Type} [DecidableEq β] (test : β → Bool) (items : List β) :
    distinct (items.filter test) = (distinct items).filter test := by
  induction items with
  | nil => rfl
  | cons item items ih =>
    by_cases htest : test item
    · rw [List.filter_cons_of_pos htest, distinct, distinct, List.filter_cons_of_pos htest, ih,
        List.filter_filter, List.filter_filter]
      exact congrArg (item :: ·) (List.filter_congr fun other _ => Bool.and_comm _ _)
    · rw [List.filter_cons_of_neg htest, distinct, List.filter_cons_of_neg htest, ih,
        List.filter_filter]
      refine (List.filter_congr fun other _ => ?_).symm
      by_cases hsame : other = item
      · simp [hsame, htest]
      · simp [hsame]

/-- An edge of the dependency graph. -/
structure Edge where
  source : String
  target : String
  lines : Int
deriving Repr, DecidableEq

/-- A node: a candidate's key, or a target that is no candidate. -/
structure Node where
  key : String
  isCandidate : Bool
deriving Repr, DecidableEq

/-- Nodes and edges in order of appearance. -/
structure Graph where
  nodes : List Node
  edges : List Edge
deriving Repr

namespace Graph

variable {α : Type}

/-- The edges that leave a candidate. -/
def edgesOf (candidate : Candidate α) : List Edge :=
  candidate.dependencies.map fun target =>
    { source := candidate.key, target, lines := candidate.lines }

/-- Brings edges to the same target together, at the place of the first of them. -/
def byTarget (edges : List Edge) : List Edge :=
  (distinct (edges.map Edge.target)).flatMap fun target => edges.filter (·.target = target)

/-- The edges that leave a key. -/
def edgesFrom (candidates : List (Candidate α)) (key : String) : List Edge :=
  byTarget ((candidates.filter (·.key = key)).flatMap edgesOf)

/-- The graph over candidates. -/
def ofCandidates (candidates : List (Candidate α)) : Graph :=
  let keys := distinct (candidates.map Candidate.key)
  let unknown := (distinct (candidates.flatMap Candidate.dependencies)).filter (!keys.contains ·)
  { nodes := keys.map (⟨·, true⟩) ++ unknown.map (⟨·, false⟩)
    edges := keys.flatMap (edgesFrom candidates) }

end Graph

namespace Candidate

variable {α : Type} [Arithmetic α]

/-- Puts more lines on the link to a target; a new target comes last. -/
def addLink (target : String) (lines : Int) :
    List (String × Amount α) → List (String × Amount α)
  | [] => [(target, .lines lines)]
  | (other, amount) :: rest =>
    if other = target then (other, amount.addLines lines) :: rest
    else (other, amount) :: addLink target lines rest

/-- Takes in one outgoing edge. -/
def addEdge (candidate : Candidate α) (edge : Edge) : Candidate α :=
  { candidate with
    outbound := Arithmetic.add candidate.outbound (Arithmetic.ofInt edge.lines)
    links := addLink edge.target edge.lines candidate.links }

/-- Scales the links to shares of the outbound weight. A candidate without outbound weight keeps
its links as they are. -/
def scaleLinks (candidate : Candidate α) : Candidate α :=
  if Arithmetic.less (Arithmetic.ofInt 0) candidate.outbound then
    { candidate with
      links := candidate.links.map fun (target, amount) =>
        (target, .share (Arithmetic.div amount.value candidate.outbound)) }
  else candidate

/-- Links every candidate to the targets of its edges, on top of the links it already has. Where a
key repeats, the candidate that stands for it takes the edges of all of them. -/
def link (candidates : List (Candidate α)) : List (Candidate α) :=
  candidates.mapIdx fun place candidate =>
    if position? candidates candidate.key = some place then
      ((Graph.edgesFrom candidates candidate.key).foldl addEdge candidate).scaleLinks
    else candidate

end Candidate

end ImportRank
