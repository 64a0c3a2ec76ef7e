import ImportRank.Rank.Arithmetic

/-!
# Candidates

A candidate is one file as the ranking sees it: its size, the files it depends on, how many
imports elsewhere name it, and what the solver has written on it so far. Keys usually differ;
where one repeats, the last candidate of a key stands for it.
-/

namespace ImportRank

/-- A resolved import: the file it leads to and the text it was written with. -/
structure Dependency where
  target : String
  specifier : String
deriving Repr, DecidableEq

/-- A source file with its resolved imports in source order. -/
structure Module where
  key : String
  dependencies : List Dependency
deriving Repr, DecidableEq

/-- A link's weight: a sum of line counts, which is exact, until it is scaled to a share. -/
inductive Amount (α : Type) where
  | lines (count : Int)
  | share (value : α)
deriving Repr

namespace Amount

variable {α : Type} [Arithmetic α]

/-- The weight as a number of the solver. -/
def value : Amount α → α
  | .lines count => Arithmetic.ofInt count
  | .share value => value

/-- The weight with more lines on it. -/
def addLines (more : Int) : Amount α → Amount α
  | .lines count => .lines (count + more)
  | .share value => .share (Arithmetic.add value (Arithmetic.ofInt more))

end Amount

/-- A node of the ranking. `edges` are the targets of all imports of the file, `dependencies` the
ones that count; `links`, `outbound` and `weight` are the solver's. -/
structure Candidate (α : Type) where
  key : String
  edges : List String
  lines : Int
  dependencies : List String
  dependents : Int
  links : List (String × Amount α)
  outbound : α
  weight : α
deriving Repr

namespace Candidate

variable {α : Type}

/-- A candidate that no solver has touched. -/
def fresh [Arithmetic α] (key : String) (lines : Int) (edges dependencies : List String) :
    Candidate α :=
  { key, edges, lines, dependencies, dependents := 0, links := [],
    outbound := Arithmetic.ofInt 0, weight := Arithmetic.ofInt 0 }

/-- The last position of a key among candidates. -/
def position? (candidates : List (Candidate α)) (key : String) : Option Nat :=
  match candidates with
  | [] => none
  | candidate :: rest =>
    match position? rest key with
    | some position => some (position + 1)
    | none => if candidate.key = key then some 0 else none

/-- Counts one import of a key: the candidate that stands for the key gains a dependent. -/
def credit (candidates : List (Candidate α)) (key : String) : List (Candidate α) :=
  match position? candidates key with
  | some position => candidates.modify position fun c => { c with dependents := c.dependents + 1 }
  | none => candidates

/-- Adds to each candidate's dependents the imports of it in other files. Every import counts,
also one that ranking leaves out; a file's imports of itself do not. -/
def countDependents (candidates : List (Candidate α)) : List (Candidate α) :=
  candidates.foldl
    (fun counted candidate =>
      (candidate.edges.filter (· ≠ candidate.key)).foldl credit counted)
    candidates

/-- Whether a candidate comes strictly before another by rank: the heavier first, and of two
equally heavy ones the one with more dependents. -/
def outranks [Arithmetic α] (a b : Candidate α) : Bool :=
  if Arithmetic.same a.weight b.weight then b.dependents < a.dependents
  else Arithmetic.less b.weight a.weight

end Candidate

end ImportRank
