import ImportRank.Order.RankOrder
import ImportRank.Rank.Graph

/-!
# The dependency order

Items are walked depth first in the order given, and each is placed once everything it depends on
has been placed, as far as cycles allow: a cycle is cut at the member that is reached first.

The walk keeps an explicit stack, so its depth is bounded by memory alone. What is left to do is
measured by the keys that no visit has claimed yet, and, while those stay, by the siblings and
frames still on the stack.
-/

namespace ImportRank.Standing

variable {ι : Type} (standing : Standing ι)

/-- The dependencies of an item that the index knows and no visit has claimed, by rank. -/
def pending (index : List ι) (unclaimed : List String) (item : ι) : List ι :=
  standing.sort
    ((distinct ((standing.dependencies item).filter (unclaimed.contains ·))).filterMap
      (standing.find? index))

/-- A frame of the walk: the siblings still to visit and the item to place after them. -/
structure Frame (ι : Type) where
  siblings : List ι
  owner : Option ι

/-- Where the walk stands. `placed` is the order so far. -/
structure Walk (ι : Type) where
  unclaimed : List String
  stack : List (Frame ι)
  placed : List ι

/-- The work on a stack: a unit for each frame and each sibling in it. -/
def stackWork : List (Frame ι) → Nat
  | [] => 0
  | frame :: frames => frame.siblings.length + 1 + stackWork frames

/-- Walks until the stack is empty. -/
def walk (index : List ι) (state : Walk ι) : List ι :=
  match state with
  | ⟨_, [], placed⟩ => placed
  | ⟨unclaimed, ⟨[], owner⟩ :: frames, placed⟩ =>
    walk index { unclaimed, stack := frames, placed := placed ++ owner.toList }
  | ⟨unclaimed, ⟨item :: siblings, owner⟩ :: frames, placed⟩ =>
    if _free : standing.key item ∈ unclaimed then
      walk index
        { unclaimed := unclaimed.erase (standing.key item)
          stack := ⟨standing.pending index unclaimed item, some item⟩ :: ⟨siblings, owner⟩ :: frames
          placed }
    else walk index { unclaimed, stack := ⟨siblings, owner⟩ :: frames, placed }
termination_by (state.unclaimed.length, stackWork state.stack)
decreasing_by
  · apply Prod.Lex.right; simp only [stackWork]; omega
  · apply Prod.Lex.left
    have := List.length_pos_of_mem _free
    simp only [List.length_erase_of_mem _free]; omega
  · apply Prod.Lex.right; simp only [stackWork, List.length_cons]; omega

/-- The items in dependency order, starting from a list of them. -/
def dependencyOrder (index start : List ι) : List ι :=
  standing.walk index
    { unclaimed := distinct (start.map standing.key ++ index.map standing.key)
      stack := [⟨start, none⟩]
      placed := [] }

end ImportRank.Standing
