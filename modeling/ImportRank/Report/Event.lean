import ImportRank.Error

/-!
# Events

What a run tells of its progress. Events are warnings or details; each names the part of the
program it comes from. A run keeps its events also when it ends in an error.
-/

namespace ImportRank

/-- Something a run tells of. -/
inductive Event where
  | syntaxErrors (key : String)
  | unresolved (key specifier : String)
  | discovered (count : Nat) (roots : List String)
  | kept (count total : Nat)
  | built (count : Nat)
  | converged (iterations : Nat) (change : Float)
deriving Repr

namespace Event

/-- Whether an event is told without being asked for. -/
def isWarning : Event → Bool
  | .syntaxErrors _ => true
  | _ => false

/-- The part of the program an event comes from. -/
def origin : Event → String
  | .syntaxErrors _ => "deprank.parsing"
  | .unresolved _ _ => "deprank.provider"
  | .discovered _ _ => "deprank.provider"
  | .kept _ _ => "deprank.runner"
  | .built _ => "deprank.builder"
  | .converged _ _ => "deprank.graph"

/-- What an event says. -/
def text : Event → String
  | .syntaxErrors key => "Syntax errors in " ++ key ++ "; imports may be incomplete"
  | .unresolved key specifier => key ++ ": unresolved import " ++ Text.quoted specifier
  | .discovered count roots =>
    "Discovered " ++ toString count ++ " modules under " ++ ", ".intercalate roots
  | .kept count total => "Kept " ++ toString count ++ " of " ++ toString total ++ " modules"
  | .built count => "Built " ++ toString count ++ " candidates"
  | .converged iterations change =>
    "PageRank converged after " ++ toString iterations ++ " iterations (delta="
      ++ Decimal.significant 3 change ++ ")"

/-- The line an event is told in. -/
def line (event : Event) : String :=
  (if event.isWarning then "WARNING " else "DEBUG ") ++ event.origin ++ ": " ++ event.text

end Event

/-- A computation of a run: it tells events and ends in a value or an error. -/
abbrev Run := ExceptT Error (StateM (List Event))

namespace Run

/-- Tells of an event. -/
def tell (event : Event) : Run Unit := fun events => (.ok (), events ++ [event])

/-- The outcome of a run and its events in order. -/
def result {β : Type} (run : Run β) : Except Error β × List Event := run []

end Run

end ImportRank
