import ImportRank.Error
import ImportRank.Ignore.Pattern

/-!
# Ignore rules

What reads the lines of an ignore file is not part of a run: a run is given some `Reader`. The
reader that stands here takes a list of patterns in order, of which the last one that speaks of a
path decides: the file is ignored, or a negated pattern keeps it.
-/

namespace ImportRank.Ignore

/-- Why lines give no rules. -/
inductive Failure where
  /-- A line means nothing. -/
  | pattern (line : String)
  /-- A line has a character range that runs backwards. -/
  | range
deriving Repr, DecidableEq

/-- The error that a failure is reported as. -/
def Failure.error : Failure → Error
  | .pattern line => .ignorePattern line
  | .range => .ignoreRange

/-- Rules that have been read: whether there are none at all, and which paths they ignore. -/
structure Rules where
  isEmpty : Bool
  ignores : String → Bool

namespace Rules

/-- No rules. -/
def none : Rules := { isEmpty := true, ignores := fun _ => false }

/-- Whether rules drop a file of some path. Where there are none they are not asked. -/
def drops (rules : Rules) (path : String) : Bool := !rules.isEmpty && rules.ignores path

end Rules

/-- Reads the lines of an ignore file. -/
abbrev Reader := List String → Except Failure Rules

/-! ## Patterns in order -/

/-- The failure over a flaw in a line. -/
def Flaw.failure (line : String) : Flaw → Failure
  | .backwardsRange => .range
  | .empty => .pattern line
  | .danglingEscape => .pattern line

/-- Reads one line. -/
def readLine (line : String) : Except Failure (Option Pattern) :=
  (readPattern line.toList).mapError (Flaw.failure line)

/-- Reads the patterns of some lines; the first flawed line is the failure. -/
def readLines (lines : List String) : Except Failure (List Pattern) := do
  return (← lines.mapM readLine).filterMap id

/-- Whether patterns ignore a path. -/
def patternsIgnore (patterns : List Pattern) (path : String) : Bool :=
  match patterns.reverse.find? (·.applies path.toList) with
  | some pattern => !pattern.negated
  | none => false

/-- The rules of some patterns. -/
def Rules.ofPatterns (patterns : List Pattern) : Rules :=
  { isEmpty := patterns.isEmpty, ignores := patternsIgnore patterns }

/-- Reads lines as patterns in order. -/
def readRules : Reader := fun lines => do return .ofPatterns (← readLines lines)

end ImportRank.Ignore
