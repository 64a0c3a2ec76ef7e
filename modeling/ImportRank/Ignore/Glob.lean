/-!
# Globs

A glob stands for the text of one path segment. It is a sequence of pieces: a character, any one
character, any run of characters, or a choice in brackets. Matching works on what is left of a
path: a piece takes each possible beginning of it away.
-/

namespace ImportRank.Ignore

/-- A closed range of characters. -/
structure CharRange where
  low : Char
  high : Char
deriving Repr, DecidableEq

/-- A piece of a glob. A choice may take a slash when its ranges do or when it is negated; the
other two open pieces never do. -/
inductive Piece where
  | literal (c : Char)
  | anyOne
  | anyRun
  | choice (negated : Bool) (ranges : List CharRange)
deriving Repr, DecidableEq

/-- Why a pattern means nothing. -/
inductive Flaw where
  | empty
  | danglingEscape
  | backwardsRange
deriving Repr, DecidableEq

/-! ## Reading -/

/-- The inside of a bracket choice and what follows it, from the character after the opening
bracket on: `!` or `^` negates, and a closing bracket in first place stands for itself. Without a
closing bracket there is no choice. -/
def bracketed (text : List Char) : Option (Bool × List Char × List Char) :=
  let (negated, body) := match text with
    | '!' :: rest => (true, rest)
    | '^' :: rest => (true, rest)
    | _ => (false, text)
  let (lead, body) := match body with
    | ']' :: rest => ([']'], rest)
    | _ => ([], body)
  match body.dropWhile (· ≠ ']') with
  | [] => none
  | _ :: rest => some (negated, lead ++ body.takeWhile (· ≠ ']'), rest)

/-- The ranges inside brackets. A hyphen makes a range only between two characters. -/
def charRanges : List Char → Except Flaw (List CharRange)
  | low :: '-' :: high :: rest =>
    if high < low then .error .backwardsRange
    else return ⟨low, high⟩ :: (← charRanges rest)
  | c :: rest => return ⟨c, c⟩ :: (← charRanges rest)
  | [] => return []

/-- What follows a choice is shorter than what starts with it. -/
theorem length_rest_of_bracketed {text body rest : List Char} {negated : Bool}
    (h : bracketed text = some (negated, body, rest)) : rest.length < text.length := by
  unfold bracketed at h
  split at h
  rename_i first body₁ h₁
  have l₁ : body₁.length ≤ text.length := by
    revert h₁; split <;> intro h₁ <;> simp only [Prod.mk.injEq] at h₁ <;>
      obtain ⟨-, rfl⟩ := h₁ <;> simp
  split at h
  rename_i lead body₂ h₂
  have l₂ : body₂.length ≤ body₁.length := by
    revert h₂; split <;> intro h₂ <;> simp only [Prod.mk.injEq] at h₂ <;>
      obtain ⟨-, rfl⟩ := h₂ <;> simp
  split at h
  · simp at h
  · rename_i c tail h₃
    have l₃ : (body₂.dropWhile (· ≠ ']')).length ≤ body₂.length :=
      (List.dropWhile_sublist _).length_le
    simp only [Option.some.injEq, Prod.mk.injEq] at h
    obtain ⟨-, -, rfl⟩ := h
    simp only [h₃, List.length_cons] at l₃
    omega

/-- Reads a glob. A backslash makes the next character stand for itself; an opening bracket that
is never closed stands for itself. -/
def readGlob (text : List Char) : Except Flaw (List Piece) :=
  match text with
  | [] => return []
  | '\\' :: c :: rest => return .literal c :: (← readGlob rest)
  | ['\\'] => .error .danglingEscape
  | '*' :: rest => return .anyRun :: (← readGlob rest)
  | '?' :: rest => return .anyOne :: (← readGlob rest)
  | '[' :: rest =>
    match _closed : bracketed rest with
    | some (negated, body, after) => do
      let ranges ← charRanges body
      return .choice negated ranges :: (← readGlob after)
    | none => return .literal '[' :: (← readGlob rest)
  | c :: rest => return .literal c :: (← readGlob rest)
termination_by text.length
decreasing_by
  all_goals simp only [List.length_cons]
  all_goals first
    | omega
    | have := length_rest_of_bracketed _closed; omega

/-! ## Matching -/

/-- Whether a character is in one of some ranges. -/
def inRanges (ranges : List CharRange) (c : Char) : Bool :=
  ranges.any fun range => range.low ≤ c && c ≤ range.high

/-- What is left after a run of one character or more. -/
def runRests : List Char → List (List Char)
  | [] => []
  | c :: rest => if c = '/' then [] else rest :: runRests rest

/-- What can be left of a path after a piece has taken its part. -/
def Piece.rests : Piece → List Char → List (List Char)
  | .literal c, d :: rest => if c = d then [rest] else []
  | .anyOne, d :: rest => if d = '/' then [] else [rest]
  | .choice negated ranges, d :: rest => if inRanges ranges d != negated then [rest] else []
  | .anyRun, text => text :: runRests text
  | _, [] => []

/-- What can be left of any of several texts after a glob, each possibility once. -/
def globRests (pieces : List Piece) (texts : List (List Char)) : List (List Char) :=
  pieces.foldl (fun texts piece => (texts.flatMap piece.rests).eraseDups) texts

end ImportRank.Ignore
