import ImportRank.Ignore.Glob
import ImportRank.Path
import ImportRank.Text.Blank

/-!
# Ignore patterns

A pattern is a line of an ignore file. It is cut at its slashes into segments; a segment `**`
stands for any number of directories. A pattern of one segment matches at any depth, every other
one starts at the top. What a pattern matches is said of the file paths alone: a file is not
matched because a directory above it would be.
-/

namespace ImportRank.Ignore

/-- A segment of a pattern: any directories, any one name, or a name that a glob describes. -/
inductive Segment where
  | anyDepth
  | anyName
  | glob (pieces : List Piece)
deriving Repr, DecidableEq

/-- What a pattern matches: every path, every path below a directory, or the paths that its
segments describe. -/
inductive Shape where
  | everything
  | nested
  | segments (list : List Segment)
deriving Repr, DecidableEq

/-- A pattern that is in force. A negated one takes files back in. -/
structure Pattern where
  negated : Bool
  shape : Shape
deriving Repr, DecidableEq

/-! ## Reading -/

/-- The text of a segment that stands for any directories. -/
def doubleStar : List Char := ['*', '*']

/-- Anchors the segments: a leading slash has done its work and is dropped, and a lone segment,
also before a trailing slash, is sought at any depth. -/
def anchored : List (List Char) → List (List Char)
  | [] :: rest => rest
  | [name] => if name = doubleStar then [name] else [doubleStar, name]
  | [name, []] => if name = doubleStar then [name, []] else [doubleStar, name, []]
  | segments => segments

/-- A trailing slash asks for what is below. -/
def openEnd (segments : List (List Char)) : List (List Char) :=
  if segments.getLast? = some [] then segments.dropLast ++ [doubleStar] else segments

/-- Any directories twice are any directories once. -/
def collapse : List (List Char) → List (List Char)
  | first :: second :: rest =>
    if first = doubleStar ∧ second = doubleStar then collapse (second :: rest)
    else first :: collapse (second :: rest)
  | segments => segments

/-- Reads a segment. -/
def readSegment (text : List Char) : Except Flaw Segment :=
  if text = doubleStar then return .anyDepth
  else if text = ['*'] then return .anyName
  else return .glob (← readGlob text)

/-- Reads what stands after the exclamation mark, if any. -/
def readShape (text : List Char) : Except Flaw Shape := do
  let pieces := Path.pieces '/' text
  let below := pieces.getLast? = some [] ∧ text ≠ ['/']
  match collapse (openEnd (anchored pieces)) with
  | [] => throw .empty
  | segments =>
    let segments ← segments.mapM readSegment
    match segments with
    | [.anyDepth] => return if below then .nested else .everything
    | [.anyDepth, .anyName] => return .everything
    | [.anyDepth, .anyName, .anyDepth] => return .nested
    | segments => return .segments segments

/-- Reads a line: blanks at its end count only after a backslash. A blank line and a comment hold
no pattern. -/
def readPattern (line : List Char) : Except Flaw (Option Pattern) :=
  let text := if line.reverse.take 2 = [' ', '\\'] then line else Text.trimEnd line
  match text with
  | [] => return none
  | '#' :: _ => return none
  | '!' :: rest => return some { negated := true, shape := ← readShape rest }
  | _ => return some { negated := false, shape := ← readShape text }

/-! ## Matching -/

/-- What is left after each slash. A line feed is never passed over. -/
def afterSlashes : List Char → List (List Char)
  | [] => []
  | c :: rest =>
    if c = '\n' then [] else if c = '/' then rest :: afterSlashes rest else afterSlashes rest

/-- What is left after each slash that other characters stand before. A line feed is never passed
over. -/
def afterDirectories : List Char → List (List Char)
  | [] => []
  | first :: rest => if first = '\n' then [] else afterSlashes rest

/-- What is left after each further character. A line feed is never passed over. -/
def afterAnything : List Char → List (List Char)
  | [] => []
  | c :: rest => if c = '\n' then [] else rest :: afterAnything rest

/-- What is left after a slash. -/
def afterSlash : List Char → List (List Char)
  | '/' :: rest => [rest]
  | _ => []

/-- Whether a path is at its end; a last line feed does not count. -/
def atEnd (text : List Char) : Bool := text = [] || text = ['\n']

/-- Whether segments match what is left of a path, in one of several ways. `slash` says that a
slash has to come before the next name. -/
def matchesRest (slash : Bool) (texts : List (List Char)) : List Segment → Bool
  | [] => !texts.isEmpty
  | [.anyDepth] => texts.any fun text => !(afterSlash text).isEmpty
  | .anyDepth :: rest =>
    matchesRest true (texts ++ (texts.flatMap afterSlash).flatMap afterAnything) rest
  | .anyName :: rest =>
    let texts := if slash then texts.flatMap afterSlash else texts
    let texts := (texts.flatMap runRests).eraseDups
    if rest.isEmpty then
      texts.any fun text => atEnd text || (afterSlash text).any atEnd
    else matchesRest true texts rest
  | .glob pieces :: rest =>
    let texts := if slash then texts.flatMap afterSlash else texts
    let texts := globRests pieces texts
    if rest.isEmpty then texts.any fun text => atEnd text || !(afterSlash text).isEmpty
    else matchesRest true texts rest

/-- Whether segments match a whole path. -/
def matchesSegments (path : List Char) : List Segment → Bool
  | .anyDepth :: rest => matchesRest false (path :: afterDirectories path) rest
  | segments => matchesRest false [path] segments

/-- Whether a pattern speaks of a path. -/
def Pattern.applies (pattern : Pattern) (path : List Char) : Bool :=
  match pattern.shape with
  | .everything => true
  | .nested => path.contains '/'
  | .segments segments => matchesSegments path segments

end ImportRank.Ignore
