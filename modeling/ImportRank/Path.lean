/-!
# Paths as texts

A path is what its text says, before any file system is asked: where it starts and its
components. Repeated slashes and `.` components mean nothing and are dropped at reading;
`normalize` resolves `..` against the component before it, which gives each file found by a run
the key it is known by.
-/

namespace ImportRank

/-- Where a path starts: at the working directory, at the root, or at the root written with
exactly two slashes, a spelling that is kept apart. -/
inductive Anchor where
  | relative
  | root
  | doubleRoot
deriving Repr, DecidableEq

/-- A path as read from its text. -/
structure Path where
  anchor : Anchor
  parts : List String
deriving Repr, DecidableEq

namespace Path

/-- The pieces of a text between separators; one more than there are separators. -/
def pieces (separator : Char) : List Char → List (List Char)
  | [] => [[]]
  | c :: rest =>
    match pieces separator rest with
    | [] => [[c]]
    | piece :: others => if c = separator then [] :: piece :: others else (c :: piece) :: others

/-- The start that a text's leading slashes give. -/
def anchorOf : List Char → Anchor
  | '/' :: '/' :: '/' :: _ => .root
  | '/' :: '/' :: _ => .doubleRoot
  | '/' :: _ => .root
  | _ => .relative

/-- The components of a text: its pieces between slashes that are neither empty nor `.`. -/
def components (text : List Char) : List String :=
  ((pieces '/' text).filter fun piece => piece ≠ [] && piece ≠ ['.']).map String.ofList

/-- Reads a path. -/
def ofString (text : String) : Path :=
  { anchor := anchorOf text.toList, parts := components text.toList }

/-- The slashes a path starts with. -/
def anchorText : Anchor → String
  | .relative => ""
  | .root => "/"
  | .doubleRoot => "//"

/-- The text of a path: the working directory itself is `.`. -/
def toString (path : Path) : String :=
  if path.anchor = .relative ∧ path.parts = [] then "."
  else anchorText path.anchor ++ "/".intercalate path.parts

/-- One step of normalization on the components so far, last one first: `..` takes back the last
component, stays above a relative start, and is nothing at the root. -/
def descend (anchor : Anchor) (above : List String) (part : String) : List String :=
  if part = ".." then
    match above with
    | [] => if anchor = .relative then [part] else []
    | last :: others => if last = ".." then part :: above else others
  else part :: above

/-- The path without `..` after another component. -/
def normalize (path : Path) : Path :=
  { path with parts := (path.parts.foldl (descend path.anchor) []).reverse }

/-- The path that a second path names seen from the first: the second itself when it does not
start at the working directory. -/
def join (base part : Path) : Path :=
  if part.anchor = .relative then { base with parts := base.parts ++ part.parts } else part

/-- The directory a path is in; the root and the working directory are in themselves. -/
def parent (path : Path) : Path := { path with parts := path.parts.dropLast }

/-- The last component. -/
def name (path : Path) : String := path.parts.getLastD ""

/-- The ending of a file name from its last dot on. A dot that starts or ends the name starts no
ending. -/
def suffixOf (name : String) : String :=
  let reversed := name.toList.reverse
  let ending := reversed.takeWhile (· ≠ '.')
  if ending = [] ∨ reversed.length ≤ ending.length + 1 then ""
  else String.ofList ('.' :: ending.reverse)

/-- The text of a path before its last slash, without the slashes it then ends in; a text of
slashes alone is kept. -/
def directoryText (text : String) : String :=
  let head := text.toList.reverse.dropWhile (· ≠ '/')
  let trimmed := head.dropWhile (· == '/')
  String.ofList (if trimmed = [] then head else trimmed).reverse

/-- The normalized text of the path that several texts name, each seen from the one before. -/
def key (base : String) (parts : List String) : String :=
  (parts.foldl (fun path part => path.join (ofString part)) (ofString base)).normalize.toString

end Path

end ImportRank
