import ImportRank.Parse.Tree
import ImportRank.Source.Language

/-!
# Queries

A query is a list of patterns that are sought at every node of a tree. A pattern asks for the kind
of a node and for patterns that some of its children match, in order; a node that it matches may be
captured under a name. Where a dot stands before the pattern of a child, no named child may come
between that child and the one matched before it, or the first one.

A parser and what finds the matches of a query come from outside: an `Engine` is a pair of them.
What it is to find all matches is said by `matchesIn`.
-/

namespace ImportRank.Parse

/-- A pattern. `next` says that a dot stands before it. -/
structure Pattern where
  kind : String
  field : Option String := none
  next : Bool := false
  capture : Option String := none
  parts : List Pattern := []

/-- What a pattern captured, in the order of the source, by the names of the captures. -/
abbrev Match := List (String × SyntaxNode)

namespace Match

/-- The nodes captured under a name. -/
def captured (found : Match) (capture : String) : List SyntaxNode :=
  (found.filter (·.1 = capture)).map Prod.snd

end Match

/-- The children that a pattern may match, each with the children after it. -/
def choices (next : Bool) : List SyntaxNode → List (SyntaxNode × List SyntaxNode)
  | [] => []
  | child :: rest =>
    (child, rest) :: if next && child.named then [] else choices next rest

mutual

/-- The ways in which a pattern matches at a node. -/
def Pattern.matchesAt : Pattern → SyntaxNode → List Match
  | ⟨kind, field, _, capture, parts⟩, node =>
    if node.named ∧ node.kind = kind ∧ (field = none ∨ node.field = field) then
      (partsMatchAmong parts node.children).map ((capture.map fun name => (name, node)).toList ++ ·)
    else []

/-- The ways in which patterns match some children. -/
def partsMatchAmong : List Pattern → List SyntaxNode → List Match
  | [], _ => [[]]
  | part :: parts, children =>
    (choices part.next children).flatMap fun (child, rest) =>
      (part.matchesAt child).flatMap fun found => (partsMatchAmong parts rest).map (found ++ ·)

end

/-- The matches of a query at one node. -/
def matchesAt (query : List Pattern) (node : SyntaxNode) : List Match :=
  query.flatMap fun pattern => pattern.matchesAt node

/-- All matches of a query in a tree. -/
def matchesIn (query : List Pattern) (root : SyntaxNode) : List Match :=
  root.nodes.flatMap (matchesAt query)

/-- A parser for each language, and what finds the matches of a query below a node. -/
structure Engine where
  parse : Language → List UInt8 → Tree
  find : List Pattern → SyntaxNode → List Match

end ImportRank.Parse
