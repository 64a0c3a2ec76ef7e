import ImportRank.Text.Utf8

/-!
# Syntax trees

What a parser makes of a source. A named node stands for a rule of the grammar, and its kind is the
name of the rule; any other stands for a word or a sign that a rule asks for, and its kind is that
text. A node covers some bytes of the source and knows where they start, and it may stand in a field
of the node above it.
-/

namespace ImportRank.Parse

/-- A node of a syntax tree. -/
structure SyntaxNode where
  kind : String
  named : Bool
  field : Option String
  start : Nat
  text : List UInt8
  children : List SyntaxNode

/-- A syntax tree. It has an error where some part of the source fits no rule. -/
structure Tree where
  root : SyntaxNode
  hasError : Bool

namespace SyntaxNode

/-- The text of a node, whatever its bytes. -/
def spelling (node : SyntaxNode) : List Char := Text.decodeLenient node.text

/-- The children of a node that stand in a field. -/
def childrenIn (node : SyntaxNode) (field : String) : List SyntaxNode :=
  node.children.filter (·.field = some field)

/-- The first child of a node that stands in a field. -/
def childIn? (node : SyntaxNode) (field : String) : Option SyntaxNode :=
  (node.childrenIn field).head?

mutual

/-- A node and all nodes below it, each before those below it. -/
def nodes : SyntaxNode → List SyntaxNode
  | ⟨kind, named, field, start, text, children⟩ =>
    ⟨kind, named, field, start, text, children⟩ :: nodesAmong children

/-- Some nodes and all nodes below them. -/
def nodesAmong : List SyntaxNode → List SyntaxNode
  | [] => []
  | node :: rest => node.nodes ++ nodesAmong rest

end

end SyntaxNode

end ImportRank.Parse
