import ImportRank.Import.Indented.Recognition
import ImportRank.Import.Script.Recognition
import ImportRank.Parse.Query

/-!
# Recognized sources as trees

The grammars of this library make an `Engine`. Their trees are flat: below the root stands what was
recognized, a statement with its names or a string with what it stands in, and nothing else of the
source. The nodes are placed by counting them, not by their bytes.
-/

namespace ImportRank

open Parse (SyntaxNode Tree Engine)

namespace Parse.SyntaxNode

/-- A node that stands for a rule and has nothing below it. -/
def leaf (kind : String) (place : Nat) (text : List Char) : SyntaxNode :=
  { kind, named := true, field := none, start := place, text := Text.encode text, children := [] }

/-- A node that stands for a sign. -/
def sign (place : Nat) (text : String) : SyntaxNode :=
  { leaf text place text.toList with named := false }

/-- A node that stands for a rule and covers what the nodes below it cover. -/
def branch (kind : String) (place : Nat) (children : List SyntaxNode) : SyntaxNode :=
  { leaf kind place [] with text := children.flatMap SyntaxNode.text, children }

/-- A node that stands in a field. -/
def within (node : SyntaxNode) (field : String) : SyntaxNode := { node with field := some field }

end Parse.SyntaxNode

namespace Indented

/-- An imported name as a node. -/
def Clause.node (place : Nat) (item : Clause) : SyntaxNode :=
  let name := SyntaxNode.leaf "dotted_name" place item.name.toList
  match item.other with
  | none => name
  | some other =>
    .branch "aliased_import" place
      [name.within "name", (SyntaxNode.leaf "identifier" place other.toList).within "alias"]

/-- The module that some dots and a name lead to, as a node. -/
def originNode (place level : Nat) (module : Option String) : SyntaxNode :=
  let name? := module.map fun name => SyntaxNode.leaf "dotted_name" place name.toList
  match level, name? with
  | 0, some name => name
  | level, name? =>
    .branch "relative_import" place
      (.leaf "import_prefix" place (List.replicate level '.') :: name?.toList)

/-- Imported names as nodes, each in its field. -/
def itemNodes (place : Nat) (items : List Clause) : List SyntaxNode :=
  items.map fun item => (item.node place).within "name"

/-- An import statement as a node. -/
def Written.node (place : Nat) : Written → SyntaxNode
  | modules items => .branch "import_statement" place (itemNodes place items)
  | members level module items =>
    .branch "import_from_statement" place
      ((originNode place level module).within "module_name" :: itemNodes place items)
  | features items => .branch "future_import_statement" place (itemNodes place items)

end Indented

namespace Script

/-- A string that may name a file as the node that it stands in. -/
def Mention.node (place : Nat) : Mention → SyntaxNode
  | imported literal =>
    .branch "import_statement" place [(SyntaxNode.leaf "string" place literal).within "source"]
  | exported literal =>
    .branch "export_statement" place [(SyntaxNode.leaf "string" place literal).within "source"]
  | passed callee literal =>
    .branch "call_expression" place
      [(SyntaxNode.leaf "identifier" place callee).within "function",
        (SyntaxNode.branch "arguments" place
          [.sign place "(", .leaf "string" place literal, .sign place ")"]).within "arguments"]

end Script

/-- The tree of what was recognized in a source. -/
def recognizedTree {α : Type} (node : Nat → α → SyntaxNode) (recognized : List α × Bool) : Tree :=
  { root := .branch "source" 0 (recognized.1.mapIdx node), hasError := !recognized.2 }

/-- The dialect that a language of scripts is written in. -/
def Language.dialect? : Language → Option Script.Dialect
  | .python => none
  | .javascript => some { typed := false, markup := true }
  | .typescript => some { typed := true, markup := false }
  | .tsx => some { typed := true, markup := true }

/-- The grammars of this library as an engine. -/
def Parse.Engine.recognizing : Engine where
  parse language bytes :=
    let text := Text.decodeLenient bytes
    match language.dialect? with
    | none => recognizedTree Indented.Written.node (Indented.written text)
    | some dialect => recognizedTree Script.Mention.node (Script.mentions dialect text)
  find := Parse.matchesIn

end ImportRank
