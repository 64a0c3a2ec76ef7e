import ImportRank.Proofs.Import.Indented.Printed
import ImportRank.Proofs.Import.Statements

/-!
# Printed statements in trees

A parser that goes by the grammar of the language gives each printed statement a node of its own,
with nodes for its names below it. What these nodes are is said here as far as anything asks for
them. Whatever else a tree holds, and in whatever order the matches of a query are found, the
imports that are extracted are those of the statements. Main statement: `extract_python_printed`.
-/

namespace ImportRank.Indented

open Parse (SyntaxNode Tree Engine matchesIn)

variable {node : SyntaxNode}

/-! ## Nodes -/

/-- The node of a dotted name covers it as a whole. -/
def Dotted.IsNode (dotted : Dotted) (node : SyntaxNode) : Prop :=
  node.Spells "dotted_name" dotted.text

/-- The node of an item is that of its name. With another name for it, it stands above both. -/
inductive Item.IsNode (item : Item Dotted) (node : SyntaxNode) : Prop where
  | plain (hother : item.other = none) (hname : item.name.IsNode node)
  | aliased (name : SyntaxNode) (hother : item.other ≠ none) (hnode : node.IsRule "aliased_import")
      (hchild : node.childIn? "name" = some name) (hname : item.name.IsNode name)

/-- The node of an origin is that of its module. With dots before it, it stands above the dots and
the module, if there is one. -/
inductive Origin.IsNode (origin : Origin) (node : SyntaxNode) : Prop where
  | absolute (module : Dotted) (hlevel : origin.level = 0) (hmodule : origin.module = some module)
      (hname : module.IsNode node)
  | dots (dots : SyntaxNode) (hlevel : origin.level ≠ 0) (hmodule : origin.module = none)
      (hnode : node.IsRule "relative_import") (hchildren : node.children = [dots])
      (hdots : dots.Spells "import_prefix" (List.replicate origin.level '.'))
  | relative (module : Dotted) (dots name : SyntaxNode) (hlevel : origin.level ≠ 0)
      (hmodule : origin.module = some module) (hnode : node.IsRule "relative_import")
      (hchildren : node.children = [dots, name])
      (hdots : dots.Spells "import_prefix" (List.replicate origin.level '.'))
      (hname : module.IsNode name)

/-- The node of a statement has the nodes of its items in the field for names, in their order. -/
inductive Statement.IsNode : Statement → SyntaxNode → Prop where
  | modules {items : Several (Item Dotted)} {node : SyntaxNode}
      (hnode : node.IsRule "import_statement")
      (hitems : List.Forall₂ Item.IsNode items.toList (node.childrenIn "name")) :
      IsNode (.modules items) node
  | members {origin : Origin} {wanted : Members} {node : SyntaxNode} (module : SyntaxNode)
      (hnode : node.IsRule "import_from_statement")
      (hmodule : node.childIn? "module_name" = some module) (horigin : origin.IsNode module)
      (hitems : List.Forall₂ Item.IsNode wanted.items (node.childrenIn "name")) :
      IsNode (.members origin wanted) node

/-! ## What is read at them -/

lemma Item.IsNode.spelling_unaliased {item : Item Dotted} (hitem : item.IsNode node) :
    String.ofList (Extraction.unaliased node).spelling = item.name.written := by
  cases hitem with
  | plain hother hname =>
    rw [Extraction.unaliased, if_neg (by rw [hname.kind]; decide), hname.spelling_eq,
      Dotted.written]
  | aliased name hother hnode hchild hname =>
    rw [Extraction.unaliased, if_pos hnode.kind, hchild, Option.getD_some, hname.spelling_eq,
      Dotted.written]

lemma namesOf_eq {items : List (Item Dotted)}
    (hitems : List.Forall₂ Item.IsNode items (node.childrenIn "name")) :
    Extraction.namesOf node = items.map fun item => item.name.written := by
  rw [Extraction.namesOf]
  generalize node.childrenIn "name" = nodes at hitems
  induction hitems with
  | nil => rfl
  | cons hitem _ ih => rw [List.map_cons, List.map_cons, ih, hitem.spelling_unaliased]

lemma Origin.IsNode.originOf_eq {origin : Origin} (horigin : origin.IsNode node) :
    Extraction.originOf node = (origin.level, String.ofList origin.moduleText) := by
  cases horigin with
  | absolute module hlevel hmodule hname =>
    rw [Extraction.originOf_name hname, hlevel, moduleText, hmodule]
    rfl
  | dots dots hlevel hmodule hnode hchildren hdots =>
    rw [Extraction.originOf_dots hnode hdots hchildren, moduleText, hmodule]
    rfl
  | relative module dots name hlevel hmodule hnode hchildren hdots hname =>
    rw [Extraction.originOf_dots_name hnode hdots hname hchildren, moduleText, hmodule]
    rfl

/-- Single names are read as dotted ones. -/
lemma Members.names_eq (wanted : Members) :
    (wanted.items.map fun item => item.name.written) = wanted.names := by
  have hsingle : ∀ items : Several (Item Name),
      ((items.map Item.dotted).toList.map fun item => item.name.written) =
        items.toList.map fun item => String.ofList item.name.text := by
    rintro ⟨first, more⟩
    simp [Several.toList, Several.map, Item.dotted, Dotted.written, Dotted.text, Dotted.ofName,
      Several.text, Function.comp_def]
  cases wanted with
  | all => rfl
  | named items => exact hsingle items
  | bracketed items => exact hsingle items

lemma Statement.IsNode.ofStatement_eq {statement : Statement} (hstatement : statement.IsNode node) :
    Extraction.ofStatement node = statement.imports := by
  cases hstatement with
  | modules hnode hitems =>
    rw [Extraction.ofStatement_import hnode, namesOf_eq hitems, List.map_map]
    rfl
  | @members origin wanted node module hnode hmodule horigin hitems =>
    rw [Extraction.ofStatement_from hnode hmodule, horigin.originOf_eq, namesOf_eq hitems,
      wanted.names_eq]
    rfl

lemma flatMap_ofStatement {statements : List Statement} {nodes : List SyntaxNode}
    (hnodes : List.Forall₂ Statement.IsNode statements nodes) :
    nodes.flatMap Extraction.ofStatement = statements.flatMap Statement.imports := by
  induction hnodes with
  | nil => rfl
  | cons hfirst _ ih => rw [List.flatMap_cons, List.flatMap_cons, hfirst.ofStatement_eq, ih]

/-! ## Whole sources -/

lemma text_ne_nil (statement : Statement) : statement.text ≠ [] := by
  cases statement <;> exact List.append_ne_nil_of_right_ne_nil _ (List.cons_ne_nil _ _)

/-- From the tree of printed statements their imports are extracted, one for each module of an
`import`, one for each `from`, whatever order an engine finds its matches in. -/
theorem extract_python_printed {engine : Engine} {statements : List Statement} {tree : Tree}
    (htree : engine.parse .python (printed statements).toUTF8.data.toList = tree)
    (hshows : tree.Shows dottedQuery Statement.IsNode statements)
    (hfind : (engine.find dottedQuery tree.root).Perm (matchesIn dottedQuery tree.root)) :
    engine.extract .python (printed statements).toUTF8.data.toList =
      { imports := statements.flatMap Statement.imports, complete := true } := by
  have hempty : (printed statements).toUTF8.data.toList = [] →
      tree.asked dottedQuery = [] ∧ tree.hasError = false := by
    intro hbytes
    have hnodes := hshows.nodes
    rw [Text.eq_nil_of_encode text_ne_nil hbytes, List.forall₂_nil_left_iff] at hnodes
    exact ⟨hnodes, hshows.clean⟩
  rw [Extraction.extract_dotted htree hfind hshows.apart hempty, flatMap_ofStatement hshows.nodes,
    hshows.clean]
  rfl

/-! ## A sample -/

/-- A statement of each form, with all that may stand in them. -/
def sample : List Statement :=
  let a : Name := ⟨['a'], by decide, by decide⟩
  let b : Name := ⟨['b', '1'], by decide, by decide⟩
  [.modules ⟨⟨⟨⟨a, []⟩⟩, some b⟩, [⟨⟨⟨b, [a]⟩⟩, none⟩]⟩,
    .members ⟨2, some ⟨⟨a, [b]⟩⟩, nofun, nofun⟩ (.bracketed ⟨⟨a, some b⟩, [⟨b, none⟩]⟩),
    .members ⟨1, none, nofun, nofun⟩ .all]

/-- The nodes of the sample, each with the place of its first byte. -/
def sampleNodes : List SyntaxNode :=
  let name := fun start text => SyntaxNode.covering "identifier" start text []
  let aliased := fun start => SyntaxNode.covering "aliased_import" start "a as b1"
    [(SyntaxNode.covering "dotted_name" start "a" [name start "a"]).within "name",
      .sign (start + 2) "as", (name (start + 5) "b1").within "alias"]
  [.covering "import_statement" 0 "import a as b1, b1.a"
      [.sign 0 "import", (aliased 7).within "name", .sign 14 ",",
        (SyntaxNode.covering "dotted_name" 16 "b1.a"
          [name 16 "b1", .sign 18 ".", name 19 "a"]).within "name"],
    .covering "import_from_statement" 21 "from ..a.b1 import (a as b1, b1)"
      [.sign 21 "from",
        (SyntaxNode.covering "relative_import" 26 "..a.b1"
          [.covering "import_prefix" 26 ".." [.sign 26 ".", .sign 27 "."],
            .covering "dotted_name" 28 "a.b1"
              [name 28 "a", .sign 29 ".", name 30 "b1"]]).within "module_name",
        .sign 33 "import", .sign 40 "(", (aliased 41).within "name", .sign 48 ",",
        (SyntaxNode.covering "dotted_name" 50 "b1" [name 50 "b1"]).within "name", .sign 52 ")"],
    .covering "import_from_statement" 54 "from . import *"
      [.sign 54 "from",
        (SyntaxNode.covering "relative_import" 59 "."
          [.covering "import_prefix" 59 "." [.sign 59 "."]]).within "module_name",
        .sign 61 "import", .covering "wildcard_import" 68 "*" []]]

/-- The tree of the sample. -/
def sampleTree : Tree where
  root := .covering "module" 0
    "import a as b1, b1.a\nfrom ..a.b1 import (a as b1, b1)\nfrom . import *\n" sampleNodes
  hasError := false

lemma sampleTree_shows : sampleTree.Shows dottedQuery Statement.IsNode sample where
  clean := rfl
  nodes := by
    refine .cons (.modules ⟨rfl, rfl⟩ ?modules) (.cons (.members _ ⟨rfl, rfl⟩ rfl ?above ?named)
      (.cons (.members _ ⟨rfl, rfl⟩ rfl ?here ?all) .nil))
    case modules =>
      exact .cons (.aliased _ nofun ⟨rfl, rfl⟩ rfl ⟨⟨rfl, rfl⟩, rfl⟩)
        (.cons (.plain rfl ⟨⟨rfl, rfl⟩, rfl⟩) .nil)
    case above =>
      exact .relative _ _ _ nofun rfl ⟨rfl, rfl⟩ rfl ⟨⟨rfl, rfl⟩, rfl⟩ ⟨⟨rfl, rfl⟩, rfl⟩
    case named =>
      exact .cons (.aliased _ nofun ⟨rfl, rfl⟩ rfl ⟨⟨rfl, rfl⟩, rfl⟩)
        (.cons (.plain rfl ⟨⟨rfl, rfl⟩, rfl⟩) .nil)
    case here => exact .dots _ nofun rfl ⟨rfl, rfl⟩ rfl ⟨⟨rfl, rfl⟩, rfl⟩
    case all => exact .nil
  apart := by decide

theorem extract_python_printed_sample :
    let engine : Engine := { parse := fun _ _ => sampleTree, find := matchesIn }
    printed sample =
        "import a as b1, b1.a\nfrom ..a.b1 import (a as b1, b1)\nfrom . import *\n" ∧
      sampleTree.Shows dottedQuery Statement.IsNode sample ∧
      engine.extract .python (printed sample).toUTF8.data.toList =
        { imports := [⟨"a", 0, []⟩, ⟨"b1.a", 0, []⟩, ⟨"a.b1", 2, ["a", "b1"]⟩, ⟨"", 1, []⟩]
          complete := true } :=
  ⟨by decide, sampleTree_shows, extract_python_printed rfl sampleTree_shows (List.Perm.refl _)⟩

end ImportRank.Indented
