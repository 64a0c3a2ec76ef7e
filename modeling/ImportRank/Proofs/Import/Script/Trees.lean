import ImportRank.Proofs.Import.Script.Printed
import ImportRank.Proofs.Import.Statements

/-!
# Printed statements of scripts in trees

A parser that goes by the grammar of a script gives each printed statement one node that is asked
for: an import or an export, with its file in a field, or a call with its argument below it, however
deep in the statement the call stands. A string within it is a string, whatever it looks like. From
any such tree the files are extracted that the statements name. Main statement:
`extract_script_printed`.
-/

namespace ImportRank.Script

open Parse (SyntaxNode Tree Engine matchesIn)
open Extraction (Names Calls Makes namedBy)

variable {node : SyntaxNode}

/-! ## Nodes -/

/-- The node of a statement that is asked for. The name of a call of anything else than `require`
may be a node of any kind. -/
def Statement.IsNode (statement : Statement) (node : SyntaxNode) : Prop :=
  match statement with
  | importFile file | importDefault _ file | importAll _ file | importItems _ file =>
    node.IsRule "import_statement" ∧ ∃ source, Names node file.text source
  | exportAll file | exportItems _ file =>
    node.IsRule "export_statement" ∧ ∃ source, Names node file.text source
  | require _ file =>
    ∃ called arguments source, Calls node file.text called arguments source ∧
      called.Spells "identifier" "require".toList
  | call callee _ argument =>
    ∃ called arguments source, Calls node argument.text called arguments source ∧
      called.text = Text.encode callee.text

/-! ## What is made at them -/

/-- The imports that a statement stands for. -/
def Statement.imports (statement : Statement) : List Import :=
  statement.specifiers.map fun specifier => Import.plain (String.ofList specifier)

lemma Literal.unquoted_text (literal : Literal) : Text.unquoted literal.text = literal.body := by
  have hquote : ∀ quote : Quote, quote.mark = '\'' ∨ quote.mark = '"' ∨ quote.mark = '`' := by
    rintro (_ | _) <;> decide
  rw [text, List.cons_append, Text.unquoted, if_pos ⟨List.getLast?_concat, hquote _⟩,
    List.dropLast_concat]

lemma Literal.namedBy_text (literal : Literal) :
    namedBy literal.text =
      literal.specifiers.map fun specifier => Import.plain (String.ofList specifier) := by
  rw [namedBy, literal.unquoted_text, specifiers]
  cases literal.body <;> rfl

/-- What a statement stands for is made at its node. -/
lemma Statement.IsNode.makes {statement : Statement} (hstatement : statement.IsNode node) :
    Makes scriptQuery node statement.imports := by
  cases statement with
  | importFile file | importDefault name file | importAll name file | importItems items file =>
    obtain ⟨hnode, source, hnames⟩ := hstatement
    rw [imports, specifiers, ← file.namedBy_text]
    exact hnames.makes (Or.inl hnode)
  | exportAll file | exportItems items file =>
    obtain ⟨hnode, source, hnames⟩ := hstatement
    rw [imports, specifiers, ← file.namedBy_text]
    exact hnames.makes (Or.inr hnode)
  | require name file =>
    obtain ⟨called, arguments, source, hcall, hcalled⟩ := hstatement
    rw [imports, specifiers, ← file.namedBy_text]
    exact hcall.makes_of_require hcalled
  | call callee other argument =>
    obtain ⟨called, arguments, source, hcall, hcalled⟩ := hstatement
    refine hcall.makes_of_other ?_
    rwa [SyntaxNode.spelling, hcalled, Text.decodeLenient_encode]

/-! ## Whole scripts -/

/-- From the tree of printed statements the files that they name are extracted, in every language of
scripts and whatever order an engine finds its matches in. -/
theorem extract_script_printed {engine : Engine} {language : Language}
    (hlanguage : language ≠ .python) {statements : List Statement} {tree : Tree}
    (htree : engine.parse language (printed statements).toUTF8.data.toList = tree)
    (hshows : tree.Shows scriptQuery Statement.IsNode statements)
    (hfind : (engine.find scriptQuery tree.root).Perm (matchesIn scriptQuery tree.root)) :
    engine.extract language (printed statements).toUTF8.data.toList =
      { imports := (statements.flatMap Statement.specifiers).map fun specifier =>
          Import.plain (String.ofList specifier)
        complete := true } := by
  have hquery := Extraction.importQuery_of_ne hlanguage
  have hextract := Engine.extract_eq statements Statement.imports htree
    (by rwa [hquery])
    (by rw [hquery]; exact hshows.nodes.imp fun _ _ h => h.makes)
    (by rw [hquery]; exact hshows.apart)
    (fun hbytes => ⟨Text.eq_nil_of_encode Statement.text_ne_nil hbytes, hshows.clean⟩)
  rw [hextract, hshows.clean, List.map_flatMap]
  rfl

/-! ## A sample -/

/-- An import, a call whose argument only looks like code that names a file, a `require` of what
looks like a comment, and an export of what was imported. -/
def sample : List Statement :=
  let a : Name := ⟨['a'], by decide, by decide⟩
  let b : Name := ⟨['b'], by decide, by decide⟩
  let file : Literal := ⟨.single, "./x".toList, by decide⟩
  [.importItems [⟨a, none⟩, ⟨a, some b⟩] file,
    .call b (by decide) ⟨.double, "require(y);".toList, by decide⟩,
    .require a ⟨.double, "//z".toList, by decide⟩, .exportAll file]

/-- The tree of the sample, each node with the place of its first byte. The calls stand in an
expression and in a declaration. -/
def sampleTree : Tree :=
  let name := fun start text => SyntaxNode.covering "identifier" start text []
  let file := fun start => SyntaxNode.covering "string" start "'./x'"
    [.sign start "'", .covering "string_fragment" (start + 1) "./x" [], .sign (start + 4) "'"]
  { root := .covering "program" 0 (printed sample)
      [.covering "import_statement" 0 "import \x7b a, a as b \x7d from './x';"
          [.sign 0 "import",
            .covering "import_clause" 7 "\x7b a, a as b \x7d"
              [.covering "named_imports" 7 "\x7b a, a as b \x7d"
                [.sign 7 "\x7b",
                  .covering "import_specifier" 9 "a" [(name 9 "a").within "name"], .sign 10 ",",
                  .covering "import_specifier" 12 "a as b"
                    [(name 12 "a").within "name", .sign 14 "as", (name 17 "b").within "alias"],
                  .sign 19 "\x7d"]],
            .sign 21 "from", (file 26).within "source", .sign 31 ";"],
        .covering "expression_statement" 33 "b(\"require(y);\");"
          [.covering "call_expression" 33 "b(\"require(y);\")"
              [(name 33 "b").within "function",
                (SyntaxNode.covering "arguments" 34 "(\"require(y);\")"
                  [.sign 34 "(",
                    .covering "string" 35 "\"require(y);\""
                      [.sign 35 "\"", .covering "string_fragment" 36 "require(y);" [],
                        .sign 47 "\""],
                    .sign 48 ")"]).within "arguments"],
            .sign 49 ";"],
        .covering "lexical_declaration" 51 "const a = require(\"//z\");"
          [(SyntaxNode.sign 51 "const").within "kind",
            .covering "variable_declarator" 57 "a = require(\"//z\")"
              [(name 57 "a").within "name", .sign 59 "=",
                (SyntaxNode.covering "call_expression" 61 "require(\"//z\")"
                  [(name 61 "require").within "function",
                    (SyntaxNode.covering "arguments" 68 "(\"//z\")"
                      [.sign 68 "(",
                        .covering "string" 69 "\"//z\""
                          [.sign 69 "\"", .covering "string_fragment" 70 "//z" [], .sign 73 "\""],
                        .sign 74 ")"]).within "arguments"]).within "value"],
            .sign 75 ";"],
        .covering "export_statement" 77 "export * from './x';"
          [.sign 77 "export", .sign 84 "*", .sign 86 "from", (file 91).within "source",
            .sign 96 ";"]]
    hasError := false }

lemma sampleTree_shows : sampleTree.Shows scriptQuery Statement.IsNode sample where
  clean := rfl
  nodes := by
    refine .cons ⟨⟨rfl, rfl⟩, _, rfl, ⟨rfl, rfl⟩, rfl⟩ (.cons ?call (.cons ?require (.cons
      ⟨⟨rfl, rfl⟩, _, rfl, ⟨rfl, rfl⟩, rfl⟩ .nil)))
    case call =>
      exact ⟨_, _, _, ⟨⟨rfl, rfl⟩, rfl, rfl, ⟨rfl, rfl⟩, rfl, ⟨_, _, rfl, rfl⟩, ⟨rfl, rfl⟩, rfl⟩,
        rfl⟩
    case require =>
      exact ⟨_, _, _, ⟨⟨rfl, rfl⟩, rfl, rfl, ⟨rfl, rfl⟩, rfl, ⟨_, _, rfl, rfl⟩, ⟨rfl, rfl⟩, rfl⟩,
        ⟨rfl, rfl⟩, rfl⟩
  apart := by decide

theorem extract_script_printed_sample :
    let engine : Engine := { parse := fun _ _ => sampleTree, find := matchesIn }
    printed sample = "import \x7b a, a as b \x7d from './x';\nb(\"require(y);\");\n" ++
        "const a = require(\"//z\");\nexport * from './x';\n" ∧
      Language.tsx ≠ .python ∧
      sampleTree.Shows scriptQuery Statement.IsNode sample ∧
      engine.extract .tsx (printed sample).toUTF8.data.toList =
        { imports := ["./x", "//z", "./x"].map Import.plain, complete := true } :=
  ⟨by decide, by decide, sampleTree_shows,
    extract_script_printed (by decide) rfl sampleTree_shows (List.Perm.refl _)⟩

end ImportRank.Script
