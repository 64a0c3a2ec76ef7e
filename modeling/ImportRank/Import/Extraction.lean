import ImportRank.Import.Basic
import ImportRank.Import.Query
import ImportRank.Import.Recognition
import ImportRank.Text.Quoted

/-!
# Extraction

The imports of a source, read off the matches of a query in its tree. A match is an import statement
in the dotted form, which may make several imports, or a string that names a file. Whatever order
the matches come in, the imports are put in that of the source.
-/

namespace ImportRank

open Parse (SyntaxNode Match Engine)

/-- The imports of a source in order, and whether all of it could be understood. -/
structure Extraction where
  imports : List Import
  complete : Bool
deriving Repr, DecidableEq

namespace Extraction

/-! ## Statements in the dotted form -/

/-- What is imported under another name; any other node is itself. -/
def unaliased (node : SyntaxNode) : SyntaxNode :=
  if node.kind = "aliased_import" then (node.childIn? "name").getD node else node

/-- The names that a statement imports, without their other names. -/
def namesOf (statement : SyntaxNode) : List String :=
  (statement.childrenIn "name").map fun item => String.ofList (unaliased item).spelling

/-- The number of dots and the name in a relative module. Of several such parts the last counts. -/
def relativeOrigin (module : SyntaxNode) : Nat × String :=
  module.children.foldl
    (fun (level, specifier) child =>
      if child.kind = "import_prefix" then (child.spelling.count '.', specifier)
      else if child.kind = "dotted_name" then (level, String.ofList child.spelling)
      else (level, specifier))
    (0, "")

/-- The number of dots and the name of the module that members are imported from. -/
def originOf (module : SyntaxNode) : Nat × String :=
  if module.kind = "relative_import" then relativeOrigin module
  else (0, String.ofList module.spelling)

/-- The imports that a statement makes: one a name, or one of all the names from a module. -/
def ofStatement (statement : SyntaxNode) : List Import :=
  if statement.kind = "import_statement" then (namesOf statement).map Import.plain
  else
    match statement.childIn? "module_name" with
    | none => []
    | some module =>
      let (level, specifier) := originOf module
      [{ specifier, level, names := namesOf statement }]

/-! ## Matches -/

/-- An import and where it stands: where its statement or its string starts, and its place among the
imports that start there. -/
structure Finding where
  start : Nat
  offset : Nat
  record : Import

/-- The names whose calls import the file that their argument names. -/
def requiringNames : List String := ["require"]

/-- Whether a call that a match speaks of, if it speaks of one, imports nothing. -/
def callsOther (found : Match) : Bool :=
  match found.captured "callee" with
  | [] => false
  | callee :: _ => !requiringNames.contains (String.ofList callee.spelling)

/-- The imports that a match makes. -/
def ofMatch (found : Match) : List Finding :=
  match found.captured "import" with
  | statement :: _ =>
    (ofStatement statement).mapIdx fun offset record => ⟨statement.start, offset, record⟩
  | [] =>
    match found.captured "source" with
    | [] => []
    | source :: _ =>
      let specifier := Text.unquoted source.spelling
      if callsOther found || specifier.isEmpty then []
      else [⟨source.start, 0, Import.plain (String.ofList specifier)⟩]

/-- Whether an import stands no later than another. -/
def Finding.le (a b : Finding) : Bool :=
  decide (a.start < b.start) || (a.start == b.start && decide (a.offset ≤ b.offset))

end Extraction

/-- What the bytes of a source import in a language, by what an engine makes of them. Nothing is
made of a source without bytes. -/
def Parse.Engine.extract (engine : Engine) (language : Language) (bytes : List UInt8) :
    Extraction :=
  if bytes.isEmpty then { imports := [], complete := true }
  else
    let tree := engine.parse language bytes
    let found := (engine.find (importQuery language) tree.root).flatMap Extraction.ofMatch
    { imports := (found.mergeSort Extraction.Finding.le).map Extraction.Finding.record
      complete := !tree.hasError }

/-- What the bytes of a source import in a language, by the grammars of this library. -/
def extract (language : Language) (bytes : List UInt8) : Extraction :=
  Engine.recognizing.extract language bytes

end ImportRank
