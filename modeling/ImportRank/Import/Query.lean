import ImportRank.Parse.Query

/-!
# Queries for imports

What is asked of the tree of a source: in the dotted languages the import statements themselves, in
scripts the strings that name a file.
-/

namespace ImportRank

open Parse (Pattern)

namespace Pattern

/-- The string in the field of an import or export statement that names a file. -/
def file : Pattern := { kind := "string", field := some "source", capture := some "source" }

/-- The name that a call is of. -/
def callee : Pattern :=
  { kind := "identifier", field := some "function", capture := some "callee" }

/-- The arguments of a call, with a string for the first of them. -/
def argument : Pattern :=
  { kind := "arguments"
    field := some "arguments"
    parts := [{ kind := "string", next := true, capture := some "source" }] }

/-- A call of a bare name whose first argument is a string. -/
def call : Pattern := { kind := "call_expression", parts := [callee, argument] }

end Pattern

/-- What is asked of the tree of a script. -/
def scriptQuery : List Pattern :=
  [{ kind := "import_statement", parts := [Pattern.file] },
    { kind := "export_statement", parts := [Pattern.file] }, Pattern.call]

/-- What is asked of a tree in a dotted language. -/
def dottedQuery : List Pattern :=
  [{ kind := "import_statement", capture := some "import" },
    { kind := "import_from_statement", capture := some "import" }]

/-- What is asked of the tree of a source in a language. -/
def importQuery (language : Language) : List Pattern :=
  match language.importForms with
  | .python => dottedQuery
  | _ => scriptQuery

end ImportRank
