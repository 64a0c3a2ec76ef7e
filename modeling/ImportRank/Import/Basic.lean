/-!
# Imports

An import is what a source file says about another: a specifier, as written, and for the dotted
form the number of leading dots and the names asked for.
-/

namespace ImportRank

/-- One import. `level` counts the leading dots of a relative dotted import; `names` holds what a
`from` form imports, without aliases, and nothing for a wildcard. -/
structure Import where
  specifier : String
  level : Nat
  names : List String
deriving Repr, DecidableEq

namespace Import

/-- An import that is a specifier alone. -/
def plain (specifier : String) : Import := { specifier, level := 0, names := [] }

/-- The specifier with the dots in front of it. -/
def dotted (record : Import) : String :=
  String.ofList (List.replicate record.level '.') ++ record.specifier

end Import

end ImportRank
