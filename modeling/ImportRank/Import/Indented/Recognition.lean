import ImportRank.Import.Indented.Grammar
import ImportRank.Import.Indented.Recovery

/-!
# Recognition of indented sources

The knot of the grammar is tied here, as for scripts: a part is recognized at some depth by its
definition over the parts recognized at one depth less. A source that is not recognized as a whole
is searched token by token for what looks like an import statement.
-/

namespace ImportRank.Indented

/-- The definition of a part of the grammar. -/
def Grammar.define (g : Grammar) : Goal → Recognizer
  | .expression choice => g.expression choice
  | .operand => g.operand
  | .bracketed => g.bracketed
  | .statement => g.statement
  | .suite => g.suite

/-- Recognizes a part of the grammar to some depth. -/
def recognize : Nat → Goal → Recognizer
  | 0, _ => fun _ => none
  | depth + 1, goal => Grammar.define ⟨recognize depth⟩ goal

/-- Recognizes a whole source. -/
def source (depth : Nat) : Recognizer := Grammar.blockAt ⟨recognize depth⟩ 0

/-- The depth of nesting that so many tokens can need. -/
def depthFor (count : Nat) : Nat := 8 * (count + 1)

/-- The import statements of a source in order, and whether it was recognized as a whole. -/
def written (text : List Char) : List Written × Bool :=
  let tokens := tokens text
  match source (depthFor tokens.length) (Reader.start tokens) with
  | some reader => (reader.found.reverse, true)
  | none => (recovered tokens, false)

end ImportRank.Indented
