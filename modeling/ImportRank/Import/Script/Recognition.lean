import ImportRank.Import.Script.Recovery
import ImportRank.Import.Script.Statement

/-!
# Recognition of scripts

The knot of the grammar is tied here: a part is recognized at some depth by its definition over
the parts recognized at one depth less. A script nests no deeper than it is long, up to a
constant, so the depth that `mentions` allows is never the reason why it fails.
-/

namespace ImportRank.Script

/-- The definition of a part of the grammar. -/
def Grammar.define (g : Grammar) : Goal → Recognizer
  | .expression inside => g.expression inside
  | .operand => g.operand
  | .group => g.group
  | .object => g.object
  | .template types => g.templateRest types
  | .element => g.element
  | .children => g.children
  | .block => g.block
  | .statement => g.statement
  | .classBody => g.classBody
  | .type => g.type
  | .typeOperand => g.typeOperand
  | .typeMembers => g.typeMembers

/-- Recognizes a part of the grammar to some depth. -/
def recognize (dialect : Dialect) : Nat → Goal → Recognizer
  | 0, _ => fun _ => none
  | depth + 1, goal => Grammar.define ⟨dialect, recognize dialect depth⟩ goal

/-- Recognizes a whole script. -/
def script (dialect : Dialect) (depth : Nat) : Recognizer := fun cursor => do
  let cursor ← Grammar.statements ⟨dialect, recognize dialect depth⟩ [] cursor
  if cursor.rest.isEmpty then some cursor else none

/-- The depth of nesting that a text of some length can need. -/
def depthFor (length : Nat) : Nat := 8 * (length + 1)

/-- The strings of a script that may name a file, in order, and whether it was recognized as a
whole. -/
def mentions (dialect : Dialect) (text : List Char) : List Mention × Bool :=
  let start := Cursor.start text
  match script dialect (depthFor text.length) start with
  | some cursor => (cursor.found.reverse, true)
  | none => ((seek (text.length + 1) .fresh start).found.reverse, false)

end ImportRank.Script
