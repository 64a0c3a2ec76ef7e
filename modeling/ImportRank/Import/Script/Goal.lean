import ImportRank.Import.Script.Cursor

/-!
# The parts of the grammar

The grammar of scripts is recursive through and through: expressions hold functions, functions
hold statements, and those hold expressions. Each part is written as a definition of its own over
a `Grammar`, which recognizes whatever parts it mentions; the knot is tied once, at the end.

Operators need no levels here: which operand an operator takes does not matter to where an
expression ends, nor to what it imports.
-/

namespace ImportRank.Script

/-- A part of the grammar that other parts mention. Of a template and of the children of a markup
element the text counts as it stands, so these two start and end in the middle of a text. -/
inductive Goal where
  /-- An expression without a comma; `inside` says whether `in` is an operator there. -/
  | expression (inside : Bool)
  | operand
  /-- Expressions between parentheses: arguments, parameters or an expression. -/
  | group
  | object
  /-- The rest of a template, whose substitutions are types or expressions. -/
  | template (types : Bool)
  | element
  | children
  | block
  | statement
  | classBody
  | type
  | typeOperand
  | typeMembers
deriving Repr, DecidableEq

/-- A dialect together with recognizers for the parts of its grammar. -/
structure Grammar where
  dialect : Dialect
  part : Goal → Recognizer

namespace Grammar

/-- Expressions with commas between them. -/
def sequence (g : Grammar) (inside : Bool) : Recognizer := fun cursor => do
  let cursor ← g.part (.expression inside) cursor
  many (fun cursor => do g.part (.expression inside) (← symbol "," cursor)) cursor

/-- An expression, with commas or not, in parentheses. -/
def condition (g : Grammar) : Recognizer := fun cursor => do
  symbol ")" (← g.sequence true (← symbol "(" cursor))

/-- A template. -/
def template (g : Grammar) (types : Bool) : Recognizer := fun cursor =>
  match cursor.rest with
  | '`' :: rest => g.part (.template types) { cursor with rest }
  | _ => none

/-- The rest of a template from the middle of its text on. -/
def templateRest (g : Grammar) (types : Bool) : Recognizer := fun cursor => do
  let (substituted, after) ← templateChunk cursor.rest
  let cursor := cursor.move after
  if substituted then
    let cursor ← if types then g.part .type cursor else g.sequence true cursor
    match cursor.rest with
    | '}' :: rest => g.part (.template types) { cursor with rest }
    | _ => none
  else return cursor

end Grammar

end ImportRank.Script
