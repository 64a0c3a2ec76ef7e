import ImportRank.Import.Indented.Reader

/-!
# The grammar of indented sources

As in scripts, each part of the grammar is a definition of its own over recognizers for the parts
it mentions. Operators need no levels, and a name means what the words around it let it mean:
`print`, `match`, `case` and `type` start statements of their own only where nothing else fits.

A block holds the lines that are indented at least as far as its first one. A colon at the end of a
line with no deeper line after it has an empty block.
-/

namespace ImportRank.Indented

open ImportRank.Recognizer (optionally)

/-- A part of the grammar that other parts mention. -/
inductive Goal where
  /-- An expression without a comma; `choice` says whether it can be a choice by a condition. -/
  | expression (choice : Bool)
  | operand
  /-- Anything in brackets. -/
  | bracketed
  | statement
  /-- A colon and what it introduces. -/
  | suite
deriving Repr, DecidableEq

/-- Recognizers for the parts of the grammar. -/
structure Grammar where
  part : Goal → Recognizer

namespace Grammar

/-! ## Expressions -/

/-- The words that stand between or after operands, and so start none. -/
def infixWords : List String := ["and", "or", "in", "is", "as", "if", "else", "for", "from"]

/-- The signs between operands. -/
def infixSigns : List String :=
  ["+", "-", "*", "/", "//", "%", "@", "**", "<<", ">>", "&", "|", "^", "==", "!=", "<>", "<", ">",
    "<=", ">=", ":="]

/-- The signs before an operand. A star is one in lists. -/
def prefixSigns : List String := ["-", "+", "~", "*", "**"]

/-- The signs that change a variable by a value. -/
def changeSigns : List String :=
  ["+=", "-=", "*=", "/=", "//=", "%=", "@=", "**=", "<<=", ">>=", "&=", "|=", "^="]

/-- Whether a token can start an expression. -/
def startsExpression (token : Token) : Bool :=
  match token.kind with
  | .word => !infixWords.contains (String.ofList token.text)
  | .number => true
  | .string => true
  | .sign => ["(", "[", "\x7b", "."].any token.isSign || prefixSigns.any token.isSign
  | _ => false

/-- A sign that is one of some. -/
def oneOf (texts : List String) : Recognizer := tokenWith fun token => texts.any token.isSign

/-- Expressions with commas between them, and perhaps one at the end. -/
def listed (g : Grammar) (choice : Bool) : Recognizer := fun reader => do
  let reader ← g.part (.expression choice) reader
  loop (fun reader =>
    match sign "," reader with
    | some after =>
      if after.startsWith startsExpression then (g.part (.expression choice) after).map some
      else some (some after)
    | none => some none) reader

/-- Expressions that can be choices by a condition, with commas between them. -/
def expressions (g : Grammar) : Recognizer := g.listed true

/-- What follows the word `yield`. -/
def yielded (g : Grammar) : Recognizer := fun reader => do
  let reader ← keyword "yield" reader
  if reader.word = "from" then g.part (.expression true) (← keyword "from" reader)
  else if reader.startsWith startsExpression then g.expressions reader
  else return reader

/-- A parameter: a name with its type and default, or a lone star or slash. -/
def parameter (g : Grammar) (typed : Bool) : Recognizer := fun reader => do
  if reader.hasSign "/" then sign "/" reader
  else
    let reader ← optionally (oneOf ["*", "**"]) reader
    if reader.hasSign "," || reader.hasSign ")" || reader.hasSign ":" then return reader
    else
      let reader ← if reader.hasSign "(" then g.part .bracketed reader else name reader
      let reader ←
        if typed && reader.hasSign ":" then g.part (.expression true) (← sign ":" reader)
        else some reader
      if reader.hasSign "=" then g.part (.expression true) (← sign "=" reader) else return reader

/-- Parameters up to a closing sign, which is left to be read. -/
def parameters (g : Grammar) (typed : Bool) (close : String) : Recognizer := loop fun reader => do
  if reader.hasSign close then return none
  else
    let reader ← g.parameter typed reader
    if reader.hasSign close then return some reader else return some (← sign "," reader)

/-- A function without a name. -/
def lambda (g : Grammar) (choice : Bool) : Recognizer := fun reader => do
  let reader ← g.parameters false ":" (← keyword "lambda" reader)
  g.part (.expression choice) (← sign ":" reader)

/-- Members, calls and subscripts after an operand. -/
def endings (g : Grammar) : Recognizer := loop fun reader => do
  if reader.hasSign "." then return some (← name (← sign "." reader))
  else if reader.hasSign "(" || reader.hasSign "[" then return some (← g.part .bracketed reader)
  else return none

/-- An operand without operators before it. -/
def primary (g : Grammar) : Recognizer := fun reader => do
  match reader.tokens with
  | token :: rest =>
    match token.kind with
    | .word =>
      if infixWords.contains reader.word then none else g.endings { reader with tokens := rest }
    | .number => g.endings { reader with tokens := rest }
    | .string => g.endings (← many (tokenWith (·.kind == .string)) reader)
    | _ =>
      if reader.hasSign "." then
        g.endings (← sign "." (← sign "." (← sign "." reader)))
      else g.endings (← g.part .bracketed reader)
  | [] => none

/-- An operand: what stands between two operators. -/
def operand (g : Grammar) : Recognizer := fun reader => do
  let word := reader.word
  if word = "not" then g.part .operand (← name reader)
  else if word = "lambda" then g.lambda true reader
  else if word = "yield" then g.yielded reader
  else if word = "await" then
    let after ← name reader
    if after.startsWith startsExpression then g.part .operand after else g.endings after
  else if prefixSigns.any reader.hasSign then g.part .operand (← oneOf prefixSigns reader)
  else g.primary reader

/-- The operator at a reader, which may be of two words. -/
def operator : Recognizer := fun reader =>
  match reader.word with
  | "and" => name reader
  | "or" => name reader
  | "in" => name reader
  | "as" => name reader
  | "is" => (name reader).bind (optionally (keyword "not"))
  | "not" => (name reader).bind (keyword "in")
  | _ => oneOf infixSigns reader

/-- What can follow an operand: an operator with its operand, or a condition with the operand for
when it does not hold. -/
def continuation (g : Grammar) (choice : Bool) (reader : Reader) : Option (Option Reader) := do
  match operator reader with
  | some after => return some (← g.part .operand after)
  | none =>
    if choice && reader.word = "if" then
      let condition ← g.part (.expression false) (← name reader)
      return some (← g.part .operand (← keyword "else" condition))
    else return none

/-- An expression without a comma. -/
def expression (g : Grammar) (choice : Bool) : Recognizer := fun reader => do
  loop (g.continuation choice) (← g.part .operand reader)

/-! ## Brackets -/

/-- The targets of a loop: operands with commas between them. -/
def targets (g : Grammar) : Recognizer := fun reader => do
  let reader ← g.part .operand reader
  loop (fun reader =>
    match sign "," reader with
    | some after =>
      if after.startsWith startsExpression then (g.part .operand after).map some
      else some (some after)
    | none => some none) reader

/-- The clauses that make an expression in brackets run over other values. -/
def clauses (g : Grammar) : Recognizer := loop fun reader => do
  if reader.word = "for" || (reader.word = "async" && ((name reader).map Reader.word) == some "for")
  then
    let reader ← keyword "for" (← optionally (keyword "async") reader)
    let reader ← keyword "in" (← g.targets reader)
    return some (← g.part (.expression false) reader)
  else if reader.word = "if" then
    return some (← g.part (.expression false) (← name reader))
  else return none

/-- An element in brackets: a value, a slice, an entry or a named argument, with clauses or not. -/
def element (g : Grammar) : Recognizer := fun reader => do
  let value : Recognizer := fun reader =>
    if reader.startsWith startsExpression then g.part (.expression true) reader else some reader
  let reader ← value reader
  let reader ← loop (fun reader => do
    if reader.hasSign ":" || reader.hasSign "=" then
      return some (← value (← oneOf [":", "="] reader))
    else return none) reader
  g.clauses reader

/-- Elements in brackets. -/
def bracketed (g : Grammar) : Recognizer := fun reader => do
  let close :=
    if reader.hasSign "(" then ")" else if reader.hasSign "[" then "]" else "\x7d"
  let reader ← oneOf ["(", "[", "\x7b"] reader
  let reader ← loop (fun reader => do
    if reader.hasSign close then return none
    else
      let reader ← g.element reader
      if reader.hasSign close then return some reader else return some (← sign "," reader)) reader
  sign close reader

/-! ## Simple statements -/

/-- Whether a word that can start a statement of its own does so: something follows that could not
follow a name. -/
def startsOwn (after : Reader) : Bool :=
  after.startsWith fun token =>
    startsExpression token && !(["(", "[", ".", "-", "+", "*", "**"].any token.isSign)

/-- A statement that is an expression: values, and variables that they are assigned to. -/
def assignment (g : Grammar) : Recognizer := fun reader => do
  let values : Recognizer := fun reader =>
    if reader.word = "yield" then g.yielded reader else g.expressions reader
  let reader ← values reader
  loop (fun reader => do
    if reader.hasSign "=" then return some (← values (← sign "=" reader))
    else if reader.hasSign ":" then
      return some (← g.part (.expression true) (← sign ":" reader))
    else if changeSigns.any reader.hasSign then
      return some (← values (← oneOf changeSigns reader))
    else return none) reader

/-- What follows the word `raise`. -/
def raised (g : Grammar) : Recognizer := fun reader => do
  let reader ←
    if reader.startsWith startsExpression then g.expressions reader else some reader
  if reader.word = "from" then g.part (.expression true) (← keyword "from" reader)
  else return reader

/-- A statement that takes part of a line. -/
def simple (g : Grammar) : Recognizer := fun reader => do
  match reader.word with
  | "import" => importStatement reader
  | "from" => importStatement reader
  | "pass" => name reader
  | "break" => name reader
  | "continue" => name reader
  | "assert" => g.expressions (← name reader)
  | "del" => g.expressions (← name reader)
  | "global" => g.expressions (← name reader)
  | "nonlocal" => g.expressions (← name reader)
  | "return" =>
    let reader ← name reader
    if reader.startsWith startsExpression then g.expressions reader else return reader
  | "raise" => g.raised (← name reader)
  | "type" =>
    let after ← name reader
    if after.word ≠ "" ∧ startsOwn after then
      let reader ← sign "=" (← g.part .operand after)
      g.part (.expression true) reader
    else g.assignment reader
  | "print" =>
    let after ← name reader
    if startsOwn after then g.expressions after else g.assignment reader
  | "exec" =>
    let after ← name reader
    if startsOwn after then g.expressions after else g.assignment reader
  | _ => g.assignment reader

/-- Simple statements with semicolons between them, up to the end of the line. -/
def simples (g : Grammar) : Recognizer := fun reader => do
  let reader ← g.simple reader
  let reader ← loop (fun reader => do
    if reader.hasSign ";" then
      let after ← sign ";" reader
      if after.startsWith fun token => match token.kind with | .line _ => true | _ => false then
        return some after
      else return some (← g.simple after)
    else return none) reader
  lineEnd reader

/-! ## Blocks -/

/-- The statements of a block at some level; the level before is taken up again after it. -/
def blockAt (g : Grammar) (level : Nat) : Recognizer := fun reader => do
  let after ← loop (fun reader =>
    if reader.tokens.isEmpty || reader.column < level then some none
    else (g.part .statement reader).map some) { reader with level }
  return { after with level := reader.level }

/-- A colon and the block it introduces, on the same line or below. -/
def suite (g : Grammar) : Recognizer := fun reader => do
  let reader ← sign ":" reader
  match lineEnd reader with
  | some below => if below.level < below.column then g.blockAt below.column below else return below
  | none => g.simples reader

/-- Whether a word starts a further clause of a statement in the current block. -/
def hasClause (reader : Reader) (word : String) : Bool :=
  reader.word = word && reader.level ≤ reader.column

/-- A clause of one word, if it is there. -/
def optionalClause (g : Grammar) (word : String) : Recognizer := fun reader => do
  if hasClause reader word then g.part .suite (← keyword word reader) else return reader

/-! ## Compound statements -/

/-- A condition with its block, from the word before it on. -/
def conditional (g : Grammar) : Recognizer := fun reader => do
  g.part .suite (← g.part (.expression true) (← name reader))

/-- A statement with conditions. -/
def ifStatement (g : Grammar) : Recognizer := fun reader => do
  let reader ← g.conditional reader
  let reader ← loop (fun reader => do
    if hasClause reader "elif" then return some (← g.conditional reader) else return none) reader
  g.optionalClause "else" reader

/-- A loop over values. -/
def forStatement (g : Grammar) : Recognizer := fun reader => do
  let reader ← keyword "in" (← g.targets (← keyword "for" reader))
  g.optionalClause "else" (← g.part .suite (← g.expressions reader))

/-- A statement with handlers, of which there is at least one, or a final block. -/
def tryStatement (g : Grammar) : Recognizer := fun reader => do
  let reader ← g.part .suite (← keyword "try" reader)
  if hasClause reader "except" || hasClause reader "finally" then
    let reader ← loop (fun reader => do
      if hasClause reader "except" then
        let reader ← optionally (sign "*") (← name reader)
        let reader ←
          if reader.startsWith startsExpression then g.expressions reader else some reader
        return some (← g.part .suite reader)
      else return none) reader
    g.optionalClause "finally" (← g.optionalClause "else" reader)
  else none

/-- A statement over entered values. -/
def withStatement (g : Grammar) : Recognizer := fun reader => do
  g.part .suite (← g.expressions (← keyword "with" reader))

/-- A function. -/
def functionDefinition (g : Grammar) : Recognizer := fun reader => do
  let reader ← name (← keyword "def" reader)
  let reader ← if reader.hasSign "[" then g.part .bracketed reader else some reader
  let reader ← sign ")" (← g.parameters true ")" (← sign "(" reader))
  let reader ←
    if reader.hasSign "->" then g.part (.expression true) (← sign "->" reader) else some reader
  g.part .suite reader

/-- A class. -/
def classDefinition (g : Grammar) : Recognizer := fun reader => do
  let reader ← name (← keyword "class" reader)
  let reader ← if reader.hasSign "[" then g.part .bracketed reader else some reader
  let reader ← if reader.hasSign "(" then g.part .bracketed reader else some reader
  g.part .suite reader

/-- The line that opens a choice by patterns, up to its first case. -/
def matchHeader (g : Grammar) : Recognizer := fun reader => do
  let after ← keyword "match" reader
  if after.startsWith startsExpression then
    let below ← lineEnd (← sign ":" (← g.expressions after))
    if below.level < below.column && below.word = "case" then return below else none
  else none

/-- The cases of a choice by patterns. A condition after the patterns is one that they stand
under. -/
def cases (g : Grammar) : Recognizer := fun reader => do
  let level := reader.column
  let after ← loop (fun reader => do
    if reader.word = "case" && level ≤ reader.column then
      let reader ← g.listed false (← name reader)
      let reader ←
        if reader.word = "if" then g.part (.expression true) (← name reader) else some reader
      return some (← g.part .suite reader)
    else return none) { reader with level }
  return { after with level := reader.level }

/-- The line of a decorator. -/
def decorator (g : Grammar) : Recognizer := fun reader => do
  lineEnd (← g.part (.expression true) (← sign "@" reader))

/-- A statement. -/
def statement (g : Grammar) : Recognizer := fun reader => do
  if reader.hasSign "@" then g.part .statement (← g.decorator reader)
  else
    match reader.word with
    | "if" => g.ifStatement reader
    | "while" => g.optionalClause "else" (← g.conditional reader)
    | "for" => g.forStatement reader
    | "try" => g.tryStatement reader
    | "with" => g.withStatement reader
    | "def" => g.functionDefinition reader
    | "class" => g.classDefinition reader
    | "async" =>
      let after ← name reader
      if ["def", "for", "with"].contains after.word then g.part .statement after
      else g.simples reader
    | "match" =>
      match g.matchHeader reader with
      | some below => g.cases below
      | none => g.simples reader
    | _ => g.simples reader

end Grammar

end ImportRank.Indented
