import ImportRank.Import.Script.Markup

/-!
# Expressions

An expression is a chain of operands with operators between them. A parenthesized list of
expressions is recognized before it is known whether it is an operand, the arguments of a call or
the parameters of an arrow function; it admits what any of them admits, type annotations
included.

The one expression that may import is a call of a bare name whose first argument is a string alone.
A comment before that string counts as an argument of its own, so in such a call the string is not
the first.
-/

namespace ImportRank.Script.Grammar

open ImportRank.Recognizer (optionally)

/-! ## Words with a meaning of their own -/

/-- The words that no operand starts with. -/
def reservedWords : List String :=
  ["break", "case", "catch", "const", "continue", "debugger", "default", "do", "else", "enum",
    "export", "extends", "finally", "for", "if", "in", "instanceof", "return", "switch", "throw",
    "try", "var", "while", "with"]

/-- The words that are operators before an operand. -/
def prefixWords : List String := ["typeof", "void", "delete"]

/-- Operators between operands. One that begins another stands after it. -/
def binaryOperators : List String :=
  [">>>=", "===", "!==", "**=", "<<=", ">>=", ">>>", "&&=", "||=", "??=", "==", "!=", "<=", ">=",
    "&&", "||", "??", "+=", "-=", "*=", "/=", "%=", "&=", "|=", "^=", "**", "<<", ">>", "+", "-",
    "*", "/", "%", "&", "|", "^", "<", ">", "="]

/-- Whether the next character cannot begin an operand, so that a word before it that may take
one does not. -/
def endsOperand (cursor : Cursor) : Bool :=
  cursor.rest.isEmpty || cursor.startsWith fun c =>
    c == ')' || c == ']' || c == '}' || c == ',' || c == ';' || c == ':' || c == '=' || c == '.'
      || c == '?' || c == '*' || c == '%' || c == '&' || c == '|' || c == '^' || c == '>'

/-! ## Imports by call -/

/-- Records the string that a call of a name takes as its only or first argument. The cursor stands
after the called name. -/
def noteArgument (g : Grammar) (name : String) (callee : Cursor) : Cursor :=
  let open? := do
    let cursor ← optionally (symbol "?.") callee
    let cursor ← if g.dialect.typed then optionally g.typeList cursor else some cursor
    symbol "(" cursor
  match open? with
  | none => callee
  | some cursor =>
    if cursor.afterComment then callee
    else
      match string? cursor with
      | some (literal, after) =>
        if after.starts "," || after.starts ")" then callee.note (.passed name.toList literal)
        else callee
      | none => callee

/-! ## Calls, members and other endings of operands -/

/-- Type arguments in an expression. They are that only where a call, a template or no operand at
all follows; elsewhere the angle bracket is an operator. -/
def typeArguments (g : Grammar) : Recognizer := fun cursor => do
  if g.dialect.typed && cursor.starts "<" then
    let cursor ← g.typeList cursor
    if cursor.starts "(" || cursor.starts "`" || endsOperand cursor || cursor.freshLine then
      return cursor
    else none
  else none

/-- A member in brackets. -/
def index (g : Grammar) : Recognizer := fun cursor => do
  symbol "]" (← g.sequence true (← symbol "[" cursor))

/-- One member, call or other ending of an operand, if one follows. -/
def ending (g : Grammar) (calls : Bool) (cursor : Cursor) : Option (Option Cursor) := do
  match cursor.rest with
  | '.' :: _ => return some (← name (← optionally (symbol "#") (← symbol "." cursor)))
  | '?' :: '.' :: c :: _ =>
    if c.isDigit || !calls then return none
    else
      let cursor ← symbol "?." cursor
      if cursor.starts "[" then return some (← g.index cursor)
      else if cursor.starts "(" then return some (← g.part .group cursor)
      else if cursor.starts "`" then return some (← g.template false cursor)
      else if cursor.starts "<" then return some (← g.part .group (← g.typeList cursor))
      else return some (← name (← optionally (symbol "#") cursor))
  | '[' :: _ => return some (← g.index cursor)
  | '(' :: _ => if calls then return some (← g.part .group cursor) else return none
  | '`' :: _ => return some (← g.template false cursor)
  | '+' :: '+' :: _ =>
    if cursor.freshLine || !calls then return none else return symbol "++" cursor
  | '-' :: '-' :: _ =>
    if cursor.freshLine || !calls then return none else return symbol "--" cursor
  | '!' :: rest =>
    if g.dialect.typed && !cursor.freshLine && rest.head? != some '=' then
      return symbol "!" cursor
    else return none
  | '<' :: _ => if calls then return g.typeArguments cursor else return none
  | _ => return none

/-- The members, calls and other endings of an operand. -/
def endings (g : Grammar) : Recognizer := loop (g.ending true)

/-! ## Functions -/

/-- What follows the arrow of a function. -/
def arrowBody (g : Grammar) : Recognizer := fun cursor => do
  let cursor ← symbol "=>" cursor
  if cursor.starts openBrace then g.part .block cursor else g.part (.expression true) cursor

/-- The parameters of a function, its result type and whatever precedes them. -/
def signature (g : Grammar) : Recognizer := fun cursor => do
  let cursor ←
    if g.dialect.typed && cursor.starts "<" then g.typeList cursor else some cursor
  g.annotation (← g.part .group cursor)

/-- What can follow a parenthesized list: an arrow with or without a result type before it, or the
endings of an operand. -/
def afterGroup (g : Grammar) : Recognizer := fun cursor =>
  if cursor.starts "=>" then g.arrowBody cursor
  else
    let typed := do
      if g.dialect.typed && cursor.starts ":" then
        let cursor ← g.annotation cursor
        if cursor.starts "=>" then some cursor else none
      else none
    match typed with
    | some cursor => g.arrowBody cursor
    | none => g.endings cursor

/-- A function from its keyword on. -/
def functionExpression (g : Grammar) : Recognizer := fun cursor => do
  let cursor ← optionally (symbol "*") (← keyword "function" cursor)
  g.part .block (← g.signature (← optionally name cursor))

/-- Decorators: each is a name with members and calls, or an expression in parentheses. -/
def decorators (g : Grammar) : Recognizer := loop fun cursor =>
  if cursor.starts "@" then do
    let cursor ← symbol "@" cursor
    if cursor.starts "(" then return some (← g.part .group cursor)
    else
      let cursor ← (name cursor).map (g.noteArgument cursor.word)
      let cursor ← loop (fun cursor => do
        if cursor.starts "." then return some (← name (← symbol "." cursor))
        else if cursor.starts "(" && !cursor.freshLine then return some (← g.part .group cursor)
        else return g.typeArguments cursor) cursor
      return some cursor
  else some none

/-! ## Lists -/

/-- A parameter's decorators and the words that make it a member. -/
def parameterStart (g : Grammar) : Recognizer := fun cursor => do
  let cursor ← g.decorators cursor
  many (fun cursor => do
    if g.dialect.typed
        && ["public", "private", "protected", "readonly", "override"].contains cursor.word then
      let after ← name cursor
      if after.hasWord || after.starts openBrace || after.starts "[" then return after else none
    else none) cursor

/-- An element between parentheses. -/
def groupElement (g : Grammar) : Recognizer := fun cursor => do
  let cursor ← g.parameterStart cursor
  let cursor ← optionally (symbol "...") cursor
  let cursor ← g.part (.expression true) cursor
  if g.dialect.typed then
    let cursor ← g.annotation (← optionally (symbol "?") cursor)
    if cursor.starts "=" then g.part (.expression true) (← symbol "=" cursor) else return cursor
  else return cursor

/-- Expressions between parentheses. -/
def group (g : Grammar) : Recognizer := fun cursor => do
  listUntil ")" g.groupElement (← symbol "(" cursor)

/-- Expressions between square brackets. -/
def array (g : Grammar) : Recognizer := fun cursor => do
  listUntil "]" (fun cursor => do g.part (.expression true) (← optionally (symbol "...") cursor))
    (← symbol "[" cursor)

/-- The name of a member of an object or class. In brackets it is any expression, or the key of an
index signature with its type. -/
def memberName (g : Grammar) : Recognizer := fun cursor => do
  if cursor.starts "[" then
    let cursor ← g.sequence true (← symbol "[" cursor)
    symbol "]" (← g.annotation cursor)
  else if cursor.hasString then string cursor
  else if cursor.hasNumber then number cursor
  else name (← optionally (symbol "#") cursor)

/-- The words and signs before a member's name. -/
def memberStart : Recognizer := fun cursor => do
  let cursor ← many (modifier memberModifiers) cursor
  if ["async", "static"].contains cursor.word then
    let after ← name cursor
    if after.starts "*" then symbol "*" after else return cursor
  else optionally (symbol "*") cursor

/-- A member of an object: a method, a value for a name, or a name alone with perhaps a default. -/
def objectMember (g : Grammar) : Recognizer := fun cursor => do
  if cursor.starts "..." then g.part (.expression true) (← symbol "..." cursor)
  else
    let cursor ← memberStart (← g.decorators cursor)
    let cursor ← g.memberName cursor
    let cursor ← if g.dialect.typed then optionally (symbol "?") cursor else some cursor
    if cursor.starts "(" || cursor.starts "<" then g.part .block (← g.signature cursor)
    else if cursor.starts ":" then g.part (.expression true) (← symbol ":" cursor)
    else if cursor.starts "=" then g.part (.expression true) (← symbol "=" cursor)
    else return cursor

/-- An object. -/
def object (g : Grammar) : Recognizer := fun cursor => do
  listUntil closeBrace g.objectMember (← symbol openBrace cursor)

/-! ## Operands -/

/-- A class from its keyword on. -/
def classExpression (g : Grammar) : Recognizer := fun cursor => do
  let cursor ← keyword "class" cursor
  let cursor ←
    if cursor.hasWord && !(["extends", "implements"].contains cursor.word) then name cursor
    else some cursor
  let typeList? : Recognizer := fun cursor =>
    if g.dialect.typed && cursor.starts "<" then g.typeList cursor else some cursor
  let cursor ← typeList? cursor
  let cursor ←
    if cursor.word = "extends" then typeList? (← g.part .operand (← keyword "extends" cursor))
    else some cursor
  let cursor ←
    if g.dialect.typed && cursor.word = "implements" then
      let cursor ← g.part .type (← keyword "implements" cursor)
      many (fun cursor => do g.part .type (← symbol "," cursor)) cursor
    else some cursor
  g.part .classBody cursor

/-- The operand of `new`, with its arguments. The name it makes an instance of is not called, so it
imports nothing. -/
def newExpression (g : Grammar) : Recognizer := fun cursor => do
  let cursor ← keyword "new" cursor
  if cursor.starts "." then name (← symbol "." cursor)
  else
    let cursor ←
      if cursor.starts "(" then g.part .group cursor
      else if cursor.word = "new" then g.part .operand cursor
      else if cursor.word = "class" then g.classExpression cursor
      else if cursor.word = "function" then g.functionExpression cursor
      else name cursor
    let cursor ← loop (g.ending false) cursor
    let cursor ← if g.dialect.typed then optionally g.typeList cursor else some cursor
    if cursor.starts "(" then g.part .group cursor else return cursor

/-- An operand that starts with a name: the name itself, or a function of one parameter. The word
`import` is only called, or asked for what is known about the script itself. -/
def named (g : Grammar) : Recognizer := fun cursor => do
  if reservedWords.contains cursor.word then none
  else
    let after ← name cursor
    if after.starts "=>" && !after.freshLine then g.arrowBody after
    else if cursor.word = "import" then
      if after.starts "(" then g.endings after
      else g.endings (← keyword "meta" (← symbol "." after))
    else g.endings (g.noteArgument cursor.word after)

/-- An operand that starts with `async`: a function of one form or another, or just a name. -/
def asyncExpression (g : Grammar) : Recognizer := fun cursor => do
  let after ← keyword "async" cursor
  if after.freshLine then g.named cursor
  else if after.word = "function" then g.endings (← g.functionExpression after)
  else if after.starts "(" then g.afterGroup (← g.part .group (g.noteArgument cursor.word after))
  else if g.dialect.typed && after.starts "<" then
    match g.typeList after with
    | some listed =>
      if listed.starts "(" then g.afterGroup (← g.part .group listed) else g.named cursor
    | none => g.named cursor
  else if after.hasWord then
    let parameter ← name after
    if parameter.starts "=>" then g.arrowBody parameter else g.named cursor
  else g.named cursor

/-- Whether an angle bracket begins the type parameters of a function although markup is admitted:
a comma or a bound after the first name tells. -/
def startsTypeParameters (cursor : Cursor) : Bool :=
  match (symbol "<" cursor).bind name with
  | some after => after.starts "," || after.word = "extends"
  | none => false

/-- A function with type parameters, where markup is admitted and could start the same way. -/
def typedArrow (g : Grammar) : Recognizer := fun cursor => do
  let cursor ← g.typeList cursor
  if cursor.starts "(" then g.arrowBody (← g.annotation (← g.part .group cursor)) else none

/-- An operand that starts with an angle bracket: an element, or type parameters or a type before
what they belong to. -/
def angled (g : Grammar) : Recognizer := fun cursor => do
  if g.dialect.typed && (!g.dialect.markup || startsTypeParameters cursor) then
    let cursor ← g.typeList cursor
    if cursor.starts "(" then g.afterGroup (← g.part .group cursor) else g.part .operand cursor
  else if g.dialect.markup then
    match if g.dialect.typed then g.typedArrow cursor else none with
    | some after => return after
    | none =>
      let cursor ← g.part .element cursor
      return cursor.move cursor.rest
  else none

/-- An operand that starts with a word. -/
def worded (g : Grammar) : Recognizer := fun cursor => do
  let word := cursor.word
  if prefixWords.contains word then g.part .operand (← name cursor)
  else if word = "await" then
    let after ← name cursor
    if endsOperand after then g.named cursor else g.part .operand after
  else if word = "yield" then
    let after ← optionally (symbol "*") (← name cursor)
    if after.freshLine || endsOperand after || ["in", "of"].contains after.word then return after
    else g.part .operand after
  else if word = "new" then g.endings (← g.newExpression cursor)
  else if word = "function" then g.endings (← g.functionExpression cursor)
  else if word = "class" then g.endings (← g.classExpression cursor)
  else if word = "async" then g.asyncExpression cursor
  else g.named cursor

/-- An operand: what stands between two operators. -/
def operand (g : Grammar) : Recognizer := fun cursor => do
  match cursor.rest with
  | '(' :: _ =>
    let after ← symbol "(" cursor
    let closed ← g.part .group cursor
    if after.starts ")" && !closed.starts "=>" && !closed.starts ":" then none
    else g.afterGroup closed
  | '[' :: _ => g.endings (← g.array cursor)
  | '{' :: _ => g.endings (← g.part .object cursor)
  | '`' :: _ => g.endings (← g.template false cursor)
  | '/' :: _ => g.endings (← pattern cursor)
  | '<' :: _ => g.angled cursor
  | '@' :: _ => g.endings (← g.classExpression (← g.decorators cursor))
  | '#' :: _ => name (← symbol "#" cursor)
  | '!' :: _ => g.part .operand (← symbol "!" cursor)
  | '~' :: _ => g.part .operand (← symbol "~" cursor)
  | '+' :: '+' :: _ => g.part .operand (← symbol "++" cursor)
  | '-' :: '-' :: _ => g.part .operand (← symbol "--" cursor)
  | '+' :: _ => g.part .operand (← symbol "+" cursor)
  | '-' :: _ => g.part .operand (← symbol "-" cursor)
  | '.' :: _ => g.endings (← number cursor)
  | c :: _ =>
    if c = '\'' ∨ c = '"' then g.endings (← string cursor)
    else if c.isDigit then g.endings (← number cursor)
    else g.worded cursor
  | [] => none

/-! ## Operators -/

/-- The operator at the cursor. An arrow is none, and neither is a doubled sign, which belongs to
the operand after it. -/
def binaryOperator (inside : Bool) : Recognizer := fun cursor =>
  if cursor.starts "=>" || cursor.starts "++" || cursor.starts "--" then none
  else if cursor.word = "instanceof" then name cursor
  else if cursor.word = "in" then if inside then name cursor else none
  else (binaryOperators.find? cursor.starts).bind (symbol · cursor)

/-- Whether a question mark makes a parameter optional rather than asking. -/
def isOptionalMark (after : Cursor) : Bool :=
  after.startsWith fun c => c == ':' || c == ',' || c == ')' || c == '='

/-- What can follow an operand: an operator with its operand, a choice between two expressions, or
a type that the operand is taken as. -/
def continuation (g : Grammar) (inside : Bool) (cursor : Cursor) : Option (Option Cursor) := do
  match binaryOperator inside cursor with
  | some after => return some (← g.part .operand after)
  | none =>
    if cursor.starts "?" then
      let after ← symbol "?" cursor
      if isOptionalMark after then return none
      else
        let chosen ← g.part (.expression true) after
        return some (← g.part .operand (← symbol ":" chosen))
    else if g.dialect.typed && !cursor.freshLine && ["as", "satisfies"].contains cursor.word then
      return some (← g.part .type (← name cursor))
    else return none

/-- An expression without a comma. -/
def expression (g : Grammar) (inside : Bool) : Recognizer := fun cursor => do
  loop (g.continuation inside) (← g.part .operand cursor)

end ImportRank.Script.Grammar
