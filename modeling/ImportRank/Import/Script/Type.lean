import ImportRank.Import.Script.Goal

/-!
# Types

Type annotations import nothing, whatever text they hold; they are recognized so that what
follows them is. The forms of type parameters and type arguments, and of parenthesized types and
parameter lists, are each recognized as one: whichever is meant, they end at the same place.
-/

namespace ImportRank.Script.Grammar

open ImportRank.Recognizer (optionally)

/-- Whether what stands at a cursor can begin the name of a member. -/
def startsMember (cursor : Cursor) : Bool :=
  cursor.hasString || cursor.startsWith fun c => isWordChar c || c == '[' || c == '#'

/-- A word that is only there to say more about the word after it, one of some. -/
def modifier (words : List String) : Recognizer := fun cursor => do
  if words.contains cursor.word then
    let after ← name cursor
    if startsMember after then return after else none
  else none

/-- The words that can stand before a member's name. -/
def memberModifiers : List String :=
  ["static", "async", "get", "set", "readonly", "public", "private", "protected", "declare",
    "abstract", "override", "accessor", "new", "export"]

/-- Words with points between them. -/
def path : Recognizer := fun cursor => do
  let cursor ← name cursor
  many (fun cursor => do name (← optionally (symbol "#") (← symbol "." cursor))) cursor

/-- Whether a single sign stands at the cursor, and not a longer operator that begins with it. -/
def hasSingle (sign : Char) (cursor : Cursor) : Bool :=
  match cursor.rest with
  | c :: d :: _ => c == sign && d != sign && d != '='
  | [c] => c == sign
  | [] => false

/-- Type parameters or type arguments, from the angle bracket on. -/
def typeList (g : Grammar) : Recognizer := fun cursor => do
  let cursor ← symbol "<" cursor
  listUntil ">"
    (fun cursor => do
      let cursor ← many (modifier ["const", "in", "out"]) cursor
      let cursor ← g.part .type cursor
      if hasSingle '=' cursor then g.part .type (← symbol "=" cursor) else return cursor)
    cursor

/-- The elements of a parenthesized type, a parameter list or a tuple. -/
def typeElements (g : Grammar) (close : String) : Recognizer :=
  listUntil close fun cursor => do
    let cursor ← optionally (symbol "...") cursor
    let cursor ← g.part .type cursor
    let cursor ← optionally (symbol "?") cursor
    let cursor ← if cursor.starts ":" then g.part .type (← symbol ":" cursor) else some cursor
    if hasSingle '=' cursor then g.part (.expression true) (← symbol "=" cursor) else return cursor

/-- Types joined by bars or ampersands; one may stand before the first. -/
def union (g : Grammar) : Recognizer := fun cursor => do
  let sign : Recognizer := fun cursor =>
    if hasSingle '|' cursor then symbol "|" cursor
    else if hasSingle '&' cursor then symbol "&" cursor
    else none
  let cursor ← g.part .typeOperand (← optionally sign cursor)
  loop (fun cursor =>
    match sign cursor with
    | some cursor => (g.part .typeOperand cursor).map some
    | none => some none) cursor

/-- A type: a union, a choice by a bound, or a predicate on a name. -/
def type (g : Grammar) : Recognizer := fun cursor => do
  let cursor ← g.union cursor
  if cursor.word = "extends" then
    let cursor ← g.union (← keyword "extends" cursor)
    let cursor ←
      if cursor.word = "extends" then g.union (← keyword "extends" cursor) else some cursor
    if cursor.starts "?" then
      let cursor ← g.part .type (← symbol "?" cursor)
      g.part .type (← symbol ":" cursor)
    else return cursor
  else if cursor.word = "is" && !cursor.freshLine then g.part .type (← keyword "is" cursor)
  else return cursor

/-- Whether a word says more about the type after it. -/
def isTypePrefix (cursor : Cursor) (after : Cursor) : Bool :=
  let word := cursor.word
  if ["keyof", "readonly", "typeof"].contains word then
    startsMember after || after.startsWith fun c => c == '(' || c == '{' || c == '`'
  else if ["asserts", "unique", "infer", "abstract"].contains word then
    after.hasWord && !(["is", "extends"].contains after.word) && !after.freshLine
  else word = "new" && after.startsWith fun c => c == '(' || c == '<'

/-- What a type is put together from, before any brackets after it. -/
def typePrimary (g : Grammar) : Recognizer := fun cursor =>
  match cursor.rest with
  | '{' :: _ => g.part .typeMembers cursor
  | '[' :: _ => do g.typeElements "]" (← symbol "[" cursor)
  | '`' :: _ => g.template true cursor
  | '-' :: _ => do number (← symbol "-" cursor)
  | c :: _ =>
    if c = '\'' ∨ c = '"' then string cursor
    else if c.isDigit then number cursor
    else do
      let cursor ← if cursor.word = "import" then do
          let cursor ← g.typeElements ")" (← symbol "(" (← name cursor))
          many (fun cursor => do name (← symbol "." cursor)) cursor
        else path cursor
      if cursor.starts "<" && !cursor.freshLine then g.typeList cursor else return cursor
  | [] => none

/-- Brackets after a type: an array of it or a member of it. -/
def typeBrackets (g : Grammar) : Recognizer := loop fun cursor =>
  if cursor.starts "[" && !cursor.freshLine then do
    let cursor ← symbol "[" cursor
    if cursor.starts "]" then return symbol "]" cursor
    else return some (← symbol "]" (← g.part .type cursor))
  else some none

/-- A type without operators between types. -/
def typeOperand (g : Grammar) : Recognizer := fun cursor => do
  if cursor.starts "(" then
    let cursor ← g.typeElements ")" (← symbol "(" cursor)
    if cursor.starts "=>" then g.part .type (← symbol "=>" cursor) else g.typeBrackets cursor
  else if cursor.starts "<" then
    let cursor ← g.typeElements ")" (← symbol "(" (← g.typeList cursor))
    g.part .type (← symbol "=>" cursor)
  else
    match name cursor with
    | some after =>
      if isTypePrefix cursor after then g.part .typeOperand after
      else g.typeBrackets (← g.typePrimary cursor)
    | none => g.typeBrackets (← g.typePrimary cursor)

/-- A type after a colon, if there is one. -/
def annotation (g : Grammar) : Recognizer := fun cursor => do
  if g.dialect.typed && cursor.starts ":" then g.part .type (← symbol ":" cursor) else return cursor

/-- The parameters and the result of a member of a type. -/
def typeSignature (g : Grammar) : Recognizer := fun cursor => do
  let cursor ← if cursor.starts "<" then g.typeList cursor else some cursor
  let cursor ← g.typeElements ")" (← symbol "(" cursor)
  if cursor.starts ":" then g.part .type (← symbol ":" cursor) else return cursor

/-- The name of a member of a type, in brackets or not. -/
def typeMemberName (g : Grammar) : Recognizer := fun cursor => do
  if cursor.starts "[" then
    let cursor ← g.part .type (← symbol "[" cursor)
    let cursor ← if cursor.starts ":" then g.part .type (← symbol ":" cursor) else some cursor
    let cursor ← if cursor.word = "in" then g.part .type (← keyword "in" cursor) else some cursor
    let cursor ← if cursor.word = "as" then g.part .type (← keyword "as" cursor) else some cursor
    symbol "]" cursor
  else if cursor.hasString then string cursor
  else if cursor.startsWith Char.isDigit then number cursor
  else name (← optionally (symbol "#") cursor)

/-- A sign in front of a word that it turns on or off. -/
def toggle : Recognizer := fun cursor =>
  if cursor.startsWith fun c => c == '+' || c == '-' then some (cursor.move (cursor.rest.drop 1))
  else none

/-- A member of an object type. -/
def typeMember (g : Grammar) : Recognizer := fun cursor => do
  let cursor ← many (modifier memberModifiers) (← optionally toggle cursor)
  let cursor ← if cursor.word = "new" then
      let after ← keyword "new" cursor
      some (if after.starts "(" || after.starts "<" then after else cursor)
    else some cursor
  let cursor ←
    if cursor.starts "(" || cursor.starts "<" then some cursor
    else
      let cursor ← optionally toggle (← g.typeMemberName cursor)
      optionally (symbol "!") (← optionally (symbol "?") cursor)
  if cursor.starts "(" || cursor.starts "<" then g.typeSignature cursor
  else if cursor.starts ":" then g.part .type (← symbol ":" cursor)
  else return cursor

/-- An object type. -/
def typeMembers (g : Grammar) : Recognizer := fun cursor => do
  let cursor ← symbol openBrace cursor
  let cursor ← loop (fun cursor => do
    if cursor.starts closeBrace then return none
    else if cursor.starts ";" then return symbol ";" cursor
    else if cursor.starts "," then return symbol "," cursor
    else
      let cursor ← g.typeMember cursor
      if cursor.starts closeBrace || cursor.starts ";" || cursor.starts "," || cursor.freshLine then
        return some cursor
      else none) cursor
  symbol closeBrace cursor

end ImportRank.Script.Grammar
