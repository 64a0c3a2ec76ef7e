import ImportRank.Import.Script.Expression

/-!
# Statements

A statement ends at a semicolon, or where one may be left out: before a closing brace, at the end
of the script, and at the end of a line. Import statements and exports from a file name that file
in a string after `from`, or an import names it alone.
-/

namespace ImportRank.Script.Grammar

open ImportRank.Recognizer (optionally)

/-- The end of a statement. -/
def endStatement : Recognizer := fun cursor =>
  if cursor.starts ";" then symbol ";" cursor
  else if cursor.rest.isEmpty || cursor.starts closeBrace || cursor.freshLine then some cursor
  else none

/-- Statements up to a closing brace, the end, or one of some words. -/
def statements (g : Grammar) (stops : List String) : Recognizer := loop fun cursor =>
  if cursor.rest.isEmpty || cursor.starts closeBrace || stops.contains cursor.word then some none
  else (g.part .statement cursor).map some

/-- Statements in braces. -/
def block (g : Grammar) : Recognizer := fun cursor => do
  symbol closeBrace (← g.statements [] (← symbol openBrace cursor))

/-! ## Declarations -/

/-- What stands after a function's signature: a body, or in typed scripts also nothing. -/
def bodyOrEnd (g : Grammar) : Recognizer := fun cursor =>
  if cursor.starts openBrace then g.part .block cursor
  else if g.dialect.typed then endStatement cursor
  else none

/-- A function declaration from its keyword on. -/
def functionDeclaration (g : Grammar) : Recognizer := fun cursor => do
  let cursor ← optionally (symbol "*") (← keyword "function" cursor)
  g.bodyOrEnd (← g.signature (← optionally name cursor))

/-- A variable with its type and value. After `let`, typed scripts take `as` and `satisfies` for
operators on a variable of that name. -/
def declarator (g : Grammar) (inside : Bool) (opening : String) : Recognizer := fun cursor => do
  let cursor ←
    if cursor.starts "[" then g.array cursor
    else if cursor.starts openBrace then g.part .object cursor
    else if reservedWords.contains cursor.word then none
    else if g.dialect.typed && opening = "let" && ["as", "satisfies"].contains cursor.word then none
    else name cursor
  let cursor ← if g.dialect.typed then optionally (symbol "!") cursor else some cursor
  let cursor ← g.annotation cursor
  if cursor.starts "=" && !cursor.starts "==" then
    g.part (.expression inside) (← symbol "=" cursor)
  else return cursor

/-- Variables after the word that declares them. -/
def declarators (g : Grammar) (inside : Bool) : Recognizer := fun cursor => do
  let opening := cursor.word
  let cursor ← g.declarator inside opening (← name cursor)
  many (fun cursor => do g.declarator inside "" (← symbol "," cursor)) cursor

/-- Whether variables are declared at the cursor: by a word that does nothing else, or by one that
a name or a pattern follows. -/
def startsVariables (cursor : Cursor) : Bool :=
  match name cursor with
  | some after =>
    if cursor.word = "var" then true
    else if cursor.word = "const" then after.word != "enum"
    else if cursor.word = "let" then
      (after.hasWord && !(["in", "instanceof", "of"].contains after.word)) || after.starts "["
        || after.starts openBrace || (after.word = "of" && !after.freshLine)
    else if cursor.word = "using" then
      after.hasWord && !after.freshLine && !(["in", "instanceof", "of"].contains after.word)
    else false
  | none => false

/-- A member of a class. -/
def classMember (g : Grammar) : Recognizer := fun cursor => do
  let cursor ← g.decorators cursor
  let unlabelled := (name cursor).filter fun after => cursor.word = "static" && after.starts openBrace
  match unlabelled with
  | some after => g.part .block after
  | none =>
    let cursor ← g.memberName (← memberStart cursor)
    let cursor ← if g.dialect.typed then
        optionally (symbol "!") (← optionally (symbol "?") cursor) else some cursor
    if cursor.starts "(" || cursor.starts "<" then
      let cursor ← g.signature cursor
      if cursor.starts openBrace then g.part .block cursor
      else if g.dialect.typed then optionally (symbol ";") cursor
      else none
    else
      let cursor ← g.annotation cursor
      let cursor ←
        if cursor.starts "=" then g.part (.expression true) (← symbol "=" cursor) else some cursor
      endStatement cursor

/-- The members of a class in braces. -/
def classBody (g : Grammar) : Recognizer := fun cursor => do
  let cursor ← symbol openBrace cursor
  let cursor ← loop (fun cursor =>
    if cursor.starts closeBrace then some none
    else if cursor.starts ";" then some (symbol ";" cursor)
    else (g.classMember cursor).map some) cursor
  symbol closeBrace cursor

/-! ## Imports and exports -/

/-- The attributes of an import. -/
def attributes (g : Grammar) : Recognizer := fun cursor =>
  if ["with", "assert"].contains cursor.word then
    match name cursor with
    | some after => if after.starts openBrace then g.part .object after else some cursor
    | none => some cursor
  else some cursor

/-- The word `from` and a file, with attributes. -/
def fromFile (g : Grammar) (mention : List Char → Mention) : Recognizer := fun cursor => do
  g.attributes (← file mention (← keyword "from" cursor))

/-- Names in braces, each with another name or not. -/
def nameList : Recognizer := fun cursor => do
  let one : Recognizer := fun cursor => if cursor.hasString then string cursor else name cursor
  listUntil closeBrace (fun cursor => do many one (← one cursor)) (← symbol openBrace cursor)

/-- Everything under one name. -/
def everything : Recognizer := fun cursor => do
  name (← keyword "as" (← symbol "*" cursor))

/-- What an import statement imports, up to the word `from`. -/
def importClause : Recognizer := fun cursor => do
  let several : Recognizer := fun cursor =>
    if cursor.starts "*" then everything cursor else nameList cursor
  if cursor.hasWord then
    let cursor ← name cursor
    if cursor.starts "," then several (← symbol "," cursor) else return cursor
  else several cursor

/-- Whether a word after `import` says how to import rather than what. -/
def isImportManner (g : Grammar) (cursor after : Cursor) : Bool :=
  let manners := if g.dialect.typed then ["type", "typeof"] else ["defer", "source"]
  manners.contains cursor.word
    && (after.starts openBrace || after.starts "*"
      || (after.hasWord
        && (after.word != "from" || ((name after).map fun next => next.word == "from").getD false)))

/-- An import statement from its keyword on. In typed scripts it may also give a name to another
name or to what a call requires; the latter names no file here. -/
def importStatement (g : Grammar) : Recognizer := fun cursor => do
  let cursor ← keyword "import" cursor
  if cursor.hasString then endStatement (← g.attributes (← file .imported cursor))
  else
    let cursor := match name cursor with
      | some after => if g.isImportManner cursor after then after else cursor
      | none => cursor
    let alias? := (name cursor).filter fun after => g.dialect.typed && after.starts "="
    match alias? with
    | some after =>
      let cursor ← symbol "=" after
      let path ← path cursor
      if cursor.word = "require" && path.starts "(" then
        endStatement (← symbol ")" (← string (← symbol "(" path)))
      else endStatement path
    | none => endStatement (← g.fromFile .imported (← importClause cursor))

/-- Declarations that a default export can have. -/
def isDeclaration (g : Grammar) (cursor : Cursor) : Bool :=
  match name cursor with
  | some after =>
    ["function", "class"].contains cursor.word
      || (cursor.word = "async" && after.word = "function" && !after.freshLine)
      || (g.dialect.typed && cursor.word = "abstract" && after.word = "class")
      || (g.dialect.typed && cursor.word = "interface" && after.hasWord)
  | none => cursor.starts "@"

/-- An export statement. -/
def exportStatement (g : Grammar) : Recognizer := fun cursor => do
  let cursor ← keyword "export" cursor
  let cursor := match name cursor with
    | some after =>
      if g.dialect.typed && cursor.word = "type" && (after.starts openBrace || after.starts "*") then after
      else cursor
    | none => cursor
  if cursor.starts "*" then
    let cursor ← symbol "*" cursor
    let cursor ←
      if cursor.word = "as" then
        let cursor ← keyword "as" cursor
        if cursor.hasString then string cursor else name cursor
      else some cursor
    endStatement (← g.fromFile .exported cursor)
  else if cursor.starts openBrace then
    let cursor ← nameList cursor
    if cursor.word = "from" then endStatement (← g.fromFile .exported cursor)
    else endStatement cursor
  else if cursor.word = "default" then
    let cursor ← keyword "default" cursor
    if g.isDeclaration cursor then g.part .statement cursor
    else endStatement (← g.sequence true cursor)
  else if g.dialect.typed && cursor.starts "=" then
    endStatement (← g.sequence true (← symbol "=" cursor))
  else if g.dialect.typed && cursor.word = "as" then
    endStatement (← name (← keyword "namespace" (← keyword "as" cursor)))
  else g.part .statement cursor

/-! ## Typed declarations -/

/-- Type parameters, if there are any. -/
def typeParameters (g : Grammar) : Recognizer := fun cursor =>
  if cursor.starts "<" then g.typeList cursor else some cursor

/-- An interface from its keyword on. -/
def interfaceDeclaration (g : Grammar) : Recognizer := fun cursor => do
  let cursor ← g.typeParameters (← name (← keyword "interface" cursor))
  let cursor ←
    if cursor.word = "extends" then
      let cursor ← g.part .type (← keyword "extends" cursor)
      many (fun cursor => do g.part .type (← symbol "," cursor)) cursor
    else some cursor
  g.part .typeMembers cursor

/-- An enumeration from its keyword on. -/
def enumDeclaration (g : Grammar) : Recognizer := fun cursor => do
  let cursor ← symbol openBrace (← name (← keyword "enum" cursor))
  listUntil closeBrace
    (fun cursor => do
      let cursor ← g.memberName cursor
      if cursor.starts "=" then g.part (.expression true) (← symbol "=" cursor) else return cursor)
    cursor

/-- A type with a name, from its keyword on. -/
def typeDeclaration (g : Grammar) : Recognizer := fun cursor => do
  let cursor ← g.typeParameters (← name (← keyword "type" cursor))
  endStatement (← g.part .type (← symbol "=" cursor))

/-- A namespace or the declaration of a module, from its keyword on. -/
def namespaceDeclaration (g : Grammar) : Recognizer := fun cursor => do
  let cursor ← name cursor
  let cursor ← if cursor.hasString then string cursor else path cursor
  if cursor.starts openBrace then g.part .block cursor else endStatement cursor

/-- A statement that only typed scripts have, with the word and the cursor after it. -/
def typedStatement (g : Grammar) (cursor after : Cursor) : Option Recognizer :=
  let follows := after.hasWord && !after.freshLine
  let word := cursor.word
  if !g.dialect.typed then none
  else if word = "interface" && follows then some g.interfaceDeclaration
  else if word = "enum" then some g.enumDeclaration
  else if word = "const" && after.word = "enum" then some fun cursor => do
    g.enumDeclaration (← name cursor)
  else if word = "type" && follows && !(["in", "instanceof", "as", "satisfies"].contains after.word)
    then some g.typeDeclaration
  else if ["namespace", "module"].contains word && (follows || after.hasString) then
    some g.namespaceDeclaration
  else if word = "global" && after.starts openBrace then some fun cursor => do
    g.part .block (← name cursor)
  else if (word = "declare" && follows) || (word = "abstract" && after.word = "class") then
    some fun cursor => do g.part .statement (← name cursor)
  else none

/-! ## Control -/

/-- The clauses of a `for` statement in their parentheses. -/
def forClauses (g : Grammar) : Recognizer := fun cursor => do
  let cursor ← symbol "(" cursor
  let cursor ←
    if cursor.starts ";" then some cursor
    else if startsVariables cursor then g.declarators false cursor
    else g.sequence false cursor
  if ["of", "in"].contains cursor.word then
    symbol ")" (← g.sequence true (← name cursor))
  else
    let cursor ← symbol ";" cursor
    let cursor ← if cursor.starts ";" then some cursor else g.sequence true cursor
    let cursor ← symbol ";" cursor
    let cursor ← if cursor.starts ")" then some cursor else g.sequence true cursor
    symbol ")" cursor

/-- A case of a `switch` statement with its statements. -/
def switchCase (g : Grammar) : Recognizer := fun cursor => do
  let cursor ←
    if cursor.word = "default" then name cursor
    else g.sequence true (← keyword "case" cursor)
  g.statements ["case", "default"] (← symbol ":" cursor)

/-- A `try` statement from its keyword on. -/
def tryStatement (g : Grammar) : Recognizer := fun cursor => do
  let cursor ← g.part .block (← keyword "try" cursor)
  let cursor ←
    if cursor.word = "catch" then
      let cursor ← keyword "catch" cursor
      let cursor ← if cursor.starts "(" then g.part .group cursor else some cursor
      g.part .block cursor
    else some cursor
  if cursor.word = "finally" then g.part .block (← keyword "finally" cursor) else return cursor

/-- A statement that one of the reserved words starts. -/
def control (g : Grammar) (word : String) : Option Recognizer :=
  match word with
  | "if" => some fun cursor => do
    let cursor ← g.part .statement (← g.condition (← name cursor))
    if cursor.word = "else" then g.part .statement (← name cursor) else return cursor
  | "for" => some fun cursor => do
    let cursor ← optionally (keyword "await") (← name cursor)
    g.part .statement (← g.forClauses cursor)
  | "while" => some fun cursor => do g.part .statement (← g.condition (← name cursor))
  | "with" => some fun cursor => do g.part .statement (← g.condition (← name cursor))
  | "do" => some fun cursor => do
    let cursor ← g.part .statement (← name cursor)
    optionally (symbol ";") (← g.condition (← keyword "while" cursor))
  | "return" => some fun cursor => do
    let cursor ← name cursor
    match endStatement cursor with
    | some ended => return ended
    | none => endStatement (← g.sequence true cursor)
  | "throw" => some fun cursor => do endStatement (← g.sequence true (← name cursor))
  | "break" => some fun cursor => do
    let cursor ← name cursor
    endStatement (if cursor.freshLine then cursor else (name cursor).getD cursor)
  | "continue" => some fun cursor => do
    let cursor ← name cursor
    endStatement (if cursor.freshLine then cursor else (name cursor).getD cursor)
  | "debugger" => some fun cursor => do endStatement (← name cursor)
  | "switch" => some fun cursor => do
    let cursor ← symbol openBrace (← g.condition (← name cursor))
    symbol closeBrace (← loop (fun cursor =>
      if cursor.starts closeBrace then some none else (g.switchCase cursor).map some) cursor)
  | "try" => some g.tryStatement
  | "export" => some g.exportStatement
  | _ => none

/-- A statement that starts with a word. -/
def wordedStatement (g : Grammar) (cursor after : Cursor) : Option Cursor := do
  let word := cursor.word
  match g.typedStatement cursor after with
  | some r => r cursor
  | none =>
    match g.control word with
    | some r => r cursor
    | none =>
      if word = "import" && !after.starts "(" && !after.starts "." then g.importStatement cursor
      else if word = "function" then g.functionDeclaration cursor
      else if word = "async" && after.word = "function" && !after.freshLine then
        g.functionDeclaration after
      else if word = "class" then g.classExpression cursor
      else if startsVariables cursor then endStatement (← g.declarators true cursor)
      else if word = "await" && after.word = "using" && startsVariables after then
        endStatement (← g.declarators true after)
      else if after.starts ":" then g.part .statement (← symbol ":" after)
      else endStatement (← g.sequence true cursor)

/-- A statement. In place of one there may be a comment that ends with its line, in the form that
markup has for comments. -/
def statement (g : Grammar) : Recognizer := fun cursor => do
  if cursor.starts "<!--" || cursor.starts "-->" then
    return cursor.move (cursor.rest.dropWhile (!isLineEnd ·))
  else if cursor.starts openBrace then g.part .block cursor
  else if cursor.starts ";" then symbol ";" cursor
  else if cursor.starts "@" then g.part .statement (← g.decorators cursor)
  else
    match name cursor with
    | some after => g.wordedStatement cursor after
    | none => endStatement (← g.sequence true cursor)

end ImportRank.Script.Grammar
