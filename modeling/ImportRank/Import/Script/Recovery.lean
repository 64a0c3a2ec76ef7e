import ImportRank.Import.Script.Cursor

/-!
# Broken scripts

A script that is not recognized as a whole still shows some of its imports: the string in an
unfinished `import`, the string after the word `from` that follows what is exported, and the
string that opens the arguments of a complete call of `require`. They are sought token by token,
without a grammar, and no more is told than whether the string is that of a call.
-/

namespace ImportRank.Script

/-- What the tokens just passed make of a string that follows. -/
inductive Trail where
  | other
  /-- A point or the word `new`, after which `require` is no call by its bare name. -/
  | qualifier
  /-- An import statement whose file has not been named. -/
  | importing
  /-- The word `export`. -/
  | exporting
  /-- What is exported, as a list or all of it. -/
  | exported
  | callee
  | argument
  /-- A word that a name has to follow, so that the next word is one. -/
  | naming
deriving Repr, DecidableEq

/-- Where the search stands: the trail, how many brackets are open within the statement, whether
an operand has just ended, and whether an operator waits for one. -/
structure Search where
  trail : Trail
  brackets : Nat
  ended : Bool
  awaiting : Bool
deriving Repr, DecidableEq

namespace Search

/-- The search at the start of a statement. -/
def fresh : Search := { trail := .other, brackets := 0, ended := false, awaiting := false }

/-- Whether a statement can start here. Between brackets and after an operator none can. -/
def startsStatement (search : Search) : Bool := search.brackets == 0 && !search.awaiting

/-- The search after something that ends an operand. -/
def afterOperand (search : Search) (trail : Trail) : Search :=
  { search with trail, ended := true, awaiting := false }

end Search

/-- The words that a name has to follow. -/
def namingWords : List String := ["class", "const", "function", "var"]

/-- The words that start a statement, and so leave no import unfinished. -/
def statementWords : List String :=
  ["break", "continue", "debugger", "do", "else", "for", "if", "return", "switch", "throw", "try",
    "while", "with"]

namespace Search

/-- The search after a word. -/
def afterWord (search : Search) (word : String) : Search :=
  let next := search.afterOperand
  if word = "import" then
    next (if search.startsStatement ∧ search.trail ≠ .qualifier then .importing else .other)
  else if namingWords.contains word then { fresh with trail := .naming }
  else if statementWords.contains word then fresh
  else
    match search.trail with
    | .importing => next .importing
    | .naming => next .other
    | .exporting => next (if word = "type" then .exporting else .other)
    | .exported => next (if word = "from" then .importing else .exported)
    | trail =>
      if word = "export" ∧ search.startsStatement then next .exporting
      else if word = "new" then next .qualifier
      else if word = "require" ∧ trail ≠ .qualifier then next .callee
      else next .other

end Search

/-- What follows a template, substitutions and all, as if they were text. -/
def templateEnd : List Char → List Char
  | [] => []
  | '\\' :: _ :: rest => templateEnd rest
  | '`' :: rest => rest
  | _ :: rest => templateEnd rest

/-- What follows a list of names up to its closing brace; nothing if something else stands in it. -/
def namesEnd : List Char → Option (List Char)
  | [] => none
  | '}' :: rest => some rest
  | c :: rest => if isWordChar c || Text.isSpacing c || c == ',' then namesEnd rest else none

/-- Whether as many brackets close in a text as are open before it. -/
def closes : Nat → List Char → Bool
  | 0, _ => true
  | _, [] => false
  | count + 1, c :: rest =>
    if c = '(' ∨ c = '[' ∨ c = '{' then closes (count + 2) rest
    else if c = ')' ∨ c = ']' ∨ c = '}' then closes count rest
    else closes (count + 1) rest

/-- The signs that an operand follows, where one stands before. -/
def operatorSigns : List Char := "=+-*/%&|^<?!~,".toList

/-- The search after a sign, and what follows it. -/
def Search.afterSign (search : Search) (sign : Char) (rest : List Char) : Search × List Char :=
  let plain : Search := { search with trail := .other }
  let names (trail : Trail) : Search × List Char :=
    match namesEnd rest with
    | some after => ({ search with trail }, after)
    | none => ({ Search.fresh with brackets := search.brackets }, rest)
  match sign with
  | '`' => (search.afterOperand .other, templateEnd rest)
  | '.' => (if search.trail = .importing then search else { search with trail := .qualifier }, rest)
  | '(' =>
    let called := search.trail == .callee && !(Cursor.start rest).afterComment
    ({ plain with
      trail := if called then .argument else .other
      brackets := search.brackets + 1 }, rest)
  | '[' => ({ plain with brackets := search.brackets + 1 }, rest)
  | ')' => ({ search.afterOperand .other with brackets := search.brackets - 1 }, rest)
  | ']' => ({ search.afterOperand .other with brackets := search.brackets - 1 }, rest)
  | '}' => (search.afterOperand .other, rest)
  | ';' => (.fresh, rest)
  | '{' =>
    match search.trail with
    | .importing => names .importing
    | .exporting => names .exported
    | _ => ({ Search.fresh with brackets := search.brackets }, rest)
  | sign =>
    if search.trail = .importing ∨ search.trail = .naming then (search, rest)
    else if sign = '*' ∧ search.trail = .exporting then ({ search with trail := .exported }, rest)
    else if operatorSigns.contains sign then
      ({ plain with awaiting := search.ended || search.awaiting, ended := false }, rest)
    else (plain, rest)

/-- Seeks imports token by token. -/
def seek : Nat → Search → Cursor → Cursor
  | 0, _, cursor => cursor
  | count + 1, search, cursor =>
    match string? cursor with
    | some (literal, after) =>
      let called := search.trail == .argument &&
        (after.starts ";" || ((after.starts "," || after.starts ")") && closes 1 after.rest))
      seek count (search.afterOperand .other)
        (if search.trail = .importing then after.note (.imported literal)
        else if called then after.note (.passed "require".toList literal)
        else after)
    | none =>
      match name cursor with
      | some after => seek count (search.afterWord cursor.word) after
      | none =>
        match cursor.rest with
        | [] => cursor
        | sign :: rest =>
          let (search, after) := search.afterSign sign rest
          seek count search (cursor.move after)

end ImportRank.Script
