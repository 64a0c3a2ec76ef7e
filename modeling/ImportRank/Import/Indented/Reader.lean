import ImportRank.Import.Indented.Token
import ImportRank.Import.Recognizer

/-!
# Reading indented sources

A `Reader` stands before a token of an indented source. It knows how far the current line is
indented and how far the lines of the current block are at least, and carries the import statements
found so far, the last one first.
-/

namespace ImportRank.Indented

open ImportRank.Recognizer (steps)

/-- A name in an import statement as it is written, with another name for it or not. -/
structure Clause where
  name : String
  other : Option String
deriving Repr, DecidableEq

/-- An import statement as it is written. -/
inductive Written where
  /-- The names of modules. -/
  | modules (items : List Clause)
  /-- Members of the module that some dots and a name lead to; none are named for all of them. -/
  | members (level : Nat) (module : Option String) (items : List Clause)
  /-- Features of the language itself, which no file holds. -/
  | features (items : List Clause)
deriving Repr, DecidableEq

/-- A place in an indented source. -/
structure Reader where
  tokens : List Token
  column : Nat
  level : Nat
  found : List Written
deriving Repr, DecidableEq

/-- Moves a reader past something, or fails. -/
abbrev Recognizer := ImportRank.Recognizer Reader

namespace Token

/-- Whether a token is a sign of some text. -/
def isSign (token : Token) (text : String) : Bool :=
  token.kind == .sign && token.text == text.toList

/-- Whether a token is a word. -/
def isWord (token : Token) : Bool := token.kind == .word

end Token

namespace Reader

/-- The reader before the first token. -/
def start (tokens : List Token) : Reader := { tokens, column := 0, level := 0, found := [] }

/-- The word at the reader; empty where no word stands. -/
def word (reader : Reader) : String :=
  match reader.tokens with
  | token :: _ => if token.isWord then String.ofList token.text else ""
  | [] => ""

/-- Whether a sign stands at the reader. -/
def hasSign (reader : Reader) (text : String) : Bool :=
  match reader.tokens with
  | token :: _ => token.isSign text
  | [] => false

/-- Whether the first token has a property. -/
def startsWith (reader : Reader) (p : Token → Bool) : Bool :=
  match reader.tokens with
  | token :: _ => p token
  | [] => false

/-- Records an import statement. -/
def note (reader : Reader) (written : Written) : Reader :=
  { reader with found := written :: reader.found }

end Reader

/-- Any token with a property. -/
def tokenWith (p : Token → Bool) : Recognizer := fun reader =>
  match reader.tokens with
  | token :: rest => if p token then some { reader with tokens := rest } else none
  | [] => none

/-- A sign. -/
def sign (text : String) : Recognizer := tokenWith (·.isSign text)

/-- Any word. -/
def name : Recognizer := tokenWith Token.isWord

/-- One particular word. -/
def keyword (text : String) : Recognizer :=
  tokenWith fun token => token.isWord && String.ofList token.text == text

/-- The end of a line. -/
def lineEnd : Recognizer := fun reader =>
  match reader.tokens with
  | ⟨.line indentation, _, _⟩ :: rest => some { reader with tokens := rest, column := indentation }
  | _ => none

/-- Takes steps as long as there are tokens for them: each takes some. -/
def loop (step : Reader → Option (Option Reader)) : Recognizer := fun reader =>
  steps step reader.tokens reader

/-- Takes steps as long as they succeed. -/
def many (r : Recognizer) : Recognizer := loop fun reader => some (r reader)

/-! ## Import statements -/

/-- The rest of a dotted name as written, and the tokens after it. -/
def dottedRest : List Token → List Char × List Token
  | dot :: next :: rest =>
    if dot.isSign "." && next.isWord then
      let (text, after) := dottedRest rest
      (dot.gap ++ dot.text ++ next.gap ++ next.text ++ text, after)
    else ([], dot :: next :: rest)
  | tokens => ([], tokens)

/-- A dotted name as written, and the tokens after it. -/
def dottedName : List Token → Option (String × List Token)
  | token :: rest =>
    if token.isWord then
      let (text, after) := dottedRest rest
      some (String.ofList (token.text ++ text), after)
    else none
  | [] => none

/-- A dotted name, with another name for it or not. -/
def importedName (tokens : List Token) : Option (Clause × List Token) := do
  let (name, after) ← dottedName tokens
  match after with
  | word :: rest =>
    if word.isWord && word.text == "as".toList then
      match rest with
      | other :: after =>
        if other.isWord then return ({ name, other := some (String.ofList other.text) }, after)
        else none
      | [] => none
    else return ({ name, other := none }, after)
  | [] => return ({ name, other := none }, after)

/-- At most some number of imported names with commas between them, and perhaps one at the end. -/
def importedNames : Nat → List Token → Option (List Clause × List Token)
  | 0, _ => none
  | count + 1, tokens => do
    let (item, after) ← importedName tokens
    match after with
    | comma :: rest =>
      if comma.isSign "," then
        match importedNames count rest with
        | some (items, after) => return (item :: items, after)
        | none => return ([item], rest)
      else return ([item], after)
    | [] => return ([item], after)

/-- The names after the word `import`; none for a wildcard. -/
def fromNames (tokens : List Token) : Option (List Clause × List Token) :=
  match tokens with
  | token :: rest =>
    if token.isSign "*" then some ([], rest)
    else if token.isSign "(" then
      match importedNames rest.length rest with
      | some (items, close :: after) => if close.isSign ")" then some (items, after) else none
      | _ => none
    else importedNames tokens.length tokens
  | [] => none

/-- The dots in front of a relative name: their number and the tokens after them. -/
def leadingDots : List Token → Nat × List Token
  | token :: rest =>
    if token.isSign "." then
      let (count, after) := leadingDots rest
      (count + 1, after)
    else (0, token :: rest)
  | [] => (0, [])

/-- The word `import` and the names after it. -/
def importPart (tokens : List Token) : Option (List Clause × List Token) :=
  match tokens with
  | token :: rest =>
    if token.isWord && token.text == "import".toList then fromNames rest else none
  | [] => none

/-- What follows the word `from`, and the tokens after it. Features of the language itself are asked
for by a name of their own. -/
def fromImport (tokens : List Token) : Option (Written × List Token) := do
  let (level, rest) := leadingDots tokens
  match dottedName rest with
  | some (module, after) =>
    if module = "import" ∧ level ≠ 0 then
      let (items, after) ← importPart rest
      return (.members level none items, after)
    else
      let (items, after) ← importPart after
      if module = "__future__" ∧ level = 0 then return (.features items, after)
      else return (.members level (some module) items, after)
  | none => none

/-- What follows the word `import`, and the tokens after it. -/
def plainImports (tokens : List Token) : Option (Written × List Token) := do
  let (items, after) ← importedNames tokens.length tokens
  return (.modules items, after)

/-- An import statement of either form. -/
def importStatement : Recognizer := fun reader => do
  let (written, after) ←
    match reader.tokens with
    | token :: rest =>
      if token.text = "import".toList then plainImports rest else fromImport rest
    | [] => none
  return { reader.note written with tokens := after }

end ImportRank.Indented
