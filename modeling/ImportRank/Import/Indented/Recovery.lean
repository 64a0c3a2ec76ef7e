import ImportRank.Import.Indented.Reader

/-!
# Broken indented sources

A source that is not recognized as a whole is searched token by token for import statements. The
words `import` and `from` start one where a statement can start, and again after the first token
that cannot stand where it does; where an operand is due they are names like any other.
-/

namespace ImportRank.Indented

/-- The forms of an import statement: the one that names files, and the one that also asks for names
from a file. -/
inductive Form where
  | plain
  | named
deriving Repr, DecidableEq

/-- What the tokens just passed allow next. -/
inductive Place where
  /-- A statement can start. -/
  | start
  /-- An operand must follow. -/
  | operand
  /-- An operand has just ended. -/
  | ended
  /-- Something stood where it cannot stand. -/
  | broken
  /-- Something stood in an import statement where the name of a file was due. -/
  | naming (form : Form)
deriving Repr, DecidableEq

/-- Where the search stands: the place, how many brackets are open, and whether the colon of a
compound statement is still to come. -/
structure Search where
  place : Place
  brackets : Nat
  header : Bool
deriving Repr, DecidableEq

/-- The words that start a compound statement with an expression or a name after them. -/
def headerWords : List String := ["class", "def", "elif", "except", "for", "if", "while", "with"]

/-- The words that are a clause by themselves. -/
def clauseWords : List String := ["else", "finally", "try"]

/-- The words that start a statement with an operand after them. -/
def operandWords : List String := ["assert", "del", "global", "nonlocal", "raise", "return"]

/-- The words that stand between operands. -/
def betweenWords : List String := ["and", "as", "else", "for", "from", "if", "in", "is", "or"]

/-- The words that stand before operands. -/
def beforeWords : List String := ["await", "lambda", "not", "yield"]

/-- The signs that can stand before an operand. -/
def beforeSigns : List String := ["+", "-", "~", "*", "**"]

namespace Search

/-- The search at the start of a statement. -/
def fresh : Search := { place := .start, brackets := 0, header := false }

/-- The search after something that cannot stand where it does. -/
def broken : Search := { place := .broken, brackets := 0, header := false }

/-- Whether the statement at hand cannot end yet. -/
def isOpen (search : Search) : Bool := search.brackets != 0 || search.header

/-- Whether the words that start a statement do so here. -/
def startsStatement (search : Search) : Bool :=
  match search.place with
  | .start => true
  | .broken => true
  | .naming _ => true
  | .ended => !search.isOpen
  | .operand => false

/-- The search after an operand, which can follow another only as a statement of its own. -/
def afterOperand (search : Search) : Search :=
  if search.place = .broken ∨ (search.place = .ended ∧ search.isOpen = true) then broken
  else { search with place := .ended }

/-- The search after a word. -/
def afterWord (search : Search) (word : String) : Search :=
  if betweenWords.contains word ∧ search.place = .ended then { search with place := .operand }
  else if search.startsStatement ∧ headerWords.contains word then
    { place := .operand, brackets := 0, header := true }
  else if search.startsStatement ∧ clauseWords.contains word then
    { place := .ended, brackets := 0, header := true }
  else if search.startsStatement ∧ operandWords.contains word then
    { place := .operand, brackets := 0, header := false }
  else if beforeWords.contains word ∧ search.place ≠ .broken then { search with place := .operand }
  else search.afterOperand

/-- The search after a colon. -/
def afterColon (search : Search) : Search :=
  if search.place ≠ .ended then broken
  else if search.brackets ≠ 0 then { search with place := .operand }
  else fresh

/-- The search after a sign. -/
def afterSign (search : Search) (text : String) : Search :=
  match text with
  | "(" => { search with place := .operand, brackets := search.brackets + 1 }
  | "[" => { search with place := .operand, brackets := search.brackets + 1 }
  | "\x7b" => { search with place := .operand, brackets := search.brackets + 1 }
  | ":" => search.afterColon
  | ";" => if search.isOpen then broken else fresh
  | "." => { search with place := if search.place = .ended then .operand else .ended }
  | text =>
    if [")", "]", "\x7d"].contains text then
      if search.brackets = 0 ∨ search.place = .broken then broken
      else { search with place := .ended, brackets := search.brackets - 1 }
    else if search.place = .ended then { search with place := .operand }
    else if beforeSigns.contains text ∧ search.place ≠ .broken then
      { search with place := .operand }
    else if text = "@" ∧ search.place = .start then { search with place := .operand }
    else broken

/-- The search after the end of a line, which is no end for a statement that is still open. -/
def afterLine (search : Search) : Search :=
  if search.place = .broken ∨ search.isOpen = true then search else fresh

/-- The search after a token. A name that is due stays due until a statement starts. -/
def after (search : Search) (token : Token) : Search :=
  match search.place, token.kind with
  | .naming form, .word =>
    let next := { search with place := .broken }.afterWord (String.ofList token.text)
    if next.place = .broken then { search with place := .naming form } else next
  | .naming _, _ => search
  | _, .word => search.afterWord (String.ofList token.text)
  | _, .sign => search.afterSign (String.ofList token.text)
  | _, .line _ => search.afterLine
  | _, .number => search.afterOperand
  | _, .string => search.afterOperand
  | _, .broken => broken

end Search

namespace Form

/-- The form that a word starts. -/
def ofToken? (token : Token) : Option Form :=
  if token.isWord && token.text == "import".toList then some .plain
  else if token.isWord && token.text == "from".toList then some .named
  else none

/-- What a statement says after its first word, and the tokens after it. A name that ends in a point
is unfinished. -/
def written (form : Form) (tokens : List Token) : Option (Written × List Token) :=
  match form with
  | .named => fromImport tokens
  | .plain =>
    match plainImports tokens with
    | some (written, dot :: next :: after) =>
      if dot.isSign "." && !next.isWord then none else some (written, dot :: next :: after)
    | result => result

/-- Where a statement that is not complete leaves the search: past what could be read of it. -/
def stalled (form : Form) (tokens : List Token) : Search × List Token :=
  let (level, rest) := match form with
    | .plain => (0, tokens)
    | .named => leadingDots tokens
  let naming : Search := { Search.fresh with place := .naming form }
  let listing : Search := { Search.fresh with place := .operand }
  match dottedName rest with
  | none => (naming, rest)
  | some (module, after) =>
    match form with
    | .plain => (naming, after)
    | .named =>
      if module = "import" ∧ level ≠ 0 then (listing, after)
      else
        match after with
        | word :: names =>
          if ofToken? word = some .plain then (listing, names) else (naming, after)
        | [] => (naming, after)

end Form

/-- Puts an empty name before a comma or a semicolon that stands where a name is due. -/
def supply : List Token → List Token
  | before :: after :: rest =>
    let due := before.isSign "." || (before.isWord && ["import", "as"].any (before.text == ·.toList))
    let missing := (after.isSign "," && (due || before.isSign ",")) || (after.isSign ";" && due)
    if missing then before :: ⟨.word, [], []⟩ :: supply (after :: rest)
    else before :: supply (after :: rest)
  | tokens => tokens

/-- The form and the tokens of an import statement that a token starts or, where a name is due,
continues. -/
def Search.statement? (search : Search) (token : Token) (rest : List Token) :
    Option (Form × List Token) :=
  if search.startsStatement then
    match Form.ofToken? token, search.place with
    | some form, _ => some (form, rest)
    | none, .naming form =>
      if token.isWord && !betweenWords.contains (String.ofList token.text) then
        some (form, token :: rest)
      else none
    | none, _ => none
  else none

/-- Seeks import statements token by token. -/
def seek : Nat → Search → List Token → List Written
  | 0, _, _ => []
  | _, _, [] => []
  | count + 1, search, token :: rest =>
    match search.statement? token rest with
    | none => seek count (search.after token) rest
    | some (form, tokens) =>
      match form.written tokens with
      | some (written, after) => written :: seek count { Search.fresh with place := .ended } after
      | none =>
        if Form.ofToken? token = some form then
          let (search, after) := form.stalled tokens
          seek count search after
        else seek count (search.after token) rest

/-- The import statements that can be found in a broken source. -/
def recovered (tokens : List Token) : List Written :=
  let tokens := supply tokens
  seek tokens.length .fresh tokens

end ImportRank.Indented
