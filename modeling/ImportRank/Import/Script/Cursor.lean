import ImportRank.Import.Recognizer
import ImportRank.Text.Blank

/-!
# Reading scripts

Scripts are recognized from their characters. A `Cursor` stands before a token: blanks and
comments between tokens are passed over whenever a token has been read, and the cursor remembers
whether they held a line end or a comment, since both can matter. It also carries the strings found
so far that may name a file, the last one first.

A `Recognizer` moves a cursor past something, or fails. What a slash, a less-than sign or a
backquote means is known only to the recognizer that expects it, so there is no separate pass
that cuts a script into tokens.
-/

namespace ImportRank.Script

open ImportRank.Recognizer (optionally steps)

/-- What a script may hold beside the common core: type annotations, and markup elements. -/
structure Dialect where
  typed : Bool
  markup : Bool
deriving Repr, DecidableEq

/-- A string that may name a file, quotes included, in the place that it stands in. -/
inductive Mention where
  | imported (literal : List Char)
  | exported (literal : List Char)
  /-- The first argument of a call of a name. -/
  | passed (callee literal : List Char)
deriving Repr, DecidableEq

/-- A place in a script, before a token or at the end. -/
structure Cursor where
  rest : List Char
  freshLine : Bool
  afterComment : Bool
  found : List Mention
deriving Repr, DecidableEq

/-- Moves a cursor past something, or fails. -/
abbrev Recognizer := ImportRank.Recognizer Cursor

/-! ## Characters -/

/-- Whether a character ends a line. -/
def isLineEnd (c : Char) : Bool := c == '\n' || c.toNat == 0x2028 || c.toNat == 0x2029

/-- Whether a character can be in a word: letters, digits, the underscore, the dollar sign, and
everything beyond ASCII that is no blank. -/
def isWordChar (c : Char) : Bool :=
  c.isAlphanum || c == '_' || c == '$' || (0x80 ≤ c.toNat && !Text.isSpacing c)

/-- The code of a character in braces, if one starts a text. -/
def bracedCode (text : List Char) : List Char :=
  match text with
  | '{' :: rest =>
    let code := rest.takeWhile Char.isAlphanum
    if rest[code.length]? = some '}' then '{' :: code ++ ['}'] else []
  | _ => []

/-- The word at the start of a text and the text after it. Characters of a word may be written by
their codes. -/
def splitWord : List Char → List Char × List Char
  | '\\' :: 'u' :: rest =>
    let code := bracedCode rest
    let (word, after) := splitWord (rest.drop code.length)
    ('\\' :: 'u' :: code ++ word, after)
  | c :: rest =>
    if isWordChar c then
      let (word, after) := splitWord rest
      (c :: word, after)
    else ([], c :: rest)
  | [] => ([], [])
termination_by text => text.length
decreasing_by all_goals simp only [List.length_drop, List.length_cons]; omega

/-! ## Blanks and comments -/

/-- What a passage between tokens is in: nothing, a comment to the end of the line, or a comment
with an end of its own. -/
inductive Passage where
  | open
  | lineComment
  | blockComment

/-- The start of the next token, and whether a line end and a comment stand before it. A block
comment that never ends leaves its opening behind, which starts no token. -/
def skip : Passage → Bool → Bool → List Char → Bool × Bool × List Char
  | .open, line, _, '/' :: '/' :: rest => skip .lineComment line true rest
  | .open, line, _, '/' :: '*' :: rest => skip .blockComment line true rest
  | .open, line, comment, c :: rest =>
    if Text.isSpacing c then skip .open (line || isLineEnd c) comment rest else (line, comment, c :: rest)
  | .open, line, comment, [] => (line, comment, [])
  | .lineComment, line, comment, c :: rest =>
    if isLineEnd c then skip .open true comment rest
    else if c == '\r' then skip .open line comment rest
    else skip .lineComment line comment rest
  | .lineComment, line, comment, [] => (line, comment, [])
  | .blockComment, line, comment, '*' :: '/' :: rest => skip .open line comment rest
  | .blockComment, line, comment, c :: rest => skip .blockComment (line || isLineEnd c) comment rest
  | .blockComment, line, comment, [] => (line, comment, ['/', '*'])

namespace Cursor

/-- Moves to what comes after a token, up to the next one. -/
def move (cursor : Cursor) (after : List Char) : Cursor :=
  let (line, comment, rest) := skip .open false false after
  { cursor with rest, freshLine := line, afterComment := comment }

/-- The cursor at the start of a script. A first line that names an interpreter is passed over. -/
def start (text : List Char) : Cursor :=
  let body := match text with
    | '#' :: '!' :: rest => rest.dropWhile (· ≠ '\n')
    | _ => text
  let (_, comment, rest) := skip .open true false body
  { rest, freshLine := true, afterComment := comment, found := [] }

/-- Whether a text stands at the cursor. -/
def starts (cursor : Cursor) (text : String) : Bool := text.toList.isPrefixOf cursor.rest

/-- Whether the first character at the cursor has a property. -/
def startsWith (cursor : Cursor) (p : Char → Bool) : Bool :=
  match cursor.rest with
  | c :: _ => p c
  | [] => false

/-- The word at the cursor; empty where no word starts. -/
def word (cursor : Cursor) : String :=
  if cursor.startsWith Char.isDigit then ""
  else String.ofList (splitWord cursor.rest).1

/-- Whether a word stands at the cursor. -/
def hasWord (cursor : Cursor) : Bool :=
  match cursor.rest with
  | '\\' :: 'u' :: _ => true
  | c :: _ => isWordChar c && !c.isDigit
  | [] => false

/-- Whether a string starts at the cursor. -/
def hasString (cursor : Cursor) : Bool := cursor.startsWith fun c => c == '\'' || c == '"'

/-- Records a string. -/
def note (cursor : Cursor) (mention : Mention) : Cursor :=
  { cursor with found := mention :: cursor.found }

end Cursor

/-! ## Tokens -/

/-- The brace that opens a block, an object or a list of names. -/
def openBrace : String := "\x7b"

/-- The brace that closes what an opening one opened. -/
def closeBrace : String := "\x7d"

/-- A text that stands at the cursor. -/
def symbol (text : String) : Recognizer := fun cursor =>
  if cursor.starts text then some (cursor.move (cursor.rest.drop text.length)) else none

/-- Any word. -/
def name : Recognizer := fun cursor =>
  if cursor.hasWord then some (cursor.move (splitWord cursor.rest).2) else none

/-- One particular word. -/
def keyword (text : String) : Recognizer := fun cursor =>
  if cursor.word = text then name cursor else none

/-- The inside of a string up to its quote, and what follows the quote. A backslash keeps the next
character in; a bare line end does not belong in a string. -/
def stringBody (quote : Char) : List Char → Option (List Char × List Char)
  | [] => none
  | '\\' :: c :: rest => (stringBody quote rest).map fun (body, after) => ('\\' :: c :: body, after)
  | c :: rest =>
    if c = quote then some ([], rest)
    else if c = '\n' then none
    else (stringBody quote rest).map fun (body, after) => (c :: body, after)

/-- The string at the cursor with its quotes, and the cursor after it. -/
def string? (cursor : Cursor) : Option (List Char × Cursor) :=
  match cursor.rest with
  | c :: rest =>
    if c = '\'' ∨ c = '"' then
      (stringBody c rest).map fun (body, after) => (c :: body ++ [c], cursor.move after)
    else none
  | [] => none

/-- Any string. -/
def string : Recognizer := fun cursor => (string? cursor).map Prod.snd

/-- A string that names a file to import or export from. -/
def file (mention : List Char → Mention) : Recognizer := fun cursor => do
  let (literal, after) ← string? cursor
  return after.note (mention literal)

/-- Whether a number starts at the cursor: a digit, perhaps with a point before it. -/
def Cursor.hasNumber (cursor : Cursor) : Bool :=
  match cursor.rest with
  | '.' :: c :: _ => c.isDigit
  | c :: _ => c.isDigit
  | [] => false

/-- A number: digits, letters, points and underscores, and the sign of an exponent. -/
def number : Recognizer := fun cursor =>
  let isPart (c : Char) : Bool := c.isAlphanum || c == '_' || c == '.'
  let digits := cursor.rest.takeWhile isPart
  let after := cursor.rest.dropWhile isPart
  let exponent := digits.getLast? == some 'e' || digits.getLast? == some 'E'
  let hexadecimal := digits.take 2 == ['0', 'x'] || digits.take 2 == ['0', 'X']
  if !cursor.hasNumber then none
  else
    match after with
    | sign :: rest =>
      if exponent && !hexadecimal && (sign == '+' || sign == '-') then
        some (cursor.move (rest.dropWhile isPart))
      else some (cursor.move after)
    | [] => some (cursor.move after)

/-- What follows the body of a regular expression. A slash in brackets does not end it. -/
def patternBody (bracketed : Bool) : List Char → Option (List Char)
  | [] => none
  | '\\' :: c :: rest => if c = '\n' then none else patternBody bracketed rest
  | c :: rest =>
    if c = '\n' then none
    else if c = '[' then patternBody true rest
    else if c = ']' then patternBody false rest
    else if c = '/' && !bracketed then some rest
    else patternBody bracketed rest

/-- A regular expression with its flags. -/
def pattern : Recognizer := fun cursor =>
  match cursor.rest with
  | '/' :: c :: rest =>
    if c = '*' ∨ c = '/' then none
    else (patternBody false (c :: rest)).map fun after => cursor.move (after.dropWhile isWordChar)
  | _ => none

/-- What follows the characters of a template up to a substitution or to its end, and whether a
substitution starts there. -/
def templateChunk : List Char → Option (Bool × List Char)
  | [] => none
  | '\\' :: _ :: rest => templateChunk rest
  | '`' :: rest => some (false, rest)
  | '$' :: '{' :: rest => some (true, rest)
  | _ :: rest => templateChunk rest

/-! ## Combinations -/

/-- Takes steps as long as there is text for them: each takes some. -/
def loop (step : Cursor → Option (Option Cursor)) : Recognizer := fun cursor =>
  steps step cursor.rest cursor

/-- Takes steps as long as they succeed. -/
def many (r : Recognizer) : Recognizer := loop fun cursor => some (r cursor)

/-- Elements with commas between them, up to a closing text. The last may have a comma after it,
and places between commas may be empty. -/
def listUntil (close : String) (element : Recognizer) : Recognizer := fun cursor => do
  let cursor ← loop (fun cursor => do
    if cursor.starts close then return none
    else if cursor.starts "," then return symbol "," cursor
    else
      let cursor ← element cursor
      if cursor.starts close then return some cursor
      else return some (← symbol "," cursor)) cursor
  symbol close cursor

end ImportRank.Script
