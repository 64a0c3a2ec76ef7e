import ImportRank.Text.Blank

/-!
# Tokens of indented sources

In an indented source the line ends count, unless they stand between brackets, and so does the
indentation of the line that follows. Both are one token here, `Kind.line`, which ends a line and
says how far the next one with anything on it is indented. A token keeps the text between it and
the one before, since a dotted name is reported with the blanks that it was written with.
-/

namespace ImportRank.Indented

/-- What a token is. -/
inductive Kind where
  | word
  | number
  | string
  | sign
  /-- The end of a line, and the indentation of the next. -/
  | line (indentation : Nat)
  /-- Something that is no token. -/
  | broken
deriving Repr, DecidableEq

/-- A token, with the text that stands between it and the one before. -/
structure Token where
  kind : Kind
  gap : List Char
  text : List Char
deriving Repr, DecidableEq

/-! ## Characters -/

/-- Whether a character can be in a word: letters, digits, the underscore, and everything beyond
ASCII that is no blank. -/
def isWordChar (c : Char) : Bool :=
  c.isAlphanum || c == '_' || (0x80 ≤ c.toNat && !Text.isSpacing c)

/-! ## Blanks, comments and line ends -/

/-- The blanks, comments and continued line ends before a token, and the text from the token on.
Between brackets every line end is a blank. -/
def gap (bracketed : Bool) : Bool → List Char → List Char × List Char
  | _, '\n' :: rest =>
    if bracketed then
      let (before, after) := gap bracketed false rest
      ('\n' :: before, after)
    else ([], '\n' :: rest)
  | true, c :: rest =>
    let (before, after) := gap bracketed true rest
    (c :: before, after)
  | false, '\\' :: '\n' :: rest =>
    let (before, after) := gap bracketed false rest
    ('\\' :: '\n' :: before, after)
  | false, '\\' :: '\r' :: '\n' :: rest =>
    let (before, after) := gap bracketed false rest
    ('\\' :: '\r' :: '\n' :: before, after)
  | false, c :: rest =>
    if c = '#' ∨ Text.isSpacing c = true then
      let (before, after) := gap bracketed (c == '#') rest
      (c :: before, after)
    else ([], c :: rest)
  | _, [] => ([], [])

/-- Puts a character before the text passed over. -/
def passed (c : Char) (found : Nat × List Char × List Char) : Nat × List Char × List Char :=
  (found.1, c :: found.2.1, found.2.2)

/-- The indentation of the next line with anything on it, the text passed over to find it, and that
line. A tab counts for eight blanks; a form feed starts the line anew. -/
def indentation (width : Nat) : Bool → List Char → Nat × List Char × List Char
  | _, '\n' :: rest => passed '\n' (indentation 0 false rest)
  | true, c :: rest => passed c (indentation width true rest)
  | false, ' ' :: rest => passed ' ' (indentation (width + 1) false rest)
  | false, '\t' :: rest => passed '\t' (indentation (width + 8) false rest)
  | false, '\r' :: rest => passed '\r' (indentation 0 false rest)
  | false, '\x0c' :: rest => passed '\x0c' (indentation 0 false rest)
  | false, '#' :: rest => passed '#' (indentation width true rest)
  | false, '\\' :: '\n' :: rest => passed '\\' (passed '\n' (indentation width false rest))
  | false, '\\' :: '\r' :: '\n' :: rest =>
    passed '\\' (passed '\r' (passed '\n' (indentation width false rest)))
  | false, c :: rest => (width, [], c :: rest)
  | _, [] => (0, [], [])

/-! ## Strings -/

/-- The text after a string's end. Only three quotes together end a string that three began, and
only such a string goes over line ends. -/
def stringEnd (triple : Bool) (quote : Char) : List Char → Option (List Char)
  | [] => none
  | '\\' :: _ :: rest => stringEnd triple quote rest
  | c :: rest =>
    if c = quote then
      if triple then
        match rest with
        | d :: e :: after => if d = quote ∧ e = quote then some after else stringEnd triple quote rest
        | _ => none
      else some rest
    else if c = '\n' ∧ triple = false then none
    else stringEnd triple quote rest

/-- The text after a quote that opens a string, and whether it is one of three. -/
def opening (quote : Char) (rest : List Char) : Bool × List Char :=
  match rest with
  | d :: e :: after => if d = quote ∧ e = quote then (true, after) else (false, rest)
  | _ => (false, rest)

/-- Where the text of a formatted string is: in the string proper, in an expression in braces with
some brackets open, or in the format after an expression. -/
inductive Field where
  | proper
  | expression (brackets : Nat)
  | format
deriving Repr, DecidableEq

/-- A formatted string that is being read: its quote and the fields that are open, innermost
first. -/
structure Formatted where
  triple : Bool
  quote : Char
  fields : List Field
deriving Repr, DecidableEq

/-- Whether the letters before a quote make the string a formatted one. -/
def isFormatted (letters : List Char) : Bool := letters.any fun c => c == 'f' || c == 'F'

/-- Whether letters can stand before a quote. -/
def isStringPrefix (letters : List Char) : Bool :=
  letters.length ≤ 3 && letters.all fun c => "rRbBuUfFtT".toList.contains c

/-- The text after the end of a formatted string. Strings inside its expressions are passed over,
formatted ones by opening another level. `letters` holds the word just passed, last letter
first. -/
def formattedEnd : Nat → List Char → List Formatted → List Char → Option (List Char)
  | 0, _, _, _ => none
  | _, _, [], rest => some rest
  | _, _, _, [] => none
  | count + 1, letters, level :: outer, c :: rest =>
    match level.fields with
    | .expression brackets :: fields =>
      if c = '\'' ∨ c = '"' then
        let (triple, after) := opening c rest
        if isStringPrefix letters && isFormatted letters then
          formattedEnd count [] (⟨triple, c, [.proper]⟩ :: level :: outer) after
        else
          match stringEnd triple c after with
          | some after => formattedEnd count [] (level :: outer) after
          | none => none
      else if c = '(' ∨ c = '[' ∨ c = '{' then
        formattedEnd count [] ({ level with fields := .expression (brackets + 1) :: fields } :: outer)
          rest
      else if brackets ≠ 0 ∧ (c = ')' ∨ c = ']' ∨ c = '}') then
        formattedEnd count [] ({ level with fields := .expression (brackets - 1) :: fields } :: outer)
          rest
      else if c = '}' then formattedEnd count [] ({ level with fields } :: outer) rest
      else if c = ':' ∧ brackets = 0 then
        formattedEnd count [] ({ level with fields := .format :: fields } :: outer) rest
      else formattedEnd count (if isWordChar c then c :: letters else []) (level :: outer) rest
    | .format :: fields =>
      if c = '{' then
        formattedEnd count [] ({ level with fields := .expression 0 :: .format :: fields } :: outer) rest
      else if c = '}' then formattedEnd count [] ({ level with fields } :: outer) rest
      else formattedEnd count [] (level :: outer) rest
    | _ =>
      match c, rest with
      | '\\', _ :: after => formattedEnd count [] (level :: outer) after
      | '{', '{' :: after => formattedEnd count [] (level :: outer) after
      | '{', after =>
        formattedEnd count [] ({ level with fields := .expression 0 :: level.fields } :: outer) after
      | c, after =>
        if c = level.quote then
          if level.triple then
            match after with
            | d :: e :: beyond =>
              if d = level.quote ∧ e = level.quote then formattedEnd count [] outer beyond
              else formattedEnd count [] (level :: outer) after
            | _ => none
          else formattedEnd count [] outer after
        else if c = '\n' ∧ level.triple = false then none
        else formattedEnd count [] (level :: outer) after

/-- The text after a string that starts with some letters before its quote. -/
def afterString (letters : List Char) (quote : Char) (rest : List Char) : Option (List Char) :=
  let (triple, body) := opening quote rest
  if isFormatted letters then
    formattedEnd (body.length + 1) [] [⟨triple, quote, [.proper]⟩] body
  else stringEnd triple quote body

/-! ## Signs and numbers -/

/-- The signs of more than one character. One that begins another stands after it. -/
def longSigns : List (List Char) :=
  ["**=", "//=", ">>=", "<<=", "->", ":=", "==", "!=", "<>", "<=", ">=", "**", "//", ">>", "<<",
    "+=", "-=", "*=", "/=", "%=", "&=", "|=", "^=", "@="].map String.toList

/-- The characters that are signs by themselves. -/
def shortSigns : List Char := "()[]\x7b\x7d,:;.=+-*/%@&|^~<>".toList

/-- A number at the start of a text, and the text after it: digits, letters, points and underscores,
and an exponent's sign. -/
def splitNumber (text : List Char) : List Char × List Char :=
  let isPart (c : Char) : Bool := c.isAlphanum || c == '_' || c == '.'
  let (digits, after) := text.span isPart
  let exponent := digits.getLast? == some 'e' || digits.getLast? == some 'E'
  let hexadecimal := digits.take 2 == ['0', 'x'] || digits.take 2 == ['0', 'X']
  match after with
  | sign :: rest =>
    if exponent && !hexadecimal && (sign == '+' || sign == '-') then
      let (power, after) := rest.span isPart
      (digits ++ sign :: power, after)
    else (digits, after)
  | [] => (digits, after)

/-! ## Tokens -/

/-- What stands in a text before one of its ends. -/
def before (text rest : List Char) : List Char := text.take (text.length - rest.length)

/-- The token that a text starts with, and the text after it. -/
def cut (text : List Char) : Kind × List Char × List Char :=
  match text with
  | [] => (.broken, [], [])
  | c :: rest =>
    let (word, after) := text.span isWordChar
    if c.isDigit || (c == '.' && (rest.head?.map Char.isDigit).getD false) then
      (.number, splitNumber text)
    else
      match after with
      | quote :: body =>
        if (quote = '\'' ∨ quote = '"') ∧ isStringPrefix word = true then
          match afterString word quote body with
          | some after => (.string, before text after, after)
          | none => (.broken, text.span (· ≠ '\n'))
        else if word.isEmpty then
          match longSigns.find? (·.isPrefixOf text) with
          | some sign => (.sign, sign, text.drop sign.length)
          | none => (if shortSigns.contains c then .sign else .broken, [c], rest)
        else (.word, word, after)
      | [] => (.word, word, after)

/-- The number of open brackets after a token. -/
def bracketsAfter (brackets : Nat) (kind : Kind) (text : List Char) : Nat :=
  if kind = .sign then
    match text with
    | ['('] => brackets + 1
    | ['['] => brackets + 1
    | ['{'] => brackets + 1
    | [')'] => brackets - 1
    | [']'] => brackets - 1
    | ['}'] => brackets - 1
    | _ => brackets
  else brackets

/-- Cuts a text into at most some number of tokens. `fresh` says that nothing stands on the current
line yet; a line that is not fresh is ended at the end of the text. -/
def tokensFrom : Nat → Nat → Bool → List Char → List Token
  | 0, _, _, _ => []
  | count + 1, brackets, fresh, text =>
    let (gap, text) := gap (brackets != 0) false text
    match text with
    | [] => if fresh then [] else [{ kind := .line 0, gap, text := [] }]
    | '\n' :: rest =>
      let (width, passed, rest) := indentation 0 false rest
      if fresh then tokensFrom count brackets true rest
      else
        { kind := .line width, gap, text := '\n' :: passed } :: tokensFrom count 0 true rest
    | text =>
      let (kind, text, rest) := cut text
      { kind, gap, text } :: tokensFrom count (bracketsAfter brackets kind text) false rest

/-! ## Unfinished lines -/

/-- The words that no line can end with. -/
def unfinishedWords : List String :=
  ["import", "from", "as", "and", "or", "not", "in", "is", "if", "elif", "else", "for", "while",
    "with", "class", "def", "del", "assert", "global", "nonlocal", "lambda", "try", "finally"]

/-- The signs that a line can end with. The star is one in `import *`, and the point in `...`. -/
def finishedSigns : List String := [")", "]", "\x7d", ",", ":", ";"]

/-- Whether the line of a token cannot end after it. `before` holds the tokens before it, the last
one first. -/
def Token.isUnfinished (token : Token) (before : List Token) : Bool :=
  let text := String.ofList token.text
  match token.kind with
  | .word => unfinishedWords.contains text
  | .sign =>
    if text = "*" then !(before.take 1).any fun last => last.text == "import".toList
    else if text = "." then
      !(before.length ≥ 2 && (before.take 2).all fun last => last.text == ['.'])
    else !finishedSigns.contains text
  | _ => false

/-- Whether tokens end in the word `from` at the start of a statement and the name of a file, which
the word `import` has to follow. They are given with the last one first. -/
def awaitsImport (before : List Token) : Bool :=
  let name := before.dropWhile fun token =>
    token.text == ['.'] ||
      (token.kind == .word && !(["from", "import"].any (token.text == ·.toList)))
  match name with
  | word :: last :: _ =>
    word.text == "from".toList && (last.text == [':'] || last.text == [';'] ||
      match last.kind with
      | .line _ => true
      | _ => false)
  | [word] => word.text == "from".toList
  | [] => false

/-- Takes away the ends of lines that cannot end where they do, as long as the next line is
indented no less. `column` is the indentation of the current line. -/
def joinLines (column : Nat) : List Token → List Token → List Token
  | _, [] => []
  | before, token :: rest =>
    match token.kind, before with
    | .line width, last :: earlier =>
      let imported := (rest.head?.map fun next => next.text == "import".toList).getD false
      if (last.isUnfinished earlier || (imported && awaitsImport before)) && column ≤ width then
        match rest with
        | next :: after =>
          let next := { next with gap := token.gap ++ token.text ++ next.gap }
          next :: joinLines column (next :: before) after
        | [] => [token]
      else token :: joinLines width (token :: before) rest
    | .line width, [] => token :: joinLines width [token] rest
    | _, _ => token :: joinLines column (token :: before) rest

/-- The tokens of a text. -/
def tokens (text : List Char) : List Token :=
  joinLines 0 [] (tokensFrom (text.length + 1) 0 true text)

end ImportRank.Indented
