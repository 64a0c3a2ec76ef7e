import ImportRank.Text.Printable

/-!
# Quoted texts

A text inside a message is written between quotes, with everything that would not show itself
written as an escape. The quote is the single one, unless the text has a single quote and no
double quote.
-/

namespace ImportRank.Text

/-- The lowercase hexadecimal digits of a number, with zeros in front up to the given width. -/
def hexDigits (width n : Nat) : List Char :=
  let text := Nat.toDigits 16 n
  List.replicate (width - text.length) '0' ++ text

/-- The escape of a character by its code point: two, four or eight digits. -/
def codeEscape (c : Char) : List Char :=
  let code := c.toNat
  if code < 0x100 then '\\' :: 'x' :: hexDigits 2 code
  else if code < 0x10000 then '\\' :: 'u' :: hexDigits 4 code
  else '\\' :: 'U' :: hexDigits 8 code

/-- One character between quotes of the given kind. -/
def quotedChar (quote c : Char) : List Char :=
  if c = quote ∨ c = '\\' then ['\\', c]
  else if c = '\n' then ['\\', 'n']
  else if c = '\r' then ['\\', 'r']
  else if c = '\t' then ['\\', 't']
  else if isPrintable c then [c]
  else codeEscape c

/-- The quote a text is written with. -/
def quoteFor (text : List Char) : Char :=
  if text.contains '\'' && !text.contains '"' then '"' else '\''

/-- A text between quotes. -/
def quoted (text : String) : String :=
  let quote := quoteFor text.toList
  String.ofList (quote :: text.toList.flatMap (quotedChar quote) ++ [quote])

/-- A literal without the quotes around it: a pair of equal single quotes, double quotes or
backquotes. A text without such a pair is left as it is. -/
def unquoted (literal : List Char) : List Char :=
  match literal with
  | first :: rest =>
    if rest.getLast? = some first ∧ (first = '\'' ∨ first = '"' ∨ first = '`') then rest.dropLast
    else literal
  | [] => literal

end ImportRank.Text
