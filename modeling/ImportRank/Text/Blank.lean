/-!
# Blanks and line breaks

The characters that count as blank around a word, the ones that end a line of text, and the
line terminators of a file's bytes. The three sets differ: a form feed ends a line of text, but
is no terminator of a file's lines.
-/

namespace ImportRank.Text

/-- Whether a character is a blank: a separator or a control character that moves the cursor. -/
def isBlank (c : Char) : Bool :=
  let code := c.toNat
  (0x09 ≤ code && code ≤ 0x0D) || (0x1C ≤ code && code ≤ 0x20) || code == 0x85 || code == 0xA0
    || code == 0x1680 || (0x2000 ≤ code && code ≤ 0x200A) || code == 0x2028 || code == 0x2029
    || code == 0x202F || code == 0x205F || code == 0x3000

/-- Whether a character separates the words of a source. The separators that are control characters
do not, and three marks without a width do. -/
def isSpacing (c : Char) : Bool :=
  let code := c.toNat
  (isBlank c && !(0x1C ≤ code && code ≤ 0x1F)) || code == 0xFEFF || code == 0x2060 || code == 0x200B

/-- Drops the blanks at the end of a text. -/
def trimEnd (text : List Char) : List Char := (text.reverse.dropWhile isBlank).reverse

/-- Drops the blanks at both ends of a text. -/
def trim (text : List Char) : List Char := trimEnd (text.dropWhile isBlank)

/-- Whether a character ends a line of text. -/
def isLineBreak (c : Char) : Bool :=
  let code := c.toNat
  (0x0A ≤ code && code ≤ 0x0D) || (0x1C ≤ code && code ≤ 0x1E) || code == 0x85
    || code == 0x2028 || code == 0x2029

/-- Splits a text at its line breaks, which are dropped: CR LF is one break, and a break at the
very end starts no further line. The accumulator holds the current line, reversed. -/
def linesFrom (line : List Char) : List Char → List (List Char)
  | [] => if line.isEmpty then [] else [line.reverse]
  | '\r' :: '\n' :: rest => line.reverse :: linesFrom [] rest
  | c :: rest => if isLineBreak c then line.reverse :: linesFrom [] rest else linesFrom (c :: line) rest

/-- The lines of a text. -/
def lines (text : String) : List String := (linesFrom [] text.toList).map String.ofList

/-- Counts the line terminators of a file: CR LF, a lone CR and a lone LF each end one line. -/
def countTerminators : List UInt8 → Nat
  | [] => 0
  | 0x0D :: 0x0A :: rest => countTerminators rest + 1
  | byte :: rest => (if byte = 0x0D ∨ byte = 0x0A then 1 else 0) + countTerminators rest

end ImportRank.Text
