import ImportRank.Import.Script.Cursor
import ImportRank.Proofs.Text.Spacing
import ImportRank.Text.Printable
import Mathlib.Data.List.Basic

/-!
# Printed statements of scripts

The statements with which a script names files, and calls that name none, as data, with the text
that each is printed as and the specifiers that it stands for. What could not be written down cannot
be built: a name is a word that is not reserved, and a string holds neither quotes nor backslashes.
-/

namespace ImportRank.Script

/-! ## Names and strings -/

/-- The words that the language keeps for itself. -/
def languageWords : List String :=
  ["await", "break", "case", "catch", "class", "const", "continue", "debugger", "default", "delete",
    "do", "else", "enum", "export", "extends", "false", "finally", "for", "function", "if",
    "import", "in", "instanceof", "new", "null", "return", "super", "switch", "this", "throw",
    "true", "try", "typeof", "var", "void", "while", "with", "yield"]

/-- A name: a word that is not reserved. -/
structure Name where
  text : List Char
  isWord : Text.IsWord isWordChar text
  notReserved : String.ofList text ∉ languageWords

/-- How a string is quoted. -/
inductive Quote where
  | single
  | double

/-- The quote on both sides of a string. -/
def Quote.mark : Quote → Char
  | single => '\''
  | double => '"'

/-- What stands in a string as it is: printable characters without quotes and backslashes. -/
structure IsPlain (body : List Char) : Prop where
  printable : ∀ c ∈ body, Text.isPrintable c = true
  unquoted : ∀ c ∈ body, c ≠ '\'' ∧ c ≠ '"' ∧ c ≠ '\\'

instance (body : List Char) : Decidable (IsPlain body) :=
  decidable_of_iff ((body.all Text.isPrintable &&
      body.all fun c => c ≠ '\'' ∧ c ≠ '"' ∧ c ≠ '\\') = true) (by
    simp only [Bool.and_eq_true, List.all_eq_true, decide_eq_true_eq]
    exact ⟨fun ⟨hprintable, hquotes⟩ => ⟨hprintable, hquotes⟩,
      fun ⟨hprintable, hquotes⟩ => ⟨hprintable, hquotes⟩⟩)

/-- A string, with the quotes that it is written in. -/
structure Literal where
  quote : Quote
  body : List Char
  isPlain : IsPlain body

namespace Literal

/-- A string as it is printed. -/
def text (literal : Literal) : List Char :=
  literal.quote.mark :: literal.body ++ [literal.quote.mark]

/-- The file that a string names, unless it is empty. -/
def specifiers (literal : Literal) : List (List Char) :=
  if literal.body = [] then [] else [literal.body]

end Literal

/-- A name in braces, with another name for it or not. -/
structure Item where
  name : Name
  other : Option Name

namespace Item

/-- What the other name adds to a printed item. -/
def otherText : Option Name → List Char
  | none => []
  | some other => ' ' :: "as".toList ++ ' ' :: other.text

/-- An item as it is printed. -/
def text (item : Item) : List Char := item.name.text ++ otherText item.other

end Item

/-- Items as they are printed, in braces. -/
def itemsText : List Item → List Char
  | [] => ['{', '}']
  | item :: more =>
    '{' :: ' ' :: item.text ++ (more.flatMap fun item => ',' :: ' ' :: item.text) ++ [' ', '}']

/-! ## Statements -/

/-- A statement that names a file, or a call of something else than `require`. -/
inductive Statement where
  | importFile (file : Literal)
  | importDefault (name : Name) (file : Literal)
  | importAll (name : Name) (file : Literal)
  | importItems (items : List Item) (file : Literal)
  | exportAll (file : Literal)
  | exportItems (items : List Item) (file : Literal)
  | require (name : Name) (file : Literal)
  | call (callee : Name) (other : callee.text ≠ "require".toList) (argument : Literal)

namespace Statement

/-- The end of a statement and its line, from the word `from` on. -/
def fromText (file : Literal) : List Char :=
  ' ' :: "from".toList ++ ' ' :: file.text ++ [';', '\n']

/-- The end of a statement and its line, from the argument of a call on. -/
def callText (argument : Literal) : List Char := '(' :: argument.text ++ [')', ';', '\n']

/-- A statement as it is printed, with the end of its line. -/
def text : Statement → List Char
  | importFile file => "import".toList ++ ' ' :: file.text ++ [';', '\n']
  | importDefault name file => "import".toList ++ ' ' :: name.text ++ fromText file
  | importAll name file =>
    "import".toList ++ ' ' :: '*' :: ' ' :: "as".toList ++ ' ' :: name.text ++ fromText file
  | importItems items file => "import".toList ++ ' ' :: itemsText items ++ fromText file
  | exportAll file => "export".toList ++ ' ' :: '*' :: fromText file
  | exportItems items file => "export".toList ++ ' ' :: itemsText items ++ fromText file
  | require name file =>
    "const".toList ++ ' ' :: name.text ++ ' ' :: '=' :: ' ' :: "require".toList ++ callText file
  | call callee _ argument => callee.text ++ callText argument

/-- The specifiers that a statement stands for: the file that it names, if any. -/
def specifiers : Statement → List (List Char)
  | importFile file | importDefault _ file | importAll _ file | importItems _ file | exportAll file
  | exportItems _ file | require _ file => file.specifiers
  | call _ _ _ => []

/-- The string of a statement, in the place that it stands in. -/
def mention : Statement → Mention
  | importFile file | importDefault _ file | importAll _ file | importItems _ file =>
    .imported file.text
  | exportAll file | exportItems _ file => .exported file.text
  | require _ file => .passed "require".toList file.text
  | call callee _ argument => .passed callee.text argument.text

/-- A printed statement starts with a word. -/
lemma exists_text (statement : Statement) :
    ∃ c more, statement.text = c :: more ∧ isWordChar c = true := by
  cases statement with
  | call callee other argument =>
    obtain ⟨c, front, hword⟩ := List.exists_cons_of_ne_nil callee.isWord.nonempty
    refine ⟨c, front ++ Statement.callText argument, ?_, ?_⟩
    · rw [← List.cons_append, ← hword]
      rfl
    · exact callee.isWord.wordChars c (hword ▸ List.mem_cons_self)
  | _ => exact ⟨_, _, rfl, by decide⟩

lemma text_ne_nil (statement : Statement) : statement.text ≠ [] := by
  obtain ⟨c, more, htext, -⟩ := exists_text statement
  exact htext ▸ List.cons_ne_nil c more

end Statement

/-- Statements as they are printed, each on a line of its own. -/
def printed (statements : List Statement) : String :=
  String.ofList (statements.flatMap Statement.text)

end ImportRank.Script
