import ImportRank.Import.Basic
import ImportRank.Import.Indented.Token
import ImportRank.Proofs.Text.Spacing
import Mathlib.Data.List.Basic

/-!
# Printed import statements

The import statements of an indented source as data, with the text that each is printed as, the
tokens of that text and the imports that it stands for. What could not be written down cannot be
built: a name is a word of the language, a list has a first element, and a statement that asks for
members names a module or starts with dots.
-/

namespace ImportRank.Indented

/-! ## Names -/

/-- The words that the language keeps for itself. -/
def reservedWords : List String :=
  ["False", "None", "True", "and", "as", "assert", "async", "await", "break", "class", "continue",
    "def", "del", "elif", "else", "except", "finally", "for", "from", "global", "if", "import",
    "in", "is", "lambda", "nonlocal", "not", "or", "pass", "raise", "return", "try", "while",
    "with", "yield"]

/-- A name: a word that is not reserved. -/
structure Name where
  text : List Char
  isWord : Text.IsWord isWordChar text
  notReserved : String.ofList text ∉ reservedWords

/-- One or more things in a row. -/
structure Several (α : Type) where
  first : α
  more : List α

namespace Several

variable {α β : Type}

/-- The things in their order. -/
def toList (several : Several α) : List α := several.first :: several.more

/-- Other things made of each. -/
def map (f : α → β) (several : Several α) : Several β := ⟨f several.first, several.more.map f⟩

/-- The things as they are printed, with a text between each and the next. -/
def text (print : α → List Char) (between : List Char) (several : Several α) : List Char :=
  print several.first ++ several.more.flatMap fun thing => between ++ print thing

end Several

/-- The name of a module: names with dots between them. -/
structure Dotted where
  names : Several Name

namespace Dotted

/-- A dotted name as it is printed. -/
def text (dotted : Dotted) : List Char := dotted.names.text Name.text ['.']

/-- The dotted name as a string. -/
def written (dotted : Dotted) : String := String.ofList dotted.text

/-- A single name. -/
def ofName (name : Name) : Dotted := ⟨⟨name, []⟩⟩

end Dotted

/-- What is imported, with another name for it or not. -/
structure Item (ν : Type) where
  name : ν
  other : Option Name

namespace Item

/-- What the other name adds to a printed item. -/
def otherText : Option Name → List Char
  | none => []
  | some other => ' ' :: "as".toList ++ ' ' :: other.text

/-- An item as it is printed. -/
def text (item : Item Dotted) : List Char := item.name.text ++ otherText item.other

/-- A single name is a dotted one. -/
def dotted (item : Item Name) : Item Dotted := ⟨Dotted.ofName item.name, item.other⟩

end Item

/-- Items as they are printed. -/
def itemsText (items : Several (Item Dotted)) : List Char := items.text Item.text [',', ' ']

/-! ## Statements -/

/-- Where members are imported from: a number of dots, and a module or none. One of the two is
there, and it is not the module of the language's own features. -/
structure Origin where
  level : ℕ
  module : Option Dotted
  present : level = 0 → module ≠ none
  notFeature : level = 0 → ∀ dotted ∈ module, dotted.written ≠ "__future__"

namespace Origin

/-- The module as it is printed; nothing where there is none. -/
def moduleText (origin : Origin) : List Char := (origin.module.map Dotted.text).getD []

/-- An origin as it is printed. -/
def text (origin : Origin) : List Char := List.replicate origin.level '.' ++ origin.moduleText

end Origin

/-- What members are imported. -/
inductive Members where
  | all
  | named (items : Several (Item Name))
  | bracketed (items : Several (Item Name))

namespace Members

/-- The members as they are printed. -/
def text : Members → List Char
  | all => ['*']
  | named items => itemsText (items.map Item.dotted)
  | bracketed items => '(' :: itemsText (items.map Item.dotted) ++ [')']

/-- The members as items that could be modules; none for all of them. -/
def items : Members → List (Item Dotted)
  | all => []
  | named items => (items.map Item.dotted).toList
  | bracketed items => (items.map Item.dotted).toList

/-- The names of the members; none for all of them. -/
def names : Members → List String
  | all => []
  | named items => items.toList.map fun item => String.ofList item.name.text
  | bracketed items => items.toList.map fun item => String.ofList item.name.text

end Members

/-- An import statement. -/
inductive Statement where
  | modules (items : Several (Item Dotted))
  | members (origin : Origin) (wanted : Members)

namespace Statement

/-- A statement as it is printed, with the end of its line. -/
def text : Statement → List Char
  | modules items => "import".toList ++ ' ' :: itemsText items ++ ['\n']
  | members origin wanted =>
    "from".toList ++ ' ' :: origin.text ++ ' ' :: "import".toList ++ ' ' :: wanted.text ++ ['\n']

lemma text_modules (items : Several (Item Dotted)) :
    (modules items).text = "import".toList ++ ' ' :: itemsText items ++ ['\n'] := rfl

lemma text_members (origin : Origin) (wanted : Members) :
    (members origin wanted).text =
      "from".toList ++ ' ' :: origin.text ++ ' ' :: "import".toList ++ ' ' :: wanted.text ++
        ['\n'] := rfl

/-- The imports that a statement stands for: one a module, or one for all members. -/
def imports : Statement → List Import
  | modules items => items.toList.map fun item => Import.plain item.name.written
  | members origin wanted =>
    [{ specifier := String.ofList origin.moduleText, level := origin.level, names := wanted.names }]

end Statement

/-- Statements as they are printed, each on a line of its own. -/
def printed (statements : List Statement) : String :=
  String.ofList (statements.flatMap Statement.text)

/-! ## Tokens -/

/-- The sign of one character, with nothing before it. -/
def mark (c : Char) : Token := ⟨.sign, [], [c]⟩

/-- The tokens of things in a row, with a sign between each and the next. `blanks` is the text
before the first, `between` that before each of the others. -/
def Several.tokens {α : Type} (cut : List Char → α → List Token) (c : Char) (between : List Char)
    (blanks : List Char) (several : Several α) : List Token :=
  cut blanks several.first ++ several.more.flatMap fun thing => mark c :: cut between thing

/-- The tokens of a dotted name. -/
def Dotted.tokens (blanks : List Char) (dotted : Dotted) : List Token :=
  dotted.names.tokens (fun blanks name => [⟨.word, blanks, name.text⟩]) '.' [] blanks

/-- The tokens that another name adds to an item. -/
def Item.otherTokens : Option Name → List Token
  | none => []
  | some other => [⟨.word, [' '], "as".toList⟩, ⟨.word, [' '], other.text⟩]

/-- The tokens of an item. -/
def Item.tokens (blanks : List Char) (item : Item Dotted) : List Token :=
  item.name.tokens blanks ++ Item.otherTokens item.other

/-- The tokens of items. -/
def itemsTokens (blanks : List Char) (items : Several (Item Dotted)) : List Token :=
  items.tokens Item.tokens ',' [' '] blanks

/-- The tokens of an origin. -/
def Origin.tokens (blanks : List Char) (origin : Origin) : List Token :=
  match origin.level with
  | 0 => (origin.module.map (Dotted.tokens blanks)).getD []
  | level + 1 =>
    ⟨.sign, blanks, ['.']⟩ ::
      (List.replicate level (mark '.') ++ (origin.module.map (Dotted.tokens [])).getD [])

/-- The tokens of members. -/
def Members.tokens : Members → List Token
  | all => [⟨.sign, [' '], ['*']⟩]
  | named items => itemsTokens [' '] (items.map Item.dotted)
  | bracketed items =>
    ⟨.sign, [' '], ['(']⟩ :: (itemsTokens [] (items.map Item.dotted) ++ [mark ')'])

/-- The end of a line that is followed by one without indentation. -/
def endOfLine : Token := ⟨.line 0, [], ['\n']⟩

/-- The tokens of a statement and its line. -/
def Statement.tokens : Statement → List Token
  | modules items => ⟨.word, [], "import".toList⟩ :: (itemsTokens [' '] items ++ [endOfLine])
  | members origin wanted =>
    ⟨.word, [], "from".toList⟩ ::
      (origin.tokens [' '] ++ ⟨.word, [' '], "import".toList⟩ :: (wanted.tokens ++ [endOfLine]))

end ImportRank.Indented
