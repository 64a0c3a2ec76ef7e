/-!
# Languages

The languages whose imports are understood, the file extensions that mark them, and the
extensions that a script may leave out when it imports a file.
-/

namespace ImportRank

/-- A language whose imports are understood. -/
inductive Language where
  | python
  | javascript
  | typescript
  | tsx
deriving Repr, DecidableEq

namespace Language

/-- Every language, in the order in which extensions are listed and tried. -/
def all : List Language := [.python, .javascript, .typescript, .tsx]

/-- The name a language is asked for by. -/
def name : Language → String
  | .python => "python"
  | .javascript => "javascript"
  | .typescript => "typescript"
  | .tsx => "tsx"

/-- The language whose forms of import a language shares: all scripts import alike. -/
def importForms : Language → Language
  | .python => .python
  | _ => .javascript

/-- The extensions that mark a language. -/
def extensions : Language → List String
  | .python => [".py"]
  | .javascript => [".js", ".mjs", ".cjs", ".jsx"]
  | .typescript => [".ts", ".mts", ".cts"]
  | .tsx => [".tsx"]

/-- The language of an extension, dot included. -/
def ofExtension? (extension : String) : Option Language :=
  all.find? (·.extensions.contains extension)

/-- The language of a name. -/
def ofName? (text : String) : Option Language := all.find? (·.name = text)

/-- Every extension that marks a language. -/
def supportedExtensions : List String := all.flatMap extensions

/-- The extensions a script may leave out of an import, in the order they are tried. -/
def scriptExtensions : List String := [javascript, typescript, tsx].flatMap extensions

end Language

/-- Whether a key ends with one of some extensions; by default with a supported one. -/
def hasExtension (extensions : Option (List String)) (key : String) : Bool :=
  (extensions.getD Language.supportedExtensions).any fun extension =>
    extension.toList.isSuffixOf key.toList

end ImportRank
