import ImportRank.Path
import ImportRank.Text.Integer

/-!
# Arguments

The words of a command line are roots and options in any order. A word after a lone `--` is a
root whatever it looks like. Short options can share one dash; the first of them that takes a
value takes the rest of the word, or the next word. Of an option that is given twice the last
value counts, except where values are collected.
-/

namespace ImportRank

/-- What a command line asks for. -/
structure Command where
  roots : List String
  dependenciesFirst : Bool
  extensions : List String
  exclude : List String
  language : Option String
  limit : Option String
  pooled : Bool
  verbose : Bool
deriving Repr, DecidableEq

namespace Command

/-- The command of an empty command line. -/
def plain : Command :=
  { roots := [], dependenciesFirst := false, extensions := [], exclude := [], language := none,
    limit := none, pooled := false, verbose := false }

/-- Options that are on or off. -/
inductive Switch where
  | dependenciesFirst
  | pooled
  | verbose
deriving Repr, DecidableEq

/-- Options that take a value. -/
inductive Setting where
  | extension
  | exclude
  | language
  | limit
deriving Repr, DecidableEq

/-- The options. -/
inductive Choice where
  | switch (name : Switch)
  | setting (name : Setting)
deriving Repr, DecidableEq

/-- The option of a long name. -/
def ofLong? : String → Option Choice
  | "--deps-first" => some (.switch .dependenciesFirst)
  | "--fast" => some (.switch .pooled)
  | "--verbose" => some (.switch .verbose)
  | "--ext" => some (.setting .extension)
  | "--exclude" => some (.setting .exclude)
  | "--language" => some (.setting .language)
  | "--max-files" => some (.setting .limit)
  | _ => none

/-- The option of a letter. -/
def ofLetter? : Char → Option Choice
  | 'v' => some (.switch .verbose)
  | 'e' => some (.setting .extension)
  | 'x' => some (.setting .exclude)
  | 'l' => some (.setting .language)
  | 'n' => some (.setting .limit)
  | _ => none

/-- Turns a switch on. -/
def turnOn (command : Command) : Switch → Command
  | .dependenciesFirst => { command with dependenciesFirst := true }
  | .pooled => { command with pooled := true }
  | .verbose => { command with verbose := true }

/-- Takes the value of a setting. -/
def take (command : Command) (value : String) : Setting → Command
  | .extension => { command with extensions := command.extensions ++ [value] }
  | .exclude => { command with exclude := command.exclude ++ [value] }
  | .language => { command with language := some value }
  | .limit => { command with limit := some value }

/-- What a word leaves to do: nothing, or a setting that waits for its value. -/
structure Pending where
  command : Command
  waiting : Option Setting

/-- Reads a long option, whose value may follow an equals sign in the same word. -/
def readLong (command : Command) (name : String) (value : Option String) : Option Pending := do
  match ← ofLong? name, value with
  | .switch name, none => return { command := command.turnOn name, waiting := none }
  | .switch _, some _ => none
  | .setting name, some value => return { command := command.take value name, waiting := none }
  | .setting name, none => return { command, waiting := some name }

/-- Reads the letters after a dash. -/
def readLetters (command : Command) : List Char → Option Pending
  | [] => some { command, waiting := none }
  | letter :: rest => do
    match ← ofLetter? letter with
    | .switch name => readLetters (command.turnOn name) rest
    | .setting name =>
      if rest.isEmpty then return { command, waiting := some name }
      else return { command := command.take (String.ofList rest) name, waiting := none }

/-- Reads one word that is not the value of a setting. -/
def readWord (command : Command) (word : String) : Option Pending :=
  match word.toList with
  | '-' :: '-' :: rest =>
    match Path.pieces '=' ('-' :: '-' :: rest) with
    | [_] => readLong command word none
    | name :: value => readLong command (String.ofList name)
        (some (String.ofList (['='].intercalate value)))
    | [] => none
  | '-' :: c :: rest => readLetters command (c :: rest)
  | _ => some { command := { command with roots := command.roots ++ [word] }, waiting := none }

/-- Reads the words of a command line. Nothing is read from one that is malformed. -/
def readWords (command : Command) (waiting : Option Setting) : List String → Option Command
  | [] => if waiting.isSome then none else some command
  | word :: rest =>
    match waiting with
    | some name => readWords (command.take word name) none rest
    | none =>
      if word = "--" then some { command with roots := command.roots ++ rest }
      else do
        let pending ← readWord command word
        readWords pending.command pending.waiting rest

/-- How many files to show: a positive number, or no limit. -/
def limit? (command : Command) : Option (Option Int) :=
  match command.limit with
  | none => some none
  | some text => do
    let limit ← Text.readInteger text
    if limit < 1 then none else return some limit

/-- The wanted extensions, each with a dot in front; none when none are named. -/
def dottedExtensions (extensions : List String) : Option (List String) :=
  if extensions.isEmpty then none
  else some <| extensions.map fun extension =>
    if extension.toList.head? = some '.' then extension else "." ++ extension

end Command

end ImportRank
