import ImportRank.Command.Arguments
import ImportRank.Report.Selection
import ImportRank.Report.Table
import ImportRank.Run

/-!
# Execution

A command ends in an exit code, the text of its report and the text of its messages. Errors about
files, sizes and convergence are told as messages; flawed ignore rules and refusals of the file
system during the search are not, and are the command's error.
-/

namespace ImportRank

/-- How a command ended. -/
structure Outcome where
  code : Nat
  report : String
  messages : String
deriving Repr, DecidableEq

namespace Command

/-- The outcome of a malformed command line. -/
def usage : Outcome := { code := 2, report := "", messages := "" }

/-- The message lines of a run's events: all of them on demand, else the warnings. -/
def eventText (verbose : Bool) (events : List Event) : String :=
  String.join ((events.filter fun event => verbose || event.isWarning).map (·.line ++ "\n"))

/-- Whether an error is told as a message. -/
def isTold : Error → Bool
  | .discovery _ _ => true
  | .lineCount _ _ => true
  | .convergence _ _ => true
  | _ => false

/-- The run a command asks for. -/
def runOptions (command : Command) : RunOptions :=
  { roots := if command.roots.isEmpty then ["."] else command.roots
    extensions := dottedExtensions command.extensions
    dependenciesFirst := command.dependenciesFirst
    search := { exclude := command.exclude, language := command.language }
    pooled := command.pooled }

/-- Runs a well-formed command whose language, if it names one, is understood. -/
def run (workspace : Workspace) (command : Command) (limit : Option Int) :
    Except Error Outcome := do
  let (result, events) := (rankWorkspace workspace command.runOptions).result
  let told := eventText command.verbose events
  match result with
  | .ok [] => return { code := 1, report := "", messages := told ++ "No source files found.\n" }
  | .ok candidates =>
    return { code := 0, report := Table.format (select limit candidates) ++ "\n", messages := told }
  | .error error =>
    if isTold error then
      return { code := 1, report := "", messages := told ++ "Error: " ++ error.message ++ "\n" }
    else throw error

/-- The message about a language that is not understood. -/
def unsupportedText (language : String) : String :=
  "Error: unsupported language '" ++ language ++ "'. Supported: "
    ++ ", ".intercalate (Language.all.map Language.name) ++ "\n"

/-- Executes the words of a command line. -/
def execute (workspace : Workspace) (words : List String) : Except Error Outcome :=
  match readWords plain none words with
  | none => return usage
  | some command =>
    match command.limit? with
    | none => return usage
    | some limit =>
      match command.language with
      | none => run workspace command limit
      | some language =>
        if language = "" ∨ (Language.ofName? language).isSome then run workspace command limit
        else return { code := 1, report := "", messages := unsupportedText language }

end Command

end ImportRank
