import ImportRank.Number.Decimal
import ImportRank.Text.Quoted

/-!
# Errors

What can go wrong in a run, by cause, and the text each is reported with. A `Fault` is the file
system's own answer to a failed look-up or read; the errors of a run name the path and give the
fault as their reason.
-/

namespace ImportRank

/-- Why the file system did not give what was asked for. -/
inductive Fault where
  | missing
  | ioError
  | notDirectory
  | isDirectory
  | nameTooLong
  | linkLoop
deriving Repr, DecidableEq

namespace Fault

/-- The system's number of a fault. -/
def code : Fault → Nat
  | missing => 2
  | ioError => 5
  | notDirectory => 20
  | isDirectory => 21
  | nameTooLong => 36
  | linkLoop => 40

/-- The system's words for a fault. -/
def text : Fault → String
  | missing => "No such file or directory"
  | ioError => "Input/output error"
  | notDirectory => "Not a directory"
  | isDirectory => "Is a directory"
  | nameTooLong => "File name too long"
  | linkLoop => "Too many levels of symbolic links"

/-- A fault met while a file was opened names the file; one met while reading does not. -/
def report (fault : Fault) (path : String) : String :=
  let text := s!"[Errno {fault.code}] {fault.text}"
  if fault = ioError then text else text ++ ": " ++ Text.quoted path

end Fault

/-- What can go wrong in a run. -/
inductive Error where
  /-- The files to rank could not be found or read. -/
  | discovery (path reason : String)
  /-- The lines of a file could not be counted. -/
  | lineCount (path reason : String)
  /-- The solver reached its ceiling. -/
  | convergence (iterations : Int) (change : Float)
  /-- An ignore pattern means nothing. -/
  | ignorePattern (pattern : String)
  /-- An ignore pattern has a character range that runs backwards. -/
  | ignoreRange
  /-- An ignore file is not well-formed text. -/
  | undecodable
  /-- The file system refused. -/
  | fault (cause : Fault)
  /-- There is no candidate to take a step with. -/
  | noCandidates
deriving Repr

/-- The text an error is reported with. -/
def Error.message : Error → String
  | .discovery path reason => path ++ ": " ++ reason
  | .lineCount path reason => path ++ ": cannot count lines (" ++ reason ++ ")"
  | .convergence iterations change =>
    "PageRank did not converge after " ++ toString iterations ++ " iterations (delta="
      ++ Decimal.significant 3 change ++ ")"
  | .ignorePattern pattern => "Invalid git pattern: " ++ Text.quoted pattern
  | .ignoreRange => "bad character range"
  | .undecodable => "not valid UTF-8"
  | .fault cause => cause.text
  | .noCandidates => "division by zero"

end ImportRank
