import ImportRank.Files.Tree
import ImportRank.Ignore.Rules
import ImportRank.Import.Recognition

/-!
# Workspaces

All that a ranking takes from outside: the files, the answers of version control, and what reads
ignore rules and sources. The last two may be any; what stands in this library is taken where
nothing else is given.
-/

namespace ImportRank

/-- What came of asking for a listing: no such program, no answer in time, or an exit code with
what was printed. -/
inductive Answer where
  | unavailable
  | timedOut
  | finished (code : Int) (output : String)
deriving Repr

/-- The files a ranking reads, what version control answers for a directory, which is asked for by
the text of its path, and the readers of ignore rules and of sources. -/
structure Workspace where
  files : FileSystem
  answer : String → Answer
  readRules : Ignore.Reader := Ignore.readRules
  engine : Parse.Engine := .recognizing

end ImportRank
