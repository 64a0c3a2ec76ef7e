import ImportRank.Source.Workspace
import ImportRank.Text.Blank

/-!
# Version-control listings

In the top directory of a repository, version control lists the files that are tracked or at
least not ignored. That listing takes the place of the ignore file; where it cannot be had, the
ignore file is read.
-/

namespace ImportRank.Workspace

/-- The paths that version control lists below a directory, one a line. There is no listing
outside a repository's top directory, nor when the answer is a failure. -/
def listing? (workspace : Workspace) (directory : Path) : Except Fault (Option (List String)) := do
  let marker := { directory with parts := directory.parts ++ [".git"] }
  match ← workspace.files.find? marker with
  | none => return none
  | some _ =>
    match workspace.answer directory.toString with
    | .finished 0 output => return some (Text.lines output)
    | _ => return none

end ImportRank.Workspace
