import ImportRank.Command.Execution

/-!
# The program

The program takes a picture of the directories and files that its command line names, executes the
command on that picture, and prints the report and the messages. Only what a ranking can look at is
in the picture: source files and ignore files with their bytes, other files without. Version
control is never asked for a listing, so the rules of the ignore files decide.
-/

namespace ImportRank.Main

/-- How the program is called. -/
def usageText : String :=
  String.join <| (· ++ "\n") <$> [
    "Usage: import-rank [OPTIONS] [PATHS]...",
    "",
    "Rank source files by PageRank over their dependency graph.",
    "",
    "Options:",
    "  --deps-first            List each file after the files it depends on.",
    "  -e, --ext TEXT          File extension to include (repeatable).",
    "  -x, --exclude TEXT      Pattern of files to exclude (repeatable).",
    "  -l, --language TEXT     Restrict to a specific language.",
    "  -n, --max-files NUMBER  Maximum number of files to include in output.",
    "  --fast                  Count lines by a pool of workers.",
    "  -v, --verbose           Tell of progress.",
    "  --help                  Show this message and exit."]

/-- Whether a ranking can look into a file of a name. -/
def isRead (name : String) : Bool :=
  name = ".gitignore" || (Language.ofExtension? (Path.suffixOf name)).isSome

/-- A picture of what stands at a place. A link is a link to where it leads, unless it is to be
followed; what cannot be opened is a device. -/
partial def picture (follow : Bool) (place : IO.FS.DirEntry) : IO FileTree := do
  let info ← if follow then place.path.metadata else place.path.symlinkMetadata
  match info.type with
  | .file =>
    if isRead place.fileName then
      try return .file (← IO.FS.readBinFile place.path).toList catch _ => return .device
    else return .file []
  | .symlink =>
    try return .link (← IO.FS.realPath place.path).toString catch _ => return .link ""
  | .other => return .device
  | .dir =>
    let entries ← try place.path.readDir catch _ => pure #[]
    let inside ← entries.toList.mapM fun entry => do
      if Search.entersDirectory entry.fileName || isRead entry.fileName then
        return (entry.fileName, ← picture false entry)
      else return (entry.fileName, FileTree.directory [])
    return .directory inside

/-- Adds a picture of a root, and of the directories on the way to it, to a picture of others. -/
def addRoot (here : Path) (tree : FileTree) (root : Path) : IO FileTree := do
  let mut tree := tree
  for count in List.range (root.parts.length + 1) do
    let part := here.join { root with parts := root.parts.take count }
    let place : IO.FS.DirEntry := { root := ← IO.currentDir, fileName := part.toString }
    if ← place.path.pathExists then
      let leaf ← if count = root.parts.length then picture true place else pure (.directory [])
      tree := FileTree.put leaf part.normalize.parts (some tree)
  return tree

/-- A picture of the machine's files as far as they are below some roots. -/
def workspace (roots : List String) : IO Workspace := do
  let here := Path.ofString (← IO.currentDir).toString
  let paths := roots.map Path.ofString
  let shallow := paths.mergeSort fun a b =>
    (here.join a).normalize.parts.length ≤ (here.join b).normalize.parts.length
  let bare := FileTree.put (.directory []) here.parts (some (.directory []))
  let root ← shallow.foldlM (addRoot here) bare
  return { files := { root, workingDirectory := here.parts }, answer := fun _ => .unavailable }

end ImportRank.Main

open ImportRank in
/-- Executes the command that the words of the command line ask for. -/
def main (words : List String) : IO UInt32 := do
  if words.contains "--help" then
    IO.print Main.usageText
    return 0
  match Command.readWords Command.plain none words with
  | none =>
    IO.eprint Main.usageText
    return 2
  | some command =>
    match Command.execute (← Main.workspace command.runOptions.roots) words with
    | .ok outcome =>
      IO.print outcome.report
      IO.eprint (if outcome.code = 2 then Main.usageText else outcome.messages)
      return outcome.code.toUInt32
    | .error error =>
      IO.eprintln ("Error: " ++ error.message)
      return 1
