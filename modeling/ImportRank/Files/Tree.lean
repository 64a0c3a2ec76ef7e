import ImportRank.Error
import ImportRank.Path

/-!
# File trees

The file system is a value: a tree of directories, files and symbolic links, with a working
directory in it. `walk` finds what a path leads to, link by link, and answers with a fault where
it leads to nothing.
-/

namespace ImportRank

/-- A file tree. A device is a file that can be opened and never read. -/
inductive FileTree where
  | file (bytes : List UInt8)
  | device
  | link (target : String)
  | directory (entries : List (String × FileTree))

namespace FileTree

/-- Changes the entry of a name; a name that is new comes last. -/
def update (change : Option FileTree → FileTree) (name : String) :
    List (String × FileTree) → List (String × FileTree)
  | [] => [(name, change none)]
  | (other, tree) :: rest =>
    if other = name then (other, change (some tree)) :: rest
    else (other, tree) :: update change name rest

/-- Puts a tree at a path, with directories made on the way. An empty directory leaves one that
is there as it is. -/
def put (leaf : FileTree) : List String → Option FileTree → FileTree
  | [], old =>
    match leaf, old with
    | .directory [], some (.directory entries) => .directory entries
    | _, _ => leaf
  | name :: rest, some (.directory entries) => .directory (update (put leaf rest) name entries)
  | name :: rest, _ => .directory [(name, put leaf rest none)]

/-- The entry of a name in a directory. -/
def entry? (entries : List (String × FileTree)) (name : String) : Option FileTree :=
  entries.lookup name

end FileTree

/-- A file tree and the directory that relative paths start in, as names from the root. -/
structure FileSystem where
  root : FileTree
  workingDirectory : List String

namespace FileSystem

/-- The components of a path or link text as the file system walks them: `.` asks for a
directory, and so does a slash at the end. -/
def steps (text : String) : List String :=
  let pieces := (Path.pieces '/' text.toList).map String.ofList
  pieces.filter (· ≠ "") ++ if pieces.getLast? = some "" then ["."] else []

/-- The length in bytes a name may have. -/
def nameLimit : Nat := 255

/-- The number of links that may be followed on the way. -/
def linkLimit : Nat := 40

/-- Walks from a directory along names. `above` holds the directories over `here`, the nearest
first; at the root there are none and `..` stays. -/
def walk (root : FileTree) (links : Nat) (above : List FileTree) (here : FileTree)
    (names : List String) : Except Fault FileTree :=
  match names with
  | [] => .ok here
  | name :: rest =>
    match here with
    | .directory entries =>
      if name = "." then walk root links above here rest
      else if name = ".." then
        match above with
        | [] => walk root links [] here rest
        | up :: higher => walk root links higher up rest
      else if nameLimit < name.utf8ByteSize then .error .nameTooLong
      else
        match FileTree.entry? entries name with
        | none => .error .missing
        | some (.link target) =>
          match links with
          | 0 => .error .linkLoop
          | links + 1 =>
            if target = "" then .error .missing
            else if target.toList.head? = some '/' then walk root links [] root (steps target ++ rest)
            else walk root links above here (steps target ++ rest)
        | some tree => walk root links (here :: above) tree rest
    | _ => .error .notDirectory
termination_by (links, names.length)

/-- What a path leads to. -/
def find (files : FileSystem) (path : Path) : Except Fault FileTree :=
  let start := if path.anchor = .relative then files.workingDirectory else []
  walk files.root linkLimit [] files.root (start ++ path.parts)

/-- The bytes of the file a path leads to. -/
def read (files : FileSystem) (path : Path) : Except Fault (List UInt8) := do
  match ← files.find path with
  | .file bytes => return bytes
  | .device => throw .ioError
  | .directory _ => throw .isDirectory
  | .link _ => throw .linkLoop

/-- What a path leads to, nothing when there is no such thing. A name that is too long is a fault
even so. -/
def find? (files : FileSystem) (path : Path) : Except Fault (Option FileTree) :=
  match files.find path with
  | .ok tree => .ok (some tree)
  | .error .nameTooLong => .error .nameTooLong
  | .error _ => .ok none

/-- Whether a path leads to a file. -/
def isFile (files : FileSystem) (path : Path) : Except Fault Bool := do
  match ← files.find? path with
  | some (.file _) => return true
  | some .device => return true
  | _ => return false

/-- A path from the root, without `..`. -/
def absolute (files : FileSystem) (path : Path) : Path :=
  (Path.join { anchor := .root, parts := files.workingDirectory } path).normalize

end FileSystem

end ImportRank
