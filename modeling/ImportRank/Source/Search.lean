import ImportRank.Source.Language
import ImportRank.Source.Listing
import ImportRank.Text.Utf8

/-!
# Finding source files

A root is a file, which is taken when its extension marks a language, or a directory, which is
searched all the way down. Links are not followed on the way, hidden files and directories are
passed by, and so are directories that hold no sources of the project's own. Version control's
listing or else the ignore file of the root, and the exclude patterns, drop files by their path
from the root.

Each file found is known by its key, the normalized text of its path as seen from the working
directory. A key is listed once, where the first root that leads to it stands.
-/

namespace ImportRank

/-- A file to rank. -/
structure SourceFile where
  key : String
  language : Language
deriving Repr, DecidableEq

/-- What a search is asked: patterns of files to leave out and the one language to look for, if
there is one. -/
structure SearchOptions where
  exclude : List String
  language : Option String
deriving Repr

namespace Search

/-- Directories that hold dependencies, caches, environments and build products. -/
def skippedDirectories : List String :=
  ["__pycache__", "node_modules", "bower_components", "jspm_packages", "coverage", ".git", ".hg",
    ".svn", "venv", ".venv", "env", ".env", "build", "dist", ".tox", ".mypy_cache", ".ruff_cache",
    ".pytest_cache", "egg-info"]

/-- Whether a name is a hidden one. -/
def isHidden (name : String) : Bool := name.toList.head? = some '.'

/-- Whether a search goes into a directory of a name. -/
def entersDirectory (name : String) : Bool := !skippedDirectories.contains name && !isHidden name

mutual

/-- The paths of all files that a search comes by, from a directory's own path on. -/
def filesBelow (path : List String) : FileTree → List (List String)
  | .directory entries => filesAmong path entries
  | _ => []

/-- The paths of all files that a search comes by among some entries of a directory. -/
def filesAmong (path : List String) : List (String × FileTree) → List (List String)
  | [] => []
  | (name, .directory entries) :: rest =>
    (if entersDirectory name then filesBelow (path ++ [name]) (.directory entries) else [])
      ++ filesAmong path rest
  | (_, .link _) :: rest => filesAmong path rest
  | (name, _) :: rest => (if isHidden name then [] else [path ++ [name]]) ++ filesAmong path rest

end

/-- Whether one path comes no later than another: by components, each by its characters. -/
def pathLe (a b : List String) : Bool := !decide (b < a)

/-- Whether a search for one language takes another. An empty name asks for none. -/
def wanted (options : SearchOptions) (language : Language) : Bool :=
  match options.language with
  | none => true
  | some name => name = "" || language.name = name

/-- The language of a file name that a search takes. -/
def languageOf? (options : SearchOptions) (name : String) : Option Language :=
  (Language.ofExtension? (Path.suffixOf name)).filter (wanted options)

/-- What drops files below a root: the listing or the rules of the ignore file, and the rules of
what is to be left out. -/
structure Filters where
  listing : Option (List String)
  ignored : Ignore.Rules
  excluded : Ignore.Rules

/-- Whether a path from the root stays. -/
def Filters.keeps (filters : Filters) (path : String) : Bool :=
  (match filters.listing with
    | some listed => listed.contains path
    | none => !filters.ignored.drops path)
    && !filters.excluded.drops path

/-- The rules that some lines give in a workspace. -/
def rulesOf (workspace : Workspace) (lines : List String) : Except Error Ignore.Rules :=
  (workspace.readRules lines).mapError Ignore.Failure.error

/-- The rules of a directory's ignore file; those of no lines when there is no such file. -/
def readIgnoreFile (workspace : Workspace) (directory : Path) : Except Error Ignore.Rules := do
  let path := { directory with parts := directory.parts ++ [".gitignore"] }
  if ← (workspace.files.isFile path).mapError Error.fault then
    let bytes ← (workspace.files.read path).mapError Error.fault
    match Text.decode? bytes with
    | some text => rulesOf workspace (Text.lines (String.ofList text))
    | none => throw .undecodable
  else rulesOf workspace []

/-- The rules of what is to be left out; where nothing is, no lines are read. -/
def readExcluded (workspace : Workspace) (options : SearchOptions) : Except Error Ignore.Rules :=
  if options.exclude.isEmpty then return .none else rulesOf workspace options.exclude

/-- The filters of a directory. -/
def readFilters (workspace : Workspace) (options : SearchOptions) (directory : Path) :
    Except Error Filters := do
  let listing ← (workspace.listing? directory).mapError Error.fault
  let ignored ← if listing.isNone then readIgnoreFile workspace directory else pure .none
  let excluded ← readExcluded workspace options
  return { listing, ignored, excluded }

/-- The files below a directory, by their paths from it, in the order of those paths. -/
def searchDirectory (workspace : Workspace) (options : SearchOptions) (directory : Path)
    (tree : FileTree) : Except Error (List (List String × Language)) := do
  let filters ← readFilters workspace options directory
  let found := (filesBelow [] tree).filterMap fun path => do
    let language ← languageOf? options (path.getLastD "")
    if filters.keeps ("/".intercalate path) then some (path, language) else none
  return found.mergeSort fun a b => pathLe a.1 b.1

/-- The files of one root. -/
def searchRoot (workspace : Workspace) (options : SearchOptions) (root : String) :
    Except Error (List SourceFile) := do
  let path := Path.ofString root
  match ← (workspace.files.find? path).mapError Error.fault with
  | none => throw (.discovery root "no such file or directory")
  | some (.directory entries) =>
    let found ← searchDirectory workspace options path (.directory entries)
    return found.map fun (below, language) =>
      { key := ({ path with parts := path.parts ++ below }).normalize.toString, language }
  | some _ =>
    return ((languageOf? options path.name).map fun language =>
      { key := path.normalize.toString, language }).toList

/-- Adds the files that have a new key. -/
def addNew (found more : List SourceFile) : List SourceFile :=
  more.foldl
    (fun found file => if found.any (·.key = file.key) then found else found ++ [file]) found

/-- Adds the files of further roots, one root after the other. -/
def searchRoots (workspace : Workspace) (options : SearchOptions) (found : List SourceFile) :
    List String → Except Error (List SourceFile)
  | [] => return found
  | root :: rest => do
    let more ← searchRoot workspace options root
    searchRoots workspace options (addNew found more) rest

/-- The files of several roots. Without a root there is nothing to search. -/
def search (workspace : Workspace) (options : SearchOptions) (roots : List String) :
    Except Error (List SourceFile) :=
  if roots.isEmpty then throw (.discovery "." "no paths to search")
  else searchRoots workspace options [] roots

end Search

end ImportRank
