import ImportRank.Files.Tree
import ImportRank.Import.Basic
import ImportRank.Source.Language

/-!
# Resolution

An import is resolved to the keys of files that were found; packages, standard libraries and
missing files lead to nothing. Scripts import by relative path, with the extension or the name of
an index file left out at will. Dotted imports are sought under a directory, each dotted name
standing for a module file or for a package directory with an initialization file.
-/

namespace ImportRank

/-- What imports are resolved against: the keys of the files found and the directories that
absolute dotted imports start from. -/
structure Resolver where
  keys : List String
  roots : List String
deriving Repr

namespace Resolver

/-- The first of some keys that is the key of a file. -/
def firstKey? (resolver : Resolver) (candidates : List String) : Option String :=
  candidates.find? resolver.keys.contains

/-! ## Scripts -/

/-- Whether a specifier is a path rather than the name of a package. -/
def isPathSpecifier (specifier : String) : Bool :=
  match specifier.toList.head? with
  | some c => c = '.' || c = '/'
  | none => false

/-- The directory of an importing file, `.` when its key has none. -/
def directoryOf (importer : String) : String :=
  let directory := Path.directoryText importer
  if directory = "" then "." else directory

/-- The keys that a path may mean, in order: itself, with an extension, as a directory's index. -/
def scriptCandidates (base : String) : List String :=
  base :: Language.scriptExtensions.map (base ++ ·)
    ++ Language.scriptExtensions.map (base ++ "/index" ++ ·)

/-- The targets of a script's import. -/
def resolveScript (resolver : Resolver) (importer specifier : String) : List String :=
  if isPathSpecifier specifier then
    let base := Path.key (directoryOf importer) [specifier]
    (resolver.firstKey? (scriptCandidates base)).toList
  else []

/-! ## Dotted imports -/

/-- The file of a dotted name under a directory: a module file, else a package's own file. -/
def moduleFile? (resolver : Resolver) (base : String) (parts : List String) : Option String :=
  resolver.firstKey? <|
    if parts.isEmpty then [Path.key base ["__init__.py"]]
    else [Path.key base parts ++ ".py", Path.key base (parts ++ ["__init__.py"])]

/-- The file of the longest beginning of a dotted name that has one. -/
def longestModule? (resolver : Resolver) (base : String) (parts : List String) : Option String :=
  ((List.range parts.length).reverse.map fun n => parts.take (n + 1)).findSome?
    (resolver.moduleFile? base)

/-- The targets of a dotted import under one directory. A name is a submodule where it has a file;
for any other name the module itself is imported, and stands first. -/
def resolveUnder (resolver : Resolver) (parts names : List String) (base : String) : List String :=
  if names.isEmpty then (resolver.longestModule? base parts).toList
  else
    let submodules := names.map fun name => resolver.moduleFile? base (parts ++ [name])
    let own := if submodules.any Option.isNone then resolver.moduleFile? base parts else none
    own.toList ++ submodules.filterMap id

/-- The directory that a relative dotted import starts from: one dot is the importer's own, each
further dot the one above. -/
def relativeBase (importer : String) : Nat → String
  | 0 => importer
  | level + 1 => Path.directoryText (relativeBase importer level)

/-- The names between the dots of a text; an empty text has none. -/
def dottedParts (text : String) : List String :=
  if text = "" then [] else (Path.pieces '.' text.toList).map String.ofList

/-- The targets of a dotted import: those under the first directory that has any. -/
def resolveDotted (resolver : Resolver) (importer : String) (record : Import) : List String :=
  let bases :=
    if record.level = 0 then resolver.roots
    else
      let base := relativeBase importer record.level
      [if base = "" then "." else base]
  let targets := bases.map (resolver.resolveUnder (dottedParts record.specifier) record.names)
  (targets.find? (!·.isEmpty)).getD []

/-- The targets of an import in a file of a language. -/
def resolve (resolver : Resolver) (importer : String) (language : Language) (record : Import) :
    List String :=
  match language with
  | .python => resolver.resolveDotted importer record
  | _ => resolver.resolveScript importer record.specifier

end Resolver

/-- Adds a directory that is not there yet. -/
def addRoot (roots : List String) (directory : String) : List String :=
  if roots.contains directory then roots else roots ++ [directory]

/-- The directories that absolute dotted imports start from: each root, or the directory of a root
that is a file, followed by the `src` directory in it. -/
def importRoots (files : FileSystem) (roots : List String) : Except Fault (List String) :=
  roots.foldlM
    (fun found root => do
      let path := Path.ofString root
      let base := if ← files.isFile path then Path.key path.parent.toString [] else Path.key root []
      return addRoot (addRoot found base) (Path.key base ["src"]))
    []

end ImportRank
