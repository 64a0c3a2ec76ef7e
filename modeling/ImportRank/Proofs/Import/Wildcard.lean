import ImportRank.Proofs.Import.Modules
import ImportRank.Proofs.Import.Recognition
import ImportRank.Proofs.Path.Normal

/-!
# Wildcards

A relative import of all names depends on the module or package that it names, as an import of a
single name does that is no submodule: both lead to the one file. An import of all names from the
directory that its dots lead to names nothing further, and leads to no file, though the directory
has one as a package. Main statement: `resolve_wildcard`.
-/

namespace ImportRank.Resolver

variable {resolver : Resolver} {importer specifier name base file : String} {parts : List String}
  {level : ℕ}

lemma dottedParts_ne_nil (hspecifier : specifier ≠ "") : dottedParts specifier ≠ [] := by
  rw [dottedParts, if_neg hspecifier, Path.pieces_eq_splitOn]
  simp

/-- A name that has a file is its own longest beginning. -/
lemma longestModule?_of_isFileOf (hparts : parts ≠ []) (hfile : resolver.IsFileOf base parts file) :
    resolver.longestModule? base parts = some file := by
  obtain ⟨front, last, rfl⟩ := (List.eq_nil_or_concat' parts).resolve_left hparts
  rw [longestModule?_concat, moduleFile?_eq_some_iff.mpr hfile, Option.some_or]

/-- A name that is no submodule is imported from the module itself. -/
lemma resolveUnder_singleton (hfile : resolver.IsFileOf base parts file)
    (hname : ¬ resolver.HasFile base (parts ++ [name])) :
    resolver.resolveUnder parts [name] base = [file] := by
  obtain ⟨own, files, heq, hown, hfiles⟩ :=
    exists_resolveUnder_eq base (List.cons_ne_nil name [])
  have hnone : files = [] := hfiles.eq_nil_iff.mpr (List.forall_mem_singleton.mpr hname)
  have hmodule : own = some file := (hown file).mpr ⟨hfile, name, List.mem_cons_self, hname⟩
  rw [heq, hmodule, hnone]
  rfl

/-- A relative import of all names leads, like that of a name that is no submodule, to the file of
the module or package; but it leads nowhere if it names nothing after its dots. -/
theorem resolve_wildcard (hlevel : 0 < level)
    (hfile : resolver.IsFileOf (relativeDirectory importer level) (dottedParts specifier) file)
    (hname : ¬ resolver.HasFile (relativeDirectory importer level)
      (dottedParts specifier ++ [name])) :
    resolver.resolve importer .python { specifier, level, names := [name] } = [file] ∧
      resolver.resolve importer .python { specifier, level, names := [] } =
        if specifier = "" then [] else [file] := by
  constructor
  · rw [resolve_eq_resolveUnder hlevel, resolveUnder_singleton hfile hname]
  · rw [resolve_eq_resolveUnder hlevel, resolveUnder_nil]
    split
    · rename_i hempty
      rw [hempty]
      rfl
    · rename_i hspecifier
      rw [longestModule?_of_isFileOf (dottedParts_ne_nil hspecifier) hfile]
      rfl

/-- A package beside the importing file is imported as its own file, whether all of its names are
asked for or one. -/
theorem resolve_wildcard_package :
    let resolver : Resolver := ⟨["pkg/a.py", "pkg/tools/__init__.py", "pkg/tools/saw.py"], []⟩
    (extract .python "from .tools import *\n".toUTF8.toList).imports = [⟨"tools", 1, []⟩] ∧
      resolver.IsFileOf (relativeDirectory "pkg/a.py" 1) (dottedParts "tools")
        "pkg/tools/__init__.py" ∧
      ¬ resolver.HasFile (relativeDirectory "pkg/a.py" 1) (dottedParts "tools" ++ ["VERSION"]) ∧
      resolver.resolve "pkg/a.py" .python ⟨"tools", 1, ["VERSION"]⟩ = ["pkg/tools/__init__.py"] ∧
      resolver.resolve "pkg/a.py" .python ⟨"tools", 1, []⟩ = ["pkg/tools/__init__.py"] := by
  intro resolver
  have hfile : resolver.IsFileOf (relativeDirectory "pkg/a.py" 1) (dottedParts "tools")
      "pkg/tools/__init__.py" := moduleFile?_eq_some_iff.mp (by decide +kernel)
  have hname : ¬ resolver.HasFile (relativeDirectory "pkg/a.py" 1)
      (dottedParts "tools" ++ ["VERSION"]) := moduleFile?_eq_none_iff.mp (by decide +kernel)
  have hwildcard := resolve_wildcard (by decide) hfile hname
  rw [if_neg (by decide)] at hwildcard
  exact ⟨by rw [extract_python_eq]; decide +kernel, hfile, hname, hwildcard⟩

/-- All names of the importing file's own package are imported from nowhere, one is from the file of
the package. -/
theorem not_resolve_wildcard :
    (extract .python "from . import *\n".toUTF8.toList).imports = [⟨"", 1, []⟩] ∧
    ¬ ∀ (resolver : Resolver) (importer specifier name : String) (level : ℕ), 0 < level →
      resolver.HasFile (relativeDirectory importer level) (dottedParts specifier) →
      ¬ resolver.HasFile (relativeDirectory importer level) (dottedParts specifier ++ [name]) →
      resolver.resolve importer .python { specifier, level, names := [] } =
        resolver.resolve importer .python { specifier, level, names := [name] } := by
  refine ⟨by rw [extract_python_eq]; decide +kernel, fun hsame => ?_⟩
  let resolver : Resolver := ⟨["pkg/__init__.py", "pkg/a.py"], []⟩
  have hfile : resolver.HasFile (relativeDirectory "pkg/a.py" 1) (dottedParts "") :=
    ⟨"pkg/__init__.py", moduleFile?_eq_some_iff.mp (by decide +kernel)⟩
  have hname : ¬ resolver.HasFile (relativeDirectory "pkg/a.py" 1) (dottedParts "" ++ ["x"]) :=
    moduleFile?_eq_none_iff.mp (by decide +kernel)
  have hnames := hsame resolver "pkg/a.py" "" "x" 1 (by decide) hfile hname
  revert hnames
  decide +kernel

end ImportRank.Resolver
