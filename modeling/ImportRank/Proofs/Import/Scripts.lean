import ImportRank.Proofs.Import.Targets
import ImportRank.Proofs.Path.Directory

/-!
# Imports of scripts

The path that a script imports is seen from the directory of the importing file. It is asked for
itself, then with each extension, then as a directory for its index files. The texts of the index
files are made by hand, and they are keys of files only where the path has a component: a key starts
neither with "./" nor with three slashes, and an index file of the root is written with two. Main
statement: `resolve_script`.
-/

namespace ImportRank.Resolver

open ImportRank.Path (IsNormal)

variable {resolver : Resolver} {importer : String} {language : Language} {record : Import}

/-! ## The directory of the importing file -/

lemma isComponent_parent (importer : String) :
    ∀ part ∈ (Path.ofString importer).parent.parts, Path.IsComponent part := fun _ hpart =>
  Path.isComponent_of_mem_components (List.dropLast_subset _ hpart)

lemma directoryOf_eq (hnormal : IsNormal importer) :
    directoryOf importer = (Path.ofString importer).parent.toString := by
  have htext : Path.directoryText importer = (Path.ofString importer).parent.bareText := by
    have hcut := @Path.directoryText_toString (Path.ofString importer) fun part hpart =>
      Path.isComponent_of_mem_components hpart
    rwa [hnormal.toString_ofString] at hcut
  -- a directory without a text is the working directory, here and there
  rw [directoryOf, htext, Path.toString_eq (isComponent_parent importer)]

/-- The path that a specifier names, seen from the directory of the importing file. -/
def scriptPath (importer specifier : String) : Path :=
  ((Path.ofString importer).parent.join (Path.ofString specifier)).normalize

lemma key_directoryOf (hnormal : IsNormal importer) (specifier : String) :
    Path.key (directoryOf importer) [specifier] = (scriptPath importer specifier).toString := by
  rw [Path.key, directoryOf_eq hnormal, Path.ofString_toString (isComponent_parent importer),
    scriptPath]
  rfl

/-! ## Keys asked for -/

/-- The keys of a path as a file: its text, also with each extension. -/
def fileKeys (path : Path) : List String :=
  path.toString :: Language.scriptExtensions.map (path.toString ++ ·)

/-- The keys of the index files in a directory. -/
def indexKeys (directory : Path) : List String :=
  Language.scriptExtensions.map fun ending => (directory.child ("index" ++ ending)).toString

lemma scriptCandidates_toString {path : Path} (hparts : path.parts ≠ []) :
    scriptCandidates path.toString = fileKeys path ++ indexKeys path := by
  have hindex : ∀ ending, path.toString ++ "/index" ++ ending =
      (path.child ("index" ++ ending)).toString := by
    intro ending
    -- the slash that is put before "index" is the one that parts a name from its directory
    rw [Path.toString_child, Path.leadText, if_neg hparts, Path.toString_eq_bareText hparts]
    simp only [String.append_assoc]
    rfl
  simp only [scriptCandidates, fileKeys, indexKeys, hindex]

lemma scriptCandidates_root :
    scriptCandidates "/" =
      fileKeys { anchor := .root, parts := [] } ++
        indexKeys { anchor := .doubleRoot, parts := [] } := by
  decide +kernel

/-- The index files of the working directory, and those of a root written with two slashes, are asked
for by texts that are keys of no file. -/
lemma firstKey?_scriptCandidates (hkeys : ∀ key ∈ resolver.keys, IsNormal key) :
    ∀ anchor ≠ Anchor.root, resolver.firstKey? (scriptCandidates
        (Path.toString { anchor, parts := [] })) =
      resolver.firstKey? (fileKeys { anchor, parts := [] }) := by
  intro anchor hanchor
  have hindex : ∀ key ∈ Language.scriptExtensions.map
      (Path.toString { anchor, parts := [] } ++ "/index" ++ ·), ¬ IsNormal key := by
    cases anchor with
    | root => exact absurd rfl hanchor
    | relative | doubleRoot =>
      -- the key of such a path has no dot in front, or two slashes less
      unfold IsNormal
      decide +kernel
  have hnone : resolver.firstKey? (Language.scriptExtensions.map
      (Path.toString { anchor, parts := [] } ++ "/index" ++ ·)) = none := by
    rw [firstKey?, List.find?_eq_none]
    intro key hkey hcontains
    exact hindex key hkey (hkeys key (List.contains_iff_mem.mp hcontains))
  rw [firstKey?] at hnone
  rw [firstKey?, firstKey?, scriptCandidates, List.find?_append, hnone, Option.or_none]
  rfl

/-! ## What an import leads to -/

/-- A path with components is asked for as a file and then as a directory; the working directory and
the roots are asked for as files, and then at most for the index of the root that is written with
one slash more. -/
theorem resolve_script (hkeys : ∀ key ∈ resolver.keys, IsNormal key)
    (himporter : importer ∈ resolver.keys) (hlanguage : language ≠ .python)
    (hspecifier : isPathSpecifier record.specifier = true) :
    let path := scriptPath importer record.specifier
    (path.parts ≠ [] → resolver.resolve importer language record =
      (resolver.firstKey? (fileKeys path ++ indexKeys path)).toList) ∧
    (path.parts = [] → resolver.resolve importer language record =
      (resolver.firstKey? (fileKeys path ++ if path.anchor = .root then
        indexKeys { anchor := .doubleRoot, parts := [] } else [])).toList) := by
  intro path
  have hresolve : resolver.resolve importer language record =
      (resolver.firstKey? (scriptCandidates path.toString)).toList := by
    have hscript : resolver.resolve importer language record =
        resolver.resolveScript importer record.specifier := by
      cases language with
      | python => exact absurd rfl hlanguage
      | javascript | typescript | tsx => rfl
    rw [hscript, resolveScript, if_pos hspecifier, key_directoryOf (hkeys importer himporter)]
  constructor
  · intro hparts
    rw [hresolve, scriptCandidates_toString hparts]
  · intro hparts
    have hpath : path = { anchor := path.anchor, parts := [] } := by rw [← hparts]
    rw [hresolve, hpath]
    by_cases hroot : path.anchor = .root
    · rw [hroot, if_pos rfl, ← scriptCandidates_root]
      rfl
    · rw [firstKey?_scriptCandidates hkeys _ hroot, if_neg hroot, List.append_nil]

/-- A directory beside that of the importing file is imported as its index file. -/
theorem resolve_script_directory :
    (∀ key ∈ ["src/main.ts", "lib/index.tsx", "lib.css"], IsNormal key) ∧
      Resolver.resolve ⟨["src/main.ts", "lib/index.tsx", "lib.css"], []⟩ "src/main.ts" .typescript
        (.plain "../lib") = ["lib/index.tsx"] := by
  have hkeys : ∀ key ∈ ["src/main.ts", "lib/index.tsx", "lib.css"], IsNormal key := by
    unfold IsNormal
    decide +kernel
  refine ⟨hkeys, ?_⟩
  have hresolve := (@resolve_script ⟨["src/main.ts", "lib/index.tsx", "lib.css"], []⟩ "src/main.ts"
    .typescript (.plain "../lib") hkeys List.mem_cons_self (by decide) (by decide)).1
    (by decide +kernel)
  rw [hresolve]
  decide +kernel

/-- An index file of the working directory is not found there. -/
theorem not_resolve_script_index :
    ¬ ∀ (resolver : Resolver) (importer : String) (language : Language) (record : Import),
      (∀ key ∈ resolver.keys, IsNormal key) → importer ∈ resolver.keys → language ≠ .python →
      isPathSpecifier record.specifier = true →
      resolver.resolve importer language record =
        (resolver.firstKey? (fileKeys (scriptPath importer record.specifier) ++
          indexKeys (scriptPath importer record.specifier))).toList := by
  intro hindex
  have hkeys : ∀ key ∈ ["index.js", "main.js"], IsNormal key := by
    unfold IsNormal
    decide +kernel
  have hfound := hindex ⟨["index.js", "main.js"], []⟩ "main.js" .javascript (.plain ".") hkeys
    (by decide) (by decide) (by decide)
  revert hfound
  decide +kernel

end ImportRank.Resolver
