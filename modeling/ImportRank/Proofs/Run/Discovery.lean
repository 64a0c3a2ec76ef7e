import ImportRank.Proofs.Import.Targets
import ImportRank.Proofs.Run.Outcome
import ImportRank.Run
import Mathlib.Data.List.Nodup

/-!
# What discovery finds

The modules of a run form a closed graph: a key is found once, whichever roots lead to it, and
what a module imports is resolved to the key of another or to nothing.
-/

namespace ImportRank

/-! ## Keys -/

namespace Search

lemma nodup_addNew {found : List SourceFile} (more : List SourceFile)
    (hfound : (found.map SourceFile.key).Nodup) :
    ((addNew found more).map SourceFile.key).Nodup := by
  unfold addNew
  induction more generalizing found with
  | nil => exact hfound
  | cons file more ih =>
    rw [List.foldl_cons]
    refine ih ?_
    split
    · exact hfound
    · rename_i hnew
      have hkey : file.key ∉ found.map SourceFile.key := by
        intro hmem
        obtain ⟨other, hother, hsame⟩ := List.mem_map.mp hmem
        exact hnew (List.any_eq_true.mpr ⟨other, hother, decide_eq_true hsame⟩)
      rw [List.map_append, List.map_singleton, ← List.concat_eq_append]
      exact hfound.concat hkey

lemma nodup_searchRoots {workspace : Workspace} {options : SearchOptions} {roots : List String}
    {found files : List SourceFile} (hfound : (found.map SourceFile.key).Nodup)
    (hsearch : searchRoots workspace options found roots = .ok files) :
    (files.map SourceFile.key).Nodup := by
  induction roots generalizing found with
  | nil =>
    rw [searchRoots, except_pure_eq_ok] at hsearch
    rwa [← hsearch]
  | cons root roots ih =>
    rw [searchRoots, except_bind_eq_ok] at hsearch
    obtain ⟨more, _, hrest⟩ := hsearch
    exact ih (nodup_addNew more hfound) hrest

/-- A search lists every key once. -/
theorem nodup_search {workspace : Workspace} {options : SearchOptions} {roots : List String}
    {files : List SourceFile} (hsearch : search workspace options roots = .ok files) :
    (files.map SourceFile.key).Nodup := by
  rw [search] at hsearch
  split at hsearch
  · cases hsearch
  · refine nodup_searchRoots ?_ hsearch
    exact List.nodup_nil

end Search

/-! ## Modules -/

namespace Module

variable {before after : List Event}

lemma target_mem_of_ends_dependenciesOf {resolver : Resolver} {file : SourceFile}
    {record : Import} {dependencies : List Dependency}
    (hends : (dependenciesOf resolver file record).Ends before dependencies after) :
    ∀ dependency ∈ dependencies, dependency.target ∈ resolver.keys := by
  unfold dependenciesOf at hends
  obtain ⟨between, hvalue⟩ := Run.exists_ends_of_ite_tell hends
  rw [Run.ends_pure] at hvalue
  intro dependency hdependency
  rw [← hvalue.1] at hdependency
  obtain ⟨target, htarget, rfl⟩ := List.mem_map.mp hdependency
  exact Resolver.mem_keys_of_mem_resolve htarget

/-- A file's module has the file's key, and it depends on files. -/
theorem spec_of_ends_ofFile {workspace : Workspace} {resolver : Resolver} {file : SourceFile}
    {entry : Module} (hends : (ofFile workspace resolver file).Ends before entry after) :
    entry.key = file.key ∧
      ∀ dependency ∈ entry.dependencies, dependency.target ∈ resolver.keys := by
  unfold ofFile at hends
  split at hends
  · exact absurd hends Run.not_ends_throw
  · obtain ⟨between, hends⟩ := Run.exists_ends_of_ite_tell hends
    simp only [Run.ends_bind, Run.ends_pure] at hends
    obtain ⟨found, _, hfound, rfl, _⟩ := hends
    refine ⟨rfl, fun dependency hdependency => ?_⟩
    obtain ⟨dependencies, hmem, hdependency⟩ := List.mem_flatten.mp hdependency
    obtain ⟨record, _, earlier, later, hrecord⟩ := Run.exists_ends_of_mem hfound hmem
    exact target_mem_of_ends_dependenciesOf hrecord dependency hdependency

/-- Modules with distinct keys that depend on each other alone. -/
structure Closed (modules : List Module) : Prop where
  nodup_keys : (modules.map Module.key).Nodup
  target_mem : ∀ entry ∈ modules, ∀ dependency ∈ entry.dependencies,
    dependency.target ∈ modules.map Module.key

/-- Discovery makes a module of each file that is found, of the same key. -/
lemma exists_search_of_ends_discover {workspace : Workspace} {search : SearchOptions}
    {roots : List String} {modules : List Module}
    (hends : (discover workspace search roots).Ends before modules after) :
    ∃ found importRoots earlier later, Search.search workspace search roots = .ok found ∧
      (found.mapM (ofFile workspace
        { keys := found.map SourceFile.key, roots := importRoots })).Ends earlier modules later ∧
      found.map SourceFile.key = modules.map Module.key := by
  unfold discover at hends
  simp only [Run.ends_bind, Run.ends_mk_pure, Run.ends_tell, Run.ends_pure] at hends
  obtain ⟨found, _, ⟨hsearch, _⟩, importRoots, _, _, entries, _, hentries, _, _, _, rfl, _⟩ := hends
  refine ⟨found, importRoots, _, _, hsearch, hentries, ?_⟩
  rw [← List.forall₂_eq_eq_eq, List.forall₂_map_left_iff, List.forall₂_map_right_iff]
  refine (Run.forall₂_of_ends_mapM hentries).imp fun file entry hfile => ?_
  obtain ⟨earlier, later, hfile⟩ := hfile
  exact (spec_of_ends_ofFile hfile).1.symm

/-- What discovery finds is closed. -/
theorem closed_of_ends_discover {workspace : Workspace} {search : SearchOptions}
    {roots : List String} {modules : List Module}
    (hends : (discover workspace search roots).Ends before modules after) : Closed modules := by
  obtain ⟨found, importRoots, _, _, hsearch, hentries, hkeys⟩ :=
    exists_search_of_ends_discover hends
  constructor
  · rw [← hkeys]
    exact Search.nodup_search hsearch
  · intro entry hentry dependency hdependency
    obtain ⟨file, _, earlier, later, hfile⟩ := Run.exists_ends_of_mem hentries hentry
    rw [← hkeys]
    exact (spec_of_ends_ofFile hfile).2 dependency hdependency

end Module

end ImportRank
