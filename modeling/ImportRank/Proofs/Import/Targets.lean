import ImportRank.Import.Resolution
import Mathlib.Tactic.Basic

/-!
# Targets are files

Whatever an import says, in whatever language, what it is resolved to is the key of a file that
was found. Each form of import asks for keys in an order of its own, and each answer comes from
`firstKey?`.
-/

namespace ImportRank.Resolver

variable {resolver : Resolver} {target : String}

lemma mem_keys_of_firstKey? {candidates : List String}
    (hfirst : resolver.firstKey? candidates = some target) : target ∈ resolver.keys :=
  List.contains_iff_mem.mp (List.find?_some hfirst)

lemma mem_keys_of_moduleFile? {base : String} {parts : List String}
    (hfile : resolver.moduleFile? base parts = some target) : target ∈ resolver.keys :=
  mem_keys_of_firstKey? hfile

lemma mem_keys_of_mem_resolveScript {importer specifier : String}
    (htarget : target ∈ resolver.resolveScript importer specifier) : target ∈ resolver.keys := by
  rw [resolveScript] at htarget
  split at htarget
  · exact mem_keys_of_firstKey? (Option.mem_toList.mp htarget)
  · cases htarget

/-- Every target of a dotted import is the file of a dotted name, made of parts of the specifier and
of names that are imported. -/
lemma exists_moduleFile?_of_mem_resolveUnder {parts names : List String} {base : String}
    (htarget : target ∈ resolver.resolveUnder parts names base) :
    ∃ asked, resolver.moduleFile? base asked = some target ∧ asked ⊆ parts ++ names := by
  rw [resolveUnder] at htarget
  split at htarget
  · obtain ⟨asked, hasked, hfile⟩ :=
      List.exists_of_findSome?_eq_some (Option.mem_toList.mp htarget)
    obtain ⟨n, _, rfl⟩ := List.mem_map.mp hasked
    exact ⟨_, hfile, fun part hpart => List.mem_append_left _ (List.mem_of_mem_take hpart)⟩
  · -- The module itself is asked for only where a name has no file of its own.
    rcases List.mem_append.mp htarget with hown | hsubmodule
    · have hown := Option.mem_toList.mp hown
      split at hown
      · exact ⟨parts, hown, List.subset_append_left _ _⟩
      · cases hown
    · obtain ⟨found, hfound, hsome⟩ := List.mem_filterMap.mp hsubmodule
      obtain ⟨name, hname, rfl⟩ := List.mem_map.mp hfound
      refine ⟨parts ++ [name], hsome, List.append_subset.mpr ⟨List.subset_append_left _ _, ?_⟩⟩
      simp [hname]

lemma mem_keys_of_mem_resolveDotted {importer : String} {record : Import}
    (htarget : target ∈ resolver.resolveDotted importer record) : target ∈ resolver.keys := by
  unfold resolveDotted at htarget
  dsimp only at htarget
  generalize (if record.level = 0 then resolver.roots else _) = bases at htarget
  cases hfind : (bases.map (resolver.resolveUnder (dottedParts record.specifier)
      record.names)).find? (!·.isEmpty) with
  | none =>
    rw [hfind] at htarget
    cases htarget
  | some targets =>
    rw [hfind] at htarget
    obtain ⟨base, _, rfl⟩ := List.mem_map.mp (List.mem_of_find?_eq_some hfind)
    obtain ⟨_, hfile, _⟩ := exists_moduleFile?_of_mem_resolveUnder htarget
    exact mem_keys_of_moduleFile? hfile

/-- Every target of every import is the key of a file. -/
theorem mem_keys_of_mem_resolve {importer : String} {language : Language} {record : Import}
    (htarget : target ∈ resolver.resolve importer language record) : target ∈ resolver.keys := by
  cases language with
  | python => exact mem_keys_of_mem_resolveDotted htarget
  | javascript | typescript | tsx => exact mem_keys_of_mem_resolveScript htarget

end ImportRank.Resolver
