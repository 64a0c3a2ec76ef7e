import ImportRank.Proofs.Import.Targets
import Mathlib.Data.List.Infix
import Mathlib.Data.Nat.Notation
import Mathlib.Tactic.Lemma

/-!
# Files of dotted names

A dotted name stands for a module file or, where there is none, for the file of a package. An import
by such a name leads to files below the first directory that has any for it: without names, to the
file of the longest beginning of the specifier that has one; with names, to the files of those that
are submodules, and before them to the file of the module itself where a name is none. Main
statement: `resolve_first_directory`.
-/

namespace ImportRank.Resolver

variable {resolver : Resolver} {base file importer : String} {parts names files : List String}

/-! ## The file of a dotted name -/

/-- A dotted name has the module file of its parts or, where that is no key, the file of the
package. Without parts it is the directory itself as a package. -/
inductive IsFileOf (resolver : Resolver) (base : String) : List String → String → Prop
  | module {parts : List String} (hparts : parts ≠ [])
      (hkey : Path.key base parts ++ ".py" ∈ resolver.keys) :
      IsFileOf resolver base parts (Path.key base parts ++ ".py")
  | package {parts : List String}
      (hmodule : parts ≠ [] → Path.key base parts ++ ".py" ∉ resolver.keys)
      (hkey : Path.key base (parts ++ ["__init__.py"]) ∈ resolver.keys) :
      IsFileOf resolver base parts (Path.key base (parts ++ ["__init__.py"]))

/-- Whether a dotted name has a file. -/
def HasFile (resolver : Resolver) (base : String) (parts : List String) : Prop :=
  ∃ file, resolver.IsFileOf base parts file

lemma moduleFile?_eq_some_iff :
    resolver.moduleFile? base parts = some file ↔ resolver.IsFileOf base parts file := by
  constructor
  · intro hfile
    have hkey := mem_keys_of_moduleFile? hfile
    rw [moduleFile?, firstKey?] at hfile
    by_cases hparts : parts = []
    · subst hparts
      obtain rfl : file = Path.key base ["__init__.py"] := by
        simpa using List.mem_of_find?_eq_some hfile
      exact .package (fun hne => absurd rfl hne) hkey
    · simp only [List.isEmpty_iff, hparts, if_false] at hfile
      by_cases hmodule : Path.key base parts ++ ".py" ∈ resolver.keys
      · rw [List.find?_cons_of_pos (List.contains_iff_mem.mpr hmodule)] at hfile
        obtain rfl := Option.some.inj hfile
        exact .module hparts hmodule
      · rw [List.find?_cons_of_neg (by simpa using hmodule)] at hfile
        obtain rfl : file = Path.key base (parts ++ ["__init__.py"]) := by
          simpa using List.mem_of_find?_eq_some hfile
        exact .package (fun _ => hmodule) hkey
  · intro hfile
    cases hfile with
    | module hparts hkey => simp [moduleFile?, firstKey?, hparts, hkey]
    | package hmodule hkey =>
      by_cases hparts : parts = []
      · subst hparts
        rw [List.nil_append] at hkey
        simp [moduleFile?, firstKey?, hkey]
      · simp [moduleFile?, firstKey?, hparts, hmodule hparts, hkey]

lemma moduleFile?_eq_none_iff :
    resolver.moduleFile? base parts = none ↔ ¬ resolver.HasFile base parts := by
  rw [Option.eq_none_iff_forall_ne_some, HasFile, not_exists]
  exact forall_congr' fun file => not_congr moduleFile?_eq_some_iff

/-! ## The longest beginning that has a file -/

/-- The file of the longest beginning of a dotted name that has one. -/
def IsMostSpecific (resolver : Resolver) (base : String) (parts : List String) (file : String) :
    Prop :=
  ∃ asked, asked ≠ [] ∧ asked <+: parts ∧ resolver.IsFileOf base asked file ∧
    ∀ longer, longer <+: parts → resolver.HasFile base longer → longer.length ≤ asked.length

/-- The whole name is asked for first, then what stands before its last part. -/
lemma longestModule?_concat (front : List String) (last : String) :
    resolver.longestModule? base (front ++ [last]) =
      (resolver.moduleFile? base (front ++ [last])).or (resolver.longestModule? base front) := by
  have hwhole : (front ++ [last]).take (front.length + 1) = front ++ [last] := by
    rw [List.take_of_length_le (by simp)]
  have hfront : ∀ n ∈ (List.range front.length).reverse,
      (front ++ [last]).take (n + 1) = front.take (n + 1) := by
    intro n hn
    have hlt : n < front.length := by simpa using hn
    exact List.take_append_of_le_length hlt
  rw [longestModule?, longestModule?, List.length_append, List.length_singleton,
    List.range_succ, List.reverse_append, List.reverse_singleton, List.singleton_append,
    List.map_cons, hwhole, List.map_congr_left hfront, List.findSome?_cons]
  cases resolver.moduleFile? base (front ++ [last]) <;> rfl

/-- The files of the names that are submodules, in the order of the names. -/
inductive SubmoduleFiles (resolver : Resolver) (base : String) (parts : List String) :
    List String → List String → Prop
  | nil : SubmoduleFiles resolver base parts [] []
  | submodule {name file : String} {names files : List String}
      (hfile : resolver.IsFileOf base (parts ++ [name]) file)
      (hrest : SubmoduleFiles resolver base parts names files) :
      SubmoduleFiles resolver base parts (name :: names) (file :: files)
  | other {name : String} {names files : List String}
      (hfile : ¬ resolver.HasFile base (parts ++ [name]))
      (hrest : SubmoduleFiles resolver base parts names files) :
      SubmoduleFiles resolver base parts (name :: names) files

lemma submoduleFiles (names : List String) :
    resolver.SubmoduleFiles base parts names
      ((names.map fun name => resolver.moduleFile? base (parts ++ [name])).filterMap id) := by
  induction names with
  | nil => exact .nil
  | cons name names ih =>
    rw [List.map_cons]
    cases hfile : resolver.moduleFile? base (parts ++ [name]) with
    | some file => exact .submodule (moduleFile?_eq_some_iff.mp hfile) ih
    | none => exact .other (moduleFile?_eq_none_iff.mp hfile) ih

lemma SubmoduleFiles.eq_nil_iff (hfiles : resolver.SubmoduleFiles base parts names files) :
    files = [] ↔ ∀ name ∈ names, ¬ resolver.HasFile base (parts ++ [name]) := by
  induction hfiles with
  | nil => simp
  | submodule hfile _ _ =>
    rw [List.forall_mem_cons]
    exact ⟨fun hnil => absurd hnil (List.cons_ne_nil _ _), fun hnone => absurd ⟨_, hfile⟩ hnone.1⟩
  | other hfile _ ih => rw [ih, List.forall_mem_cons, and_iff_right hfile]

/-! ## One directory -/

/-- What a dotted import leads to in a directory that has a file for it. -/
inductive Leads (resolver : Resolver) (parts : List String) (base : String) :
    List String → List String → Prop
  | mostSpecific {file : String} (hfile : resolver.IsMostSpecific base parts file) :
      Leads resolver parts base [] [file]
  /-- The module's own file stands first, if there is one and some name is no submodule. -/
  | named {names files : List String} {own : Option String} (hnames : names ≠ [])
      (hown : ∀ file, own = some file ↔ resolver.IsFileOf base parts file ∧
        ∃ name ∈ names, ¬ resolver.HasFile base (parts ++ [name]))
      (hfiles : resolver.SubmoduleFiles base parts names files) :
      Leads resolver parts base names (own.toList ++ files)

lemma resolveUnder_nil : resolver.resolveUnder parts [] base =
    (resolver.longestModule? base parts).toList :=
  rfl

/-- With names, an import leads to the module's own file as far as some name is no submodule. -/
lemma exists_resolveUnder_eq (base : String) (hnames : names ≠ []) : ∃ own files,
    resolver.resolveUnder parts names base = own.toList ++ files ∧
      (∀ file, own = some file ↔ resolver.IsFileOf base parts file ∧
        ∃ name ∈ names, ¬ resolver.HasFile base (parts ++ [name])) ∧
      resolver.SubmoduleFiles base parts names files := by
  rw [resolveUnder, if_neg (by simpa using hnames)]
  refine ⟨_, _, rfl, fun file => ?_, submoduleFiles names⟩
  have hother : (names.map fun name => resolver.moduleFile? base (parts ++ [name])).any
      Option.isNone = true ↔ ∃ name ∈ names, ¬ resolver.HasFile base (parts ++ [name]) := by
    simp only [List.any_map, List.any_eq_true, Function.comp_apply, Option.isNone_iff_eq_none,
      moduleFile?_eq_none_iff]
  rw [← hother]
  split
  · rename_i hsome
    rw [moduleFile?_eq_some_iff, and_iff_left hsome]
  · rename_i hnone
    simp [hnone]

/-- The directory that a relative import is sought in. -/
def relativeDirectory (importer : String) (level : ℕ) : String :=
  if relativeBase importer level = "" then "." else relativeBase importer level

/-- The directories that a dotted import is sought in, in order: the one that its dots lead to, or
all that absolute imports start from. -/
def searched (resolver : Resolver) (importer : String) (record : Import) : List String :=
  if record.level = 0 then resolver.roots else [relativeDirectory importer record.level]

lemma resolve_eq (importer : String) (record : Import) :
    resolver.resolve importer .python record =
      (((resolver.searched importer record).map (resolver.resolveUnder
        (dottedParts record.specifier) record.names)).find? (!·.isEmpty)).getD [] :=
  rfl

/-- A relative import leads to what it leads to in its one directory. -/
lemma resolve_eq_resolveUnder {record : Import} (hlevel : 0 < record.level) :
    resolver.resolve importer .python record =
      resolver.resolveUnder (dottedParts record.specifier) record.names
        (relativeDirectory importer record.level) := by
  rw [resolve_eq, searched, if_neg hlevel.ne', List.map_singleton, List.find?_singleton]
  split
  · rfl
  · rename_i hempty
    rw [Option.getD_none]
    simpa using hempty

end ImportRank.Resolver
