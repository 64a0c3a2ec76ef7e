import ImportRank.Proofs.Import.Modules
import ImportRank.Proofs.Path.Climb

/-!
# Relative dotted imports

A relative dotted import starts from a directory that is as many times the parent of the importing
file as the import has dots, and leads to files below that directory. Where no more names are left
to climb, the directory of a directory is not the one above it: the parent of the working directory
is the working directory, and that of a path of steps up has one step less. There a relative import
leads nowhere below the directory that its dots climb to. Main statement: `resolve_relative`.
-/

namespace ImportRank.Resolver

open ImportRank.Path (IsNormal IsComponent IsPlain Within)

variable {resolver : Resolver} {importer target : String} {record : Import}

/-! ## Where an import starts -/

/-- The directory a relative import starts from. -/
def startOf (importer : String) (level : ℕ) : Path := Path.parent^[level] (Path.ofString importer)

lemma isComponent_startOf (importer : String) (level : ℕ) :
    ∀ part ∈ (startOf importer level).parts, IsComponent part := by
  intro part hpart
  rw [startOf, Path.iterate_parent] at hpart
  exact Path.isComponent_of_mem_components (List.mem_of_mem_take hpart)

lemma normalize_startOf (hnormal : IsNormal importer) (level : ℕ) :
    (startOf importer level).normalize = startOf importer level :=
  Path.normalize_iterate_parent hnormal.normalize_ofString level

lemma relativeBase_succ (hnormal : IsNormal importer) (level : ℕ) :
    relativeBase importer (level + 1) = (startOf importer (level + 1)).bareText := by
  induction level with
  | zero =>
    have hcut := Path.directoryText_toString (isComponent_startOf importer 0)
    have htext : (startOf importer 0).toString = importer := hnormal.toString_ofString
    rw [htext] at hcut
    exact hcut
  | succ level ih =>
    rw [relativeBase, ih, Path.directoryText_bareText (isComponent_startOf _ _), startOf, startOf,
      Function.iterate_succ_apply' _ (level + 1)]

lemma relativeDirectory_eq {level : ℕ} (hnormal : IsNormal importer) (hlevel : 0 < level) :
    relativeDirectory importer level = (startOf importer level).toString := by
  obtain ⟨above, rfl⟩ : ∃ above, level = above + 1 :=
    ⟨level - 1, (Nat.succ_pred_eq_of_pos hlevel).symm⟩
  rw [relativeDirectory, relativeBase_succ hnormal, ← Path.toString_eq (isComponent_startOf _ _)]

/-- The targets of a relative import are those under the directory it starts from. -/
lemma mem_resolveUnder_of_mem_resolve (hnormal : IsNormal importer) (hlevel : 0 < record.level)
    (htarget : target ∈ resolver.resolve importer .python record) :
    target ∈ resolver.resolveUnder (dottedParts record.specifier) record.names
      (startOf importer record.level).toString := by
  rwa [resolve_eq_resolveUnder hlevel, relativeDirectory_eq hnormal hlevel] at htarget

/-! ## Files below a directory -/

lemma isPlain_append_ending {name : String} (hname : IsPlain name) : IsPlain (name ++ ".py") := by
  -- neither of the components that are no names ends like this
  have hlast : (name ++ ".py").toList.getLast? = some 'y' := by simp
  have hother : ∀ text : String, text.toList.getLast? ≠ some 'y' → name ++ ".py" ≠ text :=
    fun text htext hsame => htext (hsame ▸ hlast)
  refine ⟨⟨hother _ (by decide), hother _ (by decide), ?_⟩, hother _ (by decide)⟩
  simp [hname.slash_notMem]

section ModuleFile

variable {directory : Path} {asked : List String}

/-- The file of a dotted name below a directory in normal form goes on from it by names. -/
lemma exists_names_of_moduleFile? (hnormal : directory.normalize = directory)
    (hparts : ∀ part ∈ directory.parts, IsComponent part) (hasked : ∀ part ∈ asked, IsPlain part)
    (hfile : resolver.moduleFile? directory.toString asked = some target) :
    ∃ names, names ≠ [] ∧ (∀ name ∈ names, IsPlain name) ∧
      target = Path.toString { directory with parts := directory.parts ++ names } := by
  have hinit : IsPlain "__init__.py" := ⟨⟨by decide, by decide, by decide⟩, by decide⟩
  have hpackage : ∀ part ∈ asked ++ ["__init__.py"], IsPlain part := by
    rw [List.forall_mem_append, List.forall_mem_singleton]
    exact ⟨hasked, hinit⟩
  have htarget := List.mem_of_find?_eq_some hfile
  split at htarget
  · rename_i hnil
    rw [List.isEmpty_iff] at hnil
    rw [hnil, List.nil_append] at hpackage
    obtain rfl := List.mem_singleton.mp htarget
    exact ⟨_, List.cons_ne_nil _ _, hpackage, Path.key_names hnormal hparts hpackage⟩
  · rename_i hcons
    rw [List.mem_cons, List.mem_singleton] at htarget
    rcases htarget with rfl | rfl
    · -- the ending goes to the last part of the name
      rw [List.isEmpty_iff] at hcons
      obtain ⟨front, last, rfl⟩ := (List.eq_nil_or_concat' asked).resolve_left hcons
      have hending := Path.toString_child_append
        { directory with parts := directory.parts ++ front } last ".py"
      rw [Path.key_names hnormal hparts hasked]
      rw [List.forall_mem_append, List.forall_mem_singleton] at hasked
      refine ⟨front ++ [last ++ ".py"], by simp, ?_, ?_⟩
      · rw [List.forall_mem_append, List.forall_mem_singleton]
        exact ⟨hasked.1, isPlain_append_ending hasked.2⟩
      · simpa [Path.child] using hending
    · exact ⟨_, by simp, hpackage, Path.key_names hnormal hparts hpackage⟩

lemma within_of_moduleFile? (hnormal : directory.normalize = directory)
    (hparts : ∀ part ∈ directory.parts, IsComponent part) (hasked : ∀ part ∈ asked, IsPlain part)
    (hfile : resolver.moduleFile? directory.toString asked = some target) :
    Within directory (Path.ofString target) := by
  obtain ⟨names, hne, hnames, rfl⟩ := exists_names_of_moduleFile? hnormal hparts hasked hfile
  rw [Path.ofString_toString]
  · exact ⟨rfl, names, hne, fun hup => (hnames _ hup).ne_up rfl, rfl⟩
  · rw [List.forall_mem_append]
    exact ⟨hparts, fun name hname => (hnames name hname).toIsComponent⟩

end ModuleFile

/-- Every target of a relative import goes on by names from the directory it starts from. -/
lemma within_startOf (hnormal : IsNormal importer) (hlevel : 0 < record.level)
    (hspecifier : ∀ part ∈ dottedParts record.specifier, IsPlain part)
    (hnames : ∀ name ∈ record.names, IsPlain name)
    (htarget : target ∈ resolver.resolve importer .python record) :
    Within (startOf importer record.level) (Path.ofString target) := by
  -- whatever is asked for is made of parts of the specifier and of names
  obtain ⟨asked, hfile, hasked⟩ := exists_moduleFile?_of_mem_resolveUnder
    (mem_resolveUnder_of_mem_resolve hnormal hlevel htarget)
  refine within_of_moduleFile? (normalize_startOf hnormal _)
    (isComponent_startOf _ _) ?_ hfile
  intro part hpart
  rcases List.mem_append.mp (hasked hpart) with hpart | hname
  · exact hspecifier part hpart
  · exact hnames part hname

/-! ## What an import leads to -/

/-- The directory that the dots of a relative import climb to: one dot is the importing file's own,
each further dot a step up. -/
def climbedDirectory (importer : String) (level : ℕ) : Path :=
  ((Path.ofString importer).parent.join
    { anchor := .relative, parts := List.replicate (level - 1) ".." }).normalize

/-- A relative import leads below the directory that its dots climb to, as long as they do not climb
past all names of a relative directory; if they do, it leads nowhere below. -/
theorem resolve_relative (hkeys : ∀ key ∈ resolver.keys, IsNormal key)
    (himporter : importer ∈ resolver.keys) (hlevel : 0 < record.level)
    (hspecifier : ∀ part ∈ dottedParts record.specifier, IsPlain part)
    (hnames : ∀ name ∈ record.names, IsPlain name) :
    let own := (Path.ofString importer).parent
    ((own.anchor = .relative → record.level - 1 ≤ own.depth) →
      ∀ target ∈ resolver.resolve importer .python record,
        Within (climbedDirectory importer record.level) (Path.ofString target)) ∧
    (own.anchor = .relative ∧ own.depth < record.level - 1 →
      ∀ target ∈ resolver.resolve importer .python record,
        ¬ Within (climbedDirectory importer record.level) (Path.ofString target)) := by
  intro own
  have hnormal := hkeys importer himporter
  have hown : own.normalize = own := normalize_startOf hnormal 1
  have hstart : startOf importer record.level = Path.parent^[record.level - 1] own := by
    rw [startOf, ← Nat.succ_pred_eq_of_pos hlevel, Function.iterate_succ_apply]
    rfl
  have hwithin : ∀ target ∈ resolver.resolve importer .python record,
      Within (Path.parent^[record.level - 1] own) (Path.ofString target) := by
    intro target htarget
    rw [← hstart]
    exact within_startOf hnormal hlevel hspecifier hnames htarget
  constructor
  · intro hdepth target htarget
    rw [climbedDirectory, Path.normalize_join_climbs hown hdepth]
    exact hwithin target htarget
  · rintro ⟨hanchor, hdepth⟩ target htarget
    exact Path.not_within_join_climbs hown hanchor hdepth (hwithin target htarget)

/-- Two dots lead from a file of one inner package to one of another. -/
theorem resolve_relative_outer :
    (∀ key ∈ ["p/q/a.py", "p/r/b.py", "b.py"], IsNormal key) ∧
      (∀ part ∈ dottedParts "r", IsPlain part) ∧ (∀ name ∈ ["b"], IsPlain name) ∧
      "p/r/b.py" ∈ Resolver.resolve ⟨["p/q/a.py", "p/r/b.py", "b.py"], []⟩ "p/q/a.py" .python
        ⟨"r", 2, ["b"]⟩ ∧
      Within (climbedDirectory "p/q/a.py" 2) (Path.ofString "p/r/b.py") := by
  have hkeys : ∀ key ∈ ["p/q/a.py", "p/r/b.py", "b.py"], IsNormal key := by
    unfold IsNormal
    decide +kernel
  have hparts : dottedParts "r" = ["r"] := by decide +kernel
  have hspecifier : ∀ part ∈ dottedParts "r", IsPlain part := by
    rw [hparts, List.forall_mem_singleton]
    exact Path.isPlain_of_dot_notMem (by decide) (by decide) (by decide)
  have hnames : ∀ name ∈ ["b"], IsPlain name := by
    rw [List.forall_mem_singleton]
    exact Path.isPlain_of_dot_notMem (by decide) (by decide) (by decide)
  have htarget : "p/r/b.py" ∈ Resolver.resolve ⟨["p/q/a.py", "p/r/b.py", "b.py"], []⟩ "p/q/a.py"
      .python ⟨"r", 2, ["b"]⟩ := by
    decide +kernel
  have hwithin := @resolve_relative ⟨["p/q/a.py", "p/r/b.py", "b.py"], []⟩ "p/q/a.py"
    ⟨"r", 2, ["b"]⟩ hkeys List.mem_cons_self (by decide) hspecifier hnames
  exact ⟨hkeys, hspecifier, hnames, htarget, hwithin.1 (fun _ => by decide +kernel) _ htarget⟩

/-- Three dots in a package beside the working directory climb past it, and the import leads to a
file of the working directory. -/
theorem not_within_climbedDirectory :
    ¬ ∀ (resolver : Resolver) (importer : String) (record : Import),
      (∀ key ∈ resolver.keys, IsNormal key) → importer ∈ resolver.keys → 0 < record.level →
      (∀ part ∈ dottedParts record.specifier, IsPlain part) →
      (∀ name ∈ record.names, IsPlain name) →
      ∀ target ∈ resolver.resolve importer .python record,
        Within (climbedDirectory importer record.level) (Path.ofString target) := by
  intro hwithin
  have hkeys : ∀ key ∈ ["../p/b.py", "a.py"], IsNormal key := by
    unfold IsNormal
    decide +kernel
  have hname : ∀ name ∈ ["a"], IsPlain name := by
    rw [List.forall_mem_singleton]
    exact Path.isPlain_of_dot_notMem (by decide) (by decide) (by decide)
  have htarget : "a.py" ∈ Resolver.resolve ⟨["../p/b.py", "a.py"], []⟩ "../p/b.py" .python
      ⟨"", 3, ["a"]⟩ := by
    decide +kernel
  obtain ⟨_, names, _, _, hparts⟩ := hwithin ⟨["../p/b.py", "a.py"], []⟩ "../p/b.py" ⟨"", 3, ["a"]⟩
    hkeys List.mem_cons_self (by decide) (fun part hpart => absurd hpart List.not_mem_nil) hname
    "a.py" htarget
  have hclimbed : climbedDirectory "../p/b.py" 3 = ⟨.relative, ["..", ".."]⟩ := by decide +kernel
  have hfile : Path.ofString "a.py" = ⟨.relative, ["a.py"]⟩ := by decide +kernel
  rw [hclimbed, hfile] at hparts
  simp at hparts

end ImportRank.Resolver
