import ImportRank.Files.Tree
import ImportRank.Proofs.Path.Normal

/-!
# Absolute paths

A normal path leads to the same thing as the absolute path that is made of it. Making it absolute
takes names of the working directory back for every step up, before anything is walked; that is
where the steps themselves lead, because the working directory is reached through directories and
through no link.
-/

namespace ImportRank.FileSystem

variable {root here : FileTree} {above : List FileTree} {entries inner : List (String × FileTree)}
  {names : List String} {name : String} {links : ℕ}

/-! ## Standing in a directory -/

/-- A name that leads from a directory to an entry of it. -/
structure IsName (name : String) : Prop extends Path.IsComponent name where
  ne_up : name ≠ ".."
  le_nameLimit : name.utf8ByteSize ≤ nameLimit

/-- Some names, the last first, lead from the root to a directory, through directories alone; those
are `above` it, the nearest first. -/
inductive Stands (root : FileTree) :
    List FileTree → List (String × FileTree) → List String → Prop
  | atRoot {entries : List (String × FileTree)} (hroot : root = .directory entries) :
      Stands root [] entries []
  | enter {above : List FileTree} {entries inner : List (String × FileTree)}
      {names : List String} {name : String} (hstands : Stands root above entries names)
      (hname : IsName name) (hentry : FileTree.entry? entries name = some (.directory inner)) :
      Stands root (.directory entries :: above) inner (name :: names)

/-- The working directory is one that can be stood in. A process never has another one: the system
tells it by names that lead through directories alone, whatever links it was entered by. -/
def Grounded (files : FileSystem) : Prop :=
  ∃ above entries, Stands files.root above entries files.workingDirectory.reverse

lemma Stands.isName_of_mem (hstands : Stands root above entries names) (hname : name ∈ names) :
    IsName name := by
  induction hstands with
  | atRoot hroot => exact absurd hname List.not_mem_nil
  | enter hstands hlast hentry ih =>
    rcases List.mem_cons.mp hname with rfl | hmem
    · exact hlast
    · exact ih hmem

/-! ## Walking -/

lemma walk_enter (hname : IsName name)
    (hentry : FileTree.entry? entries name = some (.directory inner)) (rest : List String) :
    walk root links above (.directory entries) (name :: rest) =
      walk root links (.directory entries :: above) (.directory inner) rest := by
  rw [walk.eq_def]
  simp [hname.ne_dot, hname.ne_up, Nat.not_lt.mpr hname.le_nameLimit, hentry]

/-- From where the names lead, a walk goes on as one that starts with them at the root. -/
lemma Stands.walk_down (hstands : Stands root above entries names) (rest : List String) :
    walk root links [] root (names.reverse ++ rest) =
      walk root links above (.directory entries) rest := by
  induction hstands generalizing rest with
  | atRoot hroot => rw [hroot, List.reverse_nil, List.nil_append]
  | enter hstands hname hentry ih =>
    rw [List.reverse_cons, List.append_assoc, List.singleton_append, ih, walk_enter hname hentry]

/-- Steps up take back as many names. At the root they lead nowhere else. -/
lemma Stands.walk_climb (hstands : Stands root above entries names) (climbs : ℕ)
    (rest : List String) :
    walk root links above (.directory entries) (List.replicate climbs ".." ++ rest) =
      walk root links [] root ((names.drop climbs).reverse ++ rest) := by
  induction climbs generalizing above entries names with
  | zero => exact (hstands.walk_down rest).symm
  | succ climbs ih =>
    rw [List.replicate_succ, List.cons_append, walk.eq_def]
    cases hstands with
    | atRoot hroot =>
      have hclimb := ih (Stands.atRoot hroot)
      simpa using hclimb
    | enter hstands hname hentry =>
      have hclimb := ih hstands
      simpa using hclimb

/-! ## Paths -/

variable {files : FileSystem} {key : String}

lemma Grounded.isName_of_mem (hgrounded : files.Grounded) (hname : name ∈ files.workingDirectory) :
    IsName name := by
  obtain ⟨above, entries, hstands⟩ := hgrounded
  exact hstands.isName_of_mem (List.mem_reverse.mpr hname)

/-- The components of an absolute path are ones that a text can have. -/
lemma Grounded.isComponent_absolute (hgrounded : files.Grounded) {path : Path}
    (hparts : ∀ part ∈ path.parts, Path.IsComponent part) :
    ∀ part ∈ (files.absolute path).parts, Path.IsComponent part := by
  intro part hpart
  have hjoin := Path.mem_parts_of_mem_normalize hpart
  rw [Path.join] at hjoin
  split at hjoin
  · rcases List.mem_append.mp hjoin with hbase | hpath
    · exact (hgrounded.isName_of_mem hbase).toIsComponent
    · exact hparts part hpath
  · exact hparts part hjoin

/-- The absolute path of a relative one in normal form: the names of the working directory, less
one for every step up, and then those of the path. -/
lemma absolute_relative (hdirectory : ".." ∉ files.workingDirectory) (climbs : ℕ)
    (hnames : ".." ∉ names) :
    files.absolute { anchor := .relative, parts := List.replicate climbs ".." ++ names } =
      { anchor := .root
        parts := (files.workingDirectory.reverse.drop climbs).reverse ++ names } := by
  have hroot : Anchor.root ≠ .relative := by decide
  have hreverse : ".." ∉ files.workingDirectory.reverse := by simpa using hdirectory
  rw [absolute, Path.join, if_pos rfl, Path.normalize]
  simp only [List.foldl_append]
  rw [Path.foldl_descend_names hdirectory, List.append_nil,
    Path.foldl_descend_climbs hroot hreverse, Path.foldl_descend_names hnames, List.reverse_append,
    List.reverse_reverse]

/-- Steps up lead from the working directory to where its names lead that are left. -/
lemma Grounded.find_absolute_relative (hgrounded : files.Grounded) (climbs : ℕ)
    (hnames : ".." ∉ names) :
    files.find (files.absolute
        { anchor := .relative, parts := List.replicate climbs ".." ++ names }) =
      files.find { anchor := .relative, parts := List.replicate climbs ".." ++ names } := by
  have hdirectory : ".." ∉ files.workingDirectory := fun hmem =>
    (hgrounded.isName_of_mem hmem).ne_up rfl
  obtain ⟨above, entries, hstands⟩ := hgrounded
  rw [absolute_relative hdirectory climbs hnames]
  calc walk files.root linkLimit [] files.root
        ((files.workingDirectory.reverse.drop climbs).reverse ++ names)
      = walk files.root linkLimit above (.directory entries)
          (List.replicate climbs ".." ++ names) := (hstands.walk_climb climbs names).symm
    _ = walk files.root linkLimit [] files.root
          (files.workingDirectory ++ (List.replicate climbs ".." ++ names)) := by
        rw [← hstands.walk_down, List.reverse_reverse]

/-- A normal path and its absolute path lead to the same thing. -/
theorem Grounded.find_absolute (hgrounded : files.Grounded) (hnormal : Path.IsNormal key) :
    files.find (Path.ofString (files.absolute (Path.ofString key)).toString) =
      files.find (Path.ofString key) := by
  have hcomponents : ∀ part ∈ (Path.ofString key).parts, Path.IsComponent part :=
    fun part hpart => Path.isComponent_of_mem_components hpart
  rw [Path.ofString_toString (hgrounded.isComponent_absolute hcomponents)]
  by_cases hanchor : (Path.ofString key).anchor = .relative
  · obtain ⟨climbs, names, hparts, hnames⟩ := hnormal.exists_parts
    have hpath : Path.ofString key =
        { anchor := .relative, parts := List.replicate climbs ".." ++ names } := by
      rw [← hparts, ← hanchor]
    rw [hpath]
    exact hgrounded.find_absolute_relative climbs hnames
  · rw [absolute, Path.join, if_neg hanchor, hnormal.normalize_ofString]

/-- So the same is read from both. -/
lemma Grounded.read_absolute (hgrounded : files.Grounded) (hnormal : Path.IsNormal key) :
    files.read (Path.ofString (files.absolute (Path.ofString key)).toString) =
      files.read (Path.ofString key) := by
  rw [read, read, hgrounded.find_absolute hnormal]

end ImportRank.FileSystem
