import ImportRank.Files.Tree
import Mathlib.Data.List.Nodup

/-!
# What lies below a directory

Names lead down a tree one entry at a time, through directories alone: a link is a leaf, whatever
it points to. A tree is well formed when no directory has two entries of one name. A tree that is
put together path by path is, and so is whatever a path leads to in one.

Main statements: `entry?_eq_some_iff`, `wellFormed_put`, `FileSystem.wellFormed_of_find`.
-/

namespace ImportRank

namespace FileTree

variable {tree leaf : FileTree} {entries : List (String × FileTree)} {name : String}
  {path : List String}

/-! ## Descending -/

/-- The tree that names lead to, one below the other. -/
def subtree? : FileTree → List String → Option FileTree
  | tree, [] => some tree
  | .directory entries, name :: path =>
    match entry? entries name with
    | some below => below.subtree? path
    | none => none
  | _, _ :: _ => none

@[simp] lemma subtree?_nil : tree.subtree? [] = some tree := by
  cases tree <;> rfl

lemma subtree?_cons_eq_some_iff :
    tree.subtree? (name :: path) = some leaf ↔
      ∃ entries below, tree = .directory entries ∧ entry? entries name = some below ∧
        below.subtree? path = some leaf := by
  cases tree with
  | directory entries => cases hentry : entry? entries name <;> simp [subtree?, hentry]
  | file bytes => simp [subtree?]
  | device => simp [subtree?]
  | link target => simp [subtree?]

/-- Whether a tree is a file, that is neither a directory nor a link. -/
def isFile : FileTree → Bool
  | .file _ => true
  | .device => true
  | _ => false

/-! ## One entry a name -/

/-- No directory in the tree has two entries of one name. -/
inductive WellFormed : FileTree → Prop
  | file (bytes : List UInt8) : WellFormed (.file bytes)
  | device : WellFormed .device
  | link (target : String) : WellFormed (.link target)
  | directory {entries : List (String × FileTree)} (hnames : (entries.map Prod.fst).Nodup)
      (hentries : ∀ entry ∈ entries, WellFormed entry.2) : WellFormed (.directory entries)

lemma wellFormed_directory_iff :
    WellFormed (.directory entries) ↔
      (entries.map Prod.fst).Nodup ∧ ∀ entry ∈ entries, WellFormed entry.2 := by
  constructor
  · rintro ⟨⟩
    exact ⟨‹_›, ‹_›⟩
  · rintro ⟨hnames, hentries⟩
    exact .directory hnames hentries

lemma mem_of_entry_eq (hentry : entry? entries name = some tree) : (name, tree) ∈ entries := by
  obtain ⟨before, after, rfl, -⟩ := List.lookup_eq_some_iff.mp hentry
  exact List.mem_append_right before List.mem_cons_self

/-- Where names are distinct, the entry of a name is the one that has it. -/
theorem entry?_eq_some_iff (hnames : (entries.map Prod.fst).Nodup) :
    entry? entries name = some tree ↔ (name, tree) ∈ entries := by
  refine ⟨mem_of_entry_eq, fun hmem => ?_⟩
  obtain ⟨before, after, rfl⟩ := List.append_of_mem hmem
  refine List.lookup_eq_some_iff.mpr ⟨before, after, rfl, fun entry hentry => ?_⟩
  rw [List.map_append, List.nodup_append] at hnames
  have hdistinct := hnames.2.2 entry.1 (List.mem_map_of_mem hentry) name (by simp)
  exact bne_iff_ne.mpr hdistinct.symm

/-! ## Putting a tree together -/

lemma mem_update {change : Option FileTree → FileTree} {entry : String × FileTree}
    (hentry : entry ∈ update change name entries) :
    entry ∈ entries ∨ entry = (name, change <| entry? entries name) := by
  induction entries with
  | nil => exact Or.inr (List.mem_singleton.mp hentry)
  | cons first rest ih =>
    obtain ⟨other, tree⟩ := first
    rw [update] at hentry
    unfold entry?
    rw [List.lookup_cons]
    by_cases hsame : other = name
    · subst hsame
      rw [if_pos rfl, List.mem_cons] at hentry
      rw [beq_self_eq_true]
      exact hentry.symm.imp_left (List.mem_cons_of_mem _)
    · rw [if_neg hsame, List.mem_cons] at hentry
      rw [beq_eq_false_iff_ne.mpr (Ne.symm hsame)]
      rcases hentry with rfl | hentry
      · exact Or.inl List.mem_cons_self
      · exact (ih hentry).imp_left (List.mem_cons_of_mem _)

lemma nodup_names_update {change : Option FileTree → FileTree}
    (hnames : (entries.map Prod.fst).Nodup) :
    ((update change name entries).map Prod.fst).Nodup := by
  induction entries with
  | nil => exact List.nodup_singleton name
  | cons first rest ih =>
    obtain ⟨other, tree⟩ := first
    rw [List.map_cons, List.nodup_cons] at hnames
    rw [update]
    by_cases hsame : other = name
    · rw [if_pos hsame]
      exact List.nodup_cons.mpr hnames
    · rw [if_neg hsame]
      refine List.nodup_cons.mpr ⟨fun hother => ?_, ih hnames.2⟩
      obtain ⟨entry, hentry, hname⟩ := List.mem_map.mp hother
      rcases mem_update hentry with hold | rfl
      · exact hnames.1 (List.mem_map.mpr ⟨entry, hold, hname⟩)
      · exact hsame hname.symm

/-- Putting a tree at a path leaves one entry a name. -/
theorem wellFormed_put {old : Option FileTree} (hleaf : leaf.WellFormed)
    (hold : ∀ tree ∈ old, WellFormed tree) : (put leaf path old).WellFormed := by
  induction path generalizing old with
  | nil =>
    unfold put
    split
    · exact hold _ rfl
    · exact hleaf
  | cons name path ih =>
    have hnew : (FileTree.directory [(name, put leaf path none)]).WellFormed := by
      refine .directory (List.nodup_singleton name) fun entry hentry => ?_
      rw [List.mem_singleton.mp hentry]
      exact ih (by simp)
    cases old with
    | none => exact hnew
    | some tree =>
      cases tree with
      | directory entries =>
        obtain ⟨hnames, hentries⟩ := wellFormed_directory_iff.mp (hold _ rfl)
        refine .directory (nodup_names_update hnames) fun entry hentry => ?_
        rcases mem_update hentry with hmem | rfl
        · exact hentries entry hmem
        · exact ih fun tree htree => hentries (name, tree) (mem_of_entry_eq htree)
      | file bytes => exact hnew
      | device => exact hnew
      | link target => exact hnew

end FileTree

/-! ## What a path leads to -/

namespace FileSystem

/-- A walk ends in a well-formed tree when it starts in one, with well-formed ones above it. -/
lemma wellFormed_of_walk {root here found : FileTree} {links : ℕ} {above : List FileTree}
    {names : List String} (hroot : root.WellFormed) (hhere : here.WellFormed)
    (habove : ∀ tree ∈ above, tree.WellFormed)
    (hfound : walk root links above here names = .ok found) : found.WellFormed := by
  fun_induction walk root links above here names with
  | case1 links above here =>
    cases hfound
    exact hhere
  | case2 links above rest entries ih => exact ih hhere habove hfound
  | case3 links rest entries hdot ih => exact ih hhere habove hfound
  | case4 links rest entries up higher hdot ih =>
    exact ih (habove up List.mem_cons_self)
      (fun tree htree => habove tree (List.mem_cons_of_mem up htree)) hfound
  | case9 above name rest entries hdot hup hshort target hentry links htarget hslash ih =>
    exact ih hroot (fun _ hnone => absurd hnone List.not_mem_nil) hfound
  | case10 above name rest entries hdot hup hshort target hentry links htarget hslash ih =>
    exact ih hhere habove hfound
  | case11 links above name rest entries hdot hup hshort tree hlink hentry ih =>
    have hentries := (FileTree.wellFormed_directory_iff.mp hhere).2
    exact ih (hentries _ (FileTree.mem_of_entry_eq hentry)) (List.forall_mem_cons.mpr ⟨hhere, habove⟩)
      hfound
  | _ => exact absurd hfound (by simp)

/-- Whatever a path leads to in a well-formed tree is well formed. -/
theorem wellFormed_of_find {files : FileSystem} {path : Path} {tree : FileTree}
    (hroot : files.root.WellFormed) (htree : files.find path = .ok tree) : tree.WellFormed :=
  wellFormed_of_walk hroot hroot (fun _ hnone => absurd hnone List.not_mem_nil) htree

end FileSystem

end ImportRank
