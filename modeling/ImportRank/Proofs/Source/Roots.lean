import ImportRank.Proofs.Files.Place
import ImportRank.Proofs.Path.Climb
import ImportRank.Proofs.Run.Discovery
import ImportRank.Proofs.Source.Eligible
import ImportRank.Proofs.Source.Refusal

/-!
# Several roots

The files of several roots are those of each root by itself, one root after the other, without the
files whose key an earlier root has. So what a further root adds comes last, and a root adds nothing
when it leads to files that are there already, however it is spelled. Nothing is returned when a
root leads nowhere.

Main statement: `search_combines`.
-/

namespace ImportRank.Search

variable {workspace : Workspace} {options : SearchOptions} {root : String}
  {roots front rest : List String} {found more own : List SourceFile}
  {owns : List (List SourceFile)} {key : String}

/-! ## Adding files -/

/-- Some files, and then those of others whose key is new. -/
def joined (found own : List SourceFile) : List SourceFile :=
  found ++ own.filter fun file => file.key ∉ found.map SourceFile.key

/-- The files of several lists one after the other, without those whose key an earlier list has. -/
def withoutEarlier (owns : List (List SourceFile)) : List SourceFile :=
  (owns.mapIdx fun place own =>
    own.filter fun file => file.key ∉ (owns.take place).flatten.map SourceFile.key).flatten

lemma mem_map_key_joined :
    key ∈ (joined found own).map SourceFile.key ↔
      key ∈ found.map SourceFile.key ∨ key ∈ own.map SourceFile.key := by
  simp only [joined, List.map_append, List.mem_append]
  constructor
  · rintro (hfound | hown)
    · exact Or.inl hfound
    · exact Or.inr (List.map_subset _ (List.filter_subset_self own) hown)
  · rintro (hfound | hown)
    · exact Or.inl hfound
    · by_cases hthere : key ∈ found.map SourceFile.key
      · exact Or.inl hthere
      · obtain ⟨file, hfile, rfl⟩ := List.mem_map.mp hown
        exact Or.inr (List.mem_map_of_mem (List.mem_filter.mpr ⟨hfile, decide_eq_true hthere⟩))

/-- Whether a file joins depends on the keys that are there alone. -/
lemma joined_joined (found own more : List SourceFile) :
    joined (joined found own) more = joined found (joined own more) := by
  have hfilter : more.filter (fun file => file.key ∉ (joined found own).map SourceFile.key) =
      (more.filter fun file => file.key ∉ own.map SourceFile.key).filter
        fun file => file.key ∉ found.map SourceFile.key := by
    rw [List.filter_filter]
    refine List.filter_congr fun file _ => ?_
    rw [← Bool.decide_and, decide_eq_decide, mem_map_key_joined, not_or]
  rw [joined, hfilter, joined, joined, joined, List.filter_append, List.append_assoc]

lemma addNew_cons (found more : List SourceFile) (file : SourceFile) :
    addNew found (file :: more) = addNew (joined found [file]) more := by
  have hstep : (if found.any (·.key = file.key) then found else found ++ [file]) =
      joined found [file] := by
    by_cases hthere : file.key ∈ found.map SourceFile.key
    · have hany : found.any (·.key = file.key) = true := by simpa using hthere
      rw [if_pos hany, joined, List.filter_cons_of_neg (by simpa using hthere), List.filter_nil,
        List.append_nil]
    · have hany : ¬ found.any (·.key = file.key) = true := by simpa using hthere
      rw [if_neg hany, joined, List.filter_cons_of_pos (by simpa using hthere), List.filter_nil]
  rw [← hstep]
  rfl

/-- Files are added to some as they are to none, but for those whose key is there. -/
lemma addNew_eq_joined (found more : List SourceFile) :
    addNew found more = joined found (addNew [] more) := by
  induction more generalizing found with
  | nil => simp [addNew, joined]
  | cons file more ih =>
    have hfirst : joined [] [file] = [file] := by simp [joined]
    rw [addNew_cons, addNew_cons, ih, ih (joined [] [file]), joined_joined, hfirst]

/-! ## One root after the other -/

lemma search_singleton (root : String) :
    search workspace options [root] = (searchRoot workspace options root).map (addNew []) := by
  show (searchRoot workspace options root >>= fun more => pure (addNew [] more)) = _
  cases searchRoot workspace options root <;> rfl

/-- A further root adds the files that are found at it alone. -/
lemma searchRoots_cons (found : List SourceFile) (root : String) (rest : List String) :
    searchRoots workspace options found (root :: rest) =
      search workspace options [root] >>= fun own =>
        searchRoots workspace options (joined found own) rest := by
  rw [searchRoots, search_singleton]
  cases searchRoot workspace options root with
  | error error => rfl
  | ok more =>
    show searchRoots workspace options (addNew found more) rest = _
    rw [addNew_eq_joined]
    rfl

lemma searchRoots_append (found : List SourceFile) (front rest : List String) :
    searchRoots workspace options found (front ++ rest) =
      searchRoots workspace options found front >>= fun between =>
        searchRoots workspace options between rest := by
  induction front generalizing found with
  | nil => rfl
  | cons root front ih =>
    rw [List.cons_append, searchRoots_cons, searchRoots_cons]
    cases search workspace options [root] with
    | error error => rfl
    | ok own => exact ih (joined found own)

lemma searchRoots_eq_ok_iff :
    searchRoots workspace options found roots = .ok more ↔
      ∃ owns, List.Forall₂ (fun root own => search workspace options [root] = .ok own) roots owns ∧
        owns.foldl joined found = more := by
  induction roots generalizing found with
  | nil => simp [searchRoots]
  | cons root roots ih =>
    rw [searchRoots_cons, except_bind_eq_ok]
    constructor
    · rintro ⟨own, hown, hrest⟩
      obtain ⟨owns, howns, hmore⟩ := ih.mp hrest
      exact ⟨own :: owns, .cons hown howns, hmore⟩
    · rintro ⟨_, ⟨⟩, hmore⟩
      rename_i own owns hown howns
      exact ⟨own, hown, ih.mpr ⟨owns, howns, hmore⟩⟩

lemma search_of_ne_nil (hroots : roots ≠ []) :
    search workspace options roots = searchRoots workspace options [] roots := by
  rw [search, if_neg (by simpa using hroots)]

lemma search_append (hfront : front ≠ []) :
    search workspace options (front ++ rest) =
      search workspace options front >>= fun found => searchRoots workspace options found rest := by
  rw [search_of_ne_nil hfront, search_of_ne_nil (List.append_ne_nil_of_left_ne_nil hfront rest),
    searchRoots_append]

/-! ## All roots together -/

lemma mem_map_key_foldl_joined :
    key ∈ (owns.foldl joined found).map SourceFile.key ↔
      key ∈ found.map SourceFile.key ∨ key ∈ owns.flatten.map SourceFile.key := by
  induction owns generalizing found with
  | nil => simp
  | cons own owns ih =>
    rw [List.foldl_cons, ih, mem_map_key_joined, List.flatten_cons, List.map_append,
      List.mem_append, or_assoc]

lemma foldl_joined_eq (owns : List (List SourceFile)) :
    owns.foldl joined [] = withoutEarlier owns := by
  induction owns using List.reverseRecOn with
  | nil => rfl
  | append_singleton owns own ih =>
    have hearlier : (owns.mapIdx fun place other => other.filter fun file =>
          file.key ∉ ((owns ++ [own]).take place).flatten.map SourceFile.key) =
        owns.mapIdx fun place other => other.filter fun file =>
          file.key ∉ (owns.take place).flatten.map SourceFile.key := by
      refine List.mapIdx_eq_mapIdx_iff.mpr fun place hplace => ?_
      rw [List.take_append_of_le_length hplace.le]
    have hlast : own.filter (fun file =>
          file.key ∉ (owns.foldl joined []).map SourceFile.key) =
        own.filter fun file => file.key ∉ owns.flatten.map SourceFile.key := by
      refine List.filter_congr fun file _ => ?_
      rw [decide_eq_decide, mem_map_key_foldl_joined]
      simp
    rw [List.foldl_append, List.foldl_cons, List.foldl_nil, joined, hlast, ih, withoutEarlier,
      withoutEarlier, List.mapIdx_concat, hearlier]
    simp

/-! ## What is found at a root -/

/-- A search finds a file of a language at a root: the root itself, or one that the search of its
directory returns. -/
inductive FoundAt (workspace : Workspace) (options : SearchOptions) (root : String) :
    Path → Language → Prop
  | root {tree : FileTree} {language : Language}
      (hroot : workspace.files.find (Path.ofString root) = .ok tree)
      (hfile : ∀ entries, tree ≠ .directory entries)
      (hlanguage : languageOf? options (Path.ofString root).name = some language) :
      FoundAt workspace options root (Path.ofString root) language
  | below {entries : List (String × FileTree)} {returned : List (List String × Language)}
      {below : List String} {language : Language}
      (hroot : workspace.files.find (Path.ofString root) = .ok (.directory entries))
      (hreturned : searchDirectory workspace options (Path.ofString root) (.directory entries) =
        .ok returned)
      (hmem : (below, language) ∈ returned) :
      FoundAt workspace options root
        { Path.ofString root with parts := (Path.ofString root).parts ++ below } language

lemma exists_foundAt_of_mem_searchRoot {file : SourceFile}
    (hmore : searchRoot workspace options root = .ok more) (hfile : file ∈ more) :
    ∃ path, FoundAt workspace options root path file.language ∧
      file.key = path.normalize.toString := by
  rw [searchRoot, except_bind_eq_ok] at hmore
  obtain ⟨found?, hfind, hmore⟩ := hmore
  rw [mapError_eq_ok] at hfind
  split at hmore
  · cases hmore
  · rename_i entries
    obtain ⟨returned, hreturned, hmore⟩ := except_bind_eq_ok.mp hmore
    rw [except_pure_eq_ok] at hmore
    rw [← hmore] at hfile
    obtain ⟨⟨below, language⟩, hmem, rfl⟩ := List.mem_map.mp hfile
    exact ⟨_, .below (FileSystem.find?_eq_ok_some_iff.mp hfind) hreturned hmem, rfl⟩
  · rename_i tree hother
    rw [except_pure_eq_ok] at hmore
    rw [← hmore, Option.mem_toList, Option.map_eq_some_iff] at hfile
    obtain ⟨language, hlanguage, rfl⟩ := hfile
    exact ⟨_, .root (FileSystem.find?_eq_ok_some_iff.mp hfind)
      (fun entries hdirectory => hother entries hdirectory) hlanguage, rfl⟩

lemma mem_of_mem_addNew {file : SourceFile} (hfile : file ∈ addNew found more) :
    file ∈ found ∨ file ∈ more := by
  induction more generalizing found with
  | nil => exact Or.inl hfile
  | cons first more ih =>
    rw [addNew_cons] at hfile
    rcases ih hfile with hjoined | hmore
    · rcases List.mem_append.mp hjoined with hfound | hfirst
      · exact Or.inl hfound
      · rw [List.mem_singleton.mp (List.mem_of_mem_filter hfirst)]
        exact Or.inr List.mem_cons_self
    · exact Or.inr (List.mem_cons_of_mem first hmore)

lemma exists_root_of_mem_searchRoots {file : SourceFile}
    (hmore : searchRoots workspace options found roots = .ok more) (hfile : file ∈ more) :
    file ∈ found ∨
      ∃ root ∈ roots, ∃ own, searchRoot workspace options root = .ok own ∧ file ∈ own := by
  induction roots generalizing found with
  | nil =>
    rw [searchRoots, except_pure_eq_ok] at hmore
    exact Or.inl (hmore ▸ hfile)
  | cons root roots ih =>
    rw [searchRoots, except_bind_eq_ok] at hmore
    obtain ⟨own, hown, hrest⟩ := hmore
    rcases ih hrest with hadded | ⟨other, hother, hfound⟩
    · refine (mem_of_mem_addNew hadded).imp_right fun hmem => ?_
      exact ⟨root, List.mem_cons_self, own, hown, hmem⟩
    · exact Or.inr ⟨other, List.mem_cons_of_mem root hother, hfound⟩

/-- The key of a file of a search is the normalized path of one that is found at a root. -/
theorem exists_foundAt_of_mem_search {file : SourceFile}
    (hfound : search workspace options roots = .ok found) (hfile : file ∈ found) :
    ∃ root ∈ roots, ∃ path, FoundAt workspace options root path file.language ∧
      file.key = path.normalize.toString := by
  have hroots : roots ≠ [] := by
    rintro rfl
    cases hfound
  rw [search_of_ne_nil hroots] at hfound
  rcases exists_root_of_mem_searchRoots hfound hfile with hnone | ⟨root, hroot, own, hown, hmem⟩
  · exact absurd hnone List.not_mem_nil
  · exact ⟨root, hroot, exists_foundAt_of_mem_searchRoot hown hmem⟩

/-- What the search of a directory returns is what it comes by. -/
lemma comesBy_of_mem_searchDirectory {directory : Path} {tree : FileTree}
    {returned : List (List String × Language)} {below : List String} {language : Language}
    (htree : tree.WellFormed)
    (hreturned : searchDirectory workspace options directory tree = .ok returned)
    (hmem : (below, language) ∈ returned) : ComesBy tree below := by
  obtain ⟨filters, -, rfl⟩ := searchDirectory_eq_ok_iff.mp hreturned
  rw [List.mem_mergeSort, mem_filterMap_taken?_iff htree] at hmem
  exact hmem.toComesBy

lemma FoundAt.isComponent {path : Path} {language : Language}
    (hat : FoundAt workspace options root path language)
    (hfiles : workspace.files.root.WellFormed) (hnamed : workspace.files.root.Named) :
    ∀ part ∈ path.parts, Path.IsComponent part := by
  cases hat with
  | root hroot hfile hlanguage => exact fun part hpart => Path.isComponent_of_mem_components hpart
  | below hroot hreturned hmem =>
    have hcomes := comesBy_of_mem_searchDirectory
      (FileSystem.wellFormed_of_find hfiles hroot) hreturned hmem
    obtain ⟨leaf, hleaf, -⟩ := hcomes.leads
    have hnames := ((FileSystem.named_of_find hnamed hroot).of_subtree? hleaf).1
    intro part hpart
    rcases List.mem_append.mp hpart with hfront | hbelow
    · exact Path.isComponent_of_mem_components hfront
    · exact (hnames part hbelow).toIsComponent

/-! ## The search of several roots -/

/-- Nothing is raised by the roots that come first. -/
def RaisesNothing (workspace : Workspace) (options : SearchOptions) (front : List String) : Prop :=
  front = [] ∨ ∃ found, search workspace options front = .ok found

/-- How the roots of a search combine. -/
structure CombinesRoots (workspace : Workspace) (options : SearchOptions) : Prop where
  /-- There is nothing to search without a root. -/
  empty : search workspace options [] = .error (.discovery "." "no paths to search")
  /-- A root that leads nowhere is reported, when nothing else is raised first: by no root before
  it, and not by looking it up, which a name that is too long does. -/
  missing : ∀ front root rest, RaisesNothing workspace options front →
    (∀ fault, workspace.files.find? (Path.ofString root) ≠ .error fault) →
    (∀ tree, workspace.files.find (Path.ofString root) ≠ .ok tree) →
    search workspace options (front ++ root :: rest) =
      .error (.discovery root "no such file or directory")
  /-- Whatever is raised, no list is returned where a root leads nowhere. -/
  unlisted : ∀ roots, ∀ root ∈ roots,
    (∀ tree, workspace.files.find (Path.ofString root) ≠ .ok tree) →
    ∀ found, search workspace options roots ≠ .ok found
  /-- Otherwise the lists of the roots follow each other, without the keys of earlier roots. -/
  joins : ∀ roots found, roots ≠ [] → (search workspace options roots = .ok found ↔
    ∃ owns, List.Forall₂ (fun root own => search workspace options [root] = .ok own) roots owns ∧
      found = withoutEarlier owns)
  nodup : ∀ roots found, search workspace options roots = .ok found →
    (found.map SourceFile.key).Nodup
  normal : ∀ roots found, search workspace options roots = .ok found →
    ∀ file ∈ found, Path.IsNormal file.key
  /-- A root adds nothing when all its keys are those of a root before it, as when it is that root,
  repeated or spelled in another way. -/
  again : ∀ front root own, root ∈ front → search workspace options [root] = .ok own →
    ∀ other others rest, search workspace options [other] = .ok others →
      (∀ file ∈ others, file.key ∈ own.map SourceFile.key) →
      search workspace options (front ++ other :: rest) = search workspace options (front ++ rest)
  /-- Further roots leave the files of the earlier ones as they are. -/
  grows : ∀ front rest found all, search workspace options front = .ok found →
    search workspace options (front ++ rest) = .ok all → found <+: all

lemma searchRoot_missing
    (hlook : ∀ fault, workspace.files.find? (Path.ofString root) ≠ .error fault)
    (hmissing : ∀ tree, workspace.files.find (Path.ofString root) ≠ .ok tree) :
    searchRoot workspace options root = .error (.discovery root "no such file or directory") := by
  have hnone : workspace.files.find? (Path.ofString root) = .ok none := by
    cases hfind : workspace.files.find? (Path.ofString root) with
    | error fault => exact absurd hfind (hlook fault)
    | ok tree? =>
      cases tree? with
      | none => rfl
      | some tree => exact absurd (FileSystem.find?_eq_ok_some_iff.mp hfind) (hmissing tree)
  rw [searchRoot, hnone]
  rfl

/-- Only at a root that leads somewhere are files found. -/
lemma exists_find_of_searchRoot (hown : searchRoot workspace options root = .ok own) :
    ∃ tree, workspace.files.find (Path.ofString root) = .ok tree := by
  rw [searchRoot, except_bind_eq_ok] at hown
  obtain ⟨tree?, hfind, hown⟩ := hown
  rw [mapError_eq_ok] at hfind
  cases tree? with
  | none => cases hown
  | some tree => exact ⟨tree, FileSystem.find?_eq_ok_some_iff.mp hfind⟩

lemma exists_searchRoot_of_search (hown : search workspace options [root] = .ok own) :
    ∃ more, searchRoot workspace options root = .ok more := by
  rw [search_singleton] at hown
  cases hmore : searchRoot workspace options root with
  | ok more => exact ⟨more, rfl⟩
  | error error =>
    rw [hmore] at hown
    cases hown

lemma search_missing (hfront : RaisesNothing workspace options front)
    (hlook : ∀ fault, workspace.files.find? (Path.ofString root) ≠ .error fault)
    (hmissing : ∀ tree, workspace.files.find (Path.ofString root) ≠ .ok tree) :
    search workspace options (front ++ root :: rest) =
      .error (.discovery root "no such file or directory") := by
  have hroot : ∀ found, searchRoots workspace options found (root :: rest) =
      .error (.discovery root "no such file or directory") := by
    intro found
    rw [searchRoots, searchRoot_missing hlook hmissing]
    rfl
  by_cases hnone : front = []
  · rw [hnone, List.nil_append, search_of_ne_nil (List.cons_ne_nil root rest), hroot]
  · obtain ⟨found, hfound⟩ := hfront.resolve_left hnone
    rw [search_append hnone, hfound]
    exact hroot found

lemma search_eq_ok_iff (hroots : roots ≠ []) :
    search workspace options roots = .ok found ↔
      ∃ owns, List.Forall₂ (fun root own => search workspace options [root] = .ok own) roots owns ∧
        found = withoutEarlier owns := by
  rw [search_of_ne_nil hroots, searchRoots_eq_ok_iff]
  simp only [foldl_joined_eq, eq_comm]

/-- Each root of a search that succeeds has files of its own. -/
lemma exists_own_of_mem
    (howns : List.Forall₂ (fun root own => search workspace options [root] = .ok own) roots owns)
    (hroot : root ∈ roots) : ∃ own ∈ owns, search workspace options [root] = .ok own := by
  induction howns with
  | nil => exact absurd hroot List.not_mem_nil
  | cons hown _ ih =>
    rcases List.mem_cons.mp hroot with rfl | hrest
    · exact ⟨_, List.mem_cons_self, hown⟩
    · obtain ⟨own, hmem, hsearch⟩ := ih hrest
      exact ⟨own, List.mem_cons_of_mem _ hmem, hsearch⟩

lemma search_ne_ok_of_missing (hroot : root ∈ roots)
    (hmissing : ∀ tree, workspace.files.find (Path.ofString root) ≠ .ok tree) :
    search workspace options roots ≠ .ok found := by
  intro hfound
  obtain ⟨owns, howns, -⟩ := (search_eq_ok_iff (List.ne_nil_of_mem hroot)).mp hfound
  obtain ⟨own, -, hown⟩ := exists_own_of_mem howns hroot
  obtain ⟨more, hmore⟩ := exists_searchRoot_of_search hown
  obtain ⟨tree, htree⟩ := exists_find_of_searchRoot hmore
  exact hmissing tree htree

/-- Files whose keys are there already do not join. -/
lemma joined_eq_self (hown : ∀ file ∈ own, file.key ∈ found.map SourceFile.key) :
    joined found own = found := by
  have hnone : own.filter (fun file => file.key ∉ found.map SourceFile.key) = [] :=
    List.filter_eq_nil_iff.mpr fun file hfile => by simpa using hown file hfile
  rw [joined, hnone, List.append_nil]

/-- The keys of a root are among those of all the roots that it is one of. -/
lemma mem_map_key_of_root (hfound : search workspace options front = .ok found)
    (hroot : root ∈ front) (hown : search workspace options [root] = .ok own)
    (hkey : key ∈ own.map SourceFile.key) :
    key ∈ found.map SourceFile.key := by
  rw [search_of_ne_nil (List.ne_nil_of_mem hroot), searchRoots_eq_ok_iff] at hfound
  obtain ⟨owns, howns, rfl⟩ := hfound
  obtain ⟨own', hmem, hown'⟩ := exists_own_of_mem howns hroot
  obtain rfl : own = own' := Except.ok.inj (hown.symm.trans hown')
  obtain ⟨file, hfile, rfl⟩ := List.mem_map.mp hkey
  exact mem_map_key_foldl_joined.mpr
    (Or.inr (List.mem_map_of_mem (List.mem_flatten_of_mem hmem hfile)))

lemma search_again (hroot : root ∈ front) (hown : search workspace options [root] = .ok own)
    {other : String} {others : List SourceFile}
    (hothers : search workspace options [other] = .ok others)
    (hkeys : ∀ file ∈ others, file.key ∈ own.map SourceFile.key) :
    search workspace options (front ++ other :: rest) =
      search workspace options (front ++ rest) := by
  have hfront : front ≠ [] := List.ne_nil_of_mem hroot
  rw [search_append hfront, search_append hfront]
  cases hfound : search workspace options front with
  | error error => rfl
  | ok found =>
    show searchRoots workspace options found (other :: rest) =
      searchRoots workspace options found rest
    rw [searchRoots_cons, hothers]
    show searchRoots workspace options (joined found others) rest = _
    rw [joined_eq_self fun file hfile => mem_map_key_of_root hfound hroot hown (hkeys file hfile)]

lemma prefix_of_searchRoots (hmore : searchRoots workspace options found roots = .ok more) :
    found <+: more := by
  induction roots generalizing found with
  | nil =>
    rw [searchRoots, except_pure_eq_ok] at hmore
    exact hmore ▸ List.prefix_rfl
  | cons root roots ih =>
    rw [searchRoots_cons, except_bind_eq_ok] at hmore
    obtain ⟨own, -, hrest⟩ := hmore
    exact (List.prefix_append _ _).trans (ih hrest)

lemma prefix_of_search_append (hfound : search workspace options front = .ok found)
    (hall : search workspace options (front ++ rest) = .ok more) : found <+: more := by
  have hfront : front ≠ [] := by
    rintro rfl
    cases hfound
  rw [search_append hfront, hfound] at hall
  exact prefix_of_searchRoots hall

lemma isNormal_key_of_mem_search {file : SourceFile} (hfiles : workspace.files.root.WellFormed)
    (hnamed : workspace.files.root.Named) (hfound : search workspace options roots = .ok found)
    (hfile : file ∈ found) : Path.IsNormal file.key := by
  obtain ⟨root, -, path, hat, hkey⟩ := exists_foundAt_of_mem_search hfound hfile
  rw [hkey]
  exact Path.isNormal_toString_normalize (hat.isComponent hfiles hnamed)

/-- The roots of a search combine without duplicates and in order. -/
theorem search_combines (workspace : Workspace) (options : SearchOptions)
    (hfiles : workspace.files.root.WellFormed) (hnamed : workspace.files.root.Named) :
    CombinesRoots workspace options where
  empty := rfl
  missing _ _ _ hfront hlook hmissing := search_missing hfront hlook hmissing
  unlisted _ _ hroot hmissing _ := search_ne_ok_of_missing hroot hmissing
  joins _ _ hroots := search_eq_ok_iff hroots
  nodup _ _ hfound := nodup_search hfound
  normal _ _ hfound _ hfile := isNormal_key_of_mem_search hfiles hnamed hfound hfile
  again _ _ _ hroot hown _ _ _ hothers hkeys := search_again hroot hown hothers hkeys
  grows _ _ _ _ hfound hall := prefix_of_search_append hfound hall

lemma named_mixed : mixedTree.Named := by
  have hnames : ∀ name ∈ [".cache", "z.js", ".e.js", ".gitignore", "a", "b.js", "node_modules",
      "c.js", "a.js", "f.js", "g.js", "h", "i.js", "j.txt"], FileSystem.IsName name := by
    decide +kernel
  simp only [List.forall_mem_cons] at hnames
  simp [mixedTree, FileTree.named_directory_iff, FileTree.Named.file, FileTree.Named.link, hnames]

/-- What a search of the directory `mixedTree` finds, by keys. -/
def mixedFound : List SourceFile :=
  [{ key := "a/b.js", language := .javascript }, { key := "a.js", language := .javascript }]

lemma search_mixed : search mixedProject mixedOptions ["."] = .ok mixedFound ∧
    search mixedProject mixedOptions [".//./"] = .ok mixedFound := by
  have hpath : Path.ofString "." = { anchor := .relative, parts := [] } ∧
      Path.ofString ".//./" = { anchor := .relative, parts := [] } := by
    decide +kernel
  have hfind : mixedProject.files.find? { anchor := .relative, parts := [] } =
      .ok (some mixedTree) := FileSystem.find?_eq_ok_some_iff.mpr find_mixed.1
  have hkeys : Path.toString { anchor := .relative, parts := ["a", "b.js"] } = "a/b.js" ∧
      Path.toString { anchor := .relative, parts := ["a.js"] } = "a.js" := by
    decide +kernel
  have hroot : ∀ root, Path.ofString root = { anchor := .relative, parts := [] } →
      search mixedProject mixedOptions [root] = .ok mixedFound := by
    intro root hroot
    rw [search_singleton, searchRoot, hroot, hfind]
    show ((searchDirectory mixedProject mixedOptions { anchor := .relative, parts := [] }
      mixedTree >>= fun found => _).map _) = _
    rw [searchDirectory_mixed, mixedFound, ← hkeys.1, ← hkeys.2]
    rfl
  exact ⟨hroot _ hpath.1, hroot _ hpath.2⟩

/-- Spelled in two ways, that directory is searched as if it were named once. -/
theorem search_combines_mixed :
    mixedTree.WellFormed ∧ mixedTree.Named ∧
      search mixedProject mixedOptions [".", ".//./"] = .ok mixedFound := by
  have hfiles : mixedTree.WellFormed := by
    simp [mixedTree, FileTree.wellFormed_directory_iff, FileTree.WellFormed.file,
      FileTree.WellFormed.link]
  have hcombines := search_combines mixedProject mixedOptions hfiles named_mixed
  refine ⟨hfiles, named_mixed, ?_⟩
  have hagain := hcombines.again ["."] "." mixedFound List.mem_cons_self search_mixed.1 ".//./"
    mixedFound [] search_mixed.2 fun file hfile => List.mem_map_of_mem hfile
  exact hagain.trans search_mixed.1

end ImportRank.Search
