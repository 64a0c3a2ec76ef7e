import ImportRank.Proofs.Run.Gathering
import ImportRank.Proofs.Source.Arrival
import ImportRank.Proofs.Source.Roots

/-!
# Files that a run finds and reads

A search finds files by paths and returns keys, and it is by the keys that a run opens them. A key
is the path in normal form, so it leads to the file that was found where no root steps up from a
link. Then a run whose roots lead somewhere reads the files that were found: where these can be
read, it does not fail over a file. From a link a step up leads elsewhere than the key says, and
the run fails or reads another file. Main statement: `rankWorkspace_reads_found`.
-/

namespace ImportRank

/-! ## The same file -/

namespace FileSystem

variable {files : FileSystem} {path other : Path}

/-- Two paths lead to one place, where a file stands. -/
def SameFile (files : FileSystem) (path other : Path) : Prop :=
  ∃ place leaf, files.placeOf path = .ok place ∧ files.placeOf other = .ok place ∧
    files.root.subtree? place = some leaf ∧ leaf.isFile

lemma SameFile.read_eq (hsame : files.SameFile path other) :
    files.read other = files.read path := by
  obtain ⟨place, leaf, hpath, hother, hleaf, -⟩ := hsame
  have hfind : files.find path = .ok leaf := find_eq_ok_iff.mpr ⟨place, hpath, hleaf⟩
  have hfind' : files.find other = .ok leaf := find_eq_ok_iff.mpr ⟨place, hother, hleaf⟩
  rw [read, read, hfind, hfind']

end FileSystem

namespace Search

variable {workspace : Workspace} {options : SearchOptions} {root : String} {roots : List String}
  {found : List SourceFile} {path : Path} {language : Language} {file : SourceFile}

/-- What is found at a root is a file that names lead to from it. -/
lemma FoundAt.exists_below (hat : FoundAt workspace options root path language)
    (hsound : workspace.files.Sound) :
    ∃ tree below leaf, workspace.files.find (Path.ofString root) = .ok tree ∧
      tree.subtree? below = some leaf ∧ leaf.isFile ∧
      (∀ name ∈ below, FileSystem.IsName name) ∧
      path = { Path.ofString root with parts := (Path.ofString root).parts ++ below } := by
  cases hat with
  | @root tree language hroot hfile hlanguage =>
    have hlink := hsound.grounded.ne_link_of_find hroot
    refine ⟨tree, [], tree, hroot, FileTree.subtree?_nil, ?_, by simp, by simp⟩
    cases tree with
    | file bytes => rfl
    | device => rfl
    | link target => exact absurd rfl (hlink target)
    | directory entries => exact absurd rfl (hfile entries)
  | @below entries returned below language hroot hreturned hmem =>
    have hcomes := comesBy_of_mem_searchDirectory
      (FileSystem.wellFormed_of_find hsound.wellFormed hroot) hreturned hmem
    obtain ⟨leaf, hleaf, hfile⟩ := hcomes.leads
    have hnames := ((FileSystem.named_of_find hsound.named hroot).of_subtree? hleaf).1
    exact ⟨_, below, leaf, hroot, hleaf, hfile, hnames, rfl⟩

/-- Where a root steps up from no link, the key of a file leads to the file. -/
lemma FoundAt.sameFile (hat : FoundAt workspace options root path language)
    (hsound : workspace.files.Sound)
    (hclimbs : workspace.files.ClimbsDirectories (Path.ofString root)) :
    workspace.files.SameFile path (Path.ofString path.normalize.toString) := by
  have hcomponents := hat.isComponent hsound.wellFormed hsound.named
  rw [Path.ofString_toString fun part hpart =>
    hcomponents part (Path.mem_parts_of_mem_normalize hpart)]
  obtain ⟨tree, below, leaf, hroot, hleaf, hfile, hnames, rfl⟩ := hat.exists_below hsound
  obtain ⟨place, hplace, hhere⟩ := FileSystem.find_eq_ok_iff.mp hroot
  have hnormal := FileSystem.placeOf_normalize
    (fun part hpart => Path.isComponent_of_mem_components hpart) hclimbs hplace
  have hup : ".." ∉ below := fun hup => (hnames _ hup).ne_up rfl
  refine ⟨place ++ below, leaf, ?_, ?_, ?_, hfile⟩
  · exact FileSystem.placeOf_below hplace hhere hleaf hnames hfile
  · rw [Path.normalize_append_names _ hup]
    exact FileSystem.placeOf_below hnormal hhere hleaf hnames hfile
  · rw [FileTree.subtree?_append, hhere, Option.bind_some, hleaf]

/-- A key names a file that was found at a root: it leads to the same file, and what is read from
it is what is read from the path that the file was found by, also when a worker opens it. -/
structure NamesFound (workspace : Workspace) (options : SearchOptions) (root : String) (path : Path)
    (file : SourceFile) : Prop where
  found : FoundAt workspace options root path file.language
  same : workspace.files.SameFile path (Path.ofString file.key)
  reads : ∀ pooled, workspace.files.read
    (Path.ofString (workspace.files.countedAt pooled file.key)) = workspace.files.read path

/-- The keys of a search name the files that it has found. -/
theorem exists_namesFound (hsound : workspace.files.Sound)
    (hclimbs : ∀ root ∈ roots, workspace.files.ClimbsDirectories (Path.ofString root))
    (hfound : search workspace options roots = .ok found) (hfile : file ∈ found) :
    ∃ root ∈ roots, ∃ path, NamesFound workspace options root path file := by
  obtain ⟨root, hroot, path, hat, hkey⟩ := exists_foundAt_of_mem_search hfound hfile
  have hsame := hat.sameFile hsound (hclimbs root hroot)
  rw [← hkey] at hsame
  refine ⟨root, hroot, path, hat, hsame, fun pooled => ?_⟩
  cases pooled with
  | false => exact hsame.read_eq
  | true =>
    have hnormal : Path.IsNormal file.key :=
      isNormal_key_of_mem_search hsound.wellFormed hsound.named hfound hfile
    rw [FileSystem.countedAt_true, hsound.grounded.read_absolute hnormal, hsame.read_eq]

end Search

/-! ## Runs -/

/-- Whether an error is over a file: a root that leads nowhere, a file that was found and cannot be
opened, or anything that is missing. -/
def Error.isOverFile : Error → Bool
  | .discovery _ _ => true
  | .lineCount _ _ => true
  | .fault .missing => true
  | _ => false

lemma Search.Refused.isOverFile_eq_false {error : Error} (hrefused : Search.Refused error) :
    error.isOverFile = false := by
  cases hrefused with
  | rules failure => cases failure <;> rfl
  | _ => rfl

section Run

variable {workspace : Workspace} {options : RunOptions} {roots : List String}
  {search : SearchOptions} {before : List Event} {error : Error}

/-- Where all files that are found can be read, discovery does not fail over a file. -/
lemma isOverFile_eq_false_of_fails_discover (hroots : roots ≠ [])
    (hexist : ∀ root ∈ roots, ∃ tree, workspace.files.find (Path.ofString root) = .ok tree)
    (hreadable : ∀ found, Search.search workspace search roots = .ok found →
      ∀ file ∈ found, workspace.files.Readable false file.key)
    (hfails : (Module.discover workspace search roots).Fails before error) :
    error.isOverFile = false := by
  rcases Module.fails_discover_iff.mp hfails with hsearch |
    ⟨_, hfound, ⟨fault, hfault, rfl⟩ | ⟨_, -, front, file, rest, fault, rfl, -, hfault, -⟩⟩
  · rcases Search.refused_of_search hroots hsearch with ⟨root, hroot, hmissing, -⟩ | hrefused
    · obtain ⟨tree, htree⟩ := hexist root hroot
      exact absurd htree (hmissing tree)
    · exact hrefused.isOverFile_eq_false
  · rw [(eq_nameTooLong_of_importRoots hfault).2]
    rfl
  · obtain ⟨bytes, hread⟩ := hreadable _ hfound file (by simp)
    rw [FileSystem.countedAt_false, hfault] at hread
    cases hread

/-- So does the whole run, whether its files are counted one after the other or in a pool. -/
lemma isOverFile_eq_false_of_fails_rankWorkspace (hroots : options.roots ≠ [])
    (hexist : ∀ root ∈ options.roots,
      ∃ tree, workspace.files.find (Path.ofString root) = .ok tree)
    (hreadable : ∀ found, Search.search workspace options.search options.roots = .ok found →
      ∀ file ∈ found, ∀ pooled, workspace.files.Readable pooled file.key)
    (hfails : (rankWorkspace workspace options).Fails before error) :
    error.isOverFile = false := by
  rcases fails_rankModules hfails with hgather | ⟨iterations, change, rfl⟩
  · rcases Candidate.fails_gather hgather with hfind | ⟨modules, between, hfind, hcounts⟩
    · rcases Module.fails_find hfind with ⟨hnone, -⟩ | hdiscover
      · exact absurd hnone hroots
      · exact isOverFile_eq_false_of_fails_discover hroots hexist
          (fun found hfound file hfile => hreadable found hfound file hfile false) hdiscover
    · -- what is counted has been found, so the counting does not fail
      obtain ⟨-, all, _, hdiscover, rfl, -⟩ := Module.ends_find.mp hfind
      obtain ⟨found, _, _, _, hfound, -, hkeys⟩ := Module.exists_search_of_ends_discover hdiscover
      have hcountable : ∀ key ∈ (all.filter fun entry =>
          hasExtension options.extensions entry.key).map Module.key,
          workspace.files.Readable options.pooled key := by
        intro key hkey
        have hall : key ∈ found.map SourceFile.key :=
          hkeys ▸ List.map_subset _ (List.filter_subset_self all) hkey
        obtain ⟨file, hfile, rfl⟩ := List.mem_map.mp hall
        exact hreadable found hfound file hfile options.pooled
      obtain ⟨counts, hcounts', -⟩ := FileSystem.exists_counts hcountable
      rw [hcounts'] at hcounts
      cases hcounts
  · rfl

/-- Where no root steps up from a link, each key of a search leads to the file that was found at a
root, and a run over roots that lead somewhere does not fail over a file when all files that are
found can be read. -/
theorem rankWorkspace_reads_found (hsound : workspace.files.Sound)
    (hclimbs : ∀ root ∈ options.roots, workspace.files.ClimbsDirectories (Path.ofString root)) :
    (∀ found, Search.search workspace options.search options.roots = .ok found →
      ∀ file ∈ found, ∃ root ∈ options.roots, ∃ path,
        Search.NamesFound workspace options.search root path file) ∧
    ((∀ root ∈ options.roots, ∃ tree, workspace.files.find (Path.ofString root) = .ok tree) →
      (∀ root ∈ options.roots, ∀ path language,
        Search.FoundAt workspace options.search root path language →
          ∃ bytes, workspace.files.read path = .ok bytes) →
      ∀ error told, (rankWorkspace workspace options).result = (.error error, told) →
        error.isOverFile = true → options.roots = []) := by
  have hnames : ∀ found, Search.search workspace options.search options.roots = .ok found →
      ∀ file ∈ found, ∃ root ∈ options.roots, ∃ path,
        Search.NamesFound workspace options.search root path file :=
    fun found hfound file hfile => Search.exists_namesFound hsound hclimbs hfound hfile
  refine ⟨hnames, fun hexist hreadable error told hrun hover => ?_⟩
  by_contra hroots
  -- whichever way a key is opened, what is read is what was found
  have hkeys : ∀ found, Search.search workspace options.search options.roots = .ok found →
      ∀ file ∈ found, ∀ pooled, workspace.files.Readable pooled file.key := by
    intro found hfound file hfile pooled
    obtain ⟨root, hroot, path, hnamed⟩ := hnames found hfound file hfile
    obtain ⟨bytes, hbytes⟩ := hreadable root hroot path file.language hnamed.found
    exact ⟨bytes, (hnamed.reads pooled).trans hbytes⟩
  have hfails : (rankWorkspace workspace options).Fails [] error := congrArg Prod.fst hrun
  rw [isOverFile_eq_false_of_fails_rankWorkspace hroots hexist hkeys hfails] at hover
  cases hover

end Run

/-! ## A directory with two links to it -/

/-- A directory with a file and a directory in it. -/
def innerEntries : List (String × FileTree) :=
  [("a.py", .file "x = 1\n".toUTF8.toList), ("e", .directory [])]

/-- That directory, with a link to it and one to the directory in it. -/
def detourTree : FileTree :=
  .directory [("d", .directory innerEntries), ("k", .link "d"), ("l", .link "d/e")]

/-- All this in the working directory, under no version control. -/
def detourWorkspace : Workspace :=
  { files := { root := detourTree, workingDirectory := [] }, answer := fun _ => .unavailable }

/-- A run over one root that leaves nothing out. -/
def runOver (root : String) : RunOptions :=
  { roots := [root]
    extensions := none
    dependenciesFirst := false
    search := { exclude := [], language := none }
    pooled := false }

lemma sound_detour : detourWorkspace.files.Sound := by
  have hnames : ∀ name ∈ ["a.py", "e", "d", "k", "l"], FileSystem.IsName name := by
    decide +kernel
  simp only [List.forall_mem_cons] at hnames
  refine ⟨?_, ?_, ⟨[], _, .atRoot rfl⟩⟩
  · simp [detourWorkspace, detourTree, innerEntries, FileTree.wellFormed_directory_iff,
      FileTree.WellFormed.file, FileTree.WellFormed.link]
  · simp [detourWorkspace, detourTree, innerEntries, FileTree.named_directory_iff,
      FileTree.Named.file, FileTree.Named.link, hnames]

/-- Through a link and with a step up, a path leads on from the inner directory. -/
def LeadsInside (path : Path) : Prop :=
  ∀ rest, detourWorkspace.files.find { path with parts := path.parts ++ rest } =
    FileSystem.walk detourTree 39 [detourTree] (.directory innerEntries) rest

lemma inside_detour :
    LeadsInside (Path.ofString "d/../k") ∧ LeadsInside (Path.ofString "l/..") := by
  have hpath : Path.ofString "d/../k" = { anchor := .relative, parts := ["d", "..", "k"] } ∧
      Path.ofString "l/.." = { anchor := .relative, parts := ["l", ".."] } := by
    decide +kernel
  have hsteps : FileSystem.steps "d" = ["d"] ∧ FileSystem.steps "d/e" = ["d", "e"] := by
    decide +kernel
  have hshort : ∀ name ∈ ["d", "e", "k", "l"], ¬ FileSystem.nameLimit < name.utf8ByteSize := by
    decide +kernel
  simp only [List.forall_mem_cons] at hshort
  rw [hpath.1, hpath.2]
  constructor <;> intro rest <;>
    simp [FileSystem.find, FileSystem.linkLimit, detourWorkspace, FileSystem.walk, detourTree,
      innerEntries, FileTree.entry?, List.lookup_cons, hsteps, hshort]

variable {path : Path}

lemma LeadsInside.find_inner (hinside : LeadsInside path) :
    detourWorkspace.files.find path = .ok (.directory innerEntries) ∧
    detourWorkspace.files.find { path with parts := path.parts ++ ["a.py"] } =
      .ok (.file "x = 1\n".toUTF8.toList) ∧
    detourWorkspace.files.find { path with parts := path.parts ++ [".git"] } = .error .missing ∧
    detourWorkspace.files.find { path with parts := path.parts ++ [".gitignore"] } =
      .error .missing := by
  have hshort : ∀ name ∈ ["a.py", ".git", ".gitignore"],
      ¬ FileSystem.nameLimit < name.utf8ByteSize := by
    decide +kernel
  simp only [List.forall_mem_cons] at hshort
  have hself := hinside []
  rw [List.append_nil] at hself
  rw [hself, hinside, hinside, hinside]
  simp [FileSystem.walk, innerEntries, FileTree.entry?, List.lookup_cons, hshort]

/-- The search of the inner directory finds the file in it. -/
lemma LeadsInside.searchDirectory_eq (hinside : LeadsInside path) :
    Search.searchDirectory detourWorkspace { exclude := [], language := none } path
      (.directory innerEntries) = .ok [(["a.py"], .python)] := by
  obtain ⟨-, -, hgit, hignore⟩ := hinside.find_inner
  refine Search.searchDirectory_eq_ok_iff.mpr
    ⟨{ listing := none, ignored := .none, excluded := .none }, ?_, ?_⟩
  · simp only [Search.readFilters, Workspace.listing?, Search.readIgnoreFile, FileSystem.isFile,
      FileSystem.find?, hgit, hignore]
    rfl
  · have htaken : (Search.filesBelow [] (.directory innerEntries)).filterMap
        (Search.taken? { listing := none, ignored := .none, excluded := .none }
          { exclude := [], language := none }) = [(["a.py"], .python)] := by
      decide +kernel
    rw [htaken, List.mergeSort_of_pairwise]
    decide +kernel

/-- A search over a root that leads to the inner directory finds one file there. -/
lemma search_inside {root key : String} (hinside : LeadsInside (Path.ofString root))
    (hkey : ({ Path.ofString root with parts := (Path.ofString root).parts ++ ["a.py"] } :
      Path).normalize.toString = key) :
    Search.search detourWorkspace { exclude := [], language := none } [root] =
      .ok [{ key, language := .python }] := by
  have hroot : detourWorkspace.files.find? (Path.ofString root) =
      .ok (some (.directory innerEntries)) :=
    FileSystem.find?_eq_ok_some_iff.mpr hinside.find_inner.1
  rw [Search.search_singleton, Search.searchRoot, hroot]
  show ((Search.searchDirectory detourWorkspace { exclude := [], language := none }
    (Path.ofString root) (.directory innerEntries) >>= fun found => _).map _) = _
  rw [hinside.searchDirectory_eq, ← hkey]
  rfl

/-- And all that is found at it is that file. -/
lemma eq_of_foundAt_inside {root : String} {language : Language}
    (hinside : LeadsInside (Path.ofString root))
    (hat : Search.FoundAt detourWorkspace { exclude := [], language := none } root path language) :
    path = { Path.ofString root with parts := (Path.ofString root).parts ++ ["a.py"] } := by
  have hroot := hinside.find_inner.1
  cases hat with
  | root hfind hfile hlanguage =>
    exact absurd (Except.ok.inj (hfind.symm.trans hroot)) (hfile innerEntries)
  | below hfind hreturned hmem =>
    cases Except.ok.inj (hfind.symm.trans hroot)
    rw [hinside.searchDirectory_eq] at hreturned
    rw [← Except.ok.inj hreturned, List.mem_singleton] at hmem
    cases hmem
    rfl

lemma readable_inside {root : String} {language : Language}
    (hinside : LeadsInside (Path.ofString root))
    (hat : Search.FoundAt detourWorkspace { exclude := [], language := none } root path language) :
    ∃ bytes, detourWorkspace.files.read path = .ok bytes := by
  rw [eq_of_foundAt_inside hinside hat, FileSystem.read, hinside.find_inner.2.1]
  exact ⟨_, rfl⟩

/-- The step up in `d/../k` is from no link. -/
lemma climbsDirectories_detour :
    detourWorkspace.files.ClimbsDirectories (Path.ofString "d/../k") := by
  have hpath : Path.ofString "d/../k" = { anchor := .relative, parts := ["d", "..", "k"] } := by
    decide +kernel
  rw [hpath]
  intro front rest hparts
  obtain ⟨rfl, -⟩ : front = ["d"] ∧ rest = ["k"] := by
    simpa [List.cons_eq_append_iff] using hparts
  have hnormal : Path.normalize { anchor := .relative, parts := ["d"] } =
      { anchor := .relative, parts := ["d"] } := by
    decide +kernel
  rw [hnormal]
  rintro ⟨place, target, hplace, hentry⟩
  obtain ⟨left, hgoal⟩ := FileSystem.placeOf_eq_ok_iff.mp hplace
  have hreverse : place.reverse = [] :=
    (Prod.mk.inj (Except.ok.inj (FileSystem.locate_nil.symm.trans hgoal))).2.symm
  rw [List.reverse_eq_nil_iff.mp hreverse] at hentry
  simp [detourWorkspace, detourTree, Path.name, FileTree.subtree?, FileTree.entry?] at hentry

/-- The key of the file that is found through `d/../k` is `k/a.py`, and it leads to the file. -/
theorem rankWorkspace_reads_found_detour :
    detourWorkspace.files.Sound ∧
    detourWorkspace.files.ClimbsDirectories (Path.ofString "d/../k") ∧
    Search.search detourWorkspace (runOver "d/../k").search ["d/../k"] =
      .ok [{ key := "k/a.py", language := .python }] ∧
    (∃ root ∈ ["d/../k"], ∃ path, Search.NamesFound detourWorkspace (runOver "d/../k").search root
      path { key := "k/a.py", language := .python }) ∧
    ∀ error told, (rankWorkspace detourWorkspace (runOver "d/../k")).result = (.error error, told) →
      error.isOverFile = false := by
  obtain ⟨hinside, -⟩ := inside_detour
  have hclimbs : ∀ root ∈ (runOver "d/../k").roots,
      detourWorkspace.files.ClimbsDirectories (Path.ofString root) :=
    List.forall_mem_singleton.mpr climbsDirectories_detour
  have hfound := search_inside hinside (by decide +kernel : _ = "k/a.py")
  obtain ⟨hnames, hruns⟩ := rankWorkspace_reads_found sound_detour hclimbs
  refine ⟨sound_detour, climbsDirectories_detour, hfound, ?_, fun error told hrun => ?_⟩
  · exact hnames _ hfound _ (List.mem_singleton_self _)
  · by_contra hover
    have hexist : ∀ root ∈ (runOver "d/../k").roots,
        ∃ tree, detourWorkspace.files.find (Path.ofString root) = .ok tree :=
      List.forall_mem_singleton.mpr ⟨_, hinside.find_inner.1⟩
    have hreadable : ∀ root ∈ (runOver "d/../k").roots, ∀ path language,
        Search.FoundAt detourWorkspace (runOver "d/../k").search root path language →
          ∃ bytes, detourWorkspace.files.read path = .ok bytes :=
      List.forall_mem_singleton.mpr fun path language hat => readable_inside hinside hat
    have hnone := hruns hexist hreadable error told hrun (by simpa using hover)
    exact absurd hnone (List.cons_ne_nil _ _)

/-- Through `l/..` the same file is found. But `l` is a link, and the key is `a.py`: no such file
is there, and the run fails over it. -/
theorem not_rankWorkspace_reads_found :
    detourWorkspace.files.Sound ∧
    (∃ tree, detourWorkspace.files.find (Path.ofString "l/..") = .ok tree) ∧
    (∀ path language,
      Search.FoundAt detourWorkspace (runOver "l/..").search "l/.." path language →
        ∃ bytes, detourWorkspace.files.read path = .ok bytes) ∧
    Search.search detourWorkspace (runOver "l/..").search ["l/.."] =
      .ok [{ key := "a.py", language := .python }] ∧
    detourWorkspace.files.read (Path.ofString "a.py") = .error .missing ∧
    ∃ told, (rankWorkspace detourWorkspace (runOver "l/..")).result =
      (.error (.discovery "a.py" "[Errno 2] No such file or directory: 'a.py'"), told) := by
  obtain ⟨-, hinside⟩ := inside_detour
  have hfound := search_inside hinside (by decide +kernel : _ = "a.py")
  have hread : detourWorkspace.files.read (Path.ofString "a.py") = .error .missing := by
    have hpath : Path.ofString "a.py" = { anchor := .relative, parts := ["a.py"] } := by
      decide +kernel
    have hshort : ¬ FileSystem.nameLimit < "a.py".utf8ByteSize := by decide +kernel
    have hfind : detourWorkspace.files.find (Path.ofString "a.py") = .error .missing := by
      simp [FileSystem.find, detourWorkspace, detourTree, FileSystem.walk, FileTree.entry?,
        List.lookup_cons, hpath, hshort]
    rw [FileSystem.read, hfind]
    rfl
  have hfile : detourWorkspace.files.isFile (Path.ofString "l/..") = .ok false := by
    rw [FileSystem.isFile, FileSystem.find?, hinside.find_inner.1]
    rfl
  have himporting : ∃ importing, importRoots detourWorkspace.files ["l/.."] = .ok importing := by
    simp only [importRoots, List.foldlM_cons, List.foldlM_nil, hfile, except_bind_eq_ok,
      Except.ok.injEq, exists_eq_left', except_pure_eq_ok, exists_eq']
  obtain ⟨importing, himporting⟩ := himporting
  have hmessage : Fault.missing.report "a.py" =
      "[Errno 2] No such file or directory: 'a.py'" := by
    decide +kernel
  have hfails : (rankWorkspace detourWorkspace (runOver "l/..")).Fails []
      (.discovery "a.py" (Fault.missing.report "a.py")) :=
    fails_rankWorkspace_of_discover (List.cons_ne_nil _ _)
      (Module.fails_discover_of_read hfound himporting hread)
  rw [hmessage] at hfails
  exact ⟨sound_detour, ⟨_, hinside.find_inner.1⟩,
    fun path language hat => readable_inside hinside hat, hfound, hread, _,
    Prod.ext hfails rfl⟩

end ImportRank
