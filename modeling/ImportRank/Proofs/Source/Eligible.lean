import ImportRank.Proofs.Files.Below
import ImportRank.Proofs.Run.Outcome
import ImportRank.Source.Search
import Mathlib.Data.List.Lex
import Mathlib.Data.List.Nodup
import Mathlib.Data.String.Basic

/-!
# What a search finds

A search goes down a tree entry by entry and asks of each file it comes by whether to take it.
What it comes by is said here by the path alone: names that lead to a file, none of them on the
way one that is passed by. A search returns the files it comes by that mark a language that is
looked for and that no filter drops, each once, by the order of their components. That is not the
order of the texts: `a/b.js` is listed before `a.js`, whose text comes first.

Main statement: `searchDirectory_eligible`.
-/

namespace ImportRank

/-! ## The language of an extension -/

namespace Language

variable {extension : String} {language other : Language}

lemma mem_all : language ∈ all := by
  cases language <;> decide

/-- No two languages share an extension. -/
lemma eq_of_mem_extensions (hmark : extension ∈ language.extensions)
    (hother : extension ∈ other.extensions) : language = other := by
  have hdisjoint : ∀ language ∈ all, ∀ other ∈ all, language ≠ other →
      ∀ extension ∈ language.extensions, extension ∉ other.extensions := by
    decide
  by_contra hdistinct
  exact hdisjoint language mem_all other mem_all hdistinct extension hmark hother

theorem ofExtension?_eq_some_iff :
    ofExtension? extension = some language ↔ extension ∈ language.extensions := by
  constructor
  · intro hfound
    exact List.contains_iff_mem.mp (List.find?_some hfound :)
  · intro hmark
    cases hfound : ofExtension? extension with
    | none =>
      have hnone := List.find?_eq_none.mp hfound language mem_all
      exact absurd (List.contains_iff_mem.mpr hmark) hnone
    | some other =>
      have hother := List.contains_iff_mem.mp (List.find?_some hfound :)
      rw [eq_of_mem_extensions hmark hother]

end Language

namespace Search

variable {workspace : Workspace} {options : SearchOptions} {directory : Path} {tree : FileTree}
  {entries : List (String × FileTree)} {path below file : List String} {name : String}
  {language : Language} {filters : Filters} {found : List (List String × Language)}

/-! ## Coming by a file -/

/-- Names lead from a tree down to a file, and a search comes by it: the directories on the way
are neither skipped ones nor hidden, and the file is not hidden either. -/
structure ComesBy (tree : FileTree) (path : List String) : Prop where
  below : path ≠ []
  leads : ∃ leaf, tree.subtree? path = some leaf ∧ leaf.isFile
  enters : ∀ name ∈ path.dropLast, name ∉ skippedDirectories ∧ ¬ ['.'] <+: name.toList
  visible : ¬ ['.'] <+: (path.getLastD "").toList

lemma isHidden_iff : isHidden name ↔ ['.'] <+: name.toList := by
  cases htext : name.toList with
  | nil => simp [isHidden, htext]
  | cons first rest => simp [isHidden, htext, eq_comm]

lemma entersDirectory_iff :
    entersDirectory name ↔ name ∉ skippedDirectories ∧ ¬ ['.'] <+: name.toList := by
  simp [entersDirectory, ← isHidden_iff]

lemma ComesBy.exists_directory (hcomes : ComesBy tree path) :
    ∃ entries, tree = .directory entries := by
  obtain ⟨name, rest, rfl⟩ := List.exists_cons_of_ne_nil hcomes.below
  obtain ⟨leaf, hleaf, -⟩ := hcomes.leads
  obtain ⟨entries, below, htree, -⟩ := FileTree.subtree?_cons_eq_some_iff.mp hleaf
  exact ⟨entries, htree⟩

/-- A single name is that of a file; a first name of several leads on. -/
lemma comesBy_directory_cons_iff :
    ComesBy (.directory entries) (name :: below) ↔
      ∃ tree, FileTree.entry? entries name = some tree ∧
        (¬ isHidden name ∧ tree.isFile ∧ below = [] ∨
          entersDirectory name ∧ ComesBy tree below) := by
  rw [isHidden_iff, entersDirectory_iff]
  constructor
  · rintro ⟨-, ⟨leaf, hleaf, hfile⟩, henters, hvisible⟩
    obtain ⟨_, tree, ⟨⟩, hentry, hrest⟩ := FileTree.subtree?_cons_eq_some_iff.mp hleaf
    refine ⟨tree, hentry, ?_⟩
    cases below with
    | nil =>
      rw [FileTree.subtree?_nil, Option.some.injEq] at hrest
      exact Or.inl ⟨hvisible, hrest ▸ hfile, rfl⟩
    | cons next rest =>
      rw [List.dropLast_cons_cons] at henters
      rw [List.getLastD_cons, List.getLastD_cons] at hvisible
      exact Or.inr ⟨henters name List.mem_cons_self, List.cons_ne_nil next rest,
        ⟨leaf, hrest, hfile⟩, fun other hother => henters other (List.mem_cons_of_mem name hother),
        by rwa [List.getLastD_cons]⟩
  · rintro ⟨tree, hentry, ⟨hvisible, hfile, rfl⟩ | ⟨henters, hcomes⟩⟩
    · exact ⟨List.cons_ne_nil name [], ⟨tree, by simp [FileTree.subtree?, hentry], hfile⟩, by simp,
        hvisible⟩
    · obtain ⟨next, rest, rfl⟩ := List.exists_cons_of_ne_nil hcomes.below
      obtain ⟨leaf, hleaf, hfile⟩ := hcomes.leads
      refine ⟨List.cons_ne_nil name _, ⟨leaf, ?_, hfile⟩, ?_, hcomes.visible⟩
      · simp [FileTree.subtree?, hentry, hleaf]
      · rw [List.dropLast_cons_cons]
        exact List.forall_mem_cons.mpr ⟨henters, hcomes.enters⟩

/-! ## The files below a directory -/

/-- What a search comes by at one entry of a directory: the entry itself and what is below it. -/
def filesAt (path : List String) (entry : String × FileTree) : List (List String) :=
  (if isHidden entry.1 || !entry.2.isFile then [] else [path ++ [entry.1]]) ++
    if entersDirectory entry.1 then filesBelow (path ++ [entry.1]) entry.2 else []

lemma filesAmong_eq_flatMap : filesAmong path entries = entries.flatMap (filesAt path) := by
  induction entries with
  | nil => rw [filesAmong, List.flatMap_nil]
  | cons entry rest ih =>
    obtain ⟨name, tree⟩ := entry
    rw [List.flatMap_cons, ← ih]
    cases tree with
    | directory entries => simp [filesAmong, filesAt, FileTree.isFile]
    | file bytes => simp [filesAmong, filesAt, filesBelow, FileTree.isFile]
    | device => simp [filesAmong, filesAt, filesBelow, FileTree.isFile]
    | link target => simp [filesAmong, filesAt, filesBelow, FileTree.isFile]

lemma filesBelow_directory :
    filesBelow path (.directory entries) = entries.flatMap (filesAt path) := by
  rw [filesBelow, filesAmong_eq_flatMap]

lemma mem_filesAt_iff {entry : String × FileTree} :
    file ∈ filesAt path entry ↔
      ¬ isHidden entry.1 ∧ entry.2.isFile ∧ file = path ++ [entry.1] ∨
        entersDirectory entry.1 ∧ file ∈ filesBelow (path ++ [entry.1]) entry.2 := by
  simp [filesAt, and_assoc]

lemma exists_directory_of_mem_filesBelow (hfile : file ∈ filesBelow path tree) :
    ∃ entries, tree = .directory entries := by
  cases tree with
  | directory entries => exact ⟨entries, rfl⟩
  | file bytes => simp [filesBelow] at hfile
  | device => simp [filesBelow] at hfile
  | link target => simp [filesBelow] at hfile

/-- The files below a directory are those that a search comes by, each after the directory's own
path. -/
theorem mem_filesBelow_iff (htree : tree.WellFormed) :
    file ∈ filesBelow path tree ↔ ∃ below, ComesBy tree below ∧ file = path ++ below := by
  induction htree generalizing path with
  | directory hnames hentries ih =>
    rw [filesBelow_directory, List.mem_flatMap]
    constructor
    · rintro ⟨⟨name, tree⟩, hmem, hat⟩
      have hentry := (FileTree.entry?_eq_some_iff hnames).mpr hmem
      rcases mem_filesAt_iff.mp hat with ⟨hvisible, hleaf, rfl⟩ | ⟨henters, hbelow⟩
      · exact ⟨[name],
          comesBy_directory_cons_iff.mpr ⟨tree, hentry, Or.inl ⟨hvisible, hleaf, rfl⟩⟩, rfl⟩
      · obtain ⟨below, hcomes, rfl⟩ := (ih _ hmem).mp hbelow
        exact ⟨name :: below,
          comesBy_directory_cons_iff.mpr ⟨tree, hentry, Or.inr ⟨henters, hcomes⟩⟩, by simp⟩
    · rintro ⟨below, hcomes, rfl⟩
      obtain ⟨name, rest, rfl⟩ := List.exists_cons_of_ne_nil hcomes.below
      obtain ⟨tree, hentry, hkind⟩ := comesBy_directory_cons_iff.mp hcomes
      have hmem := (FileTree.entry?_eq_some_iff hnames).mp hentry
      refine ⟨(name, tree), hmem, mem_filesAt_iff.mpr ?_⟩
      rcases hkind with ⟨hvisible, hleaf, rfl⟩ | ⟨henters, hrest⟩
      · exact Or.inl ⟨hvisible, hleaf, rfl⟩
      · exact Or.inr ⟨henters, (ih _ hmem).mpr ⟨rest, hrest, by simp⟩⟩
  | _ =>
    refine ⟨fun hfile => ?_, fun ⟨below, hcomes, _⟩ => ?_⟩
    · obtain ⟨entries, hdirectory⟩ := exists_directory_of_mem_filesBelow hfile
      cases hdirectory
    · obtain ⟨entries, hdirectory⟩ := hcomes.exists_directory
      cases hdirectory

/-- What a search comes by at an entry has the entry's path before it. -/
lemma prefix_of_mem_filesAt {entry : String × FileTree} (hentry : entry.2.WellFormed)
    (hfile : file ∈ filesAt path entry) : path ++ [entry.1] <+: file := by
  rcases mem_filesAt_iff.mp hfile with ⟨-, -, rfl⟩ | ⟨-, hbelow⟩
  · exact List.prefix_rfl
  · obtain ⟨below, -, rfl⟩ := (mem_filesBelow_iff hentry).mp hbelow
    exact List.prefix_append _ below

lemma filesAt_sublist {entry : String × FileTree} :
    (filesAt path entry).Sublist
      ([path ++ [entry.1]] ++ filesBelow (path ++ [entry.1]) entry.2) := by
  refine List.Sublist.append ?_ ?_
  · split
    · exact List.nil_sublist _
    · exact List.Sublist.refl _
  · split
    · exact List.Sublist.refl _
    · exact List.nil_sublist _

/-- What is below an entry has a longer path than the entry. -/
lemma nodup_filesAt {entry : String × FileTree} (hentry : entry.2.WellFormed)
    (hbelow : (filesBelow (path ++ [entry.1]) entry.2).Nodup) : (filesAt path entry).Nodup := by
  refine List.Nodup.sublist filesAt_sublist (List.nodup_cons.mpr ⟨fun hself => ?_, hbelow⟩)
  obtain ⟨below, hcomes, hfile⟩ := (mem_filesBelow_iff hentry).mp hself
  exact hcomes.below (List.append_right_eq_self.mp hfile.symm)

/-- No file below a directory is come by twice. -/
theorem nodup_filesBelow (htree : tree.WellFormed) : (filesBelow path tree).Nodup := by
  induction htree generalizing path with
  | directory hnames hentries ih =>
    rw [filesBelow_directory, List.nodup_flatMap]
    refine ⟨fun entry hentry => nodup_filesAt (hentries entry hentry) (ih entry hentry), ?_⟩
    -- the entries' names tell apart what is come by at each
    refine (List.pairwise_map.mp hnames).imp_of_mem fun hfirst hsecond hname => ?_
    refine fun file hat hat' => hname ?_
    have hprefix := prefix_of_mem_filesAt (hentries _ hfirst) hat
    have hprefix' := prefix_of_mem_filesAt (hentries _ hsecond) hat'
    have hsame := List.prefix_of_prefix_length_le hprefix hprefix' (by simp)
    simpa using hsame
  | _ => exact List.nodup_nil

/-! ## Filters -/

/-- What marks a language and is looked for. -/
lemma languageOf?_eq_some_iff :
    languageOf? options name = some language ↔
      Path.suffixOf name ∈ language.extensions ∧
        ∀ asked, options.language = some asked → asked = "" ∨ language.name = asked := by
  rw [languageOf?, Option.filter_eq_some_iff, Language.ofExtension?_eq_some_iff, wanted]
  cases options.language <;> simp

/-- The filters of a directory, as they are read: the listing of version control where there is
one, the rules of the ignore file where there is none, and those of what is left out. -/
structure Filters.AreOf (filters : Filters) (workspace : Workspace) (options : SearchOptions)
    (directory : Path) : Prop where
  listing : workspace.listing? directory = .ok filters.listing
  ignored : filters.listing = none → readIgnoreFile workspace directory = .ok filters.ignored
  excluded : readExcluded workspace options = .ok filters.excluded

lemma areOf_of_readFilters (hread : readFilters workspace options directory = .ok filters) :
    filters.AreOf workspace options directory := by
  simp only [readFilters, except_bind_eq_ok, mapError_eq_ok] at hread
  obtain ⟨listing, hlisting, hrest⟩ := hread
  cases listing with
  | none =>
    simp only [Option.isNone_none, if_true, except_bind_eq_ok, except_pure_eq_ok] at hrest
    obtain ⟨ignored, hignored, excluded, hexcluded, rfl⟩ := hrest
    exact ⟨hlisting, fun _ => hignored, hexcluded⟩
  | some listed =>
    simp only [Option.isNone_some, Bool.false_eq_true, if_false, except_bind_eq_ok,
      except_pure_eq_ok] at hrest
    obtain ⟨_, _, excluded, hexcluded, rfl⟩ := hrest
    exact ⟨hlisting, fun hnone => absurd hnone (Option.some_ne_none listed), hexcluded⟩

/-- A path passes the filters: it is in the listing, or without one it is not dropped by the ignore
file's rules, and it is not dropped by those of what is left out. -/
structure Filters.Pass (filters : Filters) (path : List String) : Prop where
  listed : ∀ listing, filters.listing = some listing → "/".intercalate path ∈ listing
  kept : filters.listing = none → ¬ filters.ignored.drops ("/".intercalate path)
  included : ¬ filters.excluded.drops ("/".intercalate path)

lemma keeps_iff : filters.keeps ("/".intercalate path) ↔ filters.Pass path := by
  rw [Filters.keeps, Bool.and_eq_true, Bool.not_eq_true', ← Bool.not_eq_true]
  cases hlisting : filters.listing with
  | none =>
    rw [Bool.not_eq_true', ← Bool.not_eq_true]
    exact ⟨fun ⟨hkept, hincluded⟩ => ⟨by simp [hlisting], fun _ => hkept, hincluded⟩,
      fun hpass => ⟨hpass.kept hlisting, hpass.included⟩⟩
  | some listed =>
    rw [List.contains_iff_mem]
    exact ⟨fun ⟨hlisted, hincluded⟩ => ⟨by simp [hlisting, hlisted], by simp [hlisting], hincluded⟩,
      fun hpass => ⟨hpass.listed listed hlisting, hpass.included⟩⟩

/-! ## The search -/

/-- A file that a search is to return: one it comes by, of a language that is looked for, that
passes the filters. -/
structure Eligible (filters : Filters) (options : SearchOptions) (tree : FileTree)
    (path : List String) (language : Language) : Prop extends ComesBy tree path where
  marked : Path.suffixOf (path.getLastD "") ∈ language.extensions
  asked : ∀ name, options.language = some name → name = "" ∨ language.name = name
  passes : filters.Pass path

/-- A file that a search comes by, with its language, when it is taken. -/
def taken? (filters : Filters) (options : SearchOptions) (path : List String) :
    Option (List String × Language) :=
  (languageOf? options (path.getLastD "")).bind fun language =>
    if filters.keeps ("/".intercalate path) then some (path, language) else none

lemma searchDirectory_eq_ok_iff :
    searchDirectory workspace options directory tree = .ok found ↔
      ∃ filters, readFilters workspace options directory = .ok filters ∧
        ((filesBelow [] tree).filterMap (taken? filters options)).mergeSort
          (fun a b => pathLe a.1 b.1) = found := by
  show (readFilters workspace options directory >>= fun filters =>
    pure (((filesBelow [] tree).filterMap (taken? filters options)).mergeSort
      fun a b => pathLe a.1 b.1)) = .ok found ↔ _
  rw [except_bind_eq_ok]
  simp only [except_pure_eq_ok]

lemma taken?_eq_some_iff :
    taken? filters options path = some (file, language) ↔
      path = file ∧ languageOf? options (path.getLastD "") = some language ∧
        filters.Pass path := by
  rw [← keeps_iff]
  simp only [taken?, Option.bind_eq_some_iff, Option.ite_none_right_eq_some, Option.some.injEq,
    Prod.mk.injEq]
  constructor
  · rintro ⟨_, hlanguage, hkeeps, hpath, rfl⟩
    exact ⟨hpath, hlanguage, hkeeps⟩
  · rintro ⟨hpath, hlanguage, hkeeps⟩
    exact ⟨language, hlanguage, hkeeps, hpath, rfl⟩

lemma mem_filterMap_taken?_iff (htree : tree.WellFormed) :
    (path, language) ∈ (filesBelow [] tree).filterMap (taken? filters options) ↔
      Eligible filters options tree path language := by
  simp only [List.mem_filterMap, mem_filesBelow_iff htree, taken?_eq_some_iff,
    languageOf?_eq_some_iff]
  constructor
  · rintro ⟨_, ⟨below, hcomes, rfl⟩, rfl, ⟨hmarked, hasked⟩, hpass⟩
    exact ⟨hcomes, hmarked, hasked, hpass⟩
  · rintro ⟨hcomes, hmarked, hasked, hpass⟩
    exact ⟨path, ⟨path, hcomes, rfl⟩, rfl, ⟨hmarked, hasked⟩, hpass⟩

lemma pairwise_mergeSort_pathLe (found : List (List String × Language)) :
    (found.mergeSort fun a b => pathLe a.1 b.1).Pairwise fun a b => a.1 ≤ b.1 := by
  have hpairwise : (found.mergeSort fun a b => pathLe a.1 b.1).Pairwise
      fun a b => pathLe a.1 b.1 = true :=
    List.pairwise_mergeSort (fun a b c => by simpa [pathLe] using le_trans)
      (fun a b => by simpa [pathLe] using le_total a.1 b.1) found
  simpa [pathLe] using hpairwise

/-- Sorted by their paths, files of distinct paths come in strict order. -/
lemma pairwise_mergeSort_of_distinct
    (hdistinct : found.Pairwise fun a b => a.1 ≠ b.1) :
    (found.mergeSort fun a b => pathLe a.1 b.1).Pairwise fun a b => a.1 < b.1 := by
  have hdistinct' := ((List.mergeSort_perm found fun a b => pathLe a.1 b.1).pairwise_iff
    fun hne => Ne.symm hne).mpr hdistinct
  exact (pairwise_mergeSort_pathLe found).imp₂ (fun a b hle hne => lt_of_le_of_ne hle hne)
    hdistinct'

/-- A search of a directory that is not given up returns exactly the eligible files below it, in
strict order of their paths by components, so each of them once. -/
theorem searchDirectory_eligible
    (hfiles : workspace.files.root.WellFormed)
    (hroot : workspace.files.find directory = .ok tree)
    (hfound : searchDirectory workspace options directory tree = .ok found) :
    ∃ filters : Filters, filters.AreOf workspace options directory ∧
      (∀ path language,
        (path, language) ∈ found ↔ Eligible filters options tree path language) ∧
      found.Pairwise fun earlier later => earlier.1 < later.1 := by
  have htree := FileSystem.wellFormed_of_find hfiles hroot
  obtain ⟨filters, hread, rfl⟩ := searchDirectory_eq_ok_iff.mp hfound
  refine ⟨filters, areOf_of_readFilters hread, fun path language => ?_, ?_⟩
  · rw [List.mem_mergeSort, mem_filterMap_taken?_iff htree]
  · refine pairwise_mergeSort_of_distinct (List.pairwise_filterMap.mpr ?_)
    refine (nodup_filesBelow htree).imp fun {first second} hne taken htaken other hother => ?_
    rwa [← (taken?_eq_some_iff.mp htaken).1, ← (taken?_eq_some_iff.mp hother).1]

/-- A directory with a file in each place where a search passes it by, and with two that are found:
a later path by its text is the earlier one by its components. -/
def mixedTree : FileTree :=
  .directory
    [(".cache", .directory [("z.js", .file [])]), (".e.js", .file []),
      (".gitignore", .file "g.js\n".toUTF8.toList),
      ("a", .directory
        [("b.js", .file []), ("node_modules", .directory [("c.js", .file [])])]),
      ("a.js", .file []), ("f.js", .link "a.js"), ("g.js", .file []),
      ("h", .directory [("i.js", .file [])]), ("j.txt", .file [])]

/-- That directory as the working directory, under no version control. -/
def mixedProject : Workspace :=
  { files := { root := mixedTree, workingDirectory := [] }, answer := fun _ => .unavailable }

/-- A search that leaves a further directory out. -/
def mixedOptions : SearchOptions := { exclude := ["h/"], language := none }

/-- The filters of that search: a pattern of the ignore file and one that is asked for. -/
def mixedFilters : Filters :=
  { listing := none
    ignored := .ofPatterns
      [{ negated := false
         shape := .segments [.anyDepth, .glob ("g.js".toList.map .literal)] }]
    excluded := .ofPatterns
      [{ negated := false
         shape := .segments [.anyDepth, .glob [.literal 'h'], .anyDepth] }] }

lemma find_mixed :
    mixedProject.files.find { anchor := .relative, parts := [] } = .ok mixedTree ∧
      mixedProject.files.find { anchor := .relative, parts := [".git"] } = .error .missing ∧
      mixedProject.files.find { anchor := .relative, parts := [".gitignore"] } =
        .ok (.file "g.js\n".toUTF8.toList) := by
  have hshort : ¬ FileSystem.nameLimit < ".git".utf8ByteSize ∧
      ¬ FileSystem.nameLimit < ".gitignore".utf8ByteSize := by
    decide +kernel
  simp [FileSystem.find, mixedProject, mixedTree, FileSystem.walk, FileTree.entry?,
    List.lookup_cons, hshort]

lemma rulesOf_mixed :
    rulesOf mixedProject ["g.js"] = .ok mixedFilters.ignored ∧
      readExcluded mixedProject mixedOptions = .ok mixedFilters.excluded := by
  have hrules : ∀ {lines : List String} {patterns : List Ignore.Pattern},
      Ignore.readLines lines = .ok patterns →
        rulesOf mixedProject lines = .ok (.ofPatterns patterns) := by
    intro lines patterns hlines
    show (Ignore.readRules lines).mapError _ = _
    rw [Ignore.readRules, hlines]
    rfl
  refine ⟨hrules (toOption_eq_some_iff.mp ?_), hrules (toOption_eq_some_iff.mp ?_)⟩
  · decide +kernel
  · decide +kernel

lemma readFilters_mixed :
    readFilters mixedProject mixedOptions { anchor := .relative, parts := [] } =
      .ok mixedFilters := by
  have htext : Text.decode? "g.js\n".toUTF8.toList = some "g.js\n".toList ∧
      Text.lines (String.ofList "g.js\n".toList) = ["g.js"] := by
    decide +kernel
  simp only [readFilters, Workspace.listing?, readIgnoreFile, FileSystem.isFile, FileSystem.find?,
    FileSystem.read, List.nil_append, find_mixed, except_bind_eq_ok, mapError_eq_ok,
    except_pure_eq_ok, Except.ok.injEq, exists_eq_left', Option.isNone_none, if_true, htext]
  exact ⟨mixedFilters.ignored, rulesOf_mixed.1, mixedFilters.excluded, rulesOf_mixed.2, rfl⟩

lemma searchDirectory_mixed :
    searchDirectory mixedProject mixedOptions { anchor := .relative, parts := [] } mixedTree =
      .ok [(["a", "b.js"], .javascript), (["a.js"], .javascript)] := by
  have htaken : (filesBelow [] mixedTree).filterMap (taken? mixedFilters mixedOptions) =
      [(["a", "b.js"], .javascript), (["a.js"], .javascript)] := by
    decide +kernel
  refine searchDirectory_eq_ok_iff.mpr ⟨mixedFilters, readFilters_mixed, ?_⟩
  rw [htaken, List.mergeSort_of_pairwise]
  decide +kernel

/-- Of the files in that directory the two are returned, and these are the eligible ones. -/
theorem searchDirectory_eligible_mixed :
    mixedTree.WellFormed ∧
      mixedProject.files.find { anchor := .relative, parts := [] } = .ok mixedTree ∧
      searchDirectory mixedProject mixedOptions { anchor := .relative, parts := [] } mixedTree =
        .ok [(["a", "b.js"], .javascript), (["a.js"], .javascript)] ∧
      ∃ filters : Filters,
        filters.AreOf mixedProject mixedOptions { anchor := .relative, parts := [] } ∧
        ∀ path language,
          (path, language) ∈ [(["a", "b.js"], .javascript), (["a.js"], .javascript)] ↔
            Eligible filters mixedOptions mixedTree path language := by
  have hfiles : mixedTree.WellFormed := by
    simp [mixedTree, FileTree.wellFormed_directory_iff, FileTree.WellFormed.file,
      FileTree.WellFormed.link]
  obtain ⟨filters, hfilters, heligible, -⟩ :=
    searchDirectory_eligible hfiles find_mixed.1 searchDirectory_mixed
  exact ⟨hfiles, find_mixed.1, searchDirectory_mixed, filters, hfilters, heligible⟩

end Search

end ImportRank
