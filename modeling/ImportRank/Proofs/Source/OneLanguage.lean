import ImportRank.Proofs.Path.Directory
import ImportRank.Proofs.Source.Roots

/-!
# Searches for one language

A search for one language returns what a search for all of them does, without the files of other
languages. It leaves files out at each root, and the search for all leaves out what an earlier root
has found first: both come to the same, since files of one key are of one language. The key ends as
the file's name does, and so it tells the language, however the file was come by.

Main statement: `search_one_language`.
-/

namespace ImportRank

/-! ## Endings -/

namespace Path

lemma suffixOf_suffix (name : String) : (suffixOf name).toList <:+ name.toList := by
  rw [suffixOf]
  split
  · exact List.nil_suffix
  · rename_i hending
    rw [not_or, not_le] at hending
    set reversed := name.toList.reverse with hreversed
    have hlength : (reversed.takeWhile (· ≠ '.')).length < reversed.length := by omega
    -- what follows the characters that are no dots starts with a dot
    obtain ⟨dot, front, hrest⟩ : ∃ dot front, reversed.dropWhile (· ≠ '.') = dot :: front := by
      refine List.exists_cons_of_ne_nil fun hnil => ?_
      have hsplit := congrArg List.length (List.takeWhile_append_dropWhile (p := (· ≠ '.'))
        (l := reversed))
      rw [hnil, List.append_nil] at hsplit
      omega
    have hdot : dot = '.' := by
      have hhead := List.head?_dropWhile_not (fun c => decide (c ≠ '.')) reversed
      rw [hrest] at hhead
      simpa using hhead
    have hname : name.toList =
        front.reverse ++ ('.' :: (reversed.takeWhile (· ≠ '.')).reverse) := by
      have hsplit := List.takeWhile_append_dropWhile (p := (· ≠ '.')) (l := reversed)
      rw [hrest, hdot] at hsplit
      have hreverse := congrArg List.reverse hsplit
      rw [hreversed, List.reverse_reverse, List.reverse_append, List.reverse_cons,
        List.append_assoc] at hreverse
      exact hreverse.symm
    rw [hname, String.toList_ofList]
    exact List.suffix_append _ _

/-- A last name that is no step up stays the last one. -/
lemma normalize_child (directory : Path) {name : String} (hname : name ≠ "..") :
    (directory.child name).normalize = directory.normalize.child name := by
  simp only [normalize, child, List.foldl_append, List.foldl_cons, List.foldl_nil,
    descend_of_ne hname, List.reverse_cons]

end Path

namespace Language

variable {language other : Language} {ending ending' : String} {text : List Char}

lemma ne_empty_of_mem_extensions (hmark : ending ∈ language.extensions) : ending ≠ "" := by
  rintro rfl
  cases language <;> exact absurd hmark (by decide)

/-- A text does not end in the extensions of two languages. -/
lemma eq_of_extension_suffix (hmark : ending ∈ language.extensions)
    (hmark' : ending' ∈ other.extensions) (hends : ending.toList <:+ text)
    (hends' : ending'.toList <:+ text) : language = other := by
  have hapart : ∀ language ∈ all, ∀ other ∈ all, ∀ ending ∈ language.extensions,
      ∀ ending' ∈ other.extensions, ending.toList <:+ ending'.toList → language = other := by
    decide
  rcases List.suffix_or_suffix_of_suffix hends hends' with hinside | hinside
  · exact hapart language mem_all other mem_all ending hmark ending' hmark' hinside
  · exact (hapart other mem_all language mem_all ending' hmark' ending hmark hinside).symm

end Language

namespace Search

variable {workspace : Workspace} {options : SearchOptions} {root : String} {path : Path}
  {language : Language} {file other : SourceFile} {found more own : List SourceFile}

/-! ## The language of a key -/

/-- The name of what is found at a root marks its language. -/
lemma FoundAt.languageOf?_name (hat : FoundAt workspace options root path language) :
    languageOf? options path.name = some language := by
  cases hat with
  | root hroot hfile hlanguage => exact hlanguage
  | @below entries returned below language hroot hreturned hmem =>
    obtain ⟨filters, -, rfl⟩ := searchDirectory_eq_ok_iff.mp hreturned
    obtain ⟨path, -, htaken⟩ := List.mem_filterMap.mp (List.mem_mergeSort.mp hmem)
    obtain ⟨hpath, hlanguage, -⟩ := taken?_eq_some_iff.mp htaken
    rw [hpath] at hlanguage
    have hbelow : below ≠ [] := by
      rintro rfl
      exact Language.ne_empty_of_mem_extensions (languageOf?_eq_some_iff.mp hlanguage).1 rfl
    have hname : Path.name
        { Path.ofString root with parts := (Path.ofString root).parts ++ below } =
          below.getLastD "" := by
      simp [Path.name, List.getLastD_eq_getLast?, List.getLast?_append_of_ne_nil _ hbelow]
    rw [hname]
    exact hlanguage

/-- The key of a file ends in an extension that marks its language. -/
def Marked (file : SourceFile) : Prop :=
  ∃ ending ∈ file.language.extensions, ending.toList <:+ file.key.toList

lemma Marked.language_eq (hfile : Marked file) (hother : Marked other)
    (hkey : file.key = other.key) : file.language = other.language := by
  obtain ⟨ending, hmark, hends⟩ := hfile
  obtain ⟨ending', hmark', hends'⟩ := hother
  exact Language.eq_of_extension_suffix hmark hmark' hends (hkey ▸ hends')

lemma marked_of_mem_searchRoot (hmore : searchRoot workspace options root = .ok more)
    (hfile : file ∈ more) : Marked file := by
  obtain ⟨path, hat, hkey⟩ := exists_foundAt_of_mem_searchRoot hmore hfile
  have hmark := (languageOf?_eq_some_iff.mp hat.languageOf?_name).1
  refine ⟨_, hmark, ?_⟩
  have hparts : path.parts ≠ [] := by
    intro hnil
    rw [Path.name, hnil] at hmark
    exact Language.ne_empty_of_mem_extensions hmark rfl
  obtain ⟨name, -, hchild⟩ := Path.exists_child hparts
  have hname : path.name = name := by
    rw [hchild]
    simp [Path.name, Path.child]
  have hup : name ≠ ".." := by
    rintro rfl
    rw [hname] at hmark
    exact Language.ne_empty_of_mem_extensions hmark (by decide)
  rw [hname, hkey, hchild, Path.normalize_child _ hup, Path.toString_child, String.toList_append]
  exact (Path.suffixOf_suffix name).trans (List.suffix_append _ _)

lemma marked_joined (hfound : ∀ file ∈ found, Marked file) (hown : ∀ file ∈ own, Marked file) :
    ∀ file ∈ joined found own, Marked file := by
  intro file hfile
  rcases List.mem_append.mp hfile with hthere | hnew
  · exact hfound file hthere
  · exact hown file (List.mem_of_mem_filter hnew)

lemma marked_addNew (hfound : ∀ file ∈ found, Marked file) (hmore : ∀ file ∈ more, Marked file) :
    ∀ file ∈ addNew found more, Marked file := fun file hfile =>
  (mem_of_mem_addNew hfile).elim (hfound file) (hmore file)

/-! ## Leaving out before and after -/

/-- The files of one language. -/
def ofLanguage (name : String) (files : List SourceFile) : List SourceFile :=
  files.filter fun file => file.language.name = name

variable {name : String}

/-- A file of the language is new among all files just when it is among those of the language. -/
lemma ofLanguage_joined (hfound : ∀ file ∈ found, Marked file) (hown : ∀ file ∈ own, Marked file) :
    ofLanguage name (joined found own) = joined (ofLanguage name found) (ofLanguage name own) := by
  rw [joined, joined, ofLanguage, List.filter_append]
  refine congrArg (ofLanguage name found ++ ·) ?_
  rw [ofLanguage, ofLanguage, List.filter_filter, List.filter_filter]
  refine List.filter_congr fun file hfile => ?_
  rw [← Bool.decide_and, ← Bool.decide_and, decide_eq_decide]
  constructor
  · rintro ⟨hname, hnew⟩
    exact ⟨fun hthere => hnew (List.map_subset _ (List.filter_subset_self found) hthere), hname⟩
  · rintro ⟨hnew, hname⟩
    refine ⟨hname, fun hthere => hnew ?_⟩
    obtain ⟨other, hother, hkey⟩ := List.mem_map.mp hthere
    have hlanguage := (hfound other hother).language_eq (hown file hfile) hkey
    exact List.mem_map.mpr ⟨other, List.mem_filter.mpr ⟨hother, by simpa [hlanguage]⟩, hkey⟩

lemma ofLanguage_addNew (hfound : ∀ file ∈ found, Marked file)
    (hmore : ∀ file ∈ more, Marked file) :
    ofLanguage name (addNew found more) =
      addNew (ofLanguage name found) (ofLanguage name more) := by
  induction more generalizing found with
  | nil => rfl
  | cons file more ih =>
    obtain ⟨hfile, hmore⟩ := List.forall_mem_cons.mp hmore
    have hone : ∀ one ∈ [file], Marked one := List.forall_mem_singleton.mpr hfile
    rw [addNew_cons, ih (marked_joined hfound hone) hmore, ofLanguage_joined hfound hone]
    by_cases hname : file.language.name = name
    · have hkept : ofLanguage name [file] = [file] := by simp [ofLanguage, hname]
      have hkept' : ofLanguage name (file :: more) = file :: ofLanguage name more := by
        simp [ofLanguage, hname]
      rw [hkept, hkept', addNew_cons]
    · have hdropped : ofLanguage name [file] = [] := by simp [ofLanguage, hname]
      have hdropped' : ofLanguage name (file :: more) = ofLanguage name more := by
        simp [ofLanguage, hname]
      rw [hdropped, hdropped', joined, List.filter_nil, List.append_nil]

/-! ## The search -/

variable {exclude : List String}

lemma languageOf?_one (hname : name ≠ "") (text : String) :
    languageOf? { exclude, language := some name } text =
      (languageOf? { exclude, language := none } text).filter
        fun language => language.name = name := by
  rw [languageOf?, languageOf?]
  cases Language.ofExtension? (Path.suffixOf text) with
  | none => rfl
  | some language => simp [Option.filter, wanted, hname]

lemma taken?_one (hname : name ≠ "") (filters : Filters) (path : List String) :
    taken? filters { exclude, language := some name } path =
      (taken? filters { exclude, language := none } path).filter
        fun file => file.2.name = name := by
  rw [taken?, taken?, languageOf?_one hname]
  cases languageOf? { exclude, language := none } (path.getLastD "") with
  | none => rfl
  | some language =>
    by_cases hlanguage : language.name = name <;>
      by_cases hkeeps : filters.keeps ("/".intercalate path) <;>
        simp [Option.filter, hlanguage, hkeeps]

/-- What is taken is sorted by its paths, and two of one path are one file of one language. So
sorting some of it is sorting all of it and leaving the rest out. -/
lemma filter_mergeSort_taken (filters : Filters) (options : SearchOptions)
    (paths : List (List String)) (keep : List String × Language → Bool) :
    ((paths.filterMap (taken? filters options)).mergeSort fun a b => pathLe a.1 b.1).filter keep =
      ((paths.filterMap (taken? filters options)).filter keep).mergeSort
        fun a b => pathLe a.1 b.1 := by
  set taken := paths.filterMap (taken? filters options) with htaken
  have hsame : ∀ a ∈ taken, ∀ b ∈ taken, a.1 = b.1 → a = b := by
    rintro ⟨path, language⟩ ha ⟨path', language'⟩ hb rfl
    obtain ⟨_, -, ha⟩ := List.mem_filterMap.mp ha
    obtain ⟨_, -, hb⟩ := List.mem_filterMap.mp hb
    obtain ⟨rfl, hlanguage, -⟩ := taken?_eq_some_iff.mp ha
    obtain ⟨rfl, hlanguage', -⟩ := taken?_eq_some_iff.mp hb
    rw [Option.some.inj (hlanguage.symm.trans hlanguage')]
  have hperm : ((taken.mergeSort fun a b => pathLe a.1 b.1).filter keep).Perm
      ((taken.filter keep).mergeSort fun a b => pathLe a.1 b.1) :=
    ((List.mergeSort_perm taken _).filter keep).trans (List.mergeSort_perm _ _).symm
  refine hperm.eq_of_pairwise (fun a b ha hb hab hba => ?_)
    ((pairwise_mergeSort_pathLe taken).filter keep) (pairwise_mergeSort_pathLe _)
  have ha := List.mem_mergeSort.mp (List.mem_of_mem_filter ha)
  have hb := List.mem_of_mem_filter (List.mem_mergeSort.mp hb)
  exact hsame a ha b hb (le_antisymm hab hba)

lemma searchDirectory_one (hname : name ≠ "") (directory : Path) (tree : FileTree) :
    searchDirectory workspace { exclude, language := some name } directory tree =
      (searchDirectory workspace { exclude, language := none } directory tree).map
        (List.filter fun file => file.2.name = name) := by
  -- the filters do not depend on the language
  show (readFilters workspace { exclude, language := none } directory >>= fun filters =>
    pure (((filesBelow [] tree).filterMap
      (taken? filters { exclude, language := some name })).mergeSort
        fun a b => pathLe a.1 b.1)) =
    (readFilters workspace { exclude, language := none } directory >>= fun filters =>
      pure (((filesBelow [] tree).filterMap
        (taken? filters { exclude, language := none })).mergeSort
          fun a b => pathLe a.1 b.1)).map _
  cases readFilters workspace { exclude, language := none } directory with
  | error error => rfl
  | ok filters =>
    refine congrArg Except.ok ?_
    rw [filter_mergeSort_taken, List.filter_filterMap]
    exact congrArg (List.mergeSort · _)
      (List.filterMap_congr fun path _ => taken?_one hname filters path)

lemma searchRoot_one (hname : name ≠ "") (root : String) :
    searchRoot workspace { exclude, language := some name } root =
      (searchRoot workspace { exclude, language := none } root).map (ofLanguage name) := by
  rw [searchRoot, searchRoot]
  cases (workspace.files.find? (Path.ofString root)).mapError Error.fault with
  | error error => rfl
  | ok found? =>
    cases found? with
    | none => rfl
    | some tree =>
      cases tree with
      | directory entries =>
        show (searchDirectory _ _ _ _ >>= fun found => _) =
          (searchDirectory _ _ _ _ >>= fun found => _).map _
        rw [searchDirectory_one hname]
        cases searchDirectory workspace { exclude, language := none } (Path.ofString root)
          (.directory entries) with
        | error error => rfl
        | ok found =>
          refine congrArg Except.ok ?_
          rw [ofLanguage, List.filter_map]
          rfl
      | file bytes | device | link target =>
        refine congrArg Except.ok ?_
        rw [languageOf?_one hname]
        cases languageOf? { exclude, language := none } (Path.ofString root).name with
        | none => rfl
        | some language =>
          by_cases hlanguage : language.name = name <;>
            simp [ofLanguage, Option.filter, hlanguage]

lemma searchRoots_one (hname : name ≠ "") (roots : List String)
    (hfound : ∀ file ∈ found, Marked file) :
    searchRoots workspace { exclude, language := some name } (ofLanguage name found) roots =
      (searchRoots workspace { exclude, language := none } found roots).map (ofLanguage name) := by
  induction roots generalizing found with
  | nil => rfl
  | cons root roots ih =>
    rw [searchRoots, searchRoots, searchRoot_one hname]
    cases hmore : searchRoot workspace { exclude, language := none } root with
    | error error => rfl
    | ok more =>
      have hmarked : ∀ file ∈ more, Marked file := fun file => marked_of_mem_searchRoot hmore
      show searchRoots workspace { exclude, language := some name }
        (addNew (ofLanguage name found) (ofLanguage name more)) roots = _
      rw [← ofLanguage_addNew hfound hmarked]
      exact ih (marked_addNew hfound hmarked)

/-- A search for one language returns the files of that language that a search for all languages
returns, in the same order, and it raises what that search raises. -/
theorem search_one_language (workspace : Workspace) (exclude roots : List String) {name : String}
    (hname : name ≠ "") :
    search workspace { exclude, language := some name } roots =
      (search workspace { exclude, language := none } roots).map
        (List.filter fun file => file.language.name = name) := by
  by_cases hroots : roots = []
  · rw [hroots]
    rfl
  · rw [search_of_ne_nil hroots, search_of_ne_nil hroots]
    exact searchRoots_one hname roots fun file hfile => absurd hfile List.not_mem_nil

/-- A directory with a file in each of two languages. -/
def pairEntries : List (String × FileTree) := [("a.py", .file []), ("b.js", .file [])]

/-- That directory as the working directory, under no version control. -/
def pairProject : Workspace :=
  { files := { root := .directory pairEntries, workingDirectory := [] }
    answer := fun _ => .unavailable }

lemma find_pair :
    pairProject.files.find (Path.ofString "b.js") = .ok (.file []) ∧
    pairProject.files.find (Path.ofString ".") = .ok (.directory pairEntries) ∧
    pairProject.files.find ((Path.ofString ".").child ".git") = .error .missing ∧
    pairProject.files.find ((Path.ofString ".").child ".gitignore") = .error .missing := by
  have hpaths : (Path.ofString ".").anchor = .relative ∧ (Path.ofString ".").parts = [] ∧
      Path.ofString "b.js" = { anchor := .relative, parts := ["b.js"] } := by
    decide +kernel
  have hshort : ∀ name ∈ ["b.js", ".git", ".gitignore"],
      ¬ FileSystem.nameLimit < name.utf8ByteSize := by
    decide +kernel
  simp only [List.forall_mem_cons] at hshort
  simp [FileSystem.find, FileSystem.walk, pairProject, pairEntries, FileTree.entry?,
    List.lookup_cons, Path.child, hpaths, hshort]

/-- One of the files is a root by itself, and again in the directory. -/
lemma search_pair :
    search pairProject { exclude := [], language := none } ["b.js", "."] =
      .ok [{ key := "b.js", language := .javascript }, { key := "a.py", language := .python }] := by
  obtain ⟨hfile, htop, hmarker, hignore⟩ := find_pair
  have hfilters : readFilters pairProject { exclude := [], language := none } (Path.ofString ".") =
      .ok { listing := none, ignored := .none, excluded := .none } := by
    rw [readFilters_eq, listing?_of_missing hmarker]
    show (readIgnoreFile pairProject (Path.ofString ".") >>= fun ignored => _) = _
    rw [readIgnoreFile_eq, hignore]
    rfl
  have hfound : searchDirectory pairProject { exclude := [], language := none } (Path.ofString ".")
      (.directory pairEntries) = .ok [(["a.py"], .python), (["b.js"], .javascript)] := by
    have htaken : (filesBelow [] (.directory pairEntries)).filterMap
        (taken? { listing := none, ignored := .none, excluded := .none }
          { exclude := [], language := none }) =
        [(["a.py"], .python), (["b.js"], .javascript)] := by
      decide +kernel
    refine searchDirectory_eq_ok_iff.mpr ⟨_, hfilters, ?_⟩
    rw [htaken, List.mergeSort_of_pairwise]
    decide +kernel
  have hfirst : searchRoot pairProject { exclude := [], language := none } "b.js" =
      .ok [{ key := "b.js", language := .javascript }] := by
    rw [← toOption_eq_some_iff, searchRoot, FileSystem.find?_eq_ok_some_iff.mpr hfile]
    decide +kernel
  have hsecond : searchRoot pairProject { exclude := [], language := none } "." =
      .ok [{ key := "a.py", language := .python }, { key := "b.js", language := .javascript }] := by
    rw [← toOption_eq_some_iff, searchRoot, FileSystem.find?_eq_ok_some_iff.mpr htop]
    show (searchDirectory _ _ _ (.directory pairEntries) >>= fun found => _).toOption = _
    rw [hfound]
    decide +kernel
  rw [search_of_ne_nil (List.cons_ne_nil _ _), searchRoots, hfirst]
  show searchRoots pairProject { exclude := [], language := none } _ ["."] = _
  rw [searchRoots, hsecond]
  rfl

/-- Searched for one language, the file that two roots lead to is found where the first stands. -/
theorem search_one_language_pair :
    "javascript" ≠ "" ∧
      search pairProject { exclude := [], language := some "javascript" } ["b.js", "."] =
        .ok [{ key := "b.js", language := .javascript }] := by
  refine ⟨by decide, ?_⟩
  rw [search_one_language pairProject [] ["b.js", "."] (by decide), search_pair]
  rfl

end Search

end ImportRank
