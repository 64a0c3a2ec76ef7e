import ImportRank.Proofs.Path.Directory
import ImportRank.Proofs.Run.Failure

/-!
# What a search fails with

A search fails at a root that leads nowhere, and then it names the root. Apart from that it fails
where a name is too long to be looked up, and over its filters: an ignore file that cannot be read
or is no text, lines that the reader of rules makes nothing of. For each root the cause of the error
is told exactly, in terms of what the paths lead to and where that reader fails.

Main statements: `searchRoot_eq_error_iff`, `refused_of_search`.
-/

namespace ImportRank

/-! ## Looking up -/

namespace FileSystem

variable {files : FileSystem} {path : Path} {fault : Fault}

lemma find?_eq_ok_some_iff {tree : FileTree} :
    files.find? path = .ok (some tree) ↔ files.find path = .ok tree := by
  rw [find?]
  cases files.find path with
  | ok found => simp
  | error fault => cases fault <;> simp

lemma find?_eq_ok_none_iff :
    files.find? path = .ok none ↔
      ∃ fault, files.find path = .error fault ∧ fault ≠ .nameTooLong := by
  rw [find?]
  cases files.find path with
  | ok found => simp
  | error fault => cases fault <;> simp

lemma find?_eq_error_iff :
    files.find? path = .error fault ↔
      files.find path = .error .nameTooLong ∧ fault = .nameTooLong := by
  rw [find?]
  cases files.find path with
  | ok found => simp
  | error other => cases other <;> simp [eq_comm]

lemma eq_nameTooLong_of_isFile (hfault : files.isFile path = .error fault) :
    files.find path = .error .nameTooLong ∧ fault = .nameTooLong := by
  rw [isFile, except_bind_eq_error] at hfault
  rcases hfault with hfind | ⟨tree?, -, hanswer⟩
  · exact find?_eq_error_iff.mp hfind
  · split at hanswer <;> exact absurd hanswer except_pure_ne_error

end FileSystem

/-! ## Rules -/

namespace Ignore

/-- Of some lines, the first that means nothing is reported. -/
def Reports (lines : List String) (failure : Failure) : Prop :=
  ∃ front line rest flaw, lines = front ++ line :: rest ∧
    (∀ other ∈ front, ∃ pattern?, readPattern other.toList = .ok pattern?) ∧
      readPattern line.toList = .error flaw ∧ failure = flaw.failure line

/-- Lines that are read as patterns in order fail over the first that means nothing. -/
theorem readRules_eq_error_iff {lines : List String} {failure : Failure} :
    readRules lines = .error failure ↔ Reports lines failure := by
  have hpatterns : ∀ patterns : List (Option Pattern),
      (pure (patterns.filterMap id) : Except Failure (List Pattern)) ≠ .error failure :=
    fun _ => except_pure_ne_error
  have hrules : ∀ patterns : List Pattern,
      (pure (.ofPatterns patterns) : Except Failure Rules) ≠ .error failure :=
    fun _ => except_pure_ne_error
  rw [readRules, except_bind_eq_error, readLines, except_bind_eq_error, mapM_eq_error_iff]
  simp only [hpatterns, hrules, and_false, exists_false, or_false, readLine, mapError_eq_ok,
    mapError_eq_error, Reports]
  constructor
  · rintro ⟨front, line, rest, hlines, hfront, flaw, hflaw, rfl⟩
    exact ⟨front, line, rest, flaw, hlines, hfront, hflaw, rfl⟩
  · rintro ⟨front, line, rest, flaw, hlines, hfront, hflaw, rfl⟩
    exact ⟨front, line, rest, hlines, hfront, flaw, hflaw, rfl⟩

end Ignore

namespace Search

variable {workspace : Workspace} {options : SearchOptions} {directory : Path}
  {root : String} {roots : List String} {found : List SourceFile} {error : Error}

/-- The errors of a search that are over no root: a name is too long, an ignore file cannot be read
or is no text, or what reads the rules fails. -/
inductive Refused : Error → Prop
  | nameTooLong : Refused (.fault .nameTooLong)
  | ioError : Refused (.fault .ioError)
  | undecodable : Refused .undecodable
  | rules (failure : Ignore.Failure) : Refused failure.error

lemma rulesOf_eq_error_iff {lines : List String} :
    rulesOf workspace lines = .error error ↔
      ∃ failure, workspace.readRules lines = .error failure ∧ failure.error = error :=
  mapError_eq_error

/-! ## The ignore file -/

/-- What is raised over the ignore file of a directory: a name on the way to it is too long, it is
there and cannot be read, what is read is no text, or its lines give no rules. Where it is not there
the rules of no lines are wanted. -/
inductive IgnoreFileRefuses (workspace : Workspace) (directory : Path) : Error → Prop
  | nameTooLong
      (hfind : workspace.files.find (directory.child ".gitignore") = .error .nameTooLong) :
      IgnoreFileRefuses workspace directory (.fault .nameTooLong)
  | unreadable (hfind : workspace.files.find (directory.child ".gitignore") = .ok .device) :
      IgnoreFileRefuses workspace directory (.fault .ioError)
  | undecodable {bytes : List UInt8}
      (hfind : workspace.files.find (directory.child ".gitignore") = .ok (.file bytes))
      (hbytes : Text.decode? bytes = none) : IgnoreFileRefuses workspace directory .undecodable
  | rules {bytes : List UInt8} {text : List Char} {failure : Ignore.Failure}
      (hfind : workspace.files.find (directory.child ".gitignore") = .ok (.file bytes))
      (hbytes : Text.decode? bytes = some text)
      (hrules : workspace.readRules (Text.lines (String.ofList text)) = .error failure) :
      IgnoreFileRefuses workspace directory failure.error
  | absent {failure : Ignore.Failure}
      (hfile : workspace.files.isFile (directory.child ".gitignore") = .ok false)
      (hrules : workspace.readRules [] = .error failure) :
      IgnoreFileRefuses workspace directory failure.error

lemma IgnoreFileRefuses.refused (hrefuses : IgnoreFileRefuses workspace directory error) :
    Refused error := by
  cases hrefuses with
  | nameTooLong hfind => exact .nameTooLong
  | unreadable hfind => exact .ioError
  | undecodable hfind hbytes => exact .undecodable
  | rules hfind hbytes hrules => exact .rules _
  | absent hfile hrules => exact .rules _

lemma readIgnoreFile_of_absent
    (hfile : workspace.files.isFile (directory.child ".gitignore") = .ok false) :
    readIgnoreFile workspace directory = rulesOf workspace [] := by
  have hpath : ({ directory with parts := directory.parts ++ [".gitignore"] } : Path) =
      directory.child ".gitignore" := rfl
  rw [readIgnoreFile, hpath, hfile]
  rfl

/-- An ignore file is read as what its path leads to says. -/
lemma readIgnoreFile_eq (workspace : Workspace) (directory : Path) :
    readIgnoreFile workspace directory =
      match workspace.files.find (directory.child ".gitignore") with
      | .ok (.file bytes) =>
        match Text.decode? bytes with
        | some text => rulesOf workspace (Text.lines (String.ofList text))
        | none => .error .undecodable
      | .ok .device => .error (.fault .ioError)
      | .error .nameTooLong => .error (.fault .nameTooLong)
      | _ => rulesOf workspace [] := by
  have hpath : ({ directory with parts := directory.parts ++ [".gitignore"] } : Path) =
      directory.child ".gitignore" := rfl
  simp only [readIgnoreFile, FileSystem.isFile, FileSystem.find?, FileSystem.read, hpath]
  cases workspace.files.find (directory.child ".gitignore") with
  | error fault => cases fault <;> rfl
  | ok tree => cases tree <;> rfl

lemma readIgnoreFile_eq_error_iff :
    readIgnoreFile workspace directory = .error error ↔
      IgnoreFileRefuses workspace directory error := by
  constructor
  · intro hfails
    rw [readIgnoreFile_eq] at hfails
    cases hfind : workspace.files.find (directory.child ".gitignore") with
    | error fault =>
      rw [hfind] at hfails
      cases fault with
      | nameTooLong =>
        cases hfails
        exact .nameTooLong hfind
      | _ =>
        obtain ⟨failure, hrules, rfl⟩ := rulesOf_eq_error_iff.mp hfails
        exact .absent (by rw [FileSystem.isFile, FileSystem.find?, hfind]; rfl) hrules
    | ok tree =>
      rw [hfind] at hfails
      cases tree with
      | file bytes =>
        dsimp only at hfails
        split at hfails
        · rename_i text hbytes
          obtain ⟨failure, hrules, rfl⟩ := rulesOf_eq_error_iff.mp hfails
          exact .rules hfind hbytes hrules
        · rename_i hbytes
          cases hfails
          exact .undecodable hfind hbytes
      | device =>
        cases hfails
        exact .unreadable hfind
      | _ =>
        obtain ⟨failure, hrules, rfl⟩ := rulesOf_eq_error_iff.mp hfails
        exact .absent (by rw [FileSystem.isFile, FileSystem.find?, hfind]; rfl) hrules
  · intro hrefuses
    cases hrefuses with
    | nameTooLong hfind => rw [readIgnoreFile_eq, hfind]
    | unreadable hfind => rw [readIgnoreFile_eq, hfind]
    | undecodable hfind hbytes =>
      rw [readIgnoreFile_eq, hfind]
      simp only [hbytes]
    | rules hfind hbytes hrules =>
      rw [readIgnoreFile_eq, hfind]
      simpa only [hbytes] using rulesOf_eq_error_iff.mpr ⟨_, hrules, rfl⟩
    | absent hfile hrules =>
      rw [readIgnoreFile_of_absent hfile]
      exact rulesOf_eq_error_iff.mpr ⟨_, hrules, rfl⟩

/-! ## The filters -/

/-- What is raised over the filters of a directory: a name on the way to the marker of version
control is too long, an ignore file that is wanted for want of a listing is refused, or when all
this is read what is to be left out gives no rules. -/
inductive FiltersRefuse (workspace : Workspace) (options : SearchOptions) (directory : Path) :
    Error → Prop
  | nameTooLong (hfind : workspace.files.find (directory.child ".git") = .error .nameTooLong) :
      FiltersRefuse workspace options directory (.fault .nameTooLong)
  | ignoreFile {error : Error} (hlisting : workspace.listing? directory = .ok none)
      (hignored : IgnoreFileRefuses workspace directory error) :
      FiltersRefuse workspace options directory error
  | exclude {listing : Option (List String)} {failure : Ignore.Failure}
      (hlisting : workspace.listing? directory = .ok listing)
      (hignored : listing = none → ∃ ignored, readIgnoreFile workspace directory = .ok ignored)
      (hexclude : options.exclude ≠ [])
      (hrules : workspace.readRules options.exclude = .error failure) :
      FiltersRefuse workspace options directory failure.error

lemma FiltersRefuse.refused (hrefuse : FiltersRefuse workspace options directory error) :
    Refused error := by
  cases hrefuse with
  | nameTooLong hfind => exact .nameTooLong
  | ignoreFile hlisting hignored => exact hignored.refused
  | exclude hlisting hignored hexclude hrules => exact .rules _

lemma readExcluded_eq_error_iff :
    readExcluded workspace options = .error error ↔
      options.exclude ≠ [] ∧
        ∃ failure, workspace.readRules options.exclude = .error failure ∧
          failure.error = error := by
  by_cases hexclude : options.exclude = []
  · have hnone : readExcluded workspace options = .ok .none := by
      rw [readExcluded, hexclude]
      rfl
    simp [hnone, hexclude]
  · rw [readExcluded, if_neg (by simpa using hexclude), rulesOf_eq_error_iff,
      and_iff_right hexclude]

lemma listing?_eq_error_iff {fault : Fault} :
    workspace.listing? directory = .error fault ↔
      workspace.files.find (directory.child ".git") = .error .nameTooLong ∧
        fault = .nameTooLong := by
  rw [← FileSystem.find?_eq_error_iff, Workspace.listing?, except_bind_eq_error]
  refine or_iff_left ?_
  rintro ⟨marker, -, hanswer⟩
  split at hanswer
  · exact except_pure_ne_error hanswer
  · split at hanswer <;> exact except_pure_ne_error hanswer

/-- There is no listing of a directory without the marker of version control. -/
lemma listing?_of_missing
    (hmarker : workspace.files.find (directory.child ".git") = .error .missing) :
    workspace.listing? directory = .ok none := by
  have hnone : workspace.files.find? (directory.child ".git") = .ok none :=
    FileSystem.find?_eq_ok_none_iff.mpr ⟨.missing, hmarker, by decide⟩
  rw [Workspace.listing?]
  exact except_bind_eq_ok.mpr ⟨none, hnone, rfl⟩

/-- The filters are read in turn: the listing, or the ignore file for want of one, and then what is
to be left out. -/
lemma readFilters_eq (workspace : Workspace) (options : SearchOptions) (directory : Path) :
    readFilters workspace options directory =
      (workspace.listing? directory).mapError Error.fault >>= fun listing =>
        (if listing = none then readIgnoreFile workspace directory else .ok .none) >>=
          fun ignored => readExcluded workspace options >>= fun excluded =>
            pure { listing, ignored, excluded } := by
  unfold readFilters
  cases workspace.listing? directory with
  | error fault => rfl
  | ok listing => cases listing <;> rfl

lemma readFilters_eq_error_iff :
    readFilters workspace options directory = .error error ↔
      FiltersRefuse workspace options directory error := by
  simp only [readFilters_eq, except_bind_eq_error, mapError_eq_error, mapError_eq_ok,
    except_pure_ne_error, and_false, exists_false, or_false, readExcluded_eq_error_iff]
  constructor
  · rintro (⟨fault, hlisting, rfl⟩ |
      ⟨listing, hlisting, hfile | ⟨ignored, hfile, hexclude, failure, hrules, rfl⟩⟩)
    · obtain ⟨hfind, rfl⟩ := listing?_eq_error_iff.mp hlisting
      exact .nameTooLong hfind
    · split at hfile
      · rename_i hnone
        exact .ignoreFile (hnone ▸ hlisting) (readIgnoreFile_eq_error_iff.mp hfile)
      · cases hfile
    · exact .exclude hlisting (fun hnone => ⟨ignored, by rwa [if_pos hnone] at hfile⟩) hexclude
        hrules
  · intro hrefuse
    cases hrefuse with
    | nameTooLong hfind =>
      exact Or.inl ⟨.nameTooLong, listing?_eq_error_iff.mpr ⟨hfind, rfl⟩, rfl⟩
    | ignoreFile hlisting hignored =>
      refine Or.inr ⟨none, hlisting, Or.inl ?_⟩
      rw [if_pos rfl, readIgnoreFile_eq_error_iff]
      exact hignored
    | @exclude listing failure hlisting hignored hexclude hrules =>
      refine Or.inr ⟨listing, hlisting, Or.inr ?_⟩
      by_cases hnone : listing = none
      · obtain ⟨ignored, hread⟩ := hignored hnone
        exact ⟨ignored, by rwa [if_pos hnone], hexclude, failure, hrules, rfl⟩
      · exact ⟨.none, by rw [if_neg hnone], hexclude, failure, hrules, rfl⟩

/-! ## Roots -/

/-- What a root refuses with that may lead somewhere: a name on the way to it is too long, or it is
a directory and its filters refuse. -/
inductive RootRefuses (workspace : Workspace) (options : SearchOptions) (root : String) :
    Error → Prop
  | nameTooLong (hfind : workspace.files.find (Path.ofString root) = .error .nameTooLong) :
      RootRefuses workspace options root (.fault .nameTooLong)
  | filters {entries : List (String × FileTree)} {error : Error}
      (hfind : workspace.files.find (Path.ofString root) = .ok (.directory entries))
      (hfilters : FiltersRefuse workspace options (Path.ofString root) error) :
      RootRefuses workspace options root error

lemma RootRefuses.refused (hrefuses : RootRefuses workspace options root error) :
    Refused error := by
  cases hrefuses with
  | nameTooLong hfind => exact .nameTooLong
  | filters hfind hfilters => exact hfilters.refused

/-- A root leads nowhere: there is nothing at it, and this can be told. -/
def LeadsNowhere (workspace : Workspace) (root : String) : Prop :=
  ∃ fault, workspace.files.find (Path.ofString root) = .error fault ∧ fault ≠ .nameTooLong

lemma searchDirectory_eq_error_iff {tree : FileTree} :
    searchDirectory workspace options directory tree = .error error ↔
      FiltersRefuse workspace options directory error := by
  rw [searchDirectory, except_bind_eq_error, readFilters_eq_error_iff]
  refine or_iff_left ?_
  rintro ⟨_, -, hanswer⟩
  exact except_pure_ne_error hanswer

/-- The error names a root that leads nowhere; all else that is raised at a root is a refusal. -/
lemma searchRoot_eq_error_iff :
    searchRoot workspace options root = .error error ↔
      LeadsNowhere workspace root ∧ error = .discovery root "no such file or directory" ∨
        RootRefuses workspace options root error := by
  rw [searchRoot, except_bind_eq_error, mapError_eq_error]
  constructor
  · rintro (⟨fault, hfault, rfl⟩ | ⟨tree?, htree, hanswer⟩)
    · obtain ⟨hfind, rfl⟩ := FileSystem.find?_eq_error_iff.mp hfault
      exact Or.inr (.nameTooLong hfind)
    · rw [mapError_eq_ok] at htree
      split at hanswer
      · cases hanswer
        exact Or.inl ⟨FileSystem.find?_eq_ok_none_iff.mp htree, rfl⟩
      · rename_i entries
        refine Or.inr (.filters (FileSystem.find?_eq_ok_some_iff.mp htree) ?_)
        rcases except_bind_eq_error.mp hanswer with hsearch | ⟨_, -, hpure⟩
        · exact searchDirectory_eq_error_iff.mp hsearch
        · exact absurd hpure except_pure_ne_error
      · exact absurd hanswer except_pure_ne_error
  · rintro (⟨hnowhere, rfl⟩ | hrefuses)
    · exact Or.inr ⟨none, mapError_eq_ok.mpr (FileSystem.find?_eq_ok_none_iff.mpr hnowhere), rfl⟩
    · cases hrefuses with
      | nameTooLong hfind =>
        exact Or.inl ⟨.nameTooLong, FileSystem.find?_eq_error_iff.mpr ⟨hfind, rfl⟩, rfl⟩
      | filters hfind hfilters =>
        refine Or.inr ⟨_, mapError_eq_ok.mpr (FileSystem.find?_eq_ok_some_iff.mpr hfind), ?_⟩
        exact except_bind_eq_error.mpr (Or.inl (searchDirectory_eq_error_iff.mpr hfilters))

/-- Several roots are searched one by one, and what is found is added in that order. -/
lemma searchRoots_eq_map (found : List SourceFile) (roots : List String) :
    searchRoots workspace options found roots =
      (roots.mapM (searchRoot workspace options)).map (List.foldl addNew found) := by
  induction roots generalizing found with
  | nil => rfl
  | cons root roots ih =>
    rw [searchRoots, List.mapM_cons]
    cases searchRoot workspace options root with
    | error error => rfl
    | ok more =>
      refine (ih (addNew found more)).trans ?_
      cases hrest : roots.mapM (searchRoot workspace options) with
      | error error => rfl
      | ok owns => rfl

/-- A search gets to a root: nothing is raised over the roots before it. -/
def Reaches (workspace : Workspace) (options : SearchOptions) (roots : List String)
    (root : String) : Prop :=
  ∃ front rest, roots = front ++ root :: rest ∧
    ∀ other ∈ front, ∃ files, searchRoot workspace options other = .ok files

lemma Reaches.mem (hreaches : Reaches workspace options roots root) : root ∈ roots := by
  obtain ⟨front, rest, rfl, -⟩ := hreaches
  simp

/-- A search of several roots fails at the first of them that fails. -/
lemma search_eq_error_iff (hroots : roots ≠ []) :
    search workspace options roots = .error error ↔
      ∃ root, Reaches workspace options roots root ∧
        searchRoot workspace options root = .error error := by
  have hmap : (roots.mapM (searchRoot workspace options)).map (List.foldl addNew []) =
      .error error ↔ roots.mapM (searchRoot workspace options) = .error error := by
    cases roots.mapM (searchRoot workspace options) <;> simp [Except.map]
  rw [search, if_neg (by simpa using hroots), searchRoots_eq_map, hmap, mapM_eq_error_iff]
  constructor
  · rintro ⟨front, root, rest, hsplit, hfront, hroot⟩
    exact ⟨root, ⟨front, rest, hsplit, hfront⟩, hroot⟩
  · rintro ⟨root, ⟨front, rest, hsplit, hfront⟩, hroot⟩
    exact ⟨front, root, rest, hsplit, hfront, hroot⟩

/-- A search of several roots fails at one that leads nowhere, or it is refused. -/
theorem refused_of_search (hroots : roots ≠ [])
    (hfails : search workspace options roots = .error error) :
    (∃ root ∈ roots, (∀ tree, workspace.files.find (Path.ofString root) ≠ .ok tree) ∧
        error = .discovery root "no such file or directory") ∨
      Refused error := by
  obtain ⟨root, hreaches, hroot⟩ := (search_eq_error_iff hroots).mp hfails
  refine (searchRoot_eq_error_iff.mp hroot).imp (fun ⟨hnowhere, herror⟩ => ?_)
    RootRefuses.refused
  obtain ⟨fault, hfault, -⟩ := hnowhere
  exact ⟨root, hreaches.mem, fun tree htree => (by simp [hfault] at htree), herror⟩

end Search

/-- The directories of imports are told unless a name on the way to a root is too long. -/
lemma eq_nameTooLong_of_importRoots {files : FileSystem} {roots : List String} {fault : Fault}
    (hfault : importRoots files roots = .error fault) :
    (∃ root ∈ roots, files.find (Path.ofString root) = .error .nameTooLong) ∧
      fault = .nameTooLong := by
  unfold importRoots at hfault
  obtain ⟨root, hmem, found, hroot⟩ := exists_of_foldlM_eq_error hfault
  rcases except_bind_eq_error.mp hroot with hfile | ⟨isFile, -, hadd⟩
  · obtain ⟨hfind, hname⟩ := FileSystem.eq_nameTooLong_of_isFile hfile
    exact ⟨⟨root, hmem, hfind⟩, hname⟩
  · split at hadd <;> exact absurd hadd except_pure_ne_error

end ImportRank
