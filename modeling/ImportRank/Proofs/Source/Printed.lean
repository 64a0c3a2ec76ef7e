import ImportRank.Proofs.Source.Eligible
import Mathlib.Algebra.Order.BigOperators.Group.List

/-!
# Printed listings

Version control prints a path as it is only where its characters are visible ones of ASCII, without
the double quote and the backslash. Any other path it prints between double quotes, with escapes. A
listing is read line by line, and no line is unquoted: what is read is the printed form. So a
listing is the set of the paths that were printed exactly where each of them was printed as it is,
and a search takes, of the files that it should take by what was printed, those with such a path.

Main statement: `listing?_output`.
-/

namespace ImportRank

/-! ## Printing -/

namespace Listing

variable {path : String} {tracked : List String} {c : Char}

/-- Whether a character is printed as it is. The others are the control characters, those of a byte
from 0x80 on, the double quote and the backslash. -/
def isVerbatim (c : Char) : Bool := ' ' ≤ c && c ≤ '~' && c ≠ '"' && c ≠ '\\'

/-- The letter that stands for a character after a backslash, for those that have one. -/
def letterOf? (c : Char) : Option Char :=
  [('\x07', 'a'), ('\x08', 'b'), ('\t', 't'), ('\n', 'n'), ('\x0b', 'v'), ('\x0c', 'f'), ('\r', 'r'),
    ('"', '"'), ('\\', '\\')].lookup c

/-- A byte as a backslash and three octal digits. -/
def octal (byte : UInt8) : List Char :=
  '\\' :: [byte.toNat / 64, byte.toNat / 8 % 8, byte.toNat % 8].map Nat.digitChar

/-- A character between quotes: itself, its letter, or its bytes. -/
def escaped (c : Char) : List Char :=
  if isVerbatim c then [c]
  else match letterOf? c with
    | some letter => ['\\', letter]
    | none => (String.utf8EncodeChar c).flatMap octal

/-- A path of characters that are printed as they are. -/
def Verbatim (path : String) : Prop := ∀ c ∈ path.toList, isVerbatim c

instance (path : String) : Decidable (Verbatim path) :=
  decidable_of_iff (path.toList.all isVerbatim) List.all_eq_true

/-- A path as it is printed. -/
def printed (path : String) : String :=
  if Verbatim path then path
  else String.ofList ('"' :: path.toList.flatMap escaped ++ ['"'])

/-- What is printed of some paths: one on each line. -/
def output (tracked : List String) : String :=
  String.join (tracked.map fun path => printed path ++ "\n")

/-! ## What printed paths look like -/

/-- Whether a character is a visible one of ASCII, the blank counted in. -/
def IsVisible (c : Char) : Prop := ' ' ≤ c ∧ c ≤ '~'

lemma isVisible_digitChar {n : ℕ} (hn : n < 10) : IsVisible n.digitChar := by
  have hdigits : ∀ n < 10, ' ' ≤ Nat.digitChar n ∧ Nat.digitChar n ≤ '~' := by decide
  exact hdigits n hn

lemma isVisible_of_mem_octal {byte : UInt8} (hc : c ∈ octal byte) : IsVisible c := by
  have hbyte : byte.toNat < 256 := byte.toNat_lt
  rcases List.mem_cons.mp hc with rfl | hdigit
  · exact ⟨by decide, by decide⟩
  · obtain ⟨n, hn, rfl⟩ := List.mem_map.mp hdigit
    refine isVisible_digitChar ?_
    simp only [List.mem_cons, List.not_mem_nil, or_false] at hn
    omega

lemma isVisible_of_isVerbatim (hc : isVerbatim c) : IsVisible c := by
  simp only [isVerbatim, Bool.and_eq_true, decide_eq_true_eq] at hc
  exact hc.1.1

lemma isVisible_of_letterOf? {letter : Char} (hletter : letterOf? c = some letter) :
    IsVisible letter := by
  obtain ⟨before, after, hpairs, -⟩ := List.lookup_eq_some_iff.mp hletter
  have hmem : (c, letter) ∈ before ++ (c, letter) :: after :=
    List.mem_append_right before List.mem_cons_self
  have hvisible : ∀ pair ∈ before ++ (c, letter) :: after, ' ' ≤ pair.2 ∧ pair.2 ≤ '~' := by
    rw [← hpairs]
    decide
  exact hvisible _ hmem

lemma isVisible_of_mem_escaped {d : Char} (hd : d ∈ escaped c) : IsVisible d := by
  rw [escaped] at hd
  split at hd
  · rename_i hverbatim
    rw [List.mem_singleton.mp hd]
    exact isVisible_of_isVerbatim hverbatim
  · split at hd
    · rename_i letter hletter
      rcases List.mem_pair.mp hd with rfl | rfl
      · exact ⟨by decide, by decide⟩
      · exact isVisible_of_letterOf? hletter
    · obtain ⟨byte, -, hbyte⟩ := List.mem_flatMap.mp hd
      exact isVisible_of_mem_octal hbyte

lemma isVisible_of_mem_printed (hc : c ∈ (printed path).toList) : IsVisible c := by
  rw [printed] at hc
  split at hc
  · rename_i hverbatim
    exact isVisible_of_isVerbatim (hverbatim c hc)
  · simp only [String.toList_ofList, List.cons_append, List.mem_cons, List.mem_append,
      List.mem_flatMap, List.not_mem_nil, or_false] at hc
    rcases hc with rfl | ⟨other, -, hother⟩ | rfl
    · exact ⟨by decide, by decide⟩
    · exact isVisible_of_mem_escaped hother
    · exact ⟨by decide, by decide⟩

lemma escaped_ne_nil : escaped c ≠ [] := by
  rw [escaped]
  split
  · exact List.cons_ne_nil _ _
  · split
    · exact List.cons_ne_nil _ _
    · obtain ⟨byte, rest, hbytes⟩ :=
        List.exists_cons_of_ne_nil (String.utf8EncodeChar_ne_nil (c := c))
      simp [hbytes, octal]

lemma printed_of_verbatim (hpath : Verbatim path) : printed path = path := if_pos hpath

lemma toList_printed_of_not_verbatim (hpath : ¬ Verbatim path) :
    (printed path).toList = '"' :: path.toList.flatMap escaped ++ ['"'] := by
  rw [printed, if_neg hpath, String.toList_ofList]

/-- A quoted path is not printed as it is either. -/
lemma not_verbatim_printed (hpath : ¬ Verbatim path) : ¬ Verbatim (printed path) := by
  intro hverbatim
  have hquote := hverbatim '"' (by rw [toList_printed_of_not_verbatim hpath]; simp)
  exact absurd hquote (by decide)

lemma length_lt_length_printed (hpath : ¬ Verbatim path) : path.length < (printed path).length := by
  have hescaped : ∀ text : List Char, text.length ≤ (text.flatMap escaped).length := by
    intro text
    induction text with
    | nil => exact le_rfl
    | cons c text ih =>
      have hpos := List.length_pos_iff.mpr (escaped_ne_nil (c := c))
      rw [List.flatMap_cons, List.length_append, List.length_cons]
      omega
  have hlength := hescaped path.toList
  rw [← String.length_toList, ← String.length_toList, toList_printed_of_not_verbatim hpath]
  simp only [List.length_append, List.length_cons, List.length_nil]
  omega

/-! ## Reading -/

lemma isLineBreak_eq_false (hc : IsVisible c) : Text.isLineBreak c = false := by
  have hlow : 0x20 ≤ c.toNat := hc.1
  have hhigh : c.toNat ≤ 0x7E := hc.2
  simp only [Text.isLineBreak, Bool.or_eq_false_iff, Bool.and_eq_false_iff, decide_eq_false_iff_not,
    beq_eq_false_iff_ne]
  omega

/-- Visible characters go to the line that they stand on. -/
lemma linesFrom_append {text : List Char} (htext : ∀ c ∈ text, IsVisible c)
    (line rest : List Char) :
    Text.linesFrom line (text ++ '\n' :: rest) =
      (line.reverse ++ text) :: Text.linesFrom [] rest := by
  induction text generalizing line with
  | nil => simp [Text.linesFrom, Text.isLineBreak]
  | cons c text ih =>
    obtain ⟨hc, htext⟩ := List.forall_mem_cons.mp htext
    have hbreak := isLineBreak_eq_false hc
    have hreturn : c ≠ '\r' := by
      rintro rfl
      exact absurd hbreak (by decide)
    rw [List.cons_append, Text.linesFrom.eq_3 _ _ _ (fun _ hfirst _ => hreturn hfirst),
      if_neg (by simp [hbreak]), ih htext]
    simp

/-- What is read line by line are the printed forms. -/
theorem lines_output (tracked : List String) :
    Text.lines (output tracked) = tracked.map printed := by
  have htext : (output tracked).toList =
      tracked.flatMap fun path => (printed path).toList ++ ['\n'] := by
    rw [output, String.toList_join, List.flatMap_map]
    simp
  have hlines : ∀ paths : List String,
      Text.linesFrom [] (paths.flatMap fun path => (printed path).toList ++ ['\n']) =
        paths.map fun path => (printed path).toList := by
    intro paths
    induction paths with
    | nil => rfl
    | cons path paths ih =>
      rw [List.flatMap_cons, List.append_assoc, List.singleton_append,
        linesFrom_append fun c hc => isVisible_of_mem_printed hc, ih]
      rfl
  rw [Text.lines, htext, hlines, List.map_map]
  exact List.map_congr_left fun path _ => String.ofList_toList

/-- Where the printed forms are the paths themselves, all paths are printed as they are: a path that
is not has a longer printed form, and that would be a path with a printed form longer yet. -/
theorem printed_mem_iff :
    (∀ path, path ∈ tracked.map printed ↔ path ∈ tracked) ↔ ∀ path ∈ tracked, Verbatim path := by
  constructor
  · intro hsame path hpath
    by_contra hquoted
    have hlonger : ∀ bound, ∃ other ∈ tracked, ¬ Verbatim other ∧ bound ≤ other.length := by
      intro bound
      induction bound with
      | zero => exact ⟨path, hpath, hquoted, Nat.zero_le _⟩
      | succ bound ih =>
        obtain ⟨other, hother, hnot, hbound⟩ := ih
        exact ⟨printed other, (hsame _).mp (List.mem_map_of_mem hother), not_verbatim_printed hnot,
          Nat.succ_le_of_lt (hbound.trans_lt (length_lt_length_printed hnot))⟩
    obtain ⟨other, hother, -, hbound⟩ := hlonger ((tracked.map String.length).sum + 1)
    have hlength := List.le_sum_of_mem (List.mem_map_of_mem (f := String.length) hother)
    omega
  · intro hall path
    have hmap : tracked.map printed = tracked :=
      (List.map_congr_left fun other hother => printed_of_verbatim (hall other hother)).trans
        (List.map_id' tracked)
    rw [hmap]

end Listing

/-! ## The listing of a directory -/

variable {workspace : Workspace} {directory : Path} {tracked : List String} {marker : FileTree}

lemma Workspace.listing?_eq_printed
    (hmarker : workspace.files.find { directory with parts := directory.parts ++ [".git"] } =
      .ok marker)
    (hanswer : workspace.answer directory.toString = .finished 0 (Listing.output tracked)) :
    workspace.listing? directory = .ok (some (tracked.map Listing.printed)) := by
  rw [Workspace.listing?, except_bind_eq_ok]
  refine ⟨some marker, by rw [FileSystem.find?, hmarker], ?_⟩
  dsimp only
  rw [hanswer]
  exact congrArg (fun listed => Except.ok (some listed)) (Listing.lines_output tracked)

/-! ## Searching by a listing -/

namespace Search

variable {name : String} {path : List String} {language : Language} {tracked : List String}
  {filters : Filters} {options : SearchOptions} {tree : FileTree}

/-- An ending that marks a language is not one of a quoted name. -/
lemma getLast?_ne_quote (hmarked : Path.suffixOf name ∈ language.extensions) :
    name.toList.getLast? ≠ some '"' := by
  have hextension : ∀ language ∈ Language.all, ∀ extension ∈ language.extensions,
      extension.toList ≠ [] ∧ extension.toList.getLast? ≠ some '"' := by
    decide
  obtain ⟨hsome, hquote⟩ := hextension language Language.mem_all _ hmarked
  intro hlast
  rw [← List.head?_reverse] at hlast
  obtain ⟨rest, hreversed⟩ := List.head?_eq_some_iff.mp hlast
  have hending : ('"' :: rest).takeWhile (· ≠ '.') = '"' :: rest.takeWhile (· ≠ '.') := by
    rw [List.takeWhile_cons, if_pos (by decide)]
  simp only [Path.suffixOf, hreversed, hending] at hsome hquote
  split at hsome
  · exact hsome rfl
  · rename_i hmark
    rw [if_neg hmark, String.toList_ofList, List.reverse_cons, ← List.cons_append,
      List.getLast?_concat] at hquote
    exact hquote rfl

/-- The text of a path ends as its last name does. -/
lemma getLast?_intercalate (hpath : path ≠ []) (hname : path.getLastD "" ≠ "") :
    ("/".intercalate path).toList.getLast? = (path.getLastD "").toList.getLast? := by
  obtain ⟨front, last, rfl⟩ := (List.eq_nil_or_concat' path).resolve_left hpath
  rw [List.getLastD_concat] at hname ⊢
  have hlast : last.toList ≠ [] := by simpa using hname
  by_cases hfront : front = []
  · simp [hfront]
  · rw [String.intercalate_append_of_ne_nil hfront (List.cons_ne_nil last []), String.toList_append,
      String.intercalate_singleton, List.getLast?_append_of_ne_nil _ hlast]

/-- A file of a language is listed where its path was printed as it is. -/
lemma mem_map_printed_iff (hcomes : ComesBy tree path)
    (hmarked : Path.suffixOf (path.getLastD "") ∈ language.extensions) :
    "/".intercalate path ∈ tracked.map Listing.printed ↔
      "/".intercalate path ∈ tracked ∧ Listing.Verbatim ("/".intercalate path) := by
  constructor
  · intro hlisted
    obtain ⟨original, horiginal, hprinted⟩ := List.mem_map.mp hlisted
    by_cases hverbatim : Listing.Verbatim original
    · rw [Listing.printed_of_verbatim hverbatim] at hprinted
      exact hprinted ▸ ⟨horiginal, hverbatim⟩
    · -- a quoted form ends in a quote, which no file of a language does
      have hname : path.getLastD "" ≠ "" := by
        intro hempty
        rw [hempty] at hmarked
        revert hmarked
        cases language <;> decide
      refine absurd ?_ (getLast?_ne_quote hmarked)
      rw [← getLast?_intercalate hcomes.below hname, ← hprinted,
        Listing.toList_printed_of_not_verbatim hverbatim, List.getLast?_concat]
  · rintro ⟨horiginal, hverbatim⟩
    exact List.mem_map.mpr ⟨_, horiginal, Listing.printed_of_verbatim hverbatim⟩

/-- So by the printed forms a search takes those of the files that it is to return by the paths. -/
lemma eligible_printed_iff (hlisting : filters.listing = some (tracked.map Listing.printed)) :
    Eligible filters options tree path language ↔
      Eligible { filters with listing := some tracked } options tree path language ∧
        Listing.Verbatim ("/".intercalate path) := by
  constructor
  · rintro ⟨hcomes, hmarked, hasked, hpass⟩
    have hlisted := (mem_map_printed_iff hcomes hmarked).mp (hpass.listed _ hlisting)
    refine ⟨⟨hcomes, hmarked, hasked, ⟨?_, fun hnone => absurd hnone (Option.some_ne_none _),
      hpass.included⟩⟩, hlisted.2⟩
    rintro listing ⟨⟩
    exact hlisted.1
  · rintro ⟨⟨hcomes, hmarked, hasked, hpass⟩, hverbatim⟩
    refine ⟨hcomes, hmarked, hasked, ⟨?_, fun hnone => ?_, hpass.included⟩⟩
    · intro listing hsome
      rw [← Option.some.inj (hlisting.symm.trans hsome)]
      exact (mem_map_printed_iff hcomes hmarked).mpr ⟨hpass.listed tracked rfl, hverbatim⟩
    · rw [hlisting] at hnone
      cases hnone

end Search

/-! ## What is read of a listing -/

/-- In a repository's top directory, of which version control prints the paths of some files, the
printed forms are read. They are the paths themselves where each of these was printed as it is and
only there. Of the files that a search is to return by the paths, it returns those whose path was
printed as it is. -/
theorem Workspace.listing?_output
    (hmarker : workspace.files.find { directory with parts := directory.parts ++ [".git"] } =
      .ok marker)
    (hanswer : workspace.answer directory.toString = .finished 0 (Listing.output tracked)) :
    ∃ listed, workspace.listing? directory = .ok (some listed) ∧
      (∀ path, path ∈ listed ↔ ∃ original ∈ tracked, Listing.printed original = path) ∧
      ((∀ path, path ∈ listed ↔ path ∈ tracked) ↔ ∀ path ∈ tracked, Listing.Verbatim path) ∧
      ∀ tree, workspace.files.root.WellFormed → workspace.files.find directory = .ok tree →
        ∀ options found, Search.searchDirectory workspace options directory tree = .ok found →
          ∃ filters : Search.Filters, filters.AreOf workspace options directory ∧
            ∀ path language, (path, language) ∈ found ↔
              Search.Eligible { filters with listing := some tracked } options tree path language ∧
                Listing.Verbatim ("/".intercalate path) := by
  have hlisting := Workspace.listing?_eq_printed hmarker hanswer
  refine ⟨_, hlisting, fun path => List.mem_map, Listing.printed_mem_iff, ?_⟩
  intro tree hfiles htree options found hfound
  obtain ⟨filters, hread, rfl⟩ := Search.searchDirectory_eq_ok_iff.mp hfound
  have hfilters := Search.areOf_of_readFilters hread
  have hprinted : filters.listing = some (tracked.map Listing.printed) :=
    Except.ok.inj (hfilters.listing.symm.trans hlisting)
  refine ⟨filters, hfilters, fun path language => ?_⟩
  rw [List.mem_mergeSort,
    Search.mem_filterMap_taken?_iff (FileSystem.wellFormed_of_find hfiles htree),
    Search.eligible_printed_iff hprinted]

/-! ## A name with an accent -/

/-- The top directory of a repository with two files, one of a name with an accent. Version control
prints both. -/
def accentedProject : Workspace :=
  { files :=
      { root := .directory
          [(".git", .directory []), ("a.py", .file []), ("é.py", .file [])]
        workingDirectory := [] }
    answer := fun _ => .finished 0 (Listing.output ["a.py", "é.py"]) }

/-- The working directory. -/
def accentedDirectory : Path := { anchor := .relative, parts := [] }

lemma find_accented :
    accentedProject.files.find accentedDirectory = .ok accentedProject.files.root ∧
      accentedProject.files.find
        { accentedDirectory with parts := accentedDirectory.parts ++ [".git"] } =
          .ok (.directory []) := by
  have hshort : ¬ FileSystem.nameLimit < ".git".utf8ByteSize := by decide +kernel
  simp [FileSystem.find, accentedProject, accentedDirectory, FileSystem.walk, FileTree.entry?,
    hshort]

lemma printed_accented :
    ["a.py", "é.py"].map Listing.printed = ["a.py", "\"\\303\\251.py\""] := by
  decide +kernel

lemma listing?_accented : accentedProject.listing? accentedDirectory =
    .ok (some ["a.py", "\"\\303\\251.py\""]) := by
  rw [Workspace.listing?_eq_printed find_accented.2 rfl, printed_accented]

/-- What is read is not the set of the two paths. -/
theorem not_listing?_output : ∃ listed,
    accentedProject.listing? accentedDirectory = .ok (some listed) ∧
      ¬ ∀ path, path ∈ listed ↔ path ∈ ["a.py", "é.py"] := by
  refine ⟨_, listing?_accented, fun hsame => ?_⟩
  have hlisted := (hsame "é.py").mpr (by simp)
  revert hlisted
  decide +kernel

lemma searchDirectory_accented :
    Search.searchDirectory accentedProject { exclude := [], language := none } accentedDirectory
      accentedProject.files.root = .ok [(["a.py"], .python)] := by
  set filters : Search.Filters :=
    { listing := some ["a.py", "\"\\303\\251.py\""], ignored := .none, excluded := .none }
  have hread : Search.readFilters accentedProject { exclude := [], language := none }
      accentedDirectory = .ok filters := by
    rw [Search.readFilters, listing?_accented]
    rfl
  have htaken : (Search.filesBelow [] accentedProject.files.root).filterMap
      (Search.taken? filters { exclude := [], language := none }) = [(["a.py"], .python)] := by
    decide +kernel
  refine Search.searchDirectory_eq_ok_iff.mpr ⟨filters, hread, ?_⟩
  rw [htaken, List.mergeSort_singleton]

/-- The file of the plain name is found, and the other one would be if its path were listed. -/
theorem listing?_output_accented : ∃ listed,
    accentedProject.listing? accentedDirectory = .ok (some listed) ∧
      "a.py" ∈ listed ∧ "é.py" ∉ listed ∧
      ∃ filters : Search.Filters,
        filters.AreOf accentedProject { exclude := [], language := none } accentedDirectory ∧
        ∀ path language, (path, language) ∈ [(["a.py"], Language.python)] ↔
          Search.Eligible { filters with listing := some ["a.py", "é.py"] }
            { exclude := [], language := none } accentedProject.files.root path language ∧
            Listing.Verbatim ("/".intercalate path) := by
  have hfiles : accentedProject.files.root.WellFormed := by
    simp [accentedProject, FileTree.wellFormed_directory_iff, FileTree.WellFormed.file]
  obtain ⟨listed, hlisting, hlisted, -, hsearch⟩ := Workspace.listing?_output find_accented.2 rfl
  refine ⟨listed, hlisting, (hlisted _).mpr ⟨"a.py", by decide, by decide +kernel⟩, ?_,
    hsearch _ hfiles find_accented.1 _ _ searchDirectory_accented⟩
  rw [← Option.some.inj (Except.ok.inj (listing?_accented.symm.trans hlisting))]
  decide +kernel

end ImportRank
