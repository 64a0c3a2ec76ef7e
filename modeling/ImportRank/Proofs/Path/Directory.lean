import ImportRank.Proofs.Path.Normal
import Mathlib.Data.List.DropRight

/-!
# Directories and what is in them

The text of a path with a last name is what stands before the name, then the name. So cutting the
text before the name gives the directory the path is in, but for the working directory: its text is
cut to nothing, and what is cut again stays nothing. Main statement: `directoryText_toString`.
-/

namespace ImportRank.Path

variable {path : Path}

/-! ## Names in a directory -/

/-- The path of a name in a directory. -/
def child (directory : Path) (name : String) : Path :=
  { directory with parts := directory.parts ++ [name] }

/-- The text of a path, but none for the working directory. -/
def bareText (path : Path) : String := anchorText path.anchor ++ "/".intercalate path.parts

/-- What stands before a name in the text of its path. -/
def leadText (directory : Path) : String :=
  if directory.parts = [] then anchorText directory.anchor else directory.bareText ++ "/"

lemma parent_child (directory : Path) (name : String) :
    (directory.child name).parent = directory := by
  simp [parent, child]

lemma exists_child (hparts : path.parts ≠ []) :
    ∃ name ∈ path.parts, path = path.parent.child name := by
  refine ⟨path.parts.getLast hparts, List.getLast_mem hparts, ?_⟩
  simp only [child, parent, List.dropLast_concat_getLast]

lemma toString_eq_bareText (hparts : path.parts ≠ []) : path.toString = path.bareText := by
  simp [toString, bareText, hparts]

lemma bareText_child (directory : Path) (name : String) :
    (directory.child name).bareText = directory.leadText ++ name := by
  rw [leadText]
  split
  · rename_i hparts
    simp [bareText, child, hparts]
  · rename_i hparts
    have hnames := String.intercalate_append_of_ne_nil (s := "/") hparts (List.cons_ne_nil name [])
    simp [bareText, child, hnames, String.append_assoc]

lemma toString_child (directory : Path) (name : String) :
    (directory.child name).toString = directory.leadText ++ name := by
  rw [toString_eq_bareText (by simp [child]), bareText_child]

/-- An ending put after the text of a path is one of its last name. -/
lemma toString_child_append (directory : Path) (name ending : String) :
    (directory.child name).toString ++ ending = (directory.child (name ++ ending)).toString := by
  rw [toString_child, toString_child, String.append_assoc]

/-! ## The text of the directory -/

lemma bareText_eq_empty_iff (hparts : ∀ part ∈ path.parts, IsComponent part) :
    path.bareText = "" ↔ path.anchor = .relative ∧ path.parts = [] := by
  constructor
  · intro hempty
    by_cases hnil : path.parts = []
    · refine ⟨?_, hnil⟩
      rw [bareText, hnil] at hempty
      cases hanchor : path.anchor with
      | relative => rfl
      | root | doubleRoot =>
        rw [hanchor] at hempty
        exact absurd hempty (by decide)
    · obtain ⟨name, hname, hchild⟩ := exists_child hnil
      rw [hchild, bareText_child, String.append_eq_empty_iff] at hempty
      exact absurd hempty.2 (hparts name hname).ne_empty
  · rintro ⟨hanchor, hnil⟩
    rw [bareText, hanchor, hnil]
    rfl

lemma toString_eq (hparts : ∀ part ∈ path.parts, IsComponent part) :
    path.toString = if path.bareText = "" then "." else path.bareText := by
  simp only [bareText_eq_empty_iff hparts]
  rfl

lemma directoryText_eq (text : String) :
    directoryText text =
      let head := text.toList.rdropWhile (· ≠ '/')
      let trimmed := head.rdropWhile (· == '/')
      String.ofList (if trimmed = [] then head else trimmed) := by
  simp only [directoryText, List.rdropWhile, List.reverse_reverse, List.reverse_eq_nil_iff]
  split <;> rfl

lemma rdropWhile_append_of_slash_notMem {last : List Char} (hlast : '/' ∉ last)
    (front : List Char) :
    (front ++ last).rdropWhile (· ≠ '/') = front.rdropWhile (· ≠ '/') := by
  rw [List.rdropWhile, List.rdropWhile, List.reverse_append, List.dropWhile_append_of_pos]
  intro c hc
  have hne : c ≠ '/' := fun hslash => hlast (hslash ▸ List.mem_reverse.mp hc)
  simpa using hne

/-- No slash ends the text of a path that has components. -/
lemma rdropWhile_bareText (hparts : ∀ part ∈ path.parts, IsComponent part)
    (hnil : path.parts ≠ []) :
    path.bareText.toList.rdropWhile (· == '/') = path.bareText.toList := by
  obtain ⟨name, hname, hchild⟩ := exists_child hnil
  have hne : name.toList ≠ [] := by simpa using (hparts name hname).ne_empty
  -- the last character is that of the last name
  rw [hchild, bareText_child, String.toList_append, List.rdropWhile_eq_self_iff]
  intro htext
  rw [List.getLast_append_of_ne_nil htext hne, beq_iff_eq]
  exact fun hslash => (hparts name hname).slash_notMem (hslash ▸ List.getLast_mem hne)

/-- The text of a path, cut before its last name, is that of the directory it is in. -/
lemma directoryText_bareText (hparts : ∀ part ∈ path.parts, IsComponent part) :
    directoryText path.bareText = path.parent.bareText := by
  by_cases hnil : path.parts = []
  · obtain ⟨anchor, parts⟩ := path
    obtain rfl : parts = [] := hnil
    cases anchor <;> rfl
  obtain ⟨name, hname, hchild⟩ := exists_child hnil
  have hslash := (hparts name hname).slash_notMem
  have hdirectory : ∀ part ∈ path.parent.parts, IsComponent part := fun part hpart =>
    hparts part (List.dropLast_subset _ hpart)
  rw [hchild, parent_child, bareText_child, directoryText_eq, String.toList_append]
  simp only [rdropWhile_append_of_slash_notMem hslash]
  rw [leadText]
  split
  · -- the name stands in the working directory or at the root, whose slashes are kept
    rename_i hroot
    rw [bareText, hroot]
    cases path.parent.anchor <;> rfl
  · -- one slash stands before the name, and none before that slash
    rename_i hinner
    have hnonempty : path.parent.bareText.toList ≠ [] := by
      simpa [bareText_eq_empty_iff hdirectory] using fun _ => hinner
    have hcut : (path.parent.bareText ++ "/").toList = path.parent.bareText.toList ++ ['/'] := by
      rw [String.toList_append]
      rfl
    rw [hcut, List.rdropWhile_concat_neg _ _ _ (by simp),
      List.rdropWhile_concat_pos _ _ _ (by simp), rdropWhile_bareText hdirectory hinner,
      if_neg hnonempty, String.ofList_toList]

theorem directoryText_toString (hparts : ∀ part ∈ path.parts, IsComponent part) :
    directoryText path.toString = path.parent.bareText := by
  rw [toString_eq hparts]
  split
  · -- the working directory is in itself
    rename_i hempty
    obtain ⟨anchor, parts⟩ := path
    obtain ⟨rfl, rfl⟩ : anchor = .relative ∧ parts = [] := (bareText_eq_empty_iff hparts).mp hempty
    rfl
  · exact directoryText_bareText hparts

end ImportRank.Path
