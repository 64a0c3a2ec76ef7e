import ImportRank.Proofs.Path.Directory
import Mathlib.Logic.Function.Iterate

/-!
# Going up and down

A path in normal form goes up first and then down by names. Steps up that are joined to it take
names back, as going to the parent does, until none is left. From there they are steps above a
relative start, where going to the parent takes the path's own steps up back. Names that are joined
to a path in normal form need no normalization. Main statements: `normalize_join_climbs`,
`not_within_join_climbs` and `key_names`.
-/

namespace ImportRank.Path

variable {path directory : Path} {name : String} {names : List String} {anchor : Anchor}
  {climbs count : ℕ}

/-! ## Paths in normal form -/

/-- The path that goes up some steps and then down by names. -/
def rising (anchor : Anchor) (climbs : ℕ) (names : List String) : Path :=
  { anchor, parts := List.replicate climbs ".." ++ names }

/-- A path in normal form goes up first, and only where it is relative. -/
lemma exists_rising (hnormal : path.normalize = path) : ∃ climbs names,
    Descended path.anchor names climbs ∧ path = rising path.anchor climbs names := by
  obtain ⟨names, climbs, hform, hparts⟩ := exists_parts_normalize path
  rw [hnormal] at hparts
  refine ⟨climbs, names.reverse, ⟨by simpa using hform.up_notMem, hform.climbs_eq_zero⟩, ?_⟩
  rw [rising, ← hparts]

lemma iterate_parent (count : ℕ) (path : Path) :
    parent^[count] path = { path with parts := path.parts.take (path.parts.length - count) } := by
  induction count with
  | zero => simp
  | succ count ih =>
    have hlength : min (min (path.parts.length - count) path.parts.length - 1)
        (path.parts.length - count) = path.parts.length - (count + 1) := by omega
    rw [Function.iterate_succ_apply', ih, parent]
    simp only [List.dropLast_eq_take, List.take_take, List.length_take, hlength]

/-- Going to the parent takes names back, and then steps up. -/
lemma iterate_parent_rising (climbs count : ℕ) (names : List String) :
    parent^[count] (rising anchor climbs names) =
      rising anchor (climbs - (count - names.length)) (names.take (names.length - count)) := by
  have hclimbs : min (climbs + names.length - count) climbs = climbs - (count - names.length) := by
    omega
  have hnames : climbs + names.length - count - climbs = names.length - count := by omega
  rw [iterate_parent, rising, rising, List.length_append, List.length_replicate, List.take_append,
    List.take_replicate, List.length_replicate, hclimbs, hnames]

/-- From a relative start, steps up take names back and are then steps above the start. -/
lemma foldl_descend_climbs_relative (hnames : ".." ∉ names) (climbs count : ℕ) :
    (List.replicate count "..").foldl (descend .relative) (names ++ List.replicate climbs "..") =
      names.drop count ++ List.replicate (climbs + (count - names.length)) ".." := by
  induction count generalizing names climbs with
  | zero => simp
  | succ count ih =>
    rw [List.replicate_succ, List.foldl_cons]
    cases names with
    | nil =>
      -- no name is left, so the step up stays as one more above the start
      have hup : descend .relative (List.replicate climbs "..") ".." =
          List.replicate (climbs + 1) ".." := by
        cases climbs <;> simp [descend, List.replicate_succ]
      have hrest := ih List.not_mem_nil (climbs + 1)
      rw [List.nil_append] at hrest ⊢
      rw [hup, hrest]
      simp
      omega
    | cons last names =>
      rw [List.mem_cons, not_or] at hnames
      have hback : descend .relative (last :: names ++ List.replicate climbs "..") ".." =
          names ++ List.replicate climbs ".." := by
        simp [descend, Ne.symm hnames.1]
      rw [hback, ih hnames.2]
      simp

lemma Descended.foldl_descend (hform : Descended anchor names climbs) :
    (List.replicate climbs ".." ++ names).foldl (Path.descend anchor) [] =
      names.reverse ++ List.replicate climbs ".." := by
  have hclimbs : (List.replicate climbs "..").foldl (Path.descend anchor) [] =
      List.replicate climbs ".." := by
    by_cases hanchor : anchor = .relative
    · subst hanchor
      simpa using foldl_descend_climbs_relative List.not_mem_nil 0 climbs
    · rw [hform.climbs_eq_zero hanchor]
      rfl
  rw [List.foldl_append, hclimbs, foldl_descend_names hform.up_notMem]

/-- A normalized path is in normal form. -/
lemma normalize_normalize (path : Path) : path.normalize.normalize = path.normalize := by
  obtain ⟨names, climbs, hform, hparts⟩ := exists_parts_normalize path
  have hpath : path.normalize = rising path.anchor climbs names.reverse := by
    rw [rising, ← hparts]
    rfl
  have hform' : Descended path.anchor names.reverse climbs :=
    ⟨by simpa using hform.up_notMem, hform.climbs_eq_zero⟩
  rw [hpath, normalize, rising, hform'.foldl_descend]
  simp

/-- And its text is a normal text. -/
lemma isNormal_toString_normalize (hparts : ∀ part ∈ path.parts, IsComponent part) :
    IsNormal path.normalize.toString := by
  rw [IsNormal, ofString_toString fun part hpart => hparts part (mem_parts_of_mem_normalize hpart),
    normalize_normalize]

/-- What is joined to a path in normal form goes on from there. -/
lemma Descended.normalize_join (hform : Descended anchor names climbs) (parts : List String) :
    ((rising anchor climbs names).join { anchor := .relative, parts }).normalize =
      { anchor
        parts := (parts.foldl (Path.descend anchor)
          (names.reverse ++ List.replicate climbs "..")).reverse } := by
  rw [join, if_pos rfl, normalize, rising, List.foldl_append, hform.foldl_descend]

/-- Names are not touched by normalization. -/
lemma normalize_append_names (path : Path) (hnames : ".." ∉ names) :
    normalize { path with parts := path.parts ++ names } =
      { path.normalize with parts := path.normalize.parts ++ names } := by
  simp [normalize, foldl_descend_names hnames]

lemma normalize_iterate_parent (hnormal : path.normalize = path) (count : ℕ) :
    (parent^[count] path).normalize = parent^[count] path := by
  obtain ⟨climbs, names, hform, hpath⟩ := exists_rising hnormal
  rw [hpath, iterate_parent_rising]
  have hfewer : Descended path.anchor (names.take (names.length - count))
      (climbs - (count - names.length)) := by
    refine ⟨fun hup => hform.up_notMem (List.mem_of_mem_take hup), fun hanchor => ?_⟩
    rw [hform.climbs_eq_zero hanchor, Nat.zero_sub]
  rw [normalize, rising, hfewer.foldl_descend]
  simp

/-! ## Climbing -/

/-- The number of names in a path. -/
def depth (path : Path) : ℕ := (path.parts.filter (· ≠ "..")).length

lemma Descended.depth_rising (hform : Descended anchor names climbs) :
    (rising anchor climbs names).depth = names.length := by
  have hnames : names.filter (· ≠ "..") = names := by
    rw [List.filter_eq_self]
    intro name hname
    have hne : name ≠ ".." := fun hup => hform.up_notMem (hup ▸ hname)
    simpa using hne
  rw [depth, rising, List.filter_append, hnames]
  simp

/-- While there are names to take back, and always below the root, steps up lead where going to the
parent does. -/
theorem normalize_join_climbs (hnormal : directory.normalize = directory)
    (hcount : directory.anchor = .relative → count ≤ directory.depth) :
    (directory.join { anchor := .relative, parts := List.replicate count ".." }).normalize =
      parent^[count] directory := by
  obtain ⟨climbs, names, hform, hpath⟩ := exists_rising hnormal
  rw [hpath, hform.depth_rising] at hcount
  have hreverse : ".." ∉ names.reverse := by simpa using hform.up_notMem
  have htake : (names.reverse.drop count).reverse = names.take (names.length - count) := by
    rw [List.reverse_drop]
    simp
  rw [hpath, iterate_parent_rising, hform.normalize_join]
  by_cases hanchor : directory.anchor = .relative
  · have hzero : count - names.length = 0 := Nat.sub_eq_zero_of_le (hcount hanchor)
    rw [hanchor, foldl_descend_climbs_relative hreverse, List.reverse_append,
      List.reverse_replicate, htake, List.length_reverse, hzero]
    rfl
  · rw [hform.climbs_eq_zero hanchor, List.replicate_zero, List.append_nil,
      foldl_descend_climbs hanchor hreverse, htake, Nat.zero_sub]
    rfl

/-- A path goes on from a directory by names alone. -/
def Within (directory path : Path) : Prop :=
  path.anchor = directory.anchor ∧
    ∃ names, names ≠ [] ∧ ".." ∉ names ∧ path.parts = directory.parts ++ names

/-- The number of steps up tells paths apart that go on by names from one start or from another. -/
lemma eq_of_within_rising {other : ℕ} (hpath : Within (rising anchor climbs []) path)
    (hother : Within (rising anchor other []) path) : climbs = other := by
  obtain ⟨_, names, _, hnames, hparts⟩ := hpath
  obtain ⟨_, others, _, hothers, hparts'⟩ := hother
  have hcount : ∀ (steps : ℕ) (rest : List String), ".." ∉ rest →
      ((rising anchor steps []).parts ++ rest).count ".." = steps := by
    intro steps rest hrest
    simp [rising, List.count_append, List.count_eq_zero_of_not_mem hrest]
  rw [← hcount climbs names hnames, ← hparts, hparts', hcount other others hothers]

/-- Past all names of a relative directory, steps up lead above where going to the parent does:
nothing is below both. -/
theorem not_within_join_climbs (hnormal : directory.normalize = directory)
    (hanchor : directory.anchor = .relative) (hcount : directory.depth < count)
    (hwithin : Within (parent^[count] directory) path) :
    ¬ Within (directory.join
      { anchor := .relative, parts := List.replicate count ".." }).normalize path := by
  obtain ⟨climbs, names, hform, hpath⟩ := exists_rising hnormal
  rw [hanchor] at hform hpath
  rw [hpath, hform.depth_rising] at hcount
  have hreverse : ".." ∉ names.reverse := by simpa using hform.up_notMem
  have hjoin : ((rising .relative climbs names).join
        { anchor := .relative, parts := List.replicate count ".." }).normalize =
      rising .relative (climbs + (count - names.length)) [] := by
    rw [hform.normalize_join, foldl_descend_climbs_relative hreverse,
      List.drop_eq_nil_of_le (by simpa using hcount.le), List.length_reverse, List.nil_append,
      List.reverse_replicate, rising, List.append_nil]
  -- as many parents use the names up too, but then take steps of the path back
  have hnone : names.length - count = 0 := Nat.sub_eq_zero_of_le hcount.le
  rw [hpath, iterate_parent_rising, hnone, List.take_zero] at hwithin
  rw [hpath, hjoin]
  intro habove
  have hsame := eq_of_within_rising hwithin habove
  omega

/-! ## Names below a directory -/

/-- A component that leads one step down. -/
structure IsPlain (part : String) : Prop extends IsComponent part where
  ne_up : part ≠ ".."

/-- Words without dots and slashes are such components, among them all identifiers. -/
lemma isPlain_of_dot_notMem (hempty : name ≠ "") (hdot : '.' ∉ name.toList)
    (hslash : '/' ∉ name.toList) : IsPlain name := by
  have hother : ∀ text : String, '.' ∈ text.toList → name ≠ text := fun text htext hsame =>
    hdot (hsame ▸ htext)
  exact ⟨⟨hempty, hother "." (by decide), hslash⟩, hother ".." (by decide)⟩

lemma ofString_component (hname : IsComponent name) :
    ofString name = { anchor := .relative, parts := [name] } := by
  have hpath := @ofString_toString { anchor := .relative, parts := [name] }
    (List.forall_mem_singleton.mpr hname)
  rw [toString_eq_bareText (List.cons_ne_nil _ _), bareText, String.intercalate_singleton] at hpath
  simpa [anchorText] using hpath

lemma foldl_join_names (directory : Path) (hnames : ∀ part ∈ names, IsComponent part) :
    names.foldl (fun path part => path.join (ofString part)) directory =
      { directory with parts := directory.parts ++ names } := by
  induction names generalizing directory with
  | nil => simp
  | cons name names ih =>
    rw [List.forall_mem_cons] at hnames
    rw [List.foldl_cons, ofString_component hnames.1, ih _ hnames.2, join, if_pos rfl]
    simp

/-- The key of names below a directory in normal form: normalization has nothing to do. -/
theorem key_names (hnormal : directory.normalize = directory)
    (hparts : ∀ part ∈ directory.parts, IsComponent part) (hnames : ∀ part ∈ names, IsPlain part) :
    key directory.toString names =
      toString { directory with parts := directory.parts ++ names } := by
  have hdown : ".." ∉ names := fun hup => (hnames _ hup).ne_up rfl
  have hdirectory : (directory.parts.foldl (descend directory.anchor) []).reverse =
      directory.parts := congrArg Path.parts hnormal
  rw [key, ofString_toString hparts,
    foldl_join_names _ fun part hpart => (hnames part hpart).toIsComponent, normalize]
  simp only [List.foldl_append, foldl_descend_names hdown, List.reverse_append,
    List.reverse_reverse, hdirectory]

end ImportRank.Path
