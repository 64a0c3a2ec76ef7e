import ImportRank.Path
import Mathlib.Data.List.Basic
import Mathlib.Data.Nat.Notation
import Mathlib.Tactic.Lemma

/-!
# Normal paths

A path is read back from its own text, whatever its components are, as long as they are ones that a
text can have. In a normalized path every `..` stands before all names, and there is none unless the
path is relative. So a text that is its own normalization has a path of that form.
-/

namespace ImportRank.Path

variable {separator : Char} {text : List Char} {part : String} {parts : List String} {path : Path}

/-! ## Pieces -/

lemma pieces_eq_splitOn (separator : Char) (text : List Char) :
    pieces separator text = text.splitOn separator := by
  induction text with
  | nil => rw [List.splitOn_nil, pieces]
  | cons c text ih =>
    rw [List.splitOn_cons_eq_if_modifyHead, pieces, ih]
    cases hrest : text.splitOn separator with
    | nil => exact absurd hrest (List.splitOn_ne_nil _ _)
    | cons piece others => simp

lemma separator_notMem_of_mem_pieces {piece : List Char} (hpiece : piece ∈ pieces separator text) :
    separator ∉ piece := by
  induction text generalizing piece with
  | nil =>
    obtain rfl : piece = [] := by simpa [pieces] using hpiece
    exact List.not_mem_nil
  | cons c text ih =>
    rw [pieces] at hpiece
    split at hpiece
    · rename_i hnone
      rw [pieces_eq_splitOn] at hnone
      exact absurd hnone (List.splitOn_ne_nil _ _)
    · rename_i first others hsome
      rw [hsome] at ih
      split at hpiece
      · rcases List.mem_cons.mp hpiece with rfl | hmem
        · exact List.not_mem_nil
        · exact ih hmem
      · rename_i hc
        rcases List.mem_cons.mp hpiece with rfl | hmem
        · rw [List.mem_cons, not_or]
          exact ⟨Ne.symm hc, ih List.mem_cons_self⟩
        · exact ih (List.mem_cons_of_mem _ hmem)

/-! ## Components -/

/-- A component that a path text can have. -/
structure IsComponent (part : String) : Prop where
  ne_empty : part ≠ ""
  ne_dot : part ≠ "."
  slash_notMem : '/' ∉ part.toList

lemma isComponent_of_mem_components (hpart : part ∈ components text) : IsComponent part := by
  obtain ⟨piece, hpiece, rfl⟩ := List.mem_map.mp hpart
  obtain ⟨hpiece, hkept⟩ := List.mem_filter.mp hpiece
  have hkept : piece ≠ [] ∧ piece ≠ ['.'] := by simpa using hkept
  refine ⟨fun hempty => hkept.1 ?_, fun hdot => hkept.2 ?_, ?_⟩
  · simpa using congrArg String.toList hempty
  · simpa using congrArg String.toList hdot
  · rw [String.toList_ofList]
    exact separator_notMem_of_mem_pieces hpiece

lemma components_append_slash (front rest : List Char) :
    components (front ++ '/' :: rest) = components front ++ components rest := by
  simp only [components, pieces_eq_splitOn, List.splitOn_append_cons_self, List.filter_append,
    List.map_append]

lemma components_cons_slash (text : List Char) : components ('/' :: text) = components text :=
  components_append_slash [] text

/-- Components that are put together with slashes are the components of what they make. -/
lemma components_intercalate (hparts : ∀ part ∈ parts, IsComponent part) :
    components ("/".intercalate parts).toList = parts := by
  by_cases hnil : parts = []
  · subst hnil
    rfl
  have hslash : ∀ piece ∈ parts.map String.toList, '/' ∉ piece := by
    intro piece hpiece
    obtain ⟨part, hpart, rfl⟩ := List.mem_map.mp hpiece
    exact (hparts part hpart).slash_notMem
  have hpieces : pieces '/' ("/".intercalate parts).toList = parts.map String.toList := by
    rw [String.toList_intercalate, pieces_eq_splitOn]
    exact List.splitOn_intercalate '/' hslash (by simpa using hnil)
  rw [components, hpieces, List.filter_eq_self.mpr, List.map_map]
  · exact List.map_id'' (fun _ => String.ofList_toList) parts
  · intro piece hpiece
    obtain ⟨part, hpart, rfl⟩ := List.mem_map.mp hpiece
    have hdot : part.toList ≠ ['.'] := fun hsame => (hparts part hpart).ne_dot (by
      rw [← String.ofList_toList (s := part), hsame])
    simpa [(hparts part hpart).ne_empty] using hdot

/-! ## Texts of paths -/

lemma head?_intercalate_ne_slash (hparts : ∀ part ∈ parts, IsComponent part) :
    ("/".intercalate parts).toList.head? ≠ some '/' := by
  cases parts with
  | nil => simp
  | cons part rest =>
    intro hhead
    have hpart := hparts part List.mem_cons_self
    have hfirst : part.toList.head? = some '/' := by
      have hne : part.toList ≠ [] := by simpa using hpart.ne_empty
      obtain ⟨c, others, hchars⟩ := List.exists_cons_of_ne_nil hne
      rw [String.toList_intercalate] at hhead
      cases rest with
      | nil => simpa [hchars] using hhead
      | cons next rest =>
        simpa [hchars, List.intercalate_cons_cons] using hhead
    exact hpart.slash_notMem (List.mem_of_mem_head? hfirst)

/-- The start of a text shows in the slashes before its first component. -/
lemma anchorOf_append (anchor : Anchor) {text : List Char} (hhead : text.head? ≠ some '/') :
    anchorOf ((anchorText anchor).toList ++ text) = anchor := by
  cases text with
  | nil => cases anchor <;> rfl
  | cons c text =>
    have hc : c ≠ '/' := by simpa using hhead
    cases anchor <;> simp [anchorText, anchorOf, hc]

lemma components_append (anchor : Anchor) (text : List Char) :
    components ((anchorText anchor).toList ++ text) = components text := by
  cases anchor
  · rfl
  · exact components_cons_slash text
  · exact (components_cons_slash _).trans (components_cons_slash text)

/-- A path is read back from its text. -/
theorem ofString_toString (hparts : ∀ part ∈ path.parts, IsComponent part) :
    ofString path.toString = path := by
  obtain ⟨anchor, parts⟩ := path
  rw [toString]
  split
  · rename_i hhere
    obtain ⟨rfl, rfl⟩ := hhere
    rfl
  · have hhead := head?_intercalate_ne_slash hparts
    rw [ofString, String.toList_append, anchorOf_append anchor hhead, components_append,
      components_intercalate hparts]

/-! ## Normalization -/

/-- The components of a path in normal form, last one first: names over steps up, and steps up
only where the path is relative. -/
structure Descended (anchor : Anchor) (names : List String) (climbs : ℕ) : Prop where
  up_notMem : ".." ∉ names
  climbs_eq_zero : anchor ≠ .relative → climbs = 0

/-- One step of normalization keeps the form. -/
lemma Descended.descend {anchor : Anchor} {names : List String} {climbs : ℕ}
    (hform : Descended anchor names climbs) (part : String) :
    ∃ more steps, Descended anchor more steps ∧
      Path.descend anchor (names ++ List.replicate climbs "..") part =
        more ++ List.replicate steps ".." := by
  unfold Path.descend
  split
  · rename_i hup
    subst hup
    cases names with
    | cons last names =>
      -- the step up takes the last name back
      have hlast : last ≠ ".." := fun hsame => hform.up_notMem (hsame ▸ List.mem_cons_self)
      have hnames : ".." ∉ names := fun hmem => hform.up_notMem (List.mem_cons_of_mem _ hmem)
      exact ⟨names, climbs, ⟨hnames, hform.climbs_eq_zero⟩, by simp [hlast]⟩
    | nil =>
      cases climbs with
      | zero =>
        by_cases hrelative : anchor = .relative
        · exact ⟨[], 1, ⟨List.not_mem_nil, fun hother => absurd hrelative hother⟩, by
            simp [hrelative]⟩
        · exact ⟨[], 0, hform, by simp [hrelative]⟩
      | succ climbs =>
        have hrelative : anchor = .relative := by
          by_contra hother
          exact absurd (hform.climbs_eq_zero hother) (by simp)
        refine ⟨[], climbs + 2, ⟨List.not_mem_nil, fun hother => absurd hrelative hother⟩, ?_⟩
        simp [List.replicate_succ]
  · rename_i hname
    refine ⟨part :: names, climbs, ⟨?_, hform.climbs_eq_zero⟩, rfl⟩
    rw [List.mem_cons, not_or]
    exact ⟨Ne.symm hname, hform.up_notMem⟩

/-- In a normalized path, all steps up come first. -/
theorem exists_parts_normalize (path : Path) : ∃ names climbs,
    Descended path.anchor names climbs ∧
      path.normalize.parts = List.replicate climbs ".." ++ names.reverse := by
  have hfold : ∀ (parts names : List String) (climbs : ℕ), Descended path.anchor names climbs →
      ∃ more steps, Descended path.anchor more steps ∧
        parts.foldl (descend path.anchor) (names ++ List.replicate climbs "..") =
          more ++ List.replicate steps ".." := by
    intro parts
    induction parts with
    | nil => exact fun names climbs hform => ⟨names, climbs, hform, rfl⟩
    | cons part parts ih =>
      intro names climbs hform
      obtain ⟨more, steps, hform', hstep⟩ := hform.descend part
      obtain ⟨last, count, hlast, hrest⟩ := ih more steps hform'
      exact ⟨last, count, hlast, by rw [List.foldl_cons, hstep, hrest]⟩
  obtain ⟨names, climbs, hform, hparts⟩ :=
    hfold path.parts [] 0 ⟨List.not_mem_nil, fun _ => rfl⟩
  refine ⟨names, climbs, hform, ?_⟩
  have hparts : path.parts.foldl (descend path.anchor) [] =
      names ++ List.replicate climbs ".." := hparts
  rw [normalize, hparts, List.reverse_append, List.reverse_replicate]

lemma mem_or_eq_of_mem_descend {anchor : Anchor} {above : List String} {next : String}
    (hpart : part ∈ descend anchor above next) : part ∈ above ∨ part = next := by
  unfold descend at hpart
  split at hpart
  · cases above with
    | nil => grind
    | cons last others => grind
  · rcases List.mem_cons.mp hpart with hnext | habove
    · exact Or.inr hnext
    · exact Or.inl habove

/-- Normalization makes up no components. -/
lemma mem_parts_of_mem_normalize (hpart : part ∈ path.normalize.parts) : part ∈ path.parts := by
  have hfold : ∀ (parts above : List String), part ∈ parts.foldl (descend path.anchor) above →
      part ∈ above ∨ part ∈ parts := by
    intro parts
    induction parts with
    | nil => exact fun above hmem => Or.inl hmem
    | cons next parts ih =>
      intro above hmem
      rcases ih _ hmem with hstep | hrest
      · rcases mem_or_eq_of_mem_descend hstep with habove | rfl
        · exact Or.inl habove
        · exact Or.inr List.mem_cons_self
      · exact Or.inr (List.mem_cons_of_mem _ hrest)
  have hreverse : part ∈ path.parts.foldl (descend path.anchor) [] := List.mem_reverse.mp hpart
  exact (hfold _ _ hreverse).resolve_left List.not_mem_nil

lemma descend_of_ne {anchor : Anchor} (hname : part ≠ "..") (above : List String) :
    descend anchor above part = part :: above :=
  if_neg hname

/-- Names go on top of what there is. -/
lemma foldl_descend_names {anchor : Anchor} {names : List String} (hnames : ".." ∉ names)
    (above : List String) : names.foldl (descend anchor) above = names.reverse ++ above := by
  induction names generalizing above with
  | nil => rfl
  | cons name names ih =>
    rw [List.mem_cons, not_or] at hnames
    rw [List.foldl_cons, ih hnames.2, descend_of_ne (Ne.symm hnames.1), List.reverse_cons,
      List.append_assoc, List.singleton_append]

/-- Steps up from below the root take names back, down to the root. -/
lemma foldl_descend_climbs {anchor : Anchor} (hanchor : anchor ≠ .relative) {above : List String}
    (habove : ".." ∉ above) (climbs : ℕ) :
    (List.replicate climbs "..").foldl (descend anchor) above = above.drop climbs := by
  induction climbs generalizing above with
  | zero => rfl
  | succ climbs ih =>
    rw [List.replicate_succ, List.foldl_cons]
    cases above with
    | nil =>
      have hroot : descend anchor [] ".." = [] := by simp [descend, hanchor]
      rw [hroot, ih habove, List.drop_nil, List.drop_nil]
    | cons last others =>
      rw [List.mem_cons, not_or] at habove
      have hback : descend anchor (last :: others) ".." = others := by
        simp [descend, Ne.symm habove.1]
      rw [hback, ih habove.2, List.drop_succ_cons]

/-! ## Normal texts -/

/-- A path text that normalization leaves as it is. -/
def IsNormal (text : String) : Prop := (ofString text).normalize.toString = text

/-- A normal text is of a normal path. -/
theorem IsNormal.normalize_ofString {text : String} (hnormal : IsNormal text) :
    (ofString text).normalize = ofString text := by
  have hparts : ∀ part ∈ (ofString text).normalize.parts, IsComponent part := fun part hpart =>
    isComponent_of_mem_components (mem_parts_of_mem_normalize hpart)
  calc (ofString text).normalize
      = ofString (ofString text).normalize.toString := (ofString_toString hparts).symm
    _ = ofString text := congrArg ofString hnormal

lemma IsNormal.toString_ofString {text : String} (hnormal : IsNormal text) :
    (ofString text).toString = text := by
  rw [← hnormal.normalize_ofString]
  exact hnormal

/-- Its steps up come first. -/
lemma IsNormal.exists_parts {text : String} (hnormal : IsNormal text) : ∃ climbs names,
    (ofString text).parts = List.replicate climbs ".." ++ names ∧ ".." ∉ names := by
  obtain ⟨names, climbs, hform, hparts⟩ := exists_parts_normalize (ofString text)
  rw [hnormal.normalize_ofString] at hparts
  exact ⟨climbs, names.reverse, hparts, by simpa using hform.up_notMem⟩

end ImportRank.Path
