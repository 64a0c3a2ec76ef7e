import ImportRank.Report.Table
import Mathlib.Algebra.GroupWithZero.Nat
import Mathlib.Data.List.DropRight
import Mathlib.Data.List.Forall2

/-!
# Reading a table back

The header has bars where its columns end and nowhere else, and every line of the table is cut at
the same places. So the cells are read back off any line by the header's bars, whatever a key holds:
bars and blanks inside a key are no more than its text. Only blanks at the end of a cell are taken
for padding, and line feeds for the ends of lines.

Main statement: `format_reads_back`.
-/

namespace ImportRank.Table

/-! ## Reading -/

/-- The lines of a text. -/
def linesOf (text : String) : List (List Char) := text.toList.splitOn '\n'

/-- The positions of the bars in a line. -/
def barsOf (line : List Char) : List ℕ := line.findIdxs (· = '|')

/-- A text without the blanks at its end. -/
def withoutPadding (text : List Char) : String := String.ofList (text.rdropWhile (· = ' '))

/-- The cell between two positions of a line: a margin of one character at both ends, and padding,
are left out. -/
def cellBetween (line : List Char) (start stop : ℕ) : String :=
  withoutPadding ((line.take stop).drop (start + 1)).tail.dropLast

/-- The cells of a line that is cut at some positions. -/
def cellsAt (bars : List ℕ) (line : List Char) : List String :=
  bars.zipWith (cellBetween line) bars.tail

/-- The cells of each line under the header and the rule, cut at the header's bars. -/
def readBack (text : String) : List (List String) :=
  match linesOf text with
  | top :: _ :: rows => rows.map (cellsAt (barsOf top))
  | _ => []

/-! ## Lines between bars -/

/-- Texts with bars around them, and a blank between each text and each bar. -/
def barred : List (List Char) → List Char
  | [] => ['|']
  | text :: texts => '|' :: ' ' :: (text ++ ' ' :: barred texts)

variable {text : List Char} {texts : List (List Char)} {widths start : List ℕ}
  {row other : List String} {rows : List (List String)}

lemma barred_eq_intercalate (htexts : texts ≠ []) :
    "| ".toList ++ " | ".toList.intercalate texts ++ " |".toList = barred texts := by
  induction texts with
  | nil => exact absurd rfl htexts
  | cons text texts ih =>
    cases texts with
    | nil => simp [barred]
    | cons next texts =>
      have hrest := ih (List.cons_ne_nil next texts)
      rw [barred, ← hrest, List.intercalate_cons_cons]
      simp

lemma length_barred (texts : List (List Char)) :
    (barred texts).length = (texts.map fun text => text.length + 3).sum + 1 := by
  induction texts with
  | nil => rfl
  | cons text texts ih =>
    simp only [barred, List.length_cons, List.length_append, ih, List.map_cons, List.sum_cons]
    omega

/-- The positions of the bars around texts of some lengths, from the first one's on. -/
def barsFrom (first : ℕ) : List ℕ → List ℕ
  | [] => [first]
  | length :: lengths => first :: barsFrom (first + length + 3) lengths

lemma barsFrom_eq_cons (first : ℕ) (lengths : List ℕ) :
    ∃ further, barsFrom first lengths = first :: further := by
  cases lengths with
  | nil => exact ⟨[], rfl⟩
  | cons length lengths => exact ⟨_, rfl⟩

lemma findIdxs_barred (htexts : ∀ text ∈ texts, '|' ∉ text) (first : ℕ) :
    (barred texts).findIdxs (· = '|') first = barsFrom first (texts.map List.length) := by
  induction texts generalizing first with
  | nil => simp [barred, barsFrom]
  | cons text texts ih =>
    obtain ⟨htext, htexts⟩ := List.forall_mem_cons.mp htexts
    have hnone : text.findIdxs (· = '|') (first + 1 + 1) = [] :=
      List.findIdxs_eq_nil_iff.mpr fun c hc => decide_eq_false fun hbar => htext (hbar ▸ hc)
    have hplace : first + 1 + 1 + text.length + 1 = first + text.length + 3 := by omega
    simp [barred, barsFrom, List.findIdxs_append, hnone, hplace, ih htexts]

/-- Cut at the bars around them, texts are read back, but for the blanks at their ends. -/
lemma cellsAt_barred (front : List Char) (texts : List (List Char)) :
    cellsAt (barsFrom front.length (texts.map List.length)) (front ++ barred texts) =
      texts.map withoutPadding := by
  induction texts generalizing front with
  | nil => rfl
  | cons text texts ih =>
    have hnext : front ++ barred (text :: texts) =
        (front ++ '|' :: ' ' :: (text ++ [' '])) ++ barred texts := by
      simp [barred]
    have hlength : (front ++ '|' :: ' ' :: (text ++ [' '])).length =
        front.length + text.length + 3 := by
      simp only [List.length_append, List.length_cons, List.length_nil]
      omega
    have hrest := ih (front ++ '|' :: ' ' :: (text ++ [' ']))
    have hcell : cellBetween (front ++ barred (text :: texts)) front.length
        (front.length + text.length + 3) = withoutPadding text := by
      rw [cellBetween, hnext, ← hlength, List.take_left, ← List.drop_drop, List.drop_left]
      simp
    rw [hlength, ← hnext] at hrest
    rw [List.map_cons, barsFrom]
    obtain ⟨further, hfurther⟩ :=
      barsFrom_eq_cons (front.length + text.length + 3) (texts.map List.length)
    rw [hfurther] at hrest ⊢
    rw [List.map_cons, ← hcell, ← hrest]
    rfl

/-! ## Widths -/

/-- Cells are no wider than their columns, of which there is one for each. -/
def Fits (row : List String) (widths : List ℕ) : Prop :=
  List.Forall₂ (fun cell width => cell.length ≤ width) row widths

lemma Fits.ne_nil (hfits : Fits row widths) (hcells : row ≠ []) : widths ≠ [] := by
  have hlength : row.length = widths.length := List.Forall₂.length_eq hfits
  exact List.ne_nil_of_length_pos (hlength ▸ List.length_pos_of_ne_nil hcells)

/-- Columns that are widened for further cells still hold those that fitted. -/
lemma Fits.widen (hfits : Fits row start) (hother : other.length = start.length) :
    Fits row (start.zipWith (fun width cell => max width cell.length) other) := by
  induction hfits generalizing other with
  | nil => exact .nil
  | cons hcell _ ih =>
    obtain ⟨first, other, rfl⟩ := List.exists_cons_of_length_eq_add_one hother
    exact .cons (hcell.trans (le_max_left _ _)) (ih (Nat.succ.inj hother))

lemma fits_widened (hrow : row.length = start.length) :
    Fits row (start.zipWith (fun width cell => max width cell.length) row) := by
  induction row generalizing start with
  | nil =>
    rw [List.length_eq_zero_iff.mp hrow.symm]
    exact .nil
  | cons cell row ih =>
    obtain ⟨width, start, rfl⟩ := List.exists_cons_of_length_eq_add_one hrow.symm
    exact .cons (le_max_right _ _) (ih (Nat.succ.inj hrow))

/-- The columns over some rows hold what fitted before, and each of the rows. -/
lemma fits_widths (hrows : ∀ row ∈ rows, row.length = start.length) :
    (∀ row, Fits row start → Fits row (Table.widths rows start)) ∧
      ∀ row ∈ rows, Fits row (Table.widths rows start) := by
  induction rows generalizing start with
  | nil => exact ⟨fun row hfits => hfits, fun row hrow => absurd hrow List.not_mem_nil⟩
  | cons first rows ih =>
    obtain ⟨hfirst, hrows⟩ := List.forall_mem_cons.mp hrows
    have hlength : (start.zipWith (fun width cell => max width cell.length) first).length =
        start.length := by
      rw [List.length_zipWith, hfirst, min_self]
    obtain ⟨hbefore, hafter⟩ := ih fun row hrow => (hrows row hrow).trans hlength.symm
    refine ⟨fun row hfits => hbefore row (hfits.widen hfirst), ?_⟩
    exact List.forall_mem_cons.mpr ⟨hbefore first (fits_widened hfirst), hafter⟩

/-! ## Lines of cells -/

/-- The texts of cells that are padded to some widths. -/
def padded (row : List String) (widths : List ℕ) : List (List Char) :=
  (row.zipWith pad widths).map String.toList

lemma toList_line (hcells : row ≠ []) (hwidths : widths ≠ []) :
    (line widths row).toList = barred (padded row widths) := by
  have hpadded : padded row widths ≠ [] := by
    simp [padded, hcells, hwidths]
  rw [← barred_eq_intercalate hpadded, line, padded]
  simp only [String.toList_append, String.toList_intercalate]

lemma toList_pad (cell : String) (width : ℕ) :
    (pad cell width).toList = cell.toList ++ List.replicate (width - cell.length) ' ' := by
  rw [pad, String.toList_append, String.toList_ofList]

lemma length_toList_pad {cell : String} {width : ℕ} (hcell : cell.length ≤ width) :
    (pad cell width).toList.length = width := by
  rw [toList_pad, List.length_append, List.length_replicate, String.length_toList]
  omega

/-- Cells that fit are padded to the widths themselves. -/
lemma Fits.map_length_padded (hfits : Fits row widths) :
    (padded row widths).map List.length = widths := by
  induction hfits with
  | nil => rfl
  | cons hcell _ ih =>
    rw [padded, List.zipWith_cons_cons, List.map_cons, List.map_cons, length_toList_pad hcell]
    exact congrArg _ ih

lemma withoutPadding_pad (cell : String) (width : ℕ) :
    withoutPadding (pad cell width).toList = withoutPadding cell.toList := by
  have hblanks : ∀ c ∈ List.replicate (width - cell.length) ' ', decide (c = ' ') = true :=
    fun c hc => decide_eq_true (List.eq_of_mem_replicate hc)
  rw [toList_pad, withoutPadding, withoutPadding, List.rdropWhile, List.reverse_append,
    List.reverse_replicate, List.dropWhile_append_of_pos hblanks]
  rfl

lemma Fits.map_withoutPadding (hfits : Fits row widths) :
    (padded row widths).map withoutPadding =
      row.map fun cell => withoutPadding cell.toList := by
  induction hfits with
  | nil => rfl
  | cons hcell _ ih =>
    rw [padded, List.zipWith_cons_cons, List.map_cons, List.map_cons, withoutPadding_pad]
    exact congrArg _ ih

/-- Whether cells fit, and not what they hold, decides how long their line is. -/
lemma Fits.length_line (hfits : Fits row widths) (hcells : row ≠ []) :
    (line widths row).toList.length = (widths.map (· + 3)).sum + 1 := by
  have hlengths := congrArg (List.map (· + 3)) hfits.map_length_padded
  rw [List.map_map] at hlengths
  rw [toList_line hcells (hfits.ne_nil hcells), length_barred, ← hlengths]
  rfl

/-- Where another line's bars are those of the columns, the cells are read back. -/
lemma Fits.cellsAt_line (hfits : Fits row widths) (hcells : row ≠ []) :
    cellsAt (barsFrom 0 widths) (line widths row).toList =
      row.map fun cell => withoutPadding cell.toList := by
  have hread := cellsAt_barred [] (padded row widths)
  rwa [List.nil_append, List.length_nil, hfits.map_length_padded, hfits.map_withoutPadding,
    ← toList_line hcells (hfits.ne_nil hcells)] at hread

/-- Padding adds blanks alone. -/
lemma notMem_padded {c : Char} (hblank : c ≠ ' ') (hcells : ∀ cell ∈ row, c ∉ cell.toList) :
    ∀ text ∈ padded row widths, c ∉ text := by
  intro text htext
  rw [padded, ← List.map_uncurry_zip_eq_zipWith, List.map_map] at htext
  obtain ⟨⟨cell, width⟩, hmem, rfl⟩ := List.mem_map.mp htext
  show c ∉ (pad cell width).toList
  rw [toList_pad, List.mem_append, not_or]
  exact ⟨hcells cell (List.of_mem_zip hmem).1, fun hc => hblank (List.eq_of_mem_replicate hc)⟩

lemma notMem_barred {c : Char} (hblank : c ≠ ' ') (hbar : c ≠ '|')
    (htexts : ∀ text ∈ texts, c ∉ text) : c ∉ barred texts := by
  induction texts with
  | nil => simpa [barred] using hbar
  | cons text texts ih =>
    obtain ⟨htext, htexts⟩ := List.forall_mem_cons.mp htexts
    simp [barred, hblank, hbar, htext, ih htexts]

/-- A line whose cells hold no bars has bars around its columns alone. -/
lemma Fits.barsOf_line (hfits : Fits row widths) (hcells : row ≠ [])
    (hbars : ∀ cell ∈ row, '|' ∉ cell.toList) :
    barsOf (line widths row).toList = barsFrom 0 widths := by
  rw [toList_line hcells (hfits.ne_nil hcells), barsOf,
    findIdxs_barred (notMem_padded (by decide) hbars), hfits.map_length_padded]

lemma Fits.notMem_line (hfits : Fits row widths) (hcells : row ≠ [])
    (hlines : ∀ cell ∈ row, '\n' ∉ cell.toList) : '\n' ∉ (line widths row).toList := by
  rw [toList_line hcells (hfits.ne_nil hcells)]
  exact notMem_barred (by decide) (by decide) (notMem_padded (by decide) hlines)

/-! ## The cells of a candidate -/

/-- The characters that numbers are written with, "nan" and "inf" among them. -/
def IsFigure (c : Char) : Prop := c.isDigit ∨ c ∈ ['-', '.', 'a', 'f', 'i', 'n']

variable {c : Char}

lemma isFigure_of_mem_digits {n : ℕ} (hc : c ∈ Decimal.digits n) : IsFigure c :=
  Or.inl (Nat.isDigit_of_mem_toDigits (by decide) (by decide) hc)

lemma isFigure_of_mem_toString {n : ℤ} (hc : c ∈ (toString n).toList) : IsFigure c := by
  rw [Int.toString_eq_repr, Int.repr_eq_if] at hc
  split at hc
  · rw [Nat.toList_repr] at hc
    exact isFigure_of_mem_digits hc
  · rw [String.toList_append, Nat.toList_repr] at hc
    rcases List.mem_append.mp hc with hsign | hdigit
    · rw [List.mem_singleton.mp hsign]
      exact Or.inr (by decide)
    · exact isFigure_of_mem_digits hdigit

lemma isFigure_of_mem_withPoint {places : ℕ} {figures : List Char}
    (hfigures : ∀ c ∈ figures, IsFigure c) (hc : c ∈ Decimal.withPoint places figures) :
    IsFigure c := by
  rw [Decimal.withPoint] at hc
  split at hc
  · exact hfigures c hc
  · rcases List.mem_append.mp hc with hfront | hrest
    · exact hfigures c (List.mem_of_mem_take hfront)
    · rcases List.mem_cons.mp hrest with rfl | hback
      · exact Or.inr (by decide)
      · exact hfigures c (List.mem_of_mem_drop hback)

lemma isFigure_of_mem_paddedDigits {width n : ℕ} (hc : c ∈ Decimal.paddedDigits width n) :
    IsFigure c := by
  rcases List.mem_append.mp hc with hzero | hdigit
  · rw [List.eq_of_mem_replicate hzero]
    exact Or.inl (by decide)
  · exact isFigure_of_mem_digits hdigit

lemma isFigure_of_mem_signed {negative : Bool} {figures : List Char}
    (hfigures : ∀ c ∈ figures, IsFigure c) (hc : c ∈ (Decimal.signed negative figures).toList) :
    IsFigure c := by
  rw [Decimal.signed, String.toList_ofList] at hc
  split at hc
  · rcases List.mem_cons.mp hc with rfl | hrest
    · exact Or.inr (by decide)
    · exact hfigures c hrest
  · exact hfigures c hc

lemma isFigure_of_mem_fixed {places : ℕ} {x : Float} (hc : c ∈ (Decimal.fixed places x).toList) :
    IsFigure c := by
  have hwords : ∀ word ∈ ["nan", "inf", "-inf"],
      word.toList ⊆ ['-', '.', 'a', 'f', 'i', 'n'] := by
    decide
  rw [Decimal.fixed] at hc
  split at hc
  · exact Or.inr (hwords _ (by decide) hc)
  · rw [Decimal.infinityText] at hc
    split at hc
    · exact Or.inr (hwords _ (by decide) hc)
    · exact Or.inr (hwords _ (by decide) hc)
  · exact isFigure_of_mem_signed
      (fun c hc => isFigure_of_mem_withPoint (fun c hc => isFigure_of_mem_paddedDigits hc) hc) hc

/-- Numbers hold no blanks and no line feeds. -/
lemma IsFigure.ne (hfigure : IsFigure c) : c ≠ ' ' ∧ c ≠ '\n' := by
  constructor
  all_goals
    rintro rfl
    revert hfigure
    unfold IsFigure
    decide

variable {candidate : Candidate Float} {candidates : List (Candidate Float)}

/-- The cells after the key are numbers. -/
lemma isFigure_of_mem_cells {cell : String} (hcell : cell ∈ (cells candidate).tail)
    (hc : c ∈ cell.toList) : IsFigure c := by
  simp only [cells, List.tail_cons, List.mem_cons, List.not_mem_nil, or_false] at hcell
  rcases hcell with rfl | rfl | rfl
  · exact isFigure_of_mem_toString hc
  · exact isFigure_of_mem_toString hc
  · exact isFigure_of_mem_fixed hc

lemma notMem_cells (hkey : '\n' ∉ candidate.key.toList) :
    ∀ cell ∈ cells candidate, '\n' ∉ cell.toList := by
  refine List.forall_mem_cons.mpr ⟨hkey, fun cell hcell hfeed => ?_⟩
  exact (isFigure_of_mem_cells hcell hfeed).ne.2 rfl

lemma withoutPadding_eq {cell : String} (hlast : cell.toList.getLast? ≠ some ' ') :
    withoutPadding cell.toList = cell := by
  have hself : cell.toList.rdropWhile (· = ' ') = cell.toList := by
    rw [List.rdropWhile_eq_self_iff]
    intro hne hblank
    rw [List.getLast?_eq_getLast_of_ne_nil hne, of_decide_eq_true hblank] at hlast
    exact hlast rfl
  rw [withoutPadding, hself, String.ofList_toList]

/-- Only a key can lose blanks at its end. -/
lemma map_withoutPadding_cells (candidate : Candidate Float) :
    ((cells candidate).map fun cell => withoutPadding cell.toList) =
      [withoutPadding candidate.key.toList, toString candidate.lines, toString candidate.dependents,
        Decimal.fixed 6 candidate.weight] := by
  have hfigures : ∀ cell ∈ (cells candidate).tail, cell.toList.getLast? ≠ some ' ' :=
    fun cell hcell hlast => (isFigure_of_mem_cells hcell (List.mem_of_getLast? hlast)).ne.1 rfl
  have htail := List.map_congr_left fun cell hcell => withoutPadding_eq (hfigures cell hcell)
  rw [List.map_id'] at htail
  exact congrArg (withoutPadding candidate.key.toList :: ·) htail

/-! ## The table -/

/-- The widths of the columns of a table. -/
def columns (candidates : List (Candidate Float)) : List ℕ :=
  Table.widths (candidates.map cells) (header.map String.length)

lemma fits_columns (candidates : List (Candidate Float)) :
    Fits header (columns candidates) ∧
      ∀ candidate ∈ candidates, Fits (cells candidate) (columns candidates) := by
  have hlengths : ∀ row ∈ candidates.map cells, row.length = (header.map String.length).length := by
    rw [List.forall_mem_map]
    exact fun candidate _ => rfl
  have hheader : Fits header (header.map String.length) := by
    simp [Fits, List.forall₂_map_right_iff, List.forall₂_same]
  obtain ⟨hbefore, hrows⟩ := fits_widths hlengths
  exact ⟨hbefore header hheader, List.forall_mem_map.mp hrows⟩

lemma header_cells : ∀ cell ∈ header,
    '|' ∉ cell.toList ∧ '\n' ∉ cell.toList ∧ cell.toList.getLast? ≠ some ' ' := by
  decide

/-- The first line of a table, the titles of its columns. -/
def topLine (candidates : List (Candidate Float)) : List Char :=
  (line (columns candidates) header).toList

/-- The line of a candidate in a table. -/
def lineOf (candidates : List (Candidate Float)) (candidate : Candidate Float) : List Char :=
  (line (columns candidates) (cells candidate)).toList

/-- Where no key holds a line feed, the lines of a table are its own. -/
lemma linesOf_format (hkeys : ∀ candidate ∈ candidates, '\n' ∉ candidate.key.toList) :
    linesOf (format candidates) = topLine candidates ::
      List.replicate (topLine candidates).length '-' :: candidates.map (lineOf candidates) := by
  obtain ⟨hheader, hfits⟩ := fits_columns candidates
  have hlines : ∀ line ∈ topLine candidates ::
      List.replicate (topLine candidates).length '-' :: candidates.map (lineOf candidates),
      '\n' ∉ line := by
    simp only [List.forall_mem_cons, List.forall_mem_map]
    refine ⟨hheader.notMem_line (by decide) fun cell hcell => (header_cells cell hcell).2.1, ?_, ?_⟩
    · exact fun hfeed => absurd (List.eq_of_mem_replicate hfeed) (by decide)
    · exact fun candidate hmem => (hfits candidate hmem).notMem_line (List.cons_ne_nil _ _)
        (notMem_cells (hkeys candidate hmem))
  have htext : (format candidates).toList = ['\n'].intercalate (topLine candidates ::
      List.replicate (topLine candidates).length '-' :: candidates.map (lineOf candidates)) := by
    rw [format, String.toList_intercalate, render, topLine, String.length_toList]
    simp only [List.map_cons, String.toList_ofList, List.map_map]
    rfl
  rw [linesOf, htext, List.splitOn_intercalate _ hlines (List.cons_ne_nil _ _)]

lemma barsOf_topLine (candidates : List (Candidate Float)) :
    barsOf (topLine candidates) = barsFrom 0 (columns candidates) :=
  (fits_columns candidates).1.barsOf_line (by decide) fun cell hcell => (header_cells cell hcell).1

/-- A text of lines is laid out over some candidates: under the titles and a rule there is one line
for each, in order. All lines are of one length, and cut at the bars of the first they give the
titles and the cells, without blanks at the ends of these. -/
structure IsLaidOut (candidates : List (Candidate Float)) (top : List Char)
    (rows : List (List Char)) : Prop where
  titles : cellsAt (barsOf top) top = ["Filename", "Lines", "Dependents", "PageRank"]
  lines : List.Forall₂ (fun row candidate => row.length = top.length ∧
    cellsAt (barsOf top) row = [withoutPadding candidate.key.toList, toString candidate.lines,
      toString candidate.dependents, Decimal.fixed 6 candidate.weight]) rows candidates

lemma isLaidOut_lineOf (candidates : List (Candidate Float)) :
    IsLaidOut candidates (topLine candidates) (candidates.map (lineOf candidates)) := by
  obtain ⟨hheader, hfits⟩ := fits_columns candidates
  constructor
  · rw [barsOf_topLine, topLine, hheader.cellsAt_line (by decide)]
    decide
  · rw [List.forall₂_map_left_iff, List.forall₂_same]
    intro candidate hmem
    have hcells := List.cons_ne_nil candidate.key (cells candidate).tail
    refine ⟨?_, ?_⟩
    · rw [topLine, hheader.length_line (by decide)]
      exact (hfits candidate hmem).length_line hcells
    · rw [barsOf_topLine, ← map_withoutPadding_cells]
      exact (hfits candidate hmem).cellsAt_line hcells

/-- Keys that end in no blank are read back as they are. -/
lemma readBack_format (hkeys : ∀ candidate ∈ candidates, '\n' ∉ candidate.key.toList)
    (hends : ∀ candidate ∈ candidates, candidate.key.toList.getLast? ≠ some ' ') :
    readBack (format candidates) = candidates.map fun candidate =>
      [candidate.key, toString candidate.lines, toString candidate.dependents,
        Decimal.fixed 6 candidate.weight] := by
  rw [readBack, linesOf_format hkeys]
  have hrows := (isLaidOut_lineOf candidates).lines
  show (candidates.map (lineOf candidates)).map (cellsAt (barsOf (topLine candidates))) = _
  rw [List.map_map]
  rw [List.forall₂_map_left_iff, List.forall₂_same] at hrows
  refine List.map_congr_left fun candidate hmem => ?_
  rw [Function.comp_apply, (hrows candidate hmem).2, withoutPadding_eq (hends candidate hmem)]

/-- Where no key holds a line feed, the table of candidates has a header, a rule and one line for
each of them, all of one length. Where no key ends in a blank either, cutting each line at the
header's bars gives back the key, the numbers of lines and dependents and the weight with six
decimals as they are written; so candidates of another such list have the same table only if these
four texts are the same for each. -/
theorem format_reads_back {candidates : List (Candidate Float)}
    (hkeys : ∀ candidate ∈ candidates, '\n' ∉ candidate.key.toList) :
    let texts := fun candidate : Candidate Float =>
      [candidate.key, toString candidate.lines, toString candidate.dependents,
        Decimal.fixed 6 candidate.weight]
    (∃ top rows, linesOf (format candidates) = top :: List.replicate top.length '-' :: rows ∧
      IsLaidOut candidates top rows) ∧
    ((∀ candidate ∈ candidates, candidate.key.toList.getLast? ≠ some ' ') →
      readBack (format candidates) = candidates.map texts ∧
      ∀ others : List (Candidate Float),
        (∀ candidate ∈ others, '\n' ∉ candidate.key.toList) →
        (∀ candidate ∈ others, candidate.key.toList.getLast? ≠ some ' ') →
          format others = format candidates → others.map texts = candidates.map texts) := by
  intro texts
  refine ⟨⟨_, _, linesOf_format hkeys, isLaidOut_lineOf candidates⟩, fun hends => ?_⟩
  have hread : readBack (format candidates) = candidates.map texts := readBack_format hkeys hends
  refine ⟨hread, fun others hkeys' hends' hsame => ?_⟩
  have hread' : readBack (format others) = others.map texts := readBack_format hkeys' hends'
  rw [← hread', hsame, hread]

/-- Candidates with bars and blanks in a key, and with no key to see. -/
def barredKeys : List (Candidate Float) :=
  [{ Candidate.fresh "a | b" 3 [] [] with dependents := 1, weight := 0.75 },
    { Candidate.fresh "" (-12) [] [] with weight := 0.25 }]

/-- Their keys are read back off the table, the bar in one of them included. -/
theorem format_reads_back_barred :
    (∀ candidate ∈ barredKeys, '\n' ∉ candidate.key.toList) ∧
      (∀ candidate ∈ barredKeys, candidate.key.toList.getLast? ≠ some ' ') ∧
      readBack (format barredKeys) =
        [["a | b", "3", "1", "0.750000"], ["", "-12", "0", "0.250000"]] := by
  have hkeys : ∀ candidate ∈ barredKeys, '\n' ∉ candidate.key.toList := by
    simp only [barredKeys, List.forall_mem_cons]
    decide
  have hends : ∀ candidate ∈ barredKeys, candidate.key.toList.getLast? ≠ some ' ' := by
    simp only [barredKeys, List.forall_mem_cons]
    decide
  have hweights : Decimal.fixed 6 0.75 = "0.750000" ∧ Decimal.fixed 6 0.25 = "0.250000" := by
    decide
  refine ⟨hkeys, hends, ?_⟩
  rw [((format_reads_back hkeys).2 hends).1, ← hweights.1, ← hweights.2]
  rfl

end ImportRank.Table
