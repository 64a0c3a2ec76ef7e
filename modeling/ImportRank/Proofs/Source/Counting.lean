import ImportRank.Proofs.Run.Outcome
import ImportRank.Source.LineCount
import Mathlib.Data.List.Basic

/-!
# Counting readable files

Where every file can be read, counting comes to the number of lines of each, whether the files are
counted one after the other or by a pool of workers. A pool opens its files by their absolute
paths, so that a file is readable depends on which of the two does the counting.
-/

namespace ImportRank.FileSystem

variable {files : FileSystem} {pooled : Bool} {key : String} {keys : List String}

/-- The path that the file of a key is opened by. -/
def countedAt (files : FileSystem) (pooled : Bool) (key : String) : String :=
  if pooled then (files.absolute (Path.ofString key)).toString else key

@[simp] lemma countedAt_false : files.countedAt false key = key := rfl

@[simp] lemma countedAt_true :
    files.countedAt true key = (files.absolute (Path.ofString key)).toString := rfl

/-- The file of a key can be read. -/
def Readable (files : FileSystem) (pooled : Bool) (key : String) : Prop :=
  ∃ bytes, files.read (Path.ofString (files.countedAt pooled key)) = .ok bytes

/-- The number of lines of the file of a key, none where it cannot be read. -/
def linesOf (files : FileSystem) (pooled : Bool) (key : String) : ℕ :=
  match files.read (Path.ofString (files.countedAt pooled key)) with
  | .ok bytes => Text.countTerminators bytes
  | .error _ => 0

lemma countLines_countedAt (hreadable : files.Readable pooled key) :
    files.countLines (files.countedAt pooled key) = .ok (files.linesOf pooled key) := by
  obtain ⟨bytes, hread⟩ := hreadable
  rw [countLines, linesOf, hread]

lemma countLines_eq (hreadable : files.Readable false key) :
    files.countLines key = .ok (files.linesOf false key) := by
  have hcount := countLines_countedAt hreadable
  rwa [countedAt_false] at hcount

/-! ## One after the other -/

lemma countEach_eq (hreadable : ∀ key ∈ keys, files.Readable false key) :
    files.countEach keys = .ok (keys.map fun key => (key, files.linesOf false key)) := by
  rw [countEach]
  induction keys with
  | nil => rfl
  | cons key keys ih =>
    obtain ⟨hkey, hkeys⟩ := List.forall_mem_cons.mp hreadable
    rw [List.mapM_cons, ih hkeys, countLines_eq hkey]
    rfl

/-! ## In a pool -/

lemma countByWorker_eq (hreadable : files.Readable true key) :
    files.countByWorker key = .ok (key, files.linesOf true key) := by
  have hcount := countLines_countedAt hreadable
  rw [countedAt_true] at hcount
  rw [countByWorker, hcount]

/-- An arrival overwrites what was counted for its key and leaves all other counts. -/
lemma lookup_overwrite (counts : List (String × ℕ)) (path : String) (lines : ℕ) (key : String) :
    ((path, lines) :: counts.filter (·.1 ≠ path)).lookup key =
      if key = path then some lines else counts.lookup key := by
  by_cases hsame : key = path
  · subst hsame
    simp
  · rw [List.lookup_cons, beq_eq_false_iff_ne.mpr hsame, if_neg hsame]
    show (counts.filter (·.1 ≠ path)).lookup key = counts.lookup key
    induction counts with
    | nil => rfl
    | cons count counts ih =>
      obtain ⟨counted, number⟩ := count
      rw [List.filter_cons, List.lookup_cons]
      split
      · rw [List.lookup_cons, ih]
      · rename_i hdropped
        -- what is dropped was counted for the path, so it says nothing about the key
        have hpath : counted = path := by simpa using hdropped
        have hother : (key == counted) = false := beq_eq_false_iff_ne.mpr (hpath ▸ hsame)
        rw [ih, hother]

/-- A pool collects the lines of all files it is asked for, over the counts that there were. -/
lemma exists_collect_eq (hreadable : ∀ key ∈ keys, files.Readable true key)
    (counts : List (String × ℕ)) :
    ∃ collected, files.collect counts keys = .ok collected ∧ ∀ key,
      collected.lookup key =
        if key ∈ keys then some (files.linesOf true key) else counts.lookup key := by
  induction keys generalizing counts with
  | nil => exact ⟨counts, rfl, fun key => by simp⟩
  | cons path keys ih =>
    obtain ⟨hpath, hkeys⟩ := List.forall_mem_cons.mp hreadable
    obtain ⟨collected, hcollect, hlookup⟩ :=
      ih hkeys ((path, files.linesOf true path) :: counts.filter (·.1 ≠ path))
    refine ⟨collected, ?_, fun key => ?_⟩
    · rw [collect, countByWorker_eq hpath]
      exact hcollect
    · rw [hlookup, lookup_overwrite]
      by_cases hlater : key ∈ keys
      · simp [hlater]
      · by_cases hsame : key = path
        · simp [hsame]
        · simp [hlater, hsame]

/-! ## Either way -/

/-- Where every file can be read, there is a count for every key: the number of lines of its
file. -/
theorem exists_counts (hreadable : ∀ key ∈ keys, files.Readable pooled key) :
    ∃ counts,
      (if pooled then files.countInPool id keys else files.countEach keys) = .ok counts ∧
        ∀ key ∈ keys, counts.lookup key = some (files.linesOf pooled key) := by
  cases pooled with
  | false =>
    refine ⟨_, countEach_eq hreadable, fun key hkey => ?_⟩
    exact List.lookup_graph (files.linesOf false) hkey
  | true =>
    obtain ⟨counts, hcollect, hlookup⟩ := exists_collect_eq hreadable []
    refine ⟨counts, hcollect, fun key hkey => ?_⟩
    rw [hlookup, if_pos hkey]

end ImportRank.FileSystem
