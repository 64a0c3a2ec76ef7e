import ImportRank.Proofs.Files.Absolute
import ImportRank.Proofs.Source.Counting
import Mathlib.Data.List.Perm.Basic
import Mathlib.Data.List.Range

/-!
# Counts as they arrive

A worker counts the file that its absolute path leads to and tells the count, or what went wrong,
under the path it was asked by. For a normal path that is the file that the path itself leads to.
So, in whatever order the counts arrive, all of them arrive where all files can be read; and where
some file cannot, the first failure to arrive is the failure of counting that file alone.
-/

namespace ImportRank.FileSystem

variable {files : FileSystem} {key : String} {keys : List String}

/-! ## Orders -/

/-- The keys of tasks, in the order in which the tasks arrive. -/
def arriving (order : List ℕ) (keys : List String) : List String :=
  order.filterMap fun task => keys[task]?

@[simp] lemma arriving_range (keys : List String) :
    arriving (List.range keys.length) keys = keys := by
  have hplaces : (List.range keys.length).map (fun task => keys[task]?) = keys.map some :=
    List.ext_getElem (by simp) fun place _ hplace => by
      rw [List.length_map] at hplace
      simp [hplace]
  have hsome : (keys.map some).filterMap id = keys := by simp
  rw [← hplaces, List.filterMap_map] at hsome
  exact hsome

/-- Every key arrives as often as it was asked for. -/
lemma perm_arriving {order : List ℕ} (horder : order.Perm (List.range keys.length)) :
    (arriving order keys).Perm keys := by
  have hperm := horder.filterMap fun task => keys[task]?
  exact hperm.trans (.of_eq (arriving_range keys))

/-! ## What a worker tells -/

/-- A worker tells what counting by the path itself would. -/
theorem Grounded.countByWorker_eq_map (hgrounded : files.Grounded)
    (hnormal : Path.IsNormal key) :
    files.countByWorker key = (files.countLines key).map fun count => (key, count) := by
  rw [countByWorker, countLines, countLines, hgrounded.read_absolute hnormal]
  cases files.read (Path.ofString key) <;> rfl

lemma Grounded.readable_iff (hgrounded : files.Grounded) (hnormal : Path.IsNormal key) :
    files.Readable true key ↔ files.Readable false key := by
  rw [Readable, Readable, countedAt_true, countedAt_false, hgrounded.read_absolute hnormal]

lemma Grounded.linesOf_eq (hgrounded : files.Grounded) (hnormal : Path.IsNormal key) :
    files.linesOf true key = files.linesOf false key := by
  rw [linesOf, linesOf, countedAt_true, countedAt_false, hgrounded.read_absolute hnormal]

/-! ## Failures -/

/-- What cannot be read fails under its own key. -/
lemma exists_countLines_eq_error (hunreadable : ¬ files.Readable false key) :
    ∃ reason, files.countLines key = .error (.lineCount key reason) := by
  cases hread : files.read (Path.ofString key) with
  | ok bytes => exact absurd ⟨bytes, hread⟩ hunreadable
  | error fault => exact ⟨fault.text, by rw [countLines, hread]⟩

/-- Where some key cannot be read, there is a first one. -/
lemma exists_first_unreadable {ι : Type} {items : List ι} {keyOf : ι → String}
    (hsome : ∃ item ∈ items, ¬ files.Readable false (keyOf item)) :
    ∃ earlier first later, items = earlier ++ first :: later ∧
      (∀ item ∈ earlier, files.Readable false (keyOf item)) ∧
        ¬ files.Readable false (keyOf first) := by
  induction items with
  | nil =>
    obtain ⟨item, hitem, _⟩ := hsome
    exact absurd hitem List.not_mem_nil
  | cons item items ih =>
    by_cases hreadable : files.Readable false (keyOf item)
    · have hrest := ((List.exists_mem_cons_iff _ _ _).mp hsome).resolve_left
        (not_not.mpr hreadable)
      obtain ⟨earlier, first, later, rfl, hearlier, hfirst⟩ := ih hrest
      exact ⟨item :: earlier, first, later, rfl,
        List.forall_mem_cons.mpr ⟨hreadable, hearlier⟩, hfirst⟩
    · exact ⟨[], item, items, rfl, fun _ hmem => absurd hmem List.not_mem_nil, hreadable⟩

/-- Counting one after the other ends at the first key that cannot be read. -/
lemma countEach_eq_error {earlier later : List String} {first : String} {error : Error}
    (hearlier : ∀ key ∈ earlier, files.Readable false key)
    (hfirst : files.countLines first = .error error) :
    files.countEach (earlier ++ first :: later) = .error error := by
  rw [countEach]
  induction earlier with
  | nil => rw [List.nil_append, List.mapM_cons, hfirst]; rfl
  | cons key earlier ih =>
    obtain ⟨hkey, hrest⟩ := List.forall_mem_cons.mp hearlier
    rw [List.cons_append, List.mapM_cons, ih hrest, countLines_eq hkey]
    rfl

/-- A pool ends at the first failure to arrive: that of some key that cannot be read, as the key
itself fails. -/
lemma Grounded.exists_collect_eq_error (hgrounded : files.Grounded)
    (hnormal : ∀ key ∈ keys, Path.IsNormal key)
    (hsome : ∃ key ∈ keys, ¬ files.Readable false key) (counts : List (String × ℕ)) :
    ∃ key ∈ keys, ∃ reason, files.countLines key = .error (.lineCount key reason) ∧
      files.collect counts keys = .error (.lineCount key reason) := by
  induction keys generalizing counts with
  | nil =>
    obtain ⟨key, hkey, _⟩ := hsome
    exact absurd hkey List.not_mem_nil
  | cons path keys ih =>
    obtain ⟨hpath, hkeys⟩ := List.forall_mem_cons.mp hnormal
    have hworker := hgrounded.countByWorker_eq_map hpath
    by_cases hreadable : files.Readable false path
    · -- the count arrives, so the failure is of a later one
      have hrest := ((List.exists_mem_cons_iff _ _ _).mp hsome).resolve_left
        (not_not.mpr hreadable)
      obtain ⟨key, hkey, reason, hfails, hcollect⟩ :=
        ih hkeys hrest ((path, files.linesOf false path) :: counts.filter (·.1 ≠ path))
      refine ⟨key, List.mem_cons_of_mem _ hkey, reason, hfails, ?_⟩
      rw [collect, hworker, countLines_eq hreadable]
      exact hcollect
    · obtain ⟨reason, hfails⟩ := exists_countLines_eq_error hreadable
      refine ⟨path, List.mem_cons_self, reason, hfails, ?_⟩
      rw [collect, hworker, hfails]
      rfl

end ImportRank.FileSystem
