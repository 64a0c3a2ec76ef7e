import ImportRank.Proofs.Run.Outcome
import ImportRank.Source.LineCount
import Mathlib.Data.Int.Notation
import Mathlib.Data.List.Basic

/-!
# Line terminators

A scan over the bytes of a file cuts every run of carriage returns and line feeds in one way: a line
feed goes with the carriage return before it, if there is one. So the number of terminators can be
told without the scan, from how many there are of the two bytes and how often one follows the other.
It adds up over the parts of a file, except where a part ends between the two.

Main statement: `countLines_terminators`.
-/

namespace ImportRank

namespace Text

variable {byte : UInt8} {rest second : List UInt8}

/-- The byte that returns the carriage. -/
def carriageReturn : UInt8 := 0x0D

/-- The byte that feeds a line. -/
def lineFeed : UInt8 := 0x0A

/-- The number of places where a line feed directly follows a carriage return. -/
def pairs (bytes : List UInt8) : ℕ := (bytes.zip bytes.tail).count (carriageReturn, lineFeed)

/-- Two texts meet between a carriage return and a line feed. -/
def MeetInPair (first second : List UInt8) : Prop :=
  first.getLast? = some carriageReturn ∧ second.head? = some lineFeed

instance (first second : List UInt8) : Decidable (MeetInPair first second) :=
  inferInstanceAs (Decidable (_ ∧ _))

/-- The bytes with a single line feed in place of each terminator. -/
def withLineFeeds : List UInt8 → List UInt8
  | [] => []
  | 0x0D :: 0x0A :: rest => lineFeed :: withLineFeeds rest
  | byte :: rest => (if byte = carriageReturn then lineFeed else byte) :: withLineFeeds rest

/-! ## The closed form -/

@[simp] lemma meetInPair_singleton :
    MeetInPair [byte] rest ↔ byte = carriageReturn ∧ rest.head? = some lineFeed := by
  simp [MeetInPair]

@[simp] lemma meetInPair_cons_cons {next : UInt8} :
    MeetInPair (byte :: next :: rest) second ↔ MeetInPair (next :: rest) second := by
  simp [MeetInPair]

lemma pairs_cons (byte : UInt8) (rest : List UInt8) :
    pairs (byte :: rest) = pairs rest + if MeetInPair [byte] rest then 1 else 0 := by
  cases rest with
  | nil => simp [pairs]
  | cons next rest => simp [pairs, List.count_cons]

lemma pairs_append (first second : List UInt8) :
    pairs (first ++ second) =
      pairs first + pairs second + if MeetInPair first second then 1 else 0 := by
  induction first with
  | nil => simp [pairs, MeetInPair]
  | cons byte rest ih =>
    cases rest with
    | nil => simpa [pairs] using pairs_cons byte second
    | cons next rest =>
      simp only [List.cons_append, pairs_cons byte, meetInPair_singleton, List.head?_cons,
        meetInPair_cons_cons] at ih ⊢
      rw [ih]
      omega

lemma countTerminators_of_ne (hbyte : byte ≠ carriageReturn) :
    countTerminators (byte :: rest) =
      (if byte = lineFeed then 1 else 0) + countTerminators rest := by
  rw [countTerminators.eq_3 _ _ fun _ hreturn _ => hbyte hreturn]
  simp only [show ¬ byte = 0x0D from hbyte, false_or]
  rfl

/-- One byte more is one terminator more if it can be one, unless it only begins the terminator that
the byte after it ends. -/
lemma countTerminators_cons (byte : UInt8) (rest : List UInt8) :
    countTerminators (byte :: rest) + (if MeetInPair [byte] rest then 1 else 0) =
      (if byte = carriageReturn ∨ byte = lineFeed then 1 else 0) + countTerminators rest := by
  by_cases hreturn : byte = carriageReturn
  · subst hreturn
    by_cases hfeed : rest.head? = some lineFeed
    · obtain ⟨after, rfl⟩ := List.head?_eq_some_iff.mp hfeed
      have hpair : countTerminators (carriageReturn :: lineFeed :: after) =
          countTerminators after + 1 := rfl
      rw [hpair, countTerminators_of_ne (by decide)]
      simp
      omega
    · rw [countTerminators.eq_3 _ _ fun after _ hrest => hfeed (by rw [hrest]; rfl)]
      simp [hfeed, carriageReturn]
  · rw [countTerminators_of_ne hreturn]
    simp [hreturn]

/-- The scan counts every carriage return and every line feed, but a pair of them once. -/
theorem countTerminators_add_pairs (bytes : List UInt8) :
    countTerminators bytes + pairs bytes =
      bytes.count lineFeed + bytes.count carriageReturn := by
  induction bytes with
  | nil => rfl
  | cons byte rest ih =>
    have hstep := countTerminators_cons byte rest
    have hdiffer : carriageReturn ≠ lineFeed := by decide
    rw [pairs_cons, List.count_cons, List.count_cons]
    by_cases hreturn : byte = carriageReturn
    · simp only [hreturn, hdiffer, beq_iff_eq, true_or, if_true, if_false] at hstep ⊢
      omega
    · simp only [hreturn, beq_iff_eq, false_or, if_false] at hstep ⊢
      omega

/-! ## Parts of a text -/

/-- The counts of two parts add up, but for the terminator that they share. -/
theorem countTerminators_append (first second : List UInt8) :
    countTerminators (first ++ second) + (if MeetInPair first second then 1 else 0) =
      countTerminators first + countTerminators second := by
  have hwhole := countTerminators_add_pairs (first ++ second)
  have hfirst := countTerminators_add_pairs first
  have hsecond := countTerminators_add_pairs second
  rw [pairs_append, List.count_append, List.count_append] at hwhole
  omega

/-! ## Rewritten terminators -/

lemma carriageReturn_notMem_withLineFeeds (bytes : List UInt8) :
    carriageReturn ∉ withLineFeeds bytes := by
  induction bytes using withLineFeeds.induct with
  | case1 => simp [withLineFeeds]
  | case2 rest ih => simp [withLineFeeds, ih, show carriageReturn ≠ lineFeed by decide]
  | case3 byte rest hpair ih =>
    rw [withLineFeeds.eq_3 _ _ hpair, List.mem_cons, not_or]
    refine ⟨?_, ih⟩
    split
    · decide
    · rename_i hbyte
      exact Ne.symm hbyte

/-- With a line feed in place of each terminator there are as many as before. -/
theorem countTerminators_withLineFeeds (bytes : List UInt8) :
    countTerminators (withLineFeeds bytes) = countTerminators bytes := by
  induction bytes using withLineFeeds.induct with
  | case1 => rfl
  | case2 rest ih =>
    rw [withLineFeeds, countTerminators_of_ne (by decide), ih, countTerminators, if_pos rfl]
    exact Nat.add_comm _ _
  | case3 byte rest hpair ih =>
    rw [withLineFeeds.eq_3 _ _ hpair, countTerminators.eq_3 _ _ hpair]
    split
    · rename_i hbyte
      rw [countTerminators_of_ne (by decide), ih, hbyte]
      rfl
    · rename_i hbyte
      rw [countTerminators_of_ne hbyte, ih]
      simp only [show ¬ byte = 0x0D from hbyte, false_or]
      rfl

end Text

/-! ## The count of a file -/

open Text

variable {files : FileSystem} {path : String} {bytes : List UInt8}

/-- The lines of a file that can be read are the terminators of its bytes. There are as many as line
feeds and carriage returns, less the places where one of these follows the other as a pair. So the
counts of two texts add up when the texts do, except that a pair in which they meet counts once; and
a line feed in place of each terminator leaves the count as it is. -/
theorem FileSystem.countLines_terminators
    (hread : files.read (Path.ofString path) = .ok bytes) :
    files.countLines path = .ok (countTerminators bytes) ∧
    countTerminators bytes =
      bytes.count lineFeed + bytes.count carriageReturn - (pairs bytes : ℤ) ∧
    (∀ first second, (countTerminators (first ++ second) : ℤ) =
      if MeetInPair first second then countTerminators first + countTerminators second - 1
      else countTerminators first + countTerminators second) ∧
    carriageReturn ∉ withLineFeeds bytes ∧
    countTerminators (withLineFeeds bytes) = countTerminators bytes := by
  refine ⟨by rw [countLines, hread], ?_, fun first second => ?_,
    carriageReturn_notMem_withLineFeeds bytes, countTerminators_withLineFeeds bytes⟩
  · have hcount := countTerminators_add_pairs bytes
    omega
  · have hcount := countTerminators_append first second
    split <;> rename_i hmeet
    · rw [if_pos hmeet] at hcount
      omega
    · rw [if_neg hmeet] at hcount
      omega

/-- A directory with one file: a carriage return, a pair, a line feed and a carriage return. -/
def mixedFile : FileSystem :=
  { root := .directory [("a.py", .file [0x0D, 0x0D, 0x0A, 0x0A, 0x0D])]
    workingDirectory := [] }

lemma read_mixedFile :
    mixedFile.read (Path.ofString "a.py") = .ok [0x0D, 0x0D, 0x0A, 0x0A, 0x0D] := by
  have hpath : Path.ofString "a.py" = { anchor := .relative, parts := ["a.py"] } := by
    decide +kernel
  have hshort : ¬ FileSystem.nameLimit < "a.py".utf8ByteSize := by decide +kernel
  have hfind : mixedFile.find (Path.ofString "a.py") =
      .ok (.file [0x0D, 0x0D, 0x0A, 0x0A, 0x0D]) := by
    simp [hpath, FileSystem.find, mixedFile, FileSystem.walk, FileTree.entry?, hshort]
  rw [FileSystem.read, hfind]
  rfl

/-- Five bytes are four terminators, the second and third being a pair. -/
theorem FileSystem.countLines_terminators_mixed :
    mixedFile.read (Path.ofString "a.py") = .ok [0x0D, 0x0D, 0x0A, 0x0A, 0x0D] ∧
    mixedFile.countLines "a.py" = .ok 4 ∧
    withLineFeeds [0x0D, 0x0D, 0x0A, 0x0A, 0x0D] = [lineFeed, lineFeed, lineFeed, lineFeed] := by
  obtain ⟨hcount, hclosed, -⟩ := FileSystem.countLines_terminators read_mixedFile
  have hfour : countTerminators [0x0D, 0x0D, 0x0A, 0x0A, 0x0D] = 4 :=
    Int.ofNat_inj.mp (hclosed.trans (by decide))
  exact ⟨read_mixedFile, hfour ▸ hcount, by decide⟩

end ImportRank
