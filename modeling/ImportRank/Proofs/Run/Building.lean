import ImportRank.Proofs.Run.Ranking
import ImportRank.Proofs.Source.Arrival
import ImportRank.Proofs.Source.Pool

/-!
# Candidates built with a pool

Whether the lines of files are counted one after the other or by a pool of workers, the same
candidates are built, in whatever order the counts arrive. Where some file cannot be read, both fail
at such a file: the one at the first in the order of the modules, the other at the first to arrive,
under the same key and for the same reason as when that file is counted alone. The main statement
is `build_inPool_agrees`. It asks for keys that are normal paths and for a working directory that
is reached through no link.
-/

namespace ImportRank.Candidate

variable {α : Type} [Arithmetic α]

/-! ## Counts, however they are come by -/

/-- The candidates of modules, once their lines are counted. -/
def buildFrom (counts : Except Error (List (String × ℕ))) (modules : List Module)
    (extensions : Option (List String)) : Run (List (Candidate α)) := do
  let counts ← ExceptT.mk (pure counts)
  let candidates := modules.map fun entry =>
    ofModule extensions ((counts.lookup entry.key).getD 0) entry
  Run.tell (.built candidates.length)
  return countDependents candidates

/-- The candidates of modules whose lines are counted in a pool, where the counts arrive in some
order. -/
def buildInPool (files : FileSystem) (modules : List Module) (extensions : Option (List String))
    (order : List ℕ) : Run (List (Candidate α)) :=
  buildFrom (files.countInPool (FileSystem.arriving order) (modules.map Module.key)) modules
    extensions

variable {files : FileSystem} {modules : List Module} {extensions : Option (List String)}

lemma build_false : (build files modules extensions false : Run (List (Candidate α))) =
    buildFrom (files.countEach (modules.map Module.key)) modules extensions :=
  rfl

/-- A run with a pool is one where the counts arrive as they were asked for. -/
lemma build_true : (build files modules extensions true : Run (List (Candidate α))) =
    buildInPool files modules extensions (List.range modules.length) := by
  have hkeys : FileSystem.arriving (List.range modules.length) (modules.map Module.key) =
      modules.map Module.key := by
    simpa using FileSystem.arriving_range (modules.map Module.key)
  show buildFrom (files.collect [] (modules.map Module.key)) modules extensions = _
  rw [buildInPool, FileSystem.countInPool, hkeys]

lemma result_buildFrom_ok {counts : List (String × ℕ)} {lines : String → ℕ}
    (hcounts : ∀ key ∈ modules.map Module.key, counts.lookup key = some (lines key)) :
    (buildFrom (.ok counts) modules extensions : Run (List (Candidate α))).result =
      (.ok (ofModules extensions lines modules), [.built modules.length]) := by
  have hlines : (ofModules extensions (fun key => (counts.lookup key).getD 0) modules :
      List (Candidate α)) = ofModules extensions lines modules :=
    ofModules_congr fun key hkey => by rw [hcounts key hkey, Option.getD_some]
  refine Run.result_eq_ok.mpr ?_
  simp only [buildFrom, Run.ends_bind, Run.ends_mk_pure, Run.ends_tell, Run.ends_pure,
    List.length_map]
  exact ⟨counts, [], ⟨rfl, rfl⟩, (), _, rfl, hlines, rfl⟩

lemma result_buildFrom_error (error : Error) :
    (buildFrom (.error error) modules extensions : Run (List (Candidate α))).result =
      (.error error, []) :=
  rfl

/-! ## Both ways -/

/-- Two ways of building candidates from files agree. The first counts in the order of the modules,
the second in an order of its own. -/
structure BuildsAlike (files : FileSystem) (modules : List Module)
    (plain pooled : Run (List (Candidate α))) : Prop where
  of_readable : (∀ entry ∈ modules, files.Readable false entry.key) →
    ∃ candidates told,
      plain.result = (.ok candidates, told) ∧ pooled.result = (.ok candidates, told)
  plain_of_unreadable : (∃ entry ∈ modules, ¬ files.Readable false entry.key) →
    ∃ earlier first later reason, modules = earlier ++ first :: later ∧
      (∀ entry ∈ earlier, files.Readable false entry.key) ∧
      files.countLines first.key = .error (.lineCount first.key reason) ∧
      plain.result = (.error (.lineCount first.key reason), [])
  pooled_of_unreadable : (∃ entry ∈ modules, ¬ files.Readable false entry.key) →
    ∃ entry ∈ modules, ∃ reason,
      files.countLines entry.key = .error (.lineCount entry.key reason) ∧
      pooled.result = (.error (.lineCount entry.key reason), [])

variable {workers : ℕ}

lemma buildsAlike_of_perm (hgrounded : files.Grounded)
    (hnormal : ∀ entry ∈ modules, Path.IsNormal entry.key) {order : List ℕ}
    (horder : order.Perm (List.range modules.length)) :
    BuildsAlike files modules (build files modules extensions false : Run (List (Candidate α)))
      (buildInPool files modules extensions order) := by
  have hperm : (FileSystem.arriving order (modules.map Module.key)).Perm
      (modules.map Module.key) :=
    FileSystem.perm_arriving (by rwa [List.length_map])
  have hnormal' : ∀ key ∈ FileSystem.arriving order (modules.map Module.key),
      Path.IsNormal key := by
    intro key hkey
    obtain ⟨entry, hentry, rfl⟩ := List.mem_map.mp (hperm.mem_iff.mp hkey)
    exact hnormal entry hentry
  constructor
  · intro hreadable
    have hkeys : ∀ key ∈ modules.map Module.key, files.Readable false key :=
      List.forall_mem_map.mpr hreadable
    have harriving : ∀ key ∈ FileSystem.arriving order (modules.map Module.key),
        files.Readable true key := fun key hkey =>
      (hgrounded.readable_iff (hnormal' key hkey)).mpr (hkeys key (hperm.mem_iff.mp hkey))
    obtain ⟨counts, hcollect, hlookup⟩ := FileSystem.exists_collect_eq harriving []
    refine ⟨ofModules extensions (files.linesOf false) modules, [.built modules.length], ?_, ?_⟩
    · rw [build_false, FileSystem.countEach_eq hkeys]
      exact result_buildFrom_ok fun key hkey => List.lookup_graph (files.linesOf false) hkey
    · rw [buildInPool, FileSystem.countInPool, hcollect]
      refine result_buildFrom_ok fun key hkey => ?_
      have hkey' := hperm.mem_iff.mpr hkey
      rw [hlookup, if_pos hkey', hgrounded.linesOf_eq (hnormal' key hkey')]
  · intro hunreadable
    obtain ⟨earlier, first, later, hsplit, hearlier, hfirst⟩ :=
      FileSystem.exists_first_unreadable hunreadable
    obtain ⟨reason, hfails⟩ := FileSystem.exists_countLines_eq_error hfirst
    refine ⟨earlier, first, later, reason, hsplit, hearlier, hfails, ?_⟩
    rw [build_false, hsplit, List.map_append, List.map_cons,
      FileSystem.countEach_eq_error (List.forall_mem_map.mpr hearlier) hfails,
      result_buildFrom_error]
  · rintro ⟨entry, hentry, hunreadable⟩
    have hsome : ∃ key ∈ FileSystem.arriving order (modules.map Module.key),
        ¬ files.Readable false key :=
      ⟨entry.key, hperm.mem_iff.mpr (List.mem_map_of_mem hentry), hunreadable⟩
    obtain ⟨key, hkey, reason, hfails, hcollect⟩ :=
      hgrounded.exists_collect_eq_error hnormal' hsome []
    obtain ⟨failing, hfailing, rfl⟩ := List.mem_map.mp (hperm.mem_iff.mp hkey)
    refine ⟨failing, hfailing, reason, hfails, ?_⟩
    rw [buildInPool, FileSystem.countInPool, hcollect, result_buildFrom_error]

/-- Building with a pool comes to the same as building without one. The run with a pool is one of
those that a pool can make; a pool never gets stuck, whatever has happened in it; and in every order
in which the counts can arrive, the candidates, or the failures, agree with those without a pool. -/
theorem build_inPool_agrees (extensions : Option (List String)) (hgrounded : files.Grounded)
    (hnormal : ∀ entry ∈ modules, Path.IsNormal entry.key) (hworkers : 1 ≤ workers) :
    (∃ order, Pool.Completes workers modules.length order ∧
      (build files modules extensions true : Run (List (Candidate α))) =
        buildInPool files modules extensions order) ∧
    (∀ pool, Pool.Reaches workers (Pool.handed modules.length) pool →
      ∃ order, Pool.Reaches workers pool (Pool.emptied order)) ∧
    ∀ order, Pool.Completes workers modules.length order →
      BuildsAlike files modules (build files modules extensions false : Run (List (Candidate α)))
        (buildInPool files modules extensions order) := by
  refine ⟨⟨List.range modules.length, ?_, build_true⟩, fun pool _ => ?_, fun order hcompletes => ?_⟩
  · exact (Pool.completes_iff hworkers).mpr (List.Perm.refl _)
  · exact Pool.exists_reaches_emptied hworkers pool
  · exact buildsAlike_of_perm hgrounded hnormal ((Pool.completes_iff hworkers).mp hcompletes)

/-! ## Two files and one that is missing -/

lemma read_missing : sampleWorkspace.files.read (Path.ofString "c.txt") = .error .missing := by
  have hpath : Path.ofString "c.txt" = { anchor := .relative, parts := ["c.txt"] } := by
    decide +kernel
  have hshort : ¬ FileSystem.nameLimit < "c.txt".utf8ByteSize := by decide +kernel
  have hfind : sampleWorkspace.files.find (Path.ofString "c.txt") = .error .missing := by
    simp [FileSystem.find, sampleWorkspace, FileSystem.walk, FileTree.entry?, List.lookup_cons,
      hpath, hshort]
  rw [FileSystem.read, hfind]
  rfl

/-- Two files are counted in a pool, the second first. The tangle has a file that is missing, and
whenever its count arrives, it is the one to fail. -/
theorem build_inPool_agrees_sample :
    (∃ (candidates : List (Candidate Float)) (told : List Event),
      (build sampleWorkspace.files sampleModules none false).result = (.ok candidates, told) ∧
      (buildInPool sampleWorkspace.files sampleModules none [1, 0]).result =
        (.ok candidates, told)) ∧
    (buildInPool sampleWorkspace.files tangledModules none [2, 0, 1] :
      Run (List (Candidate Float))).result =
        (.error (.lineCount "c.txt" "No such file or directory"), []) := by
  have hgrounded : sampleWorkspace.files.Grounded := ⟨[], _, .atRoot rfl⟩
  have hnormal : ∀ entry ∈ sampleModules, Path.IsNormal entry.key := by
    unfold Path.IsNormal
    decide +kernel
  have hnormal' : ∀ entry ∈ tangledModules, Path.IsNormal entry.key := by
    unfold Path.IsNormal
    decide +kernel
  have hworkers : 1 ≤ 2 := by decide
  constructor
  · have hreadable : ∀ entry ∈ sampleModules,
        sampleWorkspace.files.Readable false entry.key := by
      intro entry hentry
      rcases List.mem_pair.mp hentry with rfl | rfl
      · exact ⟨_, read_sample.1⟩
      · exact ⟨_, read_sample.2⟩
    have hcompletes := (Pool.completes_iff hworkers).mpr (by decide : [1, 0].Perm (List.range 2))
    have hagrees := build_inPool_agrees (α := Float) none hgrounded hnormal hworkers
    exact (hagrees.2.2 [1, 0] hcompletes).of_readable hreadable
  · have hunreadable : ∃ entry ∈ tangledModules,
        ¬ sampleWorkspace.files.Readable false entry.key := by
      refine ⟨{ key := "c.txt", dependencies := [⟨"a.py", "a"⟩] }, by decide, ?_⟩
      rintro ⟨bytes, hread⟩
      exact absurd (read_missing.symm.trans hread) (by simp)
    have hcompletes :=
      (Pool.completes_iff hworkers).mpr (by decide : [2, 0, 1].Perm (List.range 3))
    have hagrees := build_inPool_agrees (α := Float) none hgrounded hnormal' hworkers
    obtain ⟨entry, hentry, reason, hfails, hresult⟩ :=
      (hagrees.2.2 [2, 0, 1] hcompletes).pooled_of_unreadable hunreadable
    rw [hresult]
    -- of the three files, only the missing one cannot be counted
    simp only [tangledModules, List.mem_cons, List.not_mem_nil, or_false] at hentry
    rcases hentry with rfl | rfl | rfl
    · simp [FileSystem.countLines, read_sample.1] at hfails
    · simp only [FileSystem.countLines, read_missing, Except.error.injEq, Error.lineCount.injEq,
        true_and] at hfails
      rw [← hfails]
      rfl
    · simp [FileSystem.countLines, read_sample.2] at hfails

end ImportRank.Candidate
