import ImportRank.Proofs.Order.Doubles
import ImportRank.Proofs.Run.Conservation
import ImportRank.Proofs.Source.Counting

/-!
# What a run returns

A run turns the modules it has discovered into candidates, one for each module that it keeps, and
none is lost or doubled on the way. In the ranking, the heavier candidates stand first, then those
with more dependents, and what ties on both stands as it was discovered; the dependency order has
the same candidates. That is the main statement, `rankModules_keeps_modules`: it holds wherever the
modules come from, as long as their keys differ, the files that are kept can be read and the solver
settles.
-/

namespace ImportRank

/-- The modules that a run keeps. -/
def RunOptions.kept (options : RunOptions) (modules : List Module) : List Module :=
  modules.filter fun entry => hasExtension options.extensions entry.key

namespace Candidate

/-! ## From modules to candidates -/

/-- The candidates of the modules that a run keeps, each as large as its file. -/
def ofKept (files : FileSystem) (options : RunOptions) (modules : List Module) :
    List (Candidate Float) :=
  ofModules options.extensions (files.linesOf options.pooled) (options.kept modules)

/-- Neither counting dependents nor the solver changes a key or a size. -/
lemma map_key_lines_solve_ofKept (settings : Settings Float) (files : FileSystem)
    (options : RunOptions) (modules : List Module) :
    (solve settings (ofKept files options modules)).candidates.map
        (fun candidate => (candidate.key, candidate.lines)) =
      (options.kept modules).map fun entry =>
        (entry.key, (files.linesOf options.pooled entry.key : ℤ)) := by
  have hsolve := congrArg (List.map fun profile : Profile => (profile.key, profile.lines))
    (map_profile_solve settings (ofKept files options modules))
  rw [List.map_map, List.map_map] at hsolve
  refine hsolve.trans ?_
  rw [ofKept, ofModules, map_countDependents (fun _ _ => rfl), List.map_map]
  rfl

variable {before between : List Event} {files : FileSystem} {options : RunOptions}
  {discover : List String → Run (List Module)} {modules : List Module}

/-- Gathering goes well where something can be searched and what is kept can be read. -/
lemma exists_ends_gather_ofKept (hroots : options.roots ≠ [])
    (hdiscover : (discover options.roots).Ends before modules between)
    (hreadable : ∀ key ∈ (options.kept modules).map Module.key,
      files.Readable options.pooled key) :
    ∃ after, (gather files options discover).Ends before (ofKept files options modules) after := by
  obtain ⟨counts, hcounts, hlookup⟩ := FileSystem.exists_counts hreadable
  have hlines : ofModules options.extensions (fun key => (counts.lookup key).getD 0)
      (options.kept modules) = ofKept files options modules := by
    refine ofModules_congr fun key hkey => ?_
    rw [hlookup key hkey, Option.getD_some]
  have hfind : (Module.find discover options.roots options.extensions).Ends before
      (options.kept modules) (between ++ [.kept (options.kept modules).length modules.length]) :=
    Module.ends_find.mpr ⟨hroots, modules, between, hdiscover, rfl, rfl⟩
  exact ⟨_, ends_gather.mpr ⟨_, _, counts, hfind, hcounts, hlines, rfl⟩⟩

/-! ## From candidates to weights -/

/-- The solver settles on some candidates: it converges, unless there is nothing to solve, and the
weights that it ends with are numbers. -/
structure Settles (settings : Settings Float) (candidates : List (Candidate Float)) : Prop where
  converged : candidates ≠ [] → (solve settings candidates).solution.converged = true
  isNaN_eq_false : ∀ candidate ∈ (solve settings candidates).candidates,
    candidate.weight.isNaN = false

/-! ## From weights to a ranking -/

/-- The order of a ranking: by descending weight, then by descending number of dependents, and in
full ties by the order of some keys. -/
def Precedes (keys : List String) (a b : Candidate Float) : Prop :=
  b.weight < a.weight ∨ (a.weight == b.weight) = true ∧
    (b.dependents < a.dependents ∨
      a.dependents = b.dependents ∧ [a.key, b.key].Sublist keys)

lemma Precedes.of_sublist {keys more : List String} {a b : Candidate Float}
    (hprecedes : Precedes keys a b) (hkeys : keys.Sublist more) : Precedes more a b :=
  hprecedes.imp_right fun ⟨hweight, hrest⟩ =>
    ⟨hweight, hrest.imp_right fun ⟨hdependents, hstood⟩ => ⟨hdependents, hstood.trans hkeys⟩⟩

/-- Sorting by rank brings candidates whose weights are numbers into this order. -/
theorem pairwise_precedes_sort {candidates : List (Candidate Float)}
    (hnumbers : ∀ candidate ∈ candidates, candidate.weight.isNaN = false)
    (hdistinct : (candidates.map key).Nodup) :
    (standing.sort candidates).Pairwise (Precedes (candidates.map key)) := by
  have hsorted := Standing.pairwise_sort_stable (graded_double hnumbers) (.of_map key hdistinct)
  refine hsorted.imp_of_mem fun {a b} ha hb hgrades => ?_
  rw [(Standing.sort_perm candidates).mem_iff] at ha hb
  rw [doubleGrade_lt_iff hnumbers hb ha, doubleGrade_eq_iff hnumbers ha hb] at hgrades
  rcases hgrades with (hweight | ⟨hweight, hdependents⟩) | ⟨⟨hweight, hdependents⟩, hstood⟩
  · exact Or.inl hweight
  · have hmagnitude := (Double.beq_iff_magnitude_eq (hnumbers b hb) (hnumbers a ha)).mp hweight
    have hweight' : (a.weight == b.weight) = true :=
      (Double.beq_iff_magnitude_eq (hnumbers a ha) (hnumbers b hb)).mpr hmagnitude.symm
    exact Or.inr ⟨hweight', Or.inl hdependents⟩
  · exact Or.inr ⟨hweight, Or.inr ⟨hdependents, hstood.map key⟩⟩

end Candidate

/-! ## Runs -/

section Run

variable {files : FileSystem} {options : RunOptions} {discover : List String → Run (List Module)}
  {modules : List Module} {told : List Event}

/-- No file is lost, doubled or out of place: the ranking has one candidate for each module that is
kept, as large as its file, and is sorted; the dependency order has exactly the candidates of the
ranking. -/
theorem rankModules_keeps_modules (hroots : options.roots ≠ [])
    (hdiscover : (discover options.roots).result = (.ok modules, told))
    (hdistinct : (modules.map Module.key).Nodup)
    (hreadable : ∀ key ∈ (options.kept modules).map Module.key,
      files.Readable options.pooled key)
    (hsettles : Candidate.Settles Settings.standard (Candidate.ofKept files options modules)) :
    ∃ ranked ordered events,
      (rankModules files { options with dependenciesFirst := false } discover).result =
        (.ok ranked, events) ∧
      (rankModules files { options with dependenciesFirst := true } discover).result =
        (.ok ordered, events) ∧
      (ranked.map fun candidate => (candidate.key, candidate.lines)).Perm
        ((options.kept modules).map fun entry =>
          (entry.key, (files.linesOf options.pooled entry.key : ℤ))) ∧
      ranked.Pairwise (Candidate.Precedes (modules.map Module.key)) ∧
      ordered.Perm ranked := by
  obtain ⟨gathered, hgather⟩ := Candidate.exists_ends_gather_ofKept hroots
    (Run.result_eq_ok.mp hdiscover) hreadable
  obtain ⟨events, hweigh⟩ := Candidate.exists_ends_weigh hsettles.converged gathered
  set candidates := Candidate.ofKept files options modules
  set solved := (Candidate.solve Settings.standard candidates).candidates
  have hends : ∀ dependenciesFirst : Bool,
      (rankModules files { options with dependenciesFirst } discover).Ends []
        (if dependenciesFirst then
          Candidate.standing.dependencyOrder solved (Candidate.standing.sort solved)
        else Candidate.standing.sort solved) events := fun dependenciesFirst =>
    ends_rankModules.mpr ⟨candidates, solved, gathered, hgather, hweigh, rfl⟩
  have hsizes := Candidate.map_key_lines_solve_ofKept Settings.standard files options modules
  have hkept : (solved.map Candidate.key).Sublist (modules.map Module.key) := by
    have hkeys := congrArg (List.map Prod.fst) hsizes
    rw [List.map_map, List.map_map] at hkeys
    have hfilter := (List.filter_sublist (l := modules)
      (p := fun entry => hasExtension options.extensions entry.key)).map Module.key
    exact hkeys ▸ hfilter
  have hnodup : (solved.map Candidate.key).Nodup := hdistinct.sublist hkept
  refine ⟨_, _, events, Run.result_eq_ok.mpr (hends false), Run.result_eq_ok.mpr (hends true),
    ?_, ?_, ?_⟩
  · rw [← hsizes]
    exact (Standing.sort_perm solved).map _
  · have hsorted := Candidate.pairwise_precedes_sort hsettles.isNaN_eq_false hnodup
    exact hsorted.imp fun hprecedes => hprecedes.of_sublist hkept
  · have hordered : (Candidate.standing.dependencyOrder solved
        (Candidate.standing.sort solved)).Perm solved := Candidate.perm_arranged hnodup true
    exact hordered.trans (Standing.sort_perm solved).symm

end Run

/-! ## A run over a tangle -/

/-- Two files that import each other, the second twice and next to a file that nobody knows, and a
file of no wanted extension in between. -/
def tangledModules : List Module :=
  [{ key := "a.py", dependencies := [⟨"b.py", "b"⟩] },
    { key := "c.txt", dependencies := [⟨"a.py", "a"⟩] },
    { key := "b.py", dependencies := [⟨"a.py", "a"⟩, ⟨"gone.py", "gone"⟩, ⟨"a.py", "a"⟩] }]

lemma map_key_kept_tangled :
    (sampleOptions.kept tangledModules).map Module.key = ["a.py", "b.py"] := by
  decide +kernel

lemma readable_tangled : ∀ key ∈ (sampleOptions.kept tangledModules).map Module.key,
    sampleWorkspace.files.Readable sampleOptions.pooled key := by
  rw [map_key_kept_tangled]
  intro key hkey
  rcases List.mem_pair.mp hkey with rfl | rfl
  · exact ⟨_, read_sample.1⟩
  · exact ⟨_, read_sample.2⟩

lemma linesOf_sample :
    sampleWorkspace.files.linesOf false "a.py" = 1 ∧
      sampleWorkspace.files.linesOf false "b.py" = 0 := by
  rw [FileSystem.linesOf, FileSystem.linesOf, FileSystem.countedAt_false,
    FileSystem.countedAt_false, read_sample.1, read_sample.2]
  decide +kernel

lemma settles_tangled : Candidate.Settles Settings.standard
    (Candidate.ofKept sampleWorkspace.files sampleOptions tangledModules) := by
  have hlines : Candidate.ofKept sampleWorkspace.files sampleOptions tangledModules =
      Candidate.ofModules none (fun key => if key = "a.py" then 1 else 0)
        (sampleOptions.kept tangledModules) := by
    refine Candidate.ofModules_congr fun key hkey => ?_
    rw [map_key_kept_tangled, List.mem_pair] at hkey
    rcases hkey with rfl | rfl
    · exact linesOf_sample.1
    · exact linesOf_sample.2
  rw [hlines]
  constructor
  · intro _
    decide +kernel
  · decide +kernel

/-- Both files with a wanted extension are in the ranking of the tangle and in its dependency
order. -/
theorem rankModules_keeps_modules_sample :
    ∃ ranked ordered events,
      (rankModules sampleWorkspace.files { sampleOptions with dependenciesFirst := false }
        fun _ => pure tangledModules).result = (.ok ranked, events) ∧
      (rankModules sampleWorkspace.files { sampleOptions with dependenciesFirst := true }
        fun _ => pure tangledModules).result = (.ok ordered, events) ∧
      (ranked.map Candidate.key).Perm ["a.py", "b.py"] ∧
      ranked.Pairwise (Candidate.Precedes ["a.py", "c.txt", "b.py"]) ∧
      ordered.Perm ranked := by
  obtain ⟨ranked, ordered, events, hranked, hordered, hsizes, hsorted, hperm⟩ :=
    @rankModules_keeps_modules sampleWorkspace.files sampleOptions (fun _ => pure tangledModules)
      tangledModules [] (by decide) rfl (by decide) readable_tangled settles_tangled
  refine ⟨ranked, ordered, events, hranked, hordered, ?_, hsorted, hperm⟩
  have hkeys := hsizes.map Prod.fst
  rw [List.map_map, List.map_map] at hkeys
  exact hkeys.trans (.of_eq map_key_kept_tangled)

end ImportRank
