import ImportRank.Proofs.Import.Recognition
import ImportRank.Proofs.Order.Precedence
import ImportRank.Proofs.Rank.Conservation
import ImportRank.Proofs.Run.Gathering

/-!
# A run conserves weight

What a run returns is what it has gathered, arranged and weighed. Over exact fractions no weight
leaks on the way, whatever the files and the options are: the main statement is
`rankWorkspace_conserves`.
-/

namespace ImportRank

variable {before after : List Event}

/-! ## What a run returns -/

namespace Candidate

variable {settings : Settings Float} {candidates : List (Candidate Float)}

/-- Weighing keeps the candidates, in their order. -/
lemma map_of_ends_weigh {β : Type} {view : Candidate Float → β} (hview : Steady view)
    {weighed : List (Candidate Float)}
    (hends : (weigh settings candidates).Ends before weighed after) :
    weighed.map view = candidates.map view := by
  unfold weigh at hends
  split at hends
  · rename_i hnone
    rw [Run.ends_pure] at hends
    rw [← hends.1, List.isEmpty_iff.mp hnone]
  · dsimp only at hends
    split at hends
    · simp only [Run.ends_bind, Run.ends_tell, Run.ends_pure] at hends
      obtain ⟨_, _, _, rfl, _⟩ := hends
      exact map_solve hview settings candidates
    · exact absurd hends Run.not_ends_throw

/-- Weighing ends in what the solver returns, if it converges or has nothing to solve. -/
lemma exists_ends_weigh
    (hconverged : candidates ≠ [] → (solve settings candidates).solution.converged = true)
    (before : List Event) :
    ∃ after,
      (weigh settings candidates).Ends before (solve settings candidates).candidates after := by
  unfold weigh
  split
  · rename_i hnone
    have hprofile := map_profile_solve settings candidates
    rw [List.isEmpty_iff.mp hnone, List.map_nil, List.map_eq_nil_iff] at hprofile
    rw [List.isEmpty_iff.mp hnone, hprofile]
    exact ⟨before, Run.ends_pure.mpr ⟨rfl, rfl⟩⟩
  · rename_i hsome
    have hsolved := hconverged fun hnil => hsome (List.isEmpty_iff.mpr hnil)
    simp only [hsolved, if_true, Run.ends_bind, Run.ends_tell, Run.ends_pure]
    exact ⟨_, (), _, rfl, trivial, rfl⟩

/-- Both orders of a run rearrange the candidates. -/
lemma perm_arranged (hnodup : (candidates.map key).Nodup) (dependenciesFirst : Bool) :
    (if dependenciesFirst then standing.dependencyOrder candidates (standing.sort candidates)
      else standing.sort candidates).Perm candidates := by
  split
  · exact Standing.perm_dependencyOrder hnodup (Standing.sort_perm candidates)
  · exact Standing.sort_perm candidates

end Candidate

section RankModules

variable {files : FileSystem} {options : RunOptions} {discover : List String → Run (List Module)}

lemma ends_rankModules {ranked : List (Candidate Float)} :
    (rankModules files options discover).Ends before ranked after ↔
      ∃ (candidates weighed : List (Candidate Float)) (between : List Event),
        (Candidate.gather files options discover).Ends before candidates between ∧
        (Candidate.weigh Settings.standard candidates).Ends between weighed after ∧
        (if options.dependenciesFirst then
            Candidate.standing.dependencyOrder weighed (Candidate.standing.sort weighed)
          else Candidate.standing.sort weighed) = ranked := by
  unfold rankModules
  simp only [Run.ends_bind]
  constructor
  · rintro ⟨candidates, between, hgather, weighed, _, hweigh, harrange⟩
    refine ⟨candidates, weighed, between, hgather, ?_⟩
    split at harrange
    · rename_i horder
      obtain ⟨rfl, rfl⟩ := Run.ends_pure.mp harrange
      exact ⟨hweigh, if_pos horder⟩
    · rename_i horder
      obtain ⟨rfl, rfl⟩ := Run.ends_pure.mp harrange
      exact ⟨hweigh, if_neg horder⟩
  · rintro ⟨candidates, weighed, between, hgather, hweigh, rfl⟩
    refine ⟨candidates, between, hgather, weighed, after, hweigh, ?_⟩
    split <;> exact Run.ends_pure.mpr ⟨rfl, rfl⟩

/-- A run returns the candidates it has gathered, in an order of its own and with what the solver
has written on them. -/
lemma exists_perm_of_ends_rankModules {β : Type} {view : Candidate Float → β}
    (hview : Candidate.Steady view) {ranked : List (Candidate Float)}
    (hends : (rankModules files options discover).Ends before ranked after) :
    ∃ (candidates : List (Candidate Float)) (between : List Event),
      (Candidate.gather files options discover).Ends before candidates between ∧
        ((candidates.map Candidate.key).Nodup →
          (ranked.map view).Perm (candidates.map view)) := by
  obtain ⟨candidates, weighed, between, hgather, hweigh, rfl⟩ := ends_rankModules.mp hends
  refine ⟨candidates, between, hgather, fun hdistinct => ?_⟩
  have hkeys : weighed.map Candidate.key = candidates.map Candidate.key :=
    Candidate.map_of_ends_weigh (fun _ _ _ _ => rfl) hweigh
  rw [← Candidate.map_of_ends_weigh hview hweigh]
  exact (Candidate.perm_arranged (hkeys ▸ hdistinct) _).map _

/-- In particular it keeps the profiles. -/
theorem exists_gather_of_ends_rankModules {ranked : List (Candidate Float)}
    (hends : (rankModules files options discover).Ends before ranked after) :
    ∃ (candidates : List (Candidate Float)) (between : List Event),
      (Candidate.gather files options discover).Ends before candidates between ∧
        (Candidate.Closed candidates →
          (ranked.map Candidate.profile).Perm (candidates.map Candidate.profile)) := by
  obtain ⟨candidates, between, hgather, harranged⟩ :=
    exists_perm_of_ends_rankModules Candidate.steady_profile hends
  exact ⟨candidates, between, hgather, fun hclosed => harranged hclosed.nodup_keys⟩

/-- A run returns something where something is gathered and the solver converges. -/
theorem exists_ends_rankModules {candidates : List (Candidate Float)} {between : List Event}
    (hgather : (Candidate.gather files options discover).Ends before candidates between)
    (hclosed : Candidate.Closed candidates) (hnonempty : candidates ≠ [])
    (hconverged : (Candidate.solve Settings.standard candidates).solution.converged = true) :
    ∃ ranked after,
      (rankModules files options discover).Ends before ranked after ∧ ranked ≠ [] := by
  obtain ⟨after, hweigh⟩ := Candidate.exists_ends_weigh (fun _ => hconverged) between
  refine ⟨_, after, ends_rankModules.mpr ⟨candidates, _, between, hgather, hweigh, rfl⟩, ?_⟩
  have hprofile := Candidate.map_profile_solve Settings.standard candidates
  have hweighed := Candidate.Closed.of_perm (List.Perm.of_eq hprofile) hclosed
  have hlength := (Candidate.perm_arranged hweighed.nodup_keys options.dependenciesFirst).length_eq
  have hlength' := congrArg List.length hprofile
  rw [List.length_map, List.length_map] at hlength'
  rw [← List.length_pos_iff] at hnonempty ⊢
  omega

end RankModules

/-! ## A run over two files -/

/-- A file that imports another, which is empty. -/
def sampleWorkspace : Workspace :=
  { files :=
      { root := .directory [("a.py", .file "import b\n".toUTF8.toList), ("b.py", .file [])]
        workingDirectory := [] }
    answer := fun _ => .unavailable }

/-- A run over both files. -/
def sampleOptions : RunOptions :=
  { roots := ["a.py", "b.py"]
    extensions := none
    dependenciesFirst := true
    search := { exclude := [], language := none }
    pooled := false }

/-- The modules of the two files. -/
def sampleModules : List Module :=
  [{ key := "a.py", dependencies := [{ target := "b.py", specifier := "b" }] },
    { key := "b.py", dependencies := [] }]

/-- Their candidates: the first has one line. -/
def sampleCandidates : List (Candidate Float) :=
  Candidate.ofModules none (fun key => (List.lookup key [("a.py", 1), ("b.py", 0)]).getD 0)
    sampleModules

lemma find_sample :
    sampleWorkspace.files.find (Path.ofString "a.py") = .ok (.file "import b\n".toUTF8.toList) ∧
      sampleWorkspace.files.find (Path.ofString "b.py") = .ok (.file []) := by
  have hpath : Path.ofString "a.py" = { anchor := .relative, parts := ["a.py"] } ∧
      Path.ofString "b.py" = { anchor := .relative, parts := ["b.py"] } := by
    decide +kernel
  have hshort : ¬ FileSystem.nameLimit < "a.py".utf8ByteSize ∧
      ¬ FileSystem.nameLimit < "b.py".utf8ByteSize := by
    decide +kernel
  simp [FileSystem.find, sampleWorkspace, FileSystem.walk, FileTree.entry?, List.lookup_cons, hpath,
    hshort]

lemma read_sample :
    sampleWorkspace.files.read (Path.ofString "a.py") = .ok "import b\n".toUTF8.toList ∧
      sampleWorkspace.files.read (Path.ofString "b.py") = .ok [] := by
  rw [FileSystem.read, FileSystem.read, find_sample.1, find_sample.2]
  exact ⟨rfl, rfl⟩

/-- The search finds both files, where it is told to look. -/
lemma search_sample : Search.search sampleWorkspace sampleOptions.search sampleOptions.roots =
    .ok [{ key := "a.py", language := .python }, { key := "b.py", language := .python }] := by
  simp only [Search.search, sampleOptions, List.isEmpty_cons, Bool.false_eq_true, if_false,
    Search.searchRoots, Search.searchRoot, FileSystem.find?, find_sample, except_bind_eq_ok,
    mapError_eq_ok, Except.ok.injEq, exists_eq_left', except_pure_eq_ok]
  decide +kernel

lemma importRoots_sample :
    importRoots sampleWorkspace.files sampleOptions.roots = .ok [".", "src"] := by
  have hfile : sampleWorkspace.files.isFile (Path.ofString "a.py") = .ok true ∧
      sampleWorkspace.files.isFile (Path.ofString "b.py") = .ok true := by
    rw [FileSystem.isFile, FileSystem.isFile, FileSystem.find?, FileSystem.find?, find_sample.1,
      find_sample.2]
    exact ⟨rfl, rfl⟩
  simp only [importRoots, sampleOptions, List.foldlM_cons, List.foldlM_nil, hfile, if_true,
    except_bind_eq_ok, Except.ok.injEq, exists_eq_left', except_pure_eq_ok]
  decide +kernel

lemma discover_sample :
    (Module.discover sampleWorkspace sampleOptions.search sampleOptions.roots).Ends []
      sampleModules [.discovered 2 ["a.py", "b.py"]] := by
  set resolver : Resolver := { keys := ["a.py", "b.py"], roots := [".", "src"] } with hresolver
  have hextract : extract .python "import b\n".toUTF8.toList =
      { imports := [{ specifier := "b", level := 0, names := [] }], complete := true } := by
    rw [extract_python_eq]
    decide +kernel
  have hresolve : resolver.resolve "a.py" .python { specifier := "b", level := 0, names := [] } =
      ["b.py"] := by
    decide +kernel
  have himporter : Module.ofFile sampleWorkspace resolver
      { key := "a.py", language := .python } =
        pure { key := "a.py", dependencies := [{ target := "b.py", specifier := "b" }] } := by
    unfold Module.ofFile
    rw [read_sample.1]
    dsimp only
    rw [show sampleWorkspace.engine.extract = extract from rfl, hextract]
    simp [Module.dependenciesOf, hresolve, Import.dotted]
  have himported : Module.ofFile sampleWorkspace resolver
      { key := "b.py", language := .python } = pure { key := "b.py", dependencies := [] } := by
    unfold Module.ofFile
    rw [read_sample.2]
    simp [Parse.Engine.extract]
  unfold Module.discover
  simp only [Run.ends_bind, Run.ends_mk_pure, Run.ends_tell, Run.ends_pure]
  refine ⟨_, [], ⟨search_sample, rfl⟩, [".", "src"], [], ⟨?_, rfl⟩, sampleModules, [], ?_, (), _,
    rfl, rfl, rfl⟩
  · rw [importRoots_sample]
    rfl
  · show (List.mapM (Module.ofFile sampleWorkspace resolver) _).Ends _ _ _
    simp [himporter, himported, sampleModules]

lemma gather_sample : ∃ events, (Candidate.gather sampleWorkspace.files sampleOptions
    (Module.discover sampleWorkspace sampleOptions.search)).Ends [] sampleCandidates events := by
  have hkept : sampleModules.filter (fun entry => hasExtension none entry.key) = sampleModules := by
    decide +kernel
  have hcounts : sampleWorkspace.files.countEach ["a.py", "b.py"] =
      .ok [("a.py", 1), ("b.py", 0)] := by
    simp only [FileSystem.countEach, FileSystem.countLines, List.mapM_cons, List.mapM_nil,
      read_sample, except_bind_eq_ok, except_pure_eq_ok, Except.ok.injEq, exists_eq_left']
    decide +kernel
  have hfind := Module.ends_find.mpr ⟨by decide, sampleModules, _, discover_sample, hkept, rfl⟩
  exact ⟨_, Candidate.ends_gather.mpr ⟨sampleModules, _, _, hfind, hcounts, rfl, rfl⟩⟩

/-- The run over both files returns something. -/
lemma rankWorkspace_sample : ∃ ranked events,
    (rankWorkspace sampleWorkspace sampleOptions).result = (.ok ranked, events) ∧ ranked ≠ [] := by
  obtain ⟨between, hgather⟩ := gather_sample
  have hnonempty : sampleCandidates ≠ [] := List.ne_nil_of_length_pos (by decide +kernel)
  have hconverged :
      (Candidate.solve Settings.standard sampleCandidates).solution.converged = true := by
    decide +kernel
  obtain ⟨ranked, events, hends, hranked⟩ := exists_ends_rankModules hgather
    (Candidate.closed_of_ends_gather hgather) hnonempty hconverged
  exact ⟨ranked, events, Run.result_eq_ok.mpr hends, hranked⟩

/-! ## Conservation -/

/-- What a run returns depends on nothing outside: the keys are distinct, and the dependencies are
the edges between them. Over exact fractions the same candidates conserve weight: after every
iteration, and in the end, all weights are positive and sum to one. -/
theorem rankWorkspace_conserves {workspace : Workspace} {options : RunOptions}
    {ranked : List (Candidate Float)} {events : List Event}
    (hrun : (rankWorkspace workspace options).result = (.ok ranked, events))
    (hnonempty : ranked ≠ []) :
    Candidate.Closed ranked ∧
    (∀ candidate ∈ ranked, candidate.dependencies =
      candidate.edges.filter (· ∈ ranked.map Candidate.key)) ∧
    ∃ (candidates : List (Candidate ℚ)) (gathered : List Event),
      (Candidate.gather workspace.files options
        (Module.discover workspace options.search)).result = (.ok candidates, gathered) ∧
      (ranked.map Candidate.profile).Perm (candidates.map Candidate.profile) ∧
      ∀ settings : Settings ℚ, 0 ≤ settings.alpha → settings.alpha < 1 →
        (∀ count, Candidate.Whole (Candidate.withWeights (Candidate.link candidates)
          ((Network.ofCandidates (Candidate.link candidates)).iterate settings.alpha
            count).weights)) ∧
        Candidate.Whole (Candidate.solve settings candidates).candidates := by
  -- what was gathered over doubles is gathered over fractions as well
  obtain ⟨gathered, between, hgather, harranged⟩ :=
    exists_gather_of_ends_rankModules (Run.result_eq_ok.mp hrun)
  obtain ⟨candidates, hexact, hprofile⟩ := Candidate.exists_ends_gather (β := ℚ) hgather
  have hclosed := Candidate.closed_of_ends_gather hexact
  have hunlinked := Candidate.unlinked_of_ends_gather hexact
  have hperm := harranged (Candidate.closed_of_ends_gather hgather)
  rw [← hprofile] at hperm
  have hsome : candidates ≠ [] := by
    have hlength := hperm.length_eq
    rw [List.length_map, List.length_map] at hlength
    rw [← List.length_pos_iff] at hnonempty ⊢
    omega
  have hedges := Candidate.dependencies_of_ends_gather hexact
  refine ⟨Candidate.Closed.of_perm hperm hclosed,
    Candidate.dependencies_eq_of_perm hperm hedges, candidates, between, hexact, hperm,
    fun settings halpha halpha' => ⟨fun count => ?_, ?_⟩⟩
  · exact Candidate.whole_iterate_link hsome hunlinked hclosed halpha halpha' count
  · exact Candidate.whole_solve hsome hunlinked hclosed halpha halpha'

/-- The run over two files conserves weight at the settings of a ranking run. -/
theorem rankWorkspace_conserves_sample : ∃ ranked events,
    (rankWorkspace sampleWorkspace sampleOptions).result = (.ok ranked, events) ∧ ranked ≠ [] ∧
    Candidate.Closed ranked ∧
    ∃ candidates : List (Candidate ℚ),
      (ranked.map Candidate.profile).Perm (candidates.map Candidate.profile) ∧
      Candidate.Whole (Candidate.solve Settings.exact candidates).candidates := by
  obtain ⟨ranked, events, hrun, hnonempty⟩ := rankWorkspace_sample
  obtain ⟨hclosed, _, candidates, _, _, hperm, hwhole⟩ := rankWorkspace_conserves hrun hnonempty
  have halpha : 0 ≤ Settings.exact.alpha := by norm_num [Settings.exact]
  have halpha' : Settings.exact.alpha < 1 := by norm_num [Settings.exact]
  exact ⟨ranked, events, hrun, hnonempty, hclosed, candidates, hperm,
    (hwhole Settings.exact halpha halpha').2⟩

end ImportRank
