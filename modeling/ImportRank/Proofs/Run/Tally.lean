import ImportRank.Proofs.Rank.Dependents
import ImportRank.Proofs.Run.Ranking

/-!
# Imports against dependencies

A run drops modules by their extension, it drops entries from the dependencies of those it keeps,
and it counts dependents over all imports, dropped or not. The three agree: between two candidates
of a run there are as many imports as there are dependencies, so that the number of dependents of a
candidate is the number of dependencies on it that other candidates have. That is the main
statement, `rankModules_tallies`. It rests on modules and entries being kept by the same extensions:
candidates that are built from modules of other extensions need not have the property.
-/

namespace ImportRank

namespace Candidate

variable {α : Type}

/-- The candidates are of some modules, and what their modules import among them is what they
depend on among them; their dependents are counted. -/
structure Tallied (modules : List Module) (candidates : List (Candidate α)) : Prop where
  nodup_keys : (candidates.map Candidate.key).Nodup
  exists_module : ∀ source ∈ candidates, ∃ entry ∈ modules,
    entry.key = source.key ∧ entry.dependencies.map Dependency.target = source.edges
  count_edges : ∀ source ∈ candidates, ∀ target ∈ candidates,
    source.edges.count target.key = source.dependencies.count target.key
  dependents_eq : ∀ target ∈ candidates,
    target.dependents = namings Candidate.dependencies candidates target.key

/-! ## Candidates of kept modules -/

section OfModules

variable [Arithmetic α] {extensions : Option (List String)} {lines : String → ℕ}
  {modules : List Module} {candidate : Candidate α}

/-- A key with a wanted extension is depended on as often as it is imported. -/
lemma count_dependencies_ofModules
    (hcandidate : candidate ∈ (ofModules extensions lines modules : List (Candidate α)))
    {key : String} (hkey : hasExtension extensions key = true) :
    candidate.edges.count key = candidate.dependencies.count key := by
  obtain ⟨entry, _, hsame⟩ := exists_ofModule_of_mem hcandidate
  rw [hsame]
  exact (List.count_filter hkey).symm

/-- The dependents of a candidate are the imports that name it. -/
lemma dependents_ofModules (hdistinct : (modules.map Module.key).Nodup)
    (hcandidate : candidate ∈ (ofModules extensions lines modules : List (Candidate α))) :
    candidate.dependents = namings Candidate.edges
      (ofModules extensions lines modules : List (Candidate α)) candidate.key := by
  set built : List (Candidate α) :=
    modules.map fun entry => ofModule extensions (lines entry.key) entry with hbuilt
  have hkeys : (built.map Candidate.key).Nodup := by
    rw [hbuilt, List.map_map]
    exact hdistinct
  have hfresh : ∀ other ∈ built, other.dependents = 0 := by
    intro other hother
    obtain ⟨entry, _, rfl⟩ := List.mem_map.mp hother
    rfl
  have hnamings : ∀ key : String,
      namings Candidate.edges (countDependents built) key = namings Candidate.edges built key :=
    fun key => congrArg List.sum (map_countDependents (fun _ _ => rfl) built)
  have hcounted : candidate ∈ countDependents built := hcandidate
  show candidate.dependents = namings Candidate.edges (countDependents built) candidate.key
  rw [countDependents_eq_map hkeys] at hcounted
  obtain ⟨other, hother, rfl⟩ := List.mem_map.mp hcounted
  rw [hnamings]
  simp only [hfresh other hother, zero_add]

/-- Modules that are all of the wanted extensions make candidates that tally. -/
theorem tallied_ofModules (hdistinct : (modules.map Module.key).Nodup)
    (hwanted : ∀ entry ∈ modules, hasExtension extensions entry.key = true) :
    Tallied modules (ofModules extensions lines modules : List (Candidate α)) := by
  have hkept : ∀ target ∈ (ofModules extensions lines modules : List (Candidate α)),
      hasExtension extensions target.key = true := by
    intro target htarget
    have hkey := List.mem_map_of_mem (f := Candidate.key) htarget
    rw [map_key_ofModules] at hkey
    obtain ⟨entry, hentry, hsame⟩ := List.mem_map.mp hkey
    exact hsame ▸ hwanted entry hentry
  constructor
  · rwa [map_key_ofModules]
  · intro source hsource
    obtain ⟨entry, hentry, hsame⟩ := exists_ofModule_of_mem hsource
    exact ⟨entry, hentry, (congrArg Candidate.key hsame).symm,
      (congrArg Candidate.edges hsame).symm⟩
  · intro source hsource target htarget
    exact count_dependencies_ofModules hsource (hkept target htarget)
  · intro target htarget
    rw [dependents_ofModules hdistinct htarget, Nat.cast_inj]
    -- the imports that name a kept candidate are the dependencies that do
    refine congrArg List.sum (List.map_congr_left fun source hsource => ?_)
    rw [count_dependencies_ofModules hsource (hkept target htarget)]

end OfModules

/-! ## Ranked candidates -/

/-- What a tally looks at: the profile of a candidate and its dependents. -/
def tally (candidate : Candidate α) : Profile × ℤ := (candidate.profile, candidate.dependents)

lemma steady_tally : Steady (tally (α := α)) := fun _ _ _ _ => rfl

lemma Tallied.of_modules {modules others : List Module} {candidates : List (Candidate α)}
    (htallied : Tallied modules candidates) (hsubset : modules ⊆ others) :
    Tallied others candidates :=
  { htallied with
    exists_module := fun source hsource =>
      let ⟨entry, hentry, hspec⟩ := htallied.exists_module source hsource
      ⟨entry, hsubset hentry, hspec⟩ }

/-- Whether candidates tally does not depend on their order or on what the solver writes. -/
theorem Tallied.of_perm {modules : List Module} {candidates others : List (Candidate α)}
    (htallied : Tallied modules candidates)
    (hperm : (others.map tally).Perm (candidates.map tally)) : Tallied modules others := by
  have hprofiles : (others.map profile).Perm (candidates.map profile) := by
    have hfirst := hperm.map Prod.fst
    rwa [List.map_map, List.map_map] at hfirst
  have hnamings : ∀ key, namings Candidate.dependencies others key =
      namings Candidate.dependencies candidates key := by
    intro key
    have hcounts := hprofiles.map fun source : Profile =>
      if source.key = key then 0 else source.dependencies.count key
    rw [List.map_map, List.map_map] at hcounts
    exact hcounts.sum_eq
  have hsame : ∀ other ∈ others, ∃ candidate ∈ candidates, candidate.tally = other.tally :=
    fun other hother => List.mem_map.mp (hperm.mem_iff.mp (List.mem_map_of_mem hother))
  constructor
  · exact (perm_keys hprofiles).nodup_iff.mpr htallied.nodup_keys
  · intro source hsource
    obtain ⟨candidate, hcandidate, htally⟩ := hsame source hsource
    obtain ⟨entry, hentry, hkey, hedges⟩ := htallied.exists_module candidate hcandidate
    have hprofile := congrArg Prod.fst htally
    exact ⟨entry, hentry, hkey.trans (congrArg Profile.key hprofile),
      hedges.trans (congrArg Profile.edges hprofile)⟩
  · intro source hsource target htarget
    obtain ⟨candidate, hcandidate, htally⟩ := hsame source hsource
    obtain ⟨wanted, hwanted, htally'⟩ := hsame target htarget
    have hkey : wanted.key = target.key := congrArg (fun tallied => tallied.1.key) htally'
    have hedges : candidate.edges = source.edges :=
      congrArg (fun tallied => tallied.1.edges) htally
    have hdependencies : candidate.dependencies = source.dependencies :=
      congrArg (fun tallied => tallied.1.dependencies) htally
    rw [← hkey, ← hedges, ← hdependencies]
    exact htallied.count_edges candidate hcandidate wanted hwanted
  · intro target htarget
    obtain ⟨candidate, hcandidate, htally⟩ := hsame target htarget
    have hkey : candidate.key = target.key := congrArg (fun tallied => tallied.1.key) htally
    have hdependents : candidate.dependents = target.dependents := congrArg Prod.snd htally
    rw [← hdependents, hnamings, ← hkey]
    exact htallied.dependents_eq candidate hcandidate

end Candidate

/-! ## Runs -/

section Run

variable {files : FileSystem} {options : RunOptions} {discover : List String → Run (List Module)}
  {modules : List Module} {told : List Event}

/-- What is gathered from modules with distinct keys tallies with them. -/
lemma tallied_of_ends_gather {α : Type} [Arithmetic α] {candidates : List (Candidate α)}
    {after : List Event} (hdiscover : (discover options.roots).result = (.ok modules, told))
    (hdistinct : (modules.map Module.key).Nodup)
    (hgather : (Candidate.gather files options discover).Ends [] candidates after) :
    Candidate.Tallied modules candidates := by
  obtain ⟨kept, _, counts, hfind, _, rfl, _⟩ := Candidate.ends_gather.mp hgather
  obtain ⟨_, found, between, hfound, rfl, _⟩ := Module.ends_find.mp hfind
  have hsame : found = modules := by
    have hboth := (Run.result_eq_ok.mpr hfound).symm.trans hdiscover
    simpa using congrArg Prod.fst hboth
  subst hsame
  have hkept : (found.filter fun entry =>
      hasExtension options.extensions entry.key).Sublist found := List.filter_sublist
  refine (Candidate.tallied_ofModules (hdistinct.sublist (hkept.map _)) ?_).of_modules hkept.subset
  exact fun entry hentry => (List.mem_filter.mp hentry).2

/-- Whatever modules with distinct keys a run is given, and whatever extensions it is asked for,
the imports between its candidates are the dependencies between them, and the dependents of a
candidate are the dependencies of the others that name it: when the candidates are made, and when
they are returned. -/
theorem rankModules_tallies (hdiscover : (discover options.roots).result = (.ok modules, told))
    (hdistinct : (modules.map Module.key).Nodup) :
    (∀ (candidates : List (Candidate Float)) (gathered : List Event),
      (Candidate.gather files options discover).result = (.ok candidates, gathered) →
        Candidate.Tallied modules candidates) ∧
    ∀ (ranked : List (Candidate Float)) (events : List Event),
      (rankModules files options discover).result = (.ok ranked, events) →
        Candidate.Tallied modules ranked := by
  constructor
  · intro candidates gathered hgather
    exact tallied_of_ends_gather hdiscover hdistinct (Run.result_eq_ok.mp hgather)
  · intro ranked events hrun
    obtain ⟨candidates, between, hgather, hperm⟩ :=
      exists_perm_of_ends_rankModules Candidate.steady_tally (Run.result_eq_ok.mp hrun)
    have htallied := tallied_of_ends_gather hdiscover hdistinct hgather
    exact htallied.of_perm (hperm htallied.nodup_keys)

end Run

/-- In the tangle, the file that is imported twice has two dependents: the import of a file that is
left out does not count. -/
theorem rankModules_tallies_sample :
    ∃ (candidates ranked : List (Candidate Float)) (gathered events : List Event),
      (Candidate.gather sampleWorkspace.files sampleOptions
        fun _ => pure tangledModules).result = (.ok candidates, gathered) ∧
      candidates.map (fun candidate => (candidate.key, candidate.dependents)) =
        [("a.py", 2), ("b.py", 1)] ∧
      Candidate.Tallied tangledModules candidates ∧
      (rankModules sampleWorkspace.files sampleOptions
        fun _ => pure tangledModules).result = (.ok ranked, events) ∧
      Candidate.Tallied tangledModules ranked := by
  obtain ⟨gathered, hgather⟩ := @Candidate.exists_ends_gather_ofKept [] [] sampleWorkspace.files
    sampleOptions (fun _ => pure tangledModules) tangledModules (by decide) rfl readable_tangled
  obtain ⟨events, hweigh⟩ := Candidate.exists_ends_weigh settles_tangled.converged gathered
  have hrun := ends_rankModules.mpr ⟨_, _, gathered, hgather, hweigh, rfl⟩
  obtain ⟨hcandidates, hranked⟩ := @rankModules_tallies sampleWorkspace.files sampleOptions
    (fun _ => pure tangledModules) tangledModules [] rfl (by decide)
  have hcounts : (Candidate.ofKept sampleWorkspace.files sampleOptions tangledModules).map
      (fun candidate => (candidate.key, candidate.dependents)) = [("a.py", 2), ("b.py", 1)] := by
    decide +kernel
  exact ⟨_, _, gathered, events, hgather, hcounts, hcandidates _ _ hgather, hrun,
    hranked _ _ hrun⟩

end ImportRank
