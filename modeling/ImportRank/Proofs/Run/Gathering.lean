import ImportRank.Proofs.Rank.LinkedNetwork
import ImportRank.Proofs.Run.Discovery

/-!
# What a run gathers

The candidates that a run gathers are closed: a module is dropped by its extension, and so is every
dependency on it. No solver has touched them, and what they are does not depend on the arithmetic
that they are to be solved in.
-/

namespace ImportRank

variable {before after : List Event}

/-- Finding keeps the discovered modules that have a wanted extension. -/
theorem Module.ends_find {discover : List String → Run (List Module)} {roots : List String}
    {extensions : Option (List String)} {modules : List Module} :
    (Module.find discover roots extensions).Ends before modules after ↔
      roots ≠ [] ∧ ∃ found between, (discover roots).Ends before found between ∧
        found.filter (fun entry => hasExtension extensions entry.key) = modules ∧
        between ++ [.kept modules.length found.length] = after := by
  unfold Module.find keepWanted
  split
  · rename_i hnone
    simp only [Run.ends_bind, Run.not_ends_throw, false_and, exists_false, false_iff, not_and]
    exact fun hsome => absurd (List.isEmpty_iff.mp hnone) hsome
  · rename_i hsome
    simp only [Run.ends_bind, Run.ends_tell, Run.ends_pure]
    constructor
    · rintro ⟨found, between, hfound, _, _, rfl, rfl, hafter⟩
      exact ⟨by simpa using hsome, found, between, hfound, rfl, hafter⟩
    · rintro ⟨_, found, between, hfound, rfl, hafter⟩
      exact ⟨found, between, hfound, (), _, rfl, rfl, hafter⟩

namespace Candidate

variable {α β : Type} [Arithmetic α] [Arithmetic β]

/-- The candidates of modules, with a number of lines for every key. -/
def ofModules (extensions : Option (List String)) (lines : String → ℕ) (modules : List Module) :
    List (Candidate α) :=
  countDependents (modules.map fun entry => ofModule extensions (lines entry.key) entry)

/-- Gathering is finding modules, counting their lines and making candidates of them. -/
theorem ends_gather {files : FileSystem} {options : RunOptions}
    {discover : List String → Run (List Module)} {candidates : List (Candidate α)} :
    (gather files options discover).Ends before candidates after ↔
      ∃ modules between counts,
        (Module.find discover options.roots options.extensions).Ends before modules between ∧
        (if options.pooled then files.countInPool id (modules.map Module.key)
          else files.countEach (modules.map Module.key)) = .ok counts ∧
        ofModules options.extensions (fun key => (counts.lookup key).getD 0) modules = candidates ∧
        between ++ [.built modules.length] = after := by
  unfold gather build
  simp only [Run.ends_bind, Run.ends_mk_pure, Run.ends_tell, Run.ends_pure, List.length_map]
  constructor
  · rintro ⟨modules, between, hfind, counts, _, ⟨hcounts, rfl⟩, _, _, rfl, hvalue, hafter⟩
    exact ⟨modules, between, counts, hfind, hcounts, hvalue, hafter⟩
  · rintro ⟨modules, between, counts, hfind, hcounts, hvalue, hafter⟩
    exact ⟨modules, between, hfind, counts, between, ⟨hcounts, rfl⟩, (), _, rfl, hvalue, hafter⟩

/-! ## Candidates of modules -/

lemma map_profile_ofModules (extensions : Option (List String)) (lines : String → ℕ)
    (modules : List Module) :
    (ofModules extensions lines modules : List (Candidate α)).map profile =
      (ofModules extensions lines modules : List (Candidate β)).map profile := by
  unfold ofModules
  rw [map_countDependents (fun _ _ => rfl), map_countDependents (fun _ _ => rfl), List.map_map,
    List.map_map]
  rfl

lemma map_key_ofModules (extensions : Option (List String)) (lines : String → ℕ)
    (modules : List Module) :
    (ofModules extensions lines modules : List (Candidate α)).map Candidate.key =
      modules.map Module.key := by
  rw [ofModules, map_countDependents (fun _ _ => rfl), List.map_map]
  rfl

lemma ofModules_congr {extensions : Option (List String)} {lines others : String → ℕ}
    {modules : List Module}
    (hsame : ∀ key ∈ modules.map Module.key, lines key = others key) :
    (ofModules extensions lines modules : List (Candidate α)) =
      ofModules extensions others modules := by
  rw [ofModules, ofModules]
  congr 1
  refine List.map_congr_left fun entry hentry => ?_
  rw [hsame entry.key (List.mem_map_of_mem hentry)]

/-- Every candidate is that of a module, but for its dependents. -/
lemma exists_ofModule_of_mem {extensions : Option (List String)} {lines : String → ℕ}
    {modules : List Module} {candidate : Candidate α}
    (hmem : candidate ∈ ofModules extensions lines modules) :
    ∃ entry ∈ modules, candidate =
      { ofModule extensions (lines entry.key) entry with dependents := candidate.dependents } := by
  have hview := List.mem_map_of_mem
    (f := fun candidate : Candidate α => { candidate with dependents := 0 }) hmem
  rw [ofModules, map_countDependents (fun _ _ => rfl), List.map_map] at hview
  obtain ⟨entry, hentry, hsame⟩ := List.mem_map.mp hview
  refine ⟨entry, hentry, ?_⟩
  calc candidate
      = { ({ candidate with dependents := 0 } : Candidate α) with
          dependents := candidate.dependents } := rfl
    _ = _ := by rw [← hsame]; rfl

section Closed

variable {found : List Module} (hfound : Module.Closed found) (extensions : Option (List String))
  (lines : String → ℕ)

include hfound

/-- Modules are dropped by extension, and with a module go all dependencies on it and no others. -/
theorem dependencies_ofModules :
    ∀ candidate ∈ (ofModules extensions lines
      (found.filter fun entry => hasExtension extensions entry.key) : List (Candidate α)),
      candidate.dependencies = candidate.edges.filter (· ∈ (ofModules extensions lines
        (found.filter fun entry => hasExtension extensions entry.key) :
          List (Candidate α)).map Candidate.key) := by
  intro candidate hcandidate
  rw [map_key_ofModules]
  obtain ⟨entry, hentry, hsame⟩ := exists_ofModule_of_mem hcandidate
  rw [hsame]
  refine List.filter_congr fun target htarget => ?_
  obtain ⟨dependency, hdependency, rfl⟩ := List.mem_map.mp htarget
  have hin : dependency.target ∈ found.map Module.key :=
    hfound.target_mem entry (List.mem_filter.mp hentry).1 dependency hdependency
  -- every target is a module's key, and the filter on targets is the one on modules
  rw [Bool.eq_iff_iff, decide_eq_true_iff]
  constructor
  · intro hextension
    obtain ⟨other, hother, hkey⟩ := List.mem_map.mp hin
    rw [← hkey]
    exact List.mem_map_of_mem (List.mem_filter.mpr ⟨hother, hkey.symm ▸ hextension⟩)
  · intro hkept
    obtain ⟨other, hother, hkey⟩ := List.mem_map.mp hkept
    rw [← hkey]
    exact (List.mem_filter.mp hother).2

/-- So the candidates that are left are closed. -/
theorem closed_ofModules : Closed (ofModules extensions lines
    (found.filter fun entry => hasExtension extensions entry.key) : List (Candidate α)) := by
  constructor
  · rw [map_key_ofModules]
    exact hfound.nodup_keys.sublist (List.filter_sublist.map _)
  · intro candidate hcandidate target htarget
    rw [dependencies_ofModules hfound extensions lines candidate hcandidate] at htarget
    exact of_decide_eq_true (List.mem_filter.mp htarget).2

end Closed

/-- Candidates of modules are unlinked. -/
theorem unlinked_ofModules {extensions : Option (List String)} {lines : String → ℕ}
    {modules : List Module}
    (hclosed : Closed (ofModules extensions lines modules : List (Candidate ℚ))) :
    Unlinked (ofModules extensions lines modules) := by
  have hfresh : ∀ candidate ∈ (ofModules extensions lines modules : List (Candidate ℚ)),
      0 ≤ candidate.lines ∧ candidate.links = [] ∧ candidate.outbound = 0 := by
    intro candidate hcandidate
    obtain ⟨entry, _, hsame⟩ := exists_ofModule_of_mem hcandidate
    rw [hsame]
    exact ⟨Int.natCast_nonneg _, rfl, by simp [ofModule, fresh]⟩
  exact ⟨hclosed.nodup_keys, fun candidate hcandidate => (hfresh candidate hcandidate).1,
    fun candidate hcandidate => (hfresh candidate hcandidate).2.1,
    fun candidate hcandidate => (hfresh candidate hcandidate).2.2⟩

/-! ## Gathered candidates -/

/-- Whatever the arithmetic, the same candidates are gathered. -/
theorem exists_ends_gather {files : FileSystem} {options : RunOptions}
    {discover : List String → Run (List Module)} {candidates : List (Candidate α)}
    (hends : (gather files options discover).Ends before candidates after) :
    ∃ others : List (Candidate β), (gather files options discover).Ends before others after ∧
      others.map profile = candidates.map profile := by
  obtain ⟨modules, between, counts, hfind, hcounts, rfl, hafter⟩ := ends_gather.mp hends
  exact ⟨_, ends_gather.mpr ⟨modules, between, counts, hfind, hcounts, rfl, hafter⟩,
    map_profile_ofModules _ _ _⟩

variable {workspace : Workspace} {search : SearchOptions} {options : RunOptions}

/-- What a run gathers from files is closed. -/
theorem closed_of_ends_gather {candidates : List (Candidate α)}
    (hends : (gather workspace.files options (Module.discover workspace search)).Ends before
      candidates after) : Closed candidates := by
  obtain ⟨modules, _, counts, hfind, _, rfl, _⟩ := ends_gather.mp hends
  obtain ⟨_, found, _, hdiscover, rfl, _⟩ := Module.ends_find.mp hfind
  exact closed_ofModules (Module.closed_of_ends_discover hdiscover) _ _

/-- Its dependencies are the edges between the candidates. -/
theorem dependencies_of_ends_gather {candidates : List (Candidate α)}
    (hends : (gather workspace.files options (Module.discover workspace search)).Ends before
      candidates after) :
    ∀ candidate ∈ candidates, candidate.dependencies =
      candidate.edges.filter (· ∈ candidates.map Candidate.key) := by
  obtain ⟨modules, _, counts, hfind, _, rfl, _⟩ := ends_gather.mp hends
  obtain ⟨_, found, _, hdiscover, rfl, _⟩ := Module.ends_find.mp hfind
  exact dependencies_ofModules (Module.closed_of_ends_discover hdiscover) _ _

/-- And it is unlinked. -/
theorem unlinked_of_ends_gather {candidates : List (Candidate ℚ)}
    (hends : (gather workspace.files options (Module.discover workspace search)).Ends before
      candidates after) : Unlinked candidates := by
  have hclosed := closed_of_ends_gather hends
  obtain ⟨modules, _, counts, _, _, rfl, _⟩ := ends_gather.mp hends
  exact unlinked_ofModules hclosed

end Candidate

end ImportRank
