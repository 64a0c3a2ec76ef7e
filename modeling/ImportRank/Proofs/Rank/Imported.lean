import ImportRank.Proofs.Order.Grade
import ImportRank.Proofs.Order.Precedence
import ImportRank.Proofs.Rank.KeyedWeights

/-!
# Imported files outrank the others

In an iteration every key receives the same base, and on top of it what is passed on to it by name.
Since all weights are positive from the start, that is more than nothing exactly where a candidate
with lines depends on the key. This holds at whatever iterate a run stops, not only where it would
settle in the end. Main statement: `solve_lifts_imported`.
-/

namespace ImportRank

/-! ## What is passed on by name -/

namespace Outflow

variable {flows : List Outflow} {alpha : ℚ}

/-- What is passed on to a key by name of the weights after a number of steps. -/
def namedShare (flows : List Outflow) (alpha : ℚ) (steps : ℕ) (key : String) : ℚ :=
  (flows.map fun flow => flow.portion key * weightOf flows alpha steps flow.key).sum

/-- What every key receives from the weights of a number of steps, whoever names it. -/
def baseAfter (flows : List Outflow) (alpha : ℚ) (steps : ℕ) : ℚ :=
  alpha * (flows.map fun flow => (if flow.dangling then 1 / (flows.length : ℚ) else 0) *
    weightOf flows alpha steps flow.key).sum + (1 - alpha) / flows.length

/-- After a step a key has the base and the damped part of what it is passed on by name. -/
lemma weightOf_succ (flows : List Outflow) (alpha : ℚ) (steps : ℕ) (key : String) :
    weightOf flows alpha (steps + 1) key =
      alpha * namedShare flows alpha steps key + baseAfter flows alpha steps := by
  simp only [weightOf, reaching, add_mul, List.sum_map_add, namedShare, baseAfter]
  ring

section Positive

variable (hnonneg : ∀ flow ∈ flows, ∀ key, 0 ≤ flow.portion key) (halpha : 0 ≤ alpha)
  (halpha' : alpha < 1)

include hnonneg halpha halpha'

/-- A run that teleports leaves no key without weight. -/
lemma weightOf_pos (hnonempty : flows ≠ []) (steps : ℕ) (key : String) :
    0 < weightOf flows alpha steps key := by
  have hcount : (0 : ℚ) < flows.length := by exact_mod_cast List.length_pos_iff.mpr hnonempty
  induction steps generalizing key with
  | zero =>
    rw [weightOf]
    positivity
  | succ steps ih =>
    -- nobody passes on less than nothing, and the teleport share alone is positive
    have hpassed : 0 ≤ (flows.map fun flow => flow.reaching flows.length key *
        weightOf flows alpha steps flow.key).sum := by
      refine List.sum_nonneg (List.forall_mem_map.mpr fun flow hflow => ?_)
      have hreaching : 0 ≤ flow.reaching flows.length key := by
        refine add_nonneg (hnonneg flow hflow key) ?_
        split
        · positivity
        · rfl
      exact mul_nonneg hreaching (ih flow.key).le
    have hteleport : 0 < (1 - alpha) / flows.length := div_pos (by linarith) hcount
    rw [weightOf]
    linarith [mul_nonneg halpha hpassed]

/-- No source passes on less than nothing. -/
lemma passed_nonneg (steps : ℕ) (key : String) :
    ∀ amount ∈ flows.map (fun flow => flow.portion key * weightOf flows alpha steps flow.key),
      0 ≤ amount := by
  refine List.forall_mem_map.mpr fun flow hflow => ?_
  have hweight := weightOf_pos hnonneg halpha halpha' (List.ne_nil_of_mem hflow) steps flow.key
  exact mul_nonneg (hnonneg flow hflow key) hweight.le

/-- One source that names a key passes something on to it. -/
lemma namedShare_pos (steps : ℕ) {key : String}
    (hnamed : ∃ flow ∈ flows, 0 < flow.portion key) : 0 < namedShare flows alpha steps key := by
  obtain ⟨flow, hflow, hportion⟩ := hnamed
  have hweight := weightOf_pos hnonneg halpha halpha' (List.ne_nil_of_mem hflow) steps flow.key
  have hpart : 0 < flow.portion key * weightOf flows alpha steps flow.key :=
    mul_pos hportion hweight
  apply hpart.trans_le
  exact List.single_le_sum (passed_nonneg hnonneg halpha halpha' steps key) _
    (List.mem_map_of_mem hflow)

end Positive

/-- What no source names is passed on nothing. -/
lemma namedShare_eq_zero (steps : ℕ) {key : String}
    (hunnamed : ∀ flow ∈ flows, flow.portion key = 0) : namedShare flows alpha steps key = 0 := by
  refine List.sum_eq_zero (List.forall_mem_map.mpr fun flow hflow => ?_)
  rw [hunnamed flow hflow, zero_mul]

end Outflow

namespace Candidate

variable {candidates : List (Candidate ℚ)}

/-- A candidate with lines depends on a key. -/
def Imported (candidates : List (Candidate ℚ)) (target : String) : Prop :=
  ∃ source ∈ candidates, 0 < source.lines ∧ target ∈ source.dependencies

lemma portion_pos {source : Candidate ℚ} {target : String} (hlines : 0 < source.lines)
    (htarget : target ∈ source.dependencies) : 0 < source.portion target := by
  have hcount : (0 : ℚ) < source.dependencies.count target := by
    exact_mod_cast List.count_pos_iff.mpr htarget
  have hlength : (0 : ℚ) < source.dependencies.length := by
    exact_mod_cast List.length_pos_of_mem htarget
  rw [portion, if_pos hlines]
  positivity

/-- What is not imported is owed no portion. -/
lemma portion_eq_zero_of_not_imported {target : String} (hnot : ¬ Imported candidates target)
    {source : Candidate ℚ} (hsource : source ∈ candidates) : source.portion target = 0 := by
  by_cases hlines : 0 < source.lines
  · refine portion_of_notMem fun htarget => hnot ?_
    exact ⟨source, hsource, hlines, htarget⟩
  · rw [portion, if_neg hlines]

/-! ## Weights of a run that converged -/

section Converged

variable {settings : Settings ℚ}

/-- At a tolerance below one a run that converges has taken a step: before the first one the change
counts as one. -/
lemma exists_candidates_solve_eq (hunlinked : Unlinked candidates) (hepsilon : settings.epsilon < 1)
    (hconverged : (solve settings candidates).solution.converged = true) :
    ∃ steps, (solve settings candidates).candidates = candidates.map
      (weighed (Outflow.weightOf (candidates.map outflow) settings.alpha (steps + 1))) := by
  obtain ⟨count, _, hsolution⟩ := solution_solve settings candidates
  cases count with
  | zero =>
    -- a run that takes no step ends with the change it began with, which the tolerance is below
    simp [hsolution, Network.iterate_zero, Network.start] at hconverged
    linarith
  | succ steps =>
    refine ⟨steps, candidates_solve_eq hunlinked ?_⟩
    rw [hsolution, weights_iterate_link hunlinked]

variable (hunlinked : Unlinked candidates) (halpha : 0 < settings.alpha)
  (halpha' : settings.alpha < 1) (hepsilon : settings.epsilon < 1)
  (hconverged : (solve settings candidates).solution.converged = true)

include hunlinked halpha halpha' hepsilon hconverged

/-- The weights a run ends with are a base that all have in common and a surplus, which is positive
for what is imported and nothing for the rest. -/
theorem exists_base_of_converged :
    ∃ (base : ℚ) (surplus : String → ℚ),
      (∀ a ∈ (solve settings candidates).candidates, a.weight = base + surplus a.key) ∧
      (∀ target, Imported candidates target → 0 < surplus target) ∧
      ∀ target, ¬ Imported candidates target → surplus target = 0 := by
  obtain ⟨steps, hsolved⟩ := exists_candidates_solve_eq hunlinked hepsilon hconverged
  have hnonneg : ∀ flow ∈ candidates.map outflow, ∀ key, 0 ≤ flow.portion key := by
    intro flow hflow key
    obtain ⟨source, _, rfl⟩ := List.mem_map.mp hflow
    exact portion_nonneg source key
  refine ⟨Outflow.baseAfter (candidates.map outflow) settings.alpha steps,
    fun target => settings.alpha *
      Outflow.namedShare (candidates.map outflow) settings.alpha steps target, ?_, ?_, ?_⟩
  · rw [hsolved]
    refine List.forall_mem_map.mpr fun candidate _ => ?_
    rw [weighed, key_linked, Outflow.weightOf_succ, add_comm]
  · rintro target ⟨source, hsource, hlines, htarget⟩
    have hnamed : ∃ flow ∈ candidates.map outflow, 0 < flow.portion target :=
      ⟨source.outflow, List.mem_map_of_mem hsource, portion_pos hlines htarget⟩
    exact mul_pos halpha (Outflow.namedShare_pos hnonneg halpha.le halpha' steps hnamed)
  · intro target hnot
    have hunnamed : ∀ flow ∈ candidates.map outflow, flow.portion target = 0 :=
      List.forall_mem_map.mpr fun source hsource => portion_eq_zero_of_not_imported hnot hsource
    show settings.alpha * _ = 0
    rw [Outflow.namedShare_eq_zero steps hunnamed, mul_zero]

end Converged

/-! ## The order by rank -/

/-- In the order by rank the heavier of two candidates stands before the other. -/
lemma precedes_sort_of_weight_lt {a b : Candidate ℚ} (hb : b ∈ candidates)
    (hweight : a.weight < b.weight) :
    Standing.Precedes (standing.sort candidates) b a := by
  intro before after horder
  have hmem : b ∈ standing.sort candidates := (Standing.sort_perm candidates).mem_iff.mpr hb
  have hdescends := Standing.pairwise_sort (graded_exact candidates)
  rw [horder] at hmem hdescends
  rcases List.mem_append.mp hmem with hbefore | hrest
  · exact hbefore
  · -- standing at or after the lighter one, it would be no heavier
    have hle : b.grade ≤ a.grade := by
      rcases List.mem_cons.mp hrest with rfl | hafter
      · exact le_refl _
      · exact (List.pairwise_cons.mp (List.pairwise_append.mp hdescends).2.1).1 b hafter
    have hweight' : b.weight ≤ a.weight := Prod.Lex.monotone_fst _ _ hle
    exact absurd hweight hweight'.not_gt

/-- A run weighs the candidates it is given. Where it converges, a file that no file with lines
imports has the least weight there is, and a file that is imported, if only by itself, weighs more.
So in the order by rank all files that are imported stand before the others. -/
theorem solve_lifts_imported {settings : Settings ℚ} (hunlinked : Unlinked candidates)
    (halpha : 0 < settings.alpha) (halpha' : settings.alpha < 1) (hepsilon : settings.epsilon < 1)
    (hconverged : (solve settings candidates).solution.converged = true) :
    (solve settings candidates).candidates.map Candidate.key = candidates.map Candidate.key ∧
    (∀ a ∈ (solve settings candidates).candidates, ¬ Imported candidates a.key →
      ∀ b ∈ (solve settings candidates).candidates, a.weight ≤ b.weight) ∧
    (∀ b ∈ (solve settings candidates).candidates, Imported candidates b.key →
      ∀ a ∈ (solve settings candidates).candidates, ¬ Imported candidates a.key →
        a.weight < b.weight) ∧
    ∀ b ∈ (solve settings candidates).candidates, Imported candidates b.key →
      ∀ a ∈ (solve settings candidates).candidates, ¬ Imported candidates a.key →
        Standing.Precedes (standing.sort (solve settings candidates).candidates) b a := by
  obtain ⟨base, surplus, hweight, himported, hothers⟩ :=
    exists_base_of_converged hunlinked halpha halpha' hepsilon hconverged
  have hleast : ∀ target, 0 ≤ surplus target := by
    intro target
    by_cases htarget : Imported candidates target
    · exact (himported target htarget).le
    · exact (hothers target htarget).ge
  have hheavier : ∀ b ∈ (solve settings candidates).candidates, Imported candidates b.key →
      ∀ a ∈ (solve settings candidates).candidates, ¬ Imported candidates a.key →
        a.weight < b.weight := by
    intro b hb hbImported a ha haNot
    rw [hweight a ha, hweight b hb, hothers a.key haNot]
    linarith [himported b.key hbImported]
  refine ⟨map_solve (fun _ _ _ _ => rfl) settings candidates, ?_, hheavier, ?_⟩
  · intro a ha haNot b hb
    rw [hweight a ha, hweight b hb, hothers a.key haNot]
    linarith [hleast b.key]
  · intro b hb hbImported a ha haNot
    exact precedes_sort_of_weight_lt hb (hheavier b hb hbImported a ha haNot)

/-- In the sample the file that imports itself weighs more than the one that nothing imports. -/
theorem solve_lifts_imported_sample :
    Unlinked sampleUnlinked ∧ 0 < Settings.exact.alpha ∧ Settings.exact.alpha < 1 ∧
    Settings.exact.epsilon < 1 ∧
    (solve Settings.exact sampleUnlinked).solution.converged = true ∧
    Imported sampleUnlinked "a.py" ∧ ¬ Imported sampleUnlinked "c.py" ∧
    (solve Settings.exact sampleUnlinked).candidates.map Candidate.key =
      ["a.py", "b.py", "c.py"] ∧
    ∀ b ∈ (solve Settings.exact sampleUnlinked).candidates, b.key = "a.py" →
      ∀ a ∈ (solve Settings.exact sampleUnlinked).candidates, a.key = "c.py" →
        a.weight < b.weight ∧
        Standing.Precedes
          (standing.sort (solve Settings.exact sampleUnlinked).candidates) b a := by
  have halpha : 0 < Settings.exact.alpha := by norm_num [Settings.exact]
  have halpha' : Settings.exact.alpha < 1 := by norm_num [Settings.exact]
  have hepsilon : Settings.exact.epsilon < 1 := by norm_num [Settings.exact]
  have hconverged := (solve_exact (by simp [sampleUnlinked]) unlinked_sample).1
  have himported : Imported sampleUnlinked "a.py" := by
    simp [Imported, sampleUnlinked, fresh]
  have hnot : ¬ Imported sampleUnlinked "c.py" := by
    simp [Imported, sampleUnlinked, fresh]
  obtain ⟨hkeys, _, hheavier, hbefore⟩ :=
    solve_lifts_imported unlinked_sample halpha halpha' hepsilon hconverged
  refine ⟨unlinked_sample, halpha, halpha', hepsilon, hconverged, himported, hnot, hkeys, ?_⟩
  intro b hb hbKey a ha haKey
  rw [← hbKey] at himported
  rw [← haKey] at hnot
  exact ⟨hheavier b hb himported a ha hnot, hbefore b hb himported a ha hnot⟩

end Candidate

end ImportRank
