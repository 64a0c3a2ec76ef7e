import ImportRank.Proofs.Rank.Conservation
import ImportRank.Proofs.Rank.Relinking

/-!
# Histories of linking and ranking

Candidates are linked, ranked, taken an iteration on and given other weights, any number of times
and in any order. Only the number of linkings shows in their links, and however large it is, their
network creates no weight. So no history makes a ranking create weight. Main statement:
`performAll_compounds`.
-/

namespace ImportRank.Candidate

open Network

/-! ## Lists of candidates -/

/-- Candidates with distinct keys that have been linked together a number of times. -/
structure Relinked (count : ℕ) (candidates : List (Candidate ℚ)) : Prop where
  nodup_keys : (candidates.map key).Nodup
  lines_nonneg : ∀ candidate ∈ candidates, 0 ≤ candidate.lines
  linkedTimes : ∀ candidate ∈ candidates, candidate.LinkedTimes count

variable {count : ℕ} {candidates others : List (Candidate ℚ)}

lemma Unlinked.relinked (hunlinked : Unlinked candidates) : Relinked 0 candidates := by
  refine ⟨hunlinked.nodup_keys, hunlinked.lines_nonneg, fun candidate hcandidate => ?_⟩
  have hlinks := hunlinked.links_eq_nil candidate hcandidate
  refine ⟨?_, by simp [hlinks], fun key => ?_⟩
  · rw [hunlinked.outbound_eq_zero candidate hcandidate, Nat.cast_zero, zero_mul]
  · rw [linkTo, hlinks, compounded, zero_mul, valueAt_nil]

lemma Relinked.link (hrelinked : Relinked count candidates) :
    Relinked (count + 1) (link candidates) := by
  refine ⟨by rw [map_key_link]; exact hrelinked.nodup_keys, ?_, ?_⟩
  all_goals
    rw [link_eq_map hrelinked.nodup_keys]
    refine List.forall_mem_map.mpr fun candidate hcandidate => ?_
  · rw [lines_linked]
    exact hrelinked.lines_nonneg candidate hcandidate
  · exact (hrelinked.linkedTimes candidate hcandidate).linked
      (hrelinked.lines_nonneg candidate hcandidate)

/-- The candidate without its weight. -/
def unweighed (candidate : Candidate ℚ) : Candidate ℚ := { candidate with weight := 0 }

lemma eq_reweighed_of_unweighed_eq {a b : Candidate ℚ} (hsame : a.unweighed = b.unweighed) :
    b = { a with weight := b.weight } := by
  cases a
  cases b
  simp only [unweighed, Candidate.mk.injEq] at hsame ⊢
  simp [hsame]

/-- Weights make no difference to how often candidates have been linked. -/
lemma Relinked.of_unweighed (hrelinked : Relinked count candidates)
    (hsame : others.map unweighed = candidates.map unweighed) : Relinked count others := by
  have hkeys := congrArg (List.map key) hsame
  rw [List.map_map, List.map_map] at hkeys
  have hexists : ∀ other ∈ others, ∃ candidate ∈ candidates,
      other = { candidate with weight := other.weight } := by
    intro other hother
    obtain ⟨candidate, hcandidate, heq⟩ :=
      List.mem_map.mp (hsame ▸ List.mem_map_of_mem (f := unweighed) hother)
    exact ⟨candidate, hcandidate, eq_reweighed_of_unweighed_eq heq⟩
  refine ⟨hkeys ▸ hrelinked.nodup_keys, fun other hother => ?_, fun other hother => ?_⟩
  all_goals
    obtain ⟨candidate, hcandidate, heq⟩ := hexists other hother
    rw [heq]
  · exact hrelinked.lines_nonneg candidate hcandidate
  · have htimes := hrelinked.linkedTimes candidate hcandidate
    exact ⟨htimes.outbound_eq, htimes.targets_eq, htimes.linkTo_eq⟩

/-- However often candidates have been linked, their network creates no weight. -/
theorem Relinked.substochastic (hrelinked : Relinked (count + 1) candidates) :
    (ofCandidates candidates).Substochastic := by
  refine substochastic_ofCandidates (fun candidate hcandidate link hlink => ?_)
    fun candidate hcandidate => ?_
  all_goals
    have htimes := hrelinked.linkedTimes candidate hcandidate
    have houtlay := outlay_eq_zero_or_one_le (hrelinked.lines_nonneg candidate hcandidate)
  · rw [htimes.value_eq link hlink]
    rcases houtlay with hzero | hone
    · rw [hzero, compounded_zero_outlay, zero_mul]
    · exact mul_nonneg (compounded_mem hone count).1.le (by positivity)
  · rw [htimes.sum_values, htimes.outbound_eq]
    rcases houtlay with hzero | hone
    · rw [hzero, compounded_zero_outlay, if_pos (mul_zero _)]
    · have hpositive : ((count + 1 : ℕ) : ℚ) * candidate.outlay ≠ 0 := by positivity
      rw [if_neg hpositive]
      exact (compounded_mem hone count).2

/-! ## Histories -/

/-- What is done to candidates: they are linked, ranked, taken one iteration on, or given other
weights. -/
inductive Operation where
  | link
  | rank (settings : Settings ℚ)
  | advance (alpha : ℚ)
  | weigh (weight : String → ℚ)

/-- What an operation leaves of the candidates. An iteration without candidates is refused, and a
ranking that stops at its ceiling keeps the weights it has reached. -/
def perform (candidates : List (Candidate ℚ)) : Operation → List (Candidate ℚ)
  | .link => Candidate.link candidates
  | .rank settings => (solve settings candidates).candidates
  | .advance alpha => ((step? alpha candidates).map Prod.snd).getD candidates
  | .weigh weight =>
    candidates.map fun candidate => { candidate with weight := weight candidate.key }

/-- What a history of operations leaves of the candidates. -/
def performAll (candidates : List (Candidate ℚ)) (operations : List Operation) :
    List (Candidate ℚ) :=
  operations.foldl perform candidates

/-- How often an operation links the candidates: a ranking does so before its first iteration. -/
def Operation.linkings : Operation → ℕ
  | .link => 1
  | .rank _ => 1
  | .advance _ => 0
  | .weigh _ => 0

/-- How often a history links the candidates. -/
def linkings (operations : List Operation) : ℕ := (operations.map Operation.linkings).sum

/-- Each operation links as often as it counts, and does nothing else that is read here. -/
theorem Relinked.perform (hrelinked : Relinked count candidates) (operation : Operation) :
    Relinked (count + operation.linkings) (perform candidates operation) := by
  cases operation with
  | link => exact hrelinked.link
  | rank settings =>
    refine hrelinked.link.of_unweighed ?_
    exact map_withWeights (size_weights_solve settings candidates) fun _ _ => rfl
  | advance alpha =>
    refine hrelinked.of_unweighed ?_
    rw [Candidate.perform, step?]
    split
    · rfl
    · exact map_withWeights (by simp [weights]) fun _ _ => rfl
  | weigh weight =>
    refine hrelinked.of_unweighed ?_
    rw [Candidate.perform, List.map_map]
    rfl

/-- So a history links as often as all its operations do. -/
theorem Relinked.performAll (hrelinked : Relinked count candidates)
    (operations : List Operation) :
    Relinked (count + linkings operations) (performAll candidates operations) := by
  induction operations generalizing count candidates with
  | nil => exact hrelinked
  | cons operation operations ih =>
    have hrest := ih (hrelinked.perform operation)
    rw [add_assoc] at hrest
    exact hrest

/-- No operation changes what a candidate is before anything links or weighs it. -/
lemma map_profile_performAll (candidates : List (Candidate ℚ)) (operations : List Operation) :
    (performAll candidates operations).map profile = candidates.map profile := by
  have hperform : ∀ (candidates : List (Candidate ℚ)) (operation : Operation),
      (perform candidates operation).map profile = candidates.map profile := by
    intro candidates operation
    cases operation with
    | link => exact map_link (fun _ _ _ => rfl) candidates
    | rank settings => exact map_profile_solve settings candidates
    | advance alpha =>
      rw [perform, step?]
      split
      · rfl
      · exact map_withWeights (by simp [weights]) fun _ _ => rfl
    | weigh weight =>
      rw [perform, List.map_map]
      rfl
  induction operations generalizing candidates with
  | nil => rfl
  | cons operation operations ih => exact (ih _).trans (hperform candidates operation)

/-- Whatever has been done to candidates, the number of linkings alone decides what is on them: a
candidate with an outlay has put it out once for each linking, and its links are the portions of its
distinct targets, scaled by one share; a candidate without an outlay has nothing. So a ranking after
any history, whether it converges or stops at its ceiling, leaves no weight negative and a sum of at
most one. -/
theorem performAll_compounds (hunlinked : Unlinked candidates) (operations : List Operation) :
    (performAll candidates operations).map profile = candidates.map profile ∧
    (0 < linkings operations → ∀ candidate ∈ performAll candidates operations,
      (0 < candidate.outlay →
        candidate.outbound = linkings operations * candidate.outlay ∧
        candidate.links.map Prod.fst = distinct candidate.dependencies ∧
        (∀ link ∈ candidate.links, link.2.value =
          compounded candidate.outlay (linkings operations) *
            candidate.dependencies.count link.1 / candidate.dependencies.length) ∧
        0 < compounded candidate.outlay (linkings operations) ∧
        compounded candidate.outlay (linkings operations) ≤ 1 ∧
        compounded candidate.outlay 1 = 1 ∧
        ∀ count, compounded candidate.outlay (count + 1) =
          (compounded candidate.outlay count + candidate.outlay) /
            ((count + 1) * candidate.outlay)) ∧
      (candidate.outlay = 0 →
        candidate.outbound = 0 ∧ ∀ link ∈ candidate.links, link.2.value = 0)) ∧
    ∀ settings : Settings ℚ, 0 ≤ settings.alpha → settings.alpha ≤ 1 →
      Contained (solve settings (performAll candidates operations)).candidates := by
  have hrelinked := hunlinked.relinked.performAll operations
  rw [zero_add] at hrelinked
  refine ⟨map_profile_performAll candidates operations, fun hlinked candidate hcandidate => ?_,
    fun settings halpha halpha' => ?_⟩
  · obtain ⟨count, hcount⟩ := Nat.exists_eq_add_of_le' hlinked
    rw [hcount] at hrelinked ⊢
    have htimes := hrelinked.linkedTimes candidate hcandidate
    have htargets := htimes.targets_eq
    rw [if_neg (Nat.succ_ne_zero count)] at htargets
    constructor
    · intro hpositive
      have hone := (outlay_eq_zero_or_one_le
        (hrelinked.lines_nonneg candidate hcandidate)).resolve_left hpositive.ne'
      obtain ⟨hshare, hshare'⟩ := compounded_mem hone count
      refine ⟨htimes.outbound_eq, htargets, fun link hlink => ?_, hshare, hshare',
        compounded_one hpositive, fun count => rfl⟩
      rw [htimes.value_eq link hlink, mul_div_assoc]
    · intro hzero
      refine ⟨by rw [htimes.outbound_eq, hzero, mul_zero], fun link hlink => ?_⟩
      rw [htimes.value_eq link hlink, hzero, compounded_zero_outlay, zero_mul]
  · exact contained_solve hrelinked.nodup_keys hrelinked.link.substochastic halpha halpha'

/-- A ranking between two other linkings, with weights that are set and moved on in between. -/
def sampleHistory : List Operation :=
  [.link, .advance (1 / 2), .rank Settings.exact, .weigh fun _ => 7, .link]

/-- The first file of the sample, with three lines and four dependencies, after this history. -/
theorem performAll_compounds_sample :
    Unlinked sampleUnlinked ∧ linkings sampleHistory = 3 ∧
    (∃ candidate ∈ performAll sampleUnlinked sampleHistory, candidate.key = "a.py" ∧
      candidate.outbound = 36 ∧
      candidate.links.map Prod.fst = ["b.py", "a.py", "gone.py"] ∧
      ∀ link ∈ candidate.links, link.2.value =
        301 / 864 * candidate.dependencies.count link.1 / 4) ∧
    Contained (solve Settings.exact (performAll sampleUnlinked sampleHistory)).candidates := by
  have hlinkings : linkings sampleHistory = 3 := rfl
  obtain ⟨hprofiles, hcompounds, hcontained⟩ :=
    performAll_compounds unlinked_sample sampleHistory
  have hfirst : { key := "a.py", edges := [], lines := 3
                  dependencies := ["b.py", "a.py", "b.py", "gone.py"] } ∈
      (performAll sampleUnlinked sampleHistory).map profile := by
    rw [hprofiles]
    exact List.mem_cons_self
  obtain ⟨candidate, hcandidate, hprofile⟩ := List.mem_map.mp hfirst
  simp only [profile, Profile.mk.injEq] at hprofile
  obtain ⟨hkey, _, hlines, hdependencies⟩ := hprofile
  have houtlay : candidate.outlay = 12 := by
    norm_num [outlay, hlines, hdependencies]
  have hthird : compounded 12 3 = 301 / 864 := by norm_num [compounded]
  obtain ⟨houtbound, htargets, hvalues, _⟩ :=
    (hcompounds (by rw [hlinkings]; decide) candidate hcandidate).1 (by rw [houtlay]; norm_num)
  rw [houtlay, hlinkings] at houtbound hvalues
  rw [hdependencies] at htargets
  refine ⟨unlinked_sample, hlinkings, ⟨candidate, hcandidate, hkey, ?_, ?_, fun link hlink => ?_⟩,
    hcontained Settings.exact ?_ ?_⟩
  · rw [houtbound]
    norm_num
  · rw [htargets]
    decide
  · rw [hvalues link hlink, hthird, hdependencies]
    rfl
  · norm_num [Settings.exact]
  · norm_num [Settings.exact]

end ImportRank.Candidate
