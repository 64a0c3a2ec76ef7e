import ImportRank.Proofs.Rank.Convergence
import ImportRank.Proofs.Run.Conservation
import ImportRank.Proofs.Run.Failure

/-!
# The ceiling

The iterations that a run would take without a ceiling are its `Course`: from equal weights, each
step gives a change and other weights. The run ends where a change is not above the tolerance for
the first time. All that the ceiling decides is whether the run may come that far, whatever the
arithmetic is; if it may not, it stops at the ceiling, with the weights and the change reached
there.

Main statement: `weigh_by_ceiling`.
-/

namespace ImportRank.Candidate

open Network

variable {α : Type} [Arithmetic α] {candidates : List (Candidate α)} {alpha epsilon : α}
  {change : ℕ → α}

/-- What iterations make of candidates: linked and with equal weights at first, then step after
step, each with the change that it makes. -/
structure Course (alpha : α) (candidates : List (Candidate α)) (change : ℕ → α)
    (states : ℕ → List (Candidate α)) : Prop where
  change_zero : change 0 = Arithmetic.ofInt 1
  states_zero : states 0 = withWeights (link candidates)
    (Array.replicate candidates.length
      (Arithmetic.div (Arithmetic.ofInt 1) (Arithmetic.ofInt candidates.length)))
  step : ∀ count, step? alpha (states count) = some (change (count + 1), states (count + 1))

/-- The first change that is not above the tolerance. -/
structure SettlesAt (epsilon : α) (change : ℕ → α) (first : ℕ) : Prop where
  settled : Arithmetic.less epsilon (change first) = false
  before : ∀ count < first, Arithmetic.less epsilon (change count) = true

/-- What the solver returns where it ends after a number of iterations of a course. -/
def solvedAt (change : ℕ → α) (states : ℕ → List (Candidate α)) (count : ℕ) (converged : Bool) :
    Solved α :=
  { candidates := states count
    solution :=
      { final := { weights := weights (states count), steps := count, change := change count }
        converged } }

/-- The solver follows a course: it ends where the course settles if that is within the ceiling, and
at the ceiling otherwise. Once it has converged, a larger ceiling makes no difference. -/
structure Follows (alpha epsilon : α) (candidates : List (Candidate α)) (change : ℕ → α)
    (states : ℕ → List (Candidate α)) : Prop where
  within : ∀ ceiling, ∀ first ≤ ceiling, SettlesAt epsilon change first →
    solve ⟨alpha, epsilon, ceiling⟩ candidates = solvedAt change states first true
  beyond : ∀ ceiling, (∀ first ≤ ceiling, ¬ SettlesAt epsilon change first) →
    solve ⟨alpha, epsilon, ceiling⟩ candidates = solvedAt change states ceiling false
  larger : ∀ ceiling larger, ceiling ≤ larger →
    (solve ⟨alpha, epsilon, ceiling⟩ candidates).solution.converged = true →
    solve ⟨alpha, epsilon, larger⟩ candidates = solve ⟨alpha, epsilon, ceiling⟩ candidates

/-- On doubles, weighing ends in the candidates of a course where it settles within the ceiling, and
otherwise it fails with the number of iterations and the change reached at the ceiling. -/
structure Reports (alpha epsilon : Float) (candidates : List (Candidate Float)) (change : ℕ → Float)
    (states : ℕ → List (Candidate Float)) : Prop where
  within : ∀ before ceiling, ∀ first ≤ ceiling, SettlesAt epsilon change first →
    (weigh ⟨alpha, epsilon, ceiling⟩ candidates).Ends before (states first)
      (before ++ [.converged first (change first)])
  beyond : ∀ before ceiling, (∀ first ≤ ceiling, ¬ SettlesAt epsilon change first) →
    (weigh ⟨alpha, epsilon, ceiling⟩ candidates).Fails before
      (.convergence ceiling (change ceiling))

/-! ## Settling -/

/-- A course that has not settled up to some point has had changes above the tolerance alone. -/
lemma less_of_not_settlesAt {ceiling : ℕ}
    (hnever : ∀ first ≤ ceiling, ¬ SettlesAt epsilon change first) {count : ℕ}
    (hcount : count ≤ ceiling) : Arithmetic.less epsilon (change count) = true := by
  by_contra hsettled
  obtain ⟨first, hfirst, hstop, hbefore⟩ :=
    exists_first_small change (Bool.of_not_eq_true hsettled)
  exact hnever first (hfirst.trans hcount) ⟨hstop, hbefore⟩

/-! ## The course of a run -/

/-- The candidates with the weights of an iterate. -/
def stateAt (alpha : α) (candidates : List (Candidate α)) (count : ℕ) : List (Candidate α) :=
  withWeights (link candidates) ((ofCandidates (link candidates)).iterate alpha count).weights

lemma size_weights_linked (alpha : α) (candidates : List (Candidate α)) (count : ℕ) :
    ((ofCandidates (link candidates)).iterate alpha count).weights.size =
      (link candidates).length := by
  rw [size_weights_iterate, length_ofCandidates]

/-- The iterates of the linked network are the steps of a course. -/
theorem course_iterate (hnonempty : candidates ≠ []) (alpha : α) :
    Course alpha candidates
      (fun count => ((ofCandidates (link candidates)).iterate alpha count).change)
      (stateAt alpha candidates) where
  change_zero := rfl
  states_zero := by
    simp [stateAt, iterate_zero, start, link]
  step := step?_iterate hnonempty alpha

/-- The solver ends at the iterate that its network settles at. -/
lemma solve_eq_solvedAt {ceiling count : ℕ} {converged : Bool}
    (hsettle : (ofCandidates (link candidates)).settle alpha epsilon ceiling
        (ofCandidates (link candidates)).start =
      { final := (ofCandidates (link candidates)).iterate alpha count, converged }) :
    solve ⟨alpha, epsilon, ceiling⟩ candidates = solvedAt
      (fun count => ((ofCandidates (link candidates)).iterate alpha count).change)
      (stateAt alpha candidates) count converged := by
  have hweights : weights (stateAt alpha candidates count) =
      ((ofCandidates (link candidates)).iterate alpha count).weights :=
    weights_withWeights (size_weights_linked alpha candidates count)
  set reached := (ofCandidates (link candidates)).iterate alpha count
  have hreached :
      reached = { weights := reached.weights, steps := count, change := reached.change } :=
    congrArg (Iterate.mk reached.weights · reached.change)
      (steps_iterate (ofCandidates (link candidates)) alpha count)
  rw [solve, hsettle, solvedAt, hweights, ← hreached]
  rfl

/-- So the solver follows the course of the iterates. -/
theorem follows_iterate (candidates : List (Candidate α)) (alpha epsilon : α) :
    Follows alpha epsilon candidates
      (fun count => ((ofCandidates (link candidates)).iterate alpha count).change)
      (stateAt alpha candidates) := by
  have hwithin : ∀ ceiling, ∀ first ≤ ceiling,
      SettlesAt epsilon
        (fun count => ((ofCandidates (link candidates)).iterate alpha count).change) first →
      solve ⟨alpha, epsilon, ceiling⟩ candidates =
        solvedAt _ (stateAt alpha candidates) first true :=
    fun ceiling first hfirst hsettles =>
      solve_eq_solvedAt (settle_of_first hfirst hsettles.before hsettles.settled)
  have hbeyond : ∀ ceiling, (∀ first ≤ ceiling, ¬ SettlesAt epsilon
        (fun count => ((ofCandidates (link candidates)).iterate alpha count).change) first) →
      solve ⟨alpha, epsilon, ceiling⟩ candidates =
        solvedAt _ (stateAt alpha candidates) ceiling false :=
    fun ceiling hnever => solve_eq_solvedAt
      (settle_of_ceiling fun count hcount => less_of_not_settlesAt hnever hcount)
  refine ⟨hwithin, hbeyond, fun ceiling larger hlarger hconverged => ?_⟩
  by_cases hsettles : ∃ first ≤ ceiling, SettlesAt epsilon
      (fun count => ((ofCandidates (link candidates)).iterate alpha count).change) first
  · obtain ⟨first, hfirst, hsettles⟩ := hsettles
    rw [hwithin ceiling first hfirst hsettles,
      hwithin larger first (hfirst.trans hlarger) hsettles]
  · push Not at hsettles
    rw [hbeyond ceiling hsettles] at hconverged
    exact absurd hconverged Bool.false_ne_true

/-! ## Reports -/

lemma Follows.reports {alpha epsilon : Float} {candidates : List (Candidate Float)}
    {change : ℕ → Float} {states : ℕ → List (Candidate Float)} (hnonempty : candidates ≠ [])
    (hfollows : Follows alpha epsilon candidates change states) :
    Reports alpha epsilon candidates change states := by
  refine ⟨fun before ceiling first hfirst hsettles => ?_, fun before ceiling hnever => ?_⟩
  · unfold weigh
    rw [if_neg (by simpa using hnonempty), hfollows.within ceiling first hfirst hsettles]
    simp only [solvedAt, if_true, Run.ends_bind, Run.ends_tell, Run.ends_pure]
    exact ⟨(), _, rfl, trivial, rfl⟩
  · unfold weigh
    rw [if_neg (by simpa using hnonempty), hfollows.beyond ceiling hnever]
    exact Run.fails_throw.mpr rfl

/-- Whatever the arithmetic, the ceiling only decides whether the run may come to where its course
settles: if it may, the run ends there in the weights of that iterate, and with any larger ceiling
in the same; if it may not, it stops at the ceiling with the weights left there. On doubles the
first is told with the iterations it took, and the second is an error that carries the ceiling and
the change reached at it. -/
theorem weigh_by_ceiling :
    (∀ {α : Type} [Arithmetic α] {candidates : List (Candidate α)}, candidates ≠ [] →
      ∀ alpha epsilon : α, ∃ change states,
        Course alpha candidates change states ∧ Follows alpha epsilon candidates change states) ∧
    ∀ {candidates : List (Candidate Float)}, candidates ≠ [] →
      ∀ alpha epsilon : Float, ∃ change states,
        Course alpha candidates change states ∧ Follows alpha epsilon candidates change states ∧
          Reports alpha epsilon candidates change states :=
  ⟨fun hnonempty alpha epsilon =>
    ⟨_, _, course_iterate hnonempty alpha, follows_iterate _ alpha epsilon⟩,
    fun hnonempty alpha epsilon =>
      ⟨_, _, course_iterate hnonempty alpha, follows_iterate _ alpha epsilon,
        (follows_iterate _ alpha epsilon).reports hnonempty⟩⟩

lemma fst_step?_sample :
    (step? 0 (withWeights (link sampleUnlinked) (Array.replicate 3 (1 / 3)))).map Prod.fst =
      some 0 := by
  decide +kernel

/-- Without damping nothing moves in the first iteration. With a ceiling of one the sample converges
at the ceiling, and with a ceiling of zero it does not come so far. -/
theorem weigh_by_ceiling_sample :
    sampleUnlinked ≠ [] ∧
    (solve ⟨0, 1 / 2, 1⟩ sampleUnlinked).solution.converged = true ∧
    (solve ⟨0, 1 / 2, 1⟩ sampleUnlinked).solution.final.steps = 1 ∧
    (solve ⟨0, 1 / 2, 0⟩ sampleUnlinked).solution.converged = false ∧
    (solve ⟨0, 1 / 2, 0⟩ sampleUnlinked).solution.final.change = 1 := by
  have hnonempty : sampleUnlinked ≠ [] := by simp [sampleUnlinked]
  obtain ⟨change, states, hcourse, hfollows⟩ := weigh_by_ceiling.1 hnonempty 0 (1 / 2 : ℚ)
  have hstart : change 0 = 1 := hcourse.change_zero
  have hfirst : change 1 = 0 := by
    have hstep := congrArg (Option.map Prod.fst) (hcourse.step 0)
    rw [hcourse.states_zero] at hstep
    exact (Option.some.inj (fst_step?_sample.symm.trans hstep)).symm
  have habove : Arithmetic.less (1 / 2) (change 0) = true := by
    rw [hstart]
    norm_num
  have hsettles : SettlesAt (1 / 2) change 1 := by
    refine ⟨by rw [hfirst]; norm_num, fun count hcount => ?_⟩
    obtain rfl : count = 0 := by omega
    exact habove
  have hnever : ∀ first ≤ 0, ¬ SettlesAt (1 / 2) change first := by
    rintro first hfirst hsettles
    obtain rfl : first = 0 := by omega
    exact Bool.false_ne_true (hsettles.settled.symm.trans habove)
  rw [hfollows.within 1 1 le_rfl hsettles, hfollows.beyond 0 hnever]
  exact ⟨hnonempty, rfl, rfl, rfl, hstart⟩

end ImportRank.Candidate
