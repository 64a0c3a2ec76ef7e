import ImportRank.Proofs.Rank.Profile
import ImportRank.Rank.Solver
import Mathlib.Data.Nat.Find
import Mathlib.Logic.Function.Iterate
import Mathlib.Tactic.Push

/-!
# The iterates a run goes through

A run of the solver stops at an iterate, whatever the arithmetic: it is the first whose change is
not above the tolerance, if the ceiling lets the run come that far, and the one at the ceiling
otherwise.
-/

namespace ImportRank.Network

variable {α : Type} [Arithmetic α]

/-- What equal weights have become after a number of iterations. -/
def iterate (network : Network α) (alpha : α) (count : ℕ) : Iterate α :=
  (network.next alpha)^[count] network.start

lemma iterate_zero (network : Network α) (alpha : α) : network.iterate alpha 0 = network.start :=
  rfl

lemma iterate_succ (network : Network α) (alpha : α) (count : ℕ) :
    network.iterate alpha (count + 1) = network.next alpha (network.iterate alpha count) :=
  Function.iterate_succ_apply' _ _ _

@[simp] lemma steps_iterate (network : Network α) (alpha : α) (count : ℕ) :
    (network.iterate alpha count).steps = count := by
  induction count with
  | zero => rfl
  | succ count ih => rw [iterate_succ, next, ih]

lemma weights_iterate_succ (network : Network α) (alpha : α) (count : ℕ) :
    (network.iterate alpha (count + 1)).weights =
      network.advance alpha (network.iterate alpha count).weights := by
  rw [iterate_succ]
  rfl

@[simp] lemma size_weights_iterate (network : Network α) (alpha : α) (count : ℕ) :
    (network.iterate alpha count).weights.size = network.length := by
  induction count with
  | zero => simp [iterate_zero, start]
  | succ count ih =>
    rw [weights_iterate_succ, size_advance, ih]

variable {network : Network α} {alpha epsilon : α}

/-- A run goes no further than an iterate whose change is small enough. -/
lemma settle_of_stop {now : Iterate α} {remaining : ℕ}
    (hstop : Arithmetic.less epsilon now.change = false) :
    network.settle alpha epsilon remaining now = { final := now, converged := true } := by
  rw [settle.eq_def, if_neg (by simp [hstop])]

/-- The run from an iterate stops at the first one on its way whose change is small enough. -/
lemma settle_of_first {now : Iterate α} {count remaining : ℕ} (hcount : count ≤ remaining)
    (hbefore : ∀ earlier < count,
      Arithmetic.less epsilon ((network.next alpha)^[earlier] now).change = true)
    (hstop : Arithmetic.less epsilon ((network.next alpha)^[count] now).change = false) :
    network.settle alpha epsilon remaining now =
      { final := (network.next alpha)^[count] now, converged := true } := by
  induction count generalizing now remaining with
  | zero =>
    rw [Function.iterate_zero_apply] at hstop ⊢
    exact settle_of_stop hstop
  | succ count ih =>
    obtain ⟨remaining, rfl⟩ := Nat.exists_eq_succ_of_ne_zero (by omega : remaining ≠ 0)
    have hnow : Arithmetic.less epsilon now.change = true := hbefore 0 (by omega)
    -- one step on, what is left is a run from the next iterate with one iteration less to go
    rw [settle, if_pos hnow, Function.iterate_succ_apply]
    refine ih (by omega) (fun earlier hearlier => ?_) hstop
    exact hbefore (earlier + 1) (by omega)

/-- The run stops at the ceiling when no change on its way is small enough. -/
lemma settle_of_ceiling {now : Iterate α} {remaining : ℕ}
    (hall : ∀ count ≤ remaining,
      Arithmetic.less epsilon ((network.next alpha)^[count] now).change = true) :
    network.settle alpha epsilon remaining now =
      { final := (network.next alpha)^[remaining] now, converged := false } := by
  induction remaining generalizing now with
  | zero =>
    have hnow : Arithmetic.less epsilon now.change = true := hall 0 (Nat.le_refl 0)
    rw [settle, if_pos hnow, Function.iterate_zero_apply]
  | succ remaining ih =>
    have hnow : Arithmetic.less epsilon now.change = true := hall 0 (by omega)
    rw [settle, if_pos hnow, Function.iterate_succ_apply]
    exact ih fun count hcount => hall (count + 1) (by omega)

/-- Among changes of which one is small enough there is a first such. -/
lemma exists_first_small (change : ℕ → α) {count : ℕ}
    (hsmall : Arithmetic.less epsilon (change count) = false) :
    ∃ first ≤ count, Arithmetic.less epsilon (change first) = false ∧
      ∀ earlier < first, Arithmetic.less epsilon (change earlier) = true := by
  classical
  have hexists : ∃ first, Arithmetic.less epsilon (change first) = false := ⟨count, hsmall⟩
  exact ⟨Nat.find hexists, Nat.find_le hsmall, Nat.find_spec hexists, fun earlier hearlier =>
    Bool.of_not_eq_false (Nat.find_min hexists hearlier)⟩

/-- A change within the ceiling that is small enough makes the run converge, there or before. -/
theorem settle_of_small {count ceiling : ℕ} (hcount : count ≤ ceiling)
    (hsmall : Arithmetic.less epsilon (network.iterate alpha count).change = false) :
    ∃ first ≤ count, Arithmetic.less epsilon (network.iterate alpha first).change = false ∧
      network.settle alpha epsilon ceiling network.start =
        { final := network.iterate alpha first, converged := true } := by
  obtain ⟨first, hfirst, hstop, hbefore⟩ :=
    exists_first_small (fun count => (network.iterate alpha count).change) hsmall
  exact ⟨first, hfirst, hstop, settle_of_first (Nat.le_trans hfirst hcount) hbefore hstop⟩

/-- A run ends at one of the iterates, and it converges where the change there is small enough. -/
theorem settle_eq_iterate (network : Network α) (alpha epsilon : α) (ceiling : ℕ) :
    ∃ count ≤ ceiling, network.settle alpha epsilon ceiling network.start =
      { final := network.iterate alpha count
        converged := !Arithmetic.less epsilon (network.iterate alpha count).change } := by
  by_cases hall : ∀ count ≤ ceiling,
      Arithmetic.less epsilon (network.iterate alpha count).change = true
  · refine ⟨ceiling, Nat.le_refl ceiling, ?_⟩
    rw [settle_of_ceiling hall, hall ceiling (Nat.le_refl ceiling)]
    rfl
  · push Not at hall
    obtain ⟨count, hcount, hsmall⟩ := hall
    have hsmall : Arithmetic.less epsilon (network.iterate alpha count).change = false :=
      Bool.of_not_eq_true hsmall
    obtain ⟨first, hfirst, hstop, hsettle⟩ := settle_of_small hcount hsmall
    exact ⟨first, Nat.le_trans hfirst hcount, by rw [hsettle, hstop]; rfl⟩

/-- Runs over two networks whose changes are the same end after as many steps and in the same
way. -/
theorem settle_of_same_changes {other : Network α} {now now' : Iterate α}
    (hchange : ∀ count, ((network.next alpha)^[count] now).change =
      ((other.next alpha)^[count] now').change) (epsilon : α) (remaining : ℕ) :
    ∃ count converged,
      network.settle alpha epsilon remaining now =
        { final := (network.next alpha)^[count] now, converged } ∧
      other.settle alpha epsilon remaining now' =
        { final := (other.next alpha)^[count] now', converged } := by
  have hnow : now.change = now'.change := hchange 0
  induction remaining generalizing now now' with
  | zero =>
    cases hless : Arithmetic.less epsilon now.change with
    | false => exact ⟨0, true, settle_of_stop hless, settle_of_stop (hnow ▸ hless)⟩
    | true =>
      refine ⟨0, false, ?_, ?_⟩
      · rw [settle, if_pos hless, Function.iterate_zero_apply]
      · rw [settle, if_pos (hnow ▸ hless), Function.iterate_zero_apply]
  | succ remaining ih =>
    cases hless : Arithmetic.less epsilon now.change with
    | false => exact ⟨0, true, settle_of_stop hless, settle_of_stop (hnow ▸ hless)⟩
    | true =>
      have hnext : ∀ count, ((network.next alpha)^[count] (network.next alpha now)).change =
          ((other.next alpha)^[count] (other.next alpha now')).change := fun count =>
        hchange (count + 1)
      obtain ⟨count, converged, hfirst, hsecond⟩ := ih hnext (hnext 0)
      refine ⟨count + 1, converged, ?_, ?_⟩
      · rw [settle, if_pos hless, hfirst, Function.iterate_succ_apply]
      · rw [settle, if_pos (hnow ▸ hless), hsecond, Function.iterate_succ_apply]

end ImportRank.Network

namespace ImportRank.Candidate

open Network

variable {α : Type} [Arithmetic α]

@[simp] lemma length_ofCandidates (candidates : List (Candidate α)) :
    (ofCandidates candidates).length = candidates.length := by
  simp [ofCandidates]

/-- The solver ends at an iterate of the linked network, and it has converged where the change of
that iterate is not above the tolerance. -/
lemma solution_solve (settings : Settings α) (candidates : List (Candidate α)) :
    ∃ count ≤ settings.ceiling, (solve settings candidates).solution =
      { final := (ofCandidates (link candidates)).iterate settings.alpha count
        converged := !Arithmetic.less settings.epsilon
          ((ofCandidates (link candidates)).iterate settings.alpha count).change } :=
  settle_eq_iterate _ _ _ _

/-- There is a weight for every candidate at the end. -/
lemma size_weights_solve (settings : Settings α) (candidates : List (Candidate α)) :
    (solve settings candidates).solution.final.weights.size = (link candidates).length := by
  obtain ⟨count, _, hsolution⟩ := solution_solve settings candidates
  rw [hsolution, size_weights_iterate, length_ofCandidates]

/-- The candidates that the solver returns carry the weights it ended at. -/
lemma weights_solve (settings : Settings α) (candidates : List (Candidate α)) :
    Candidate.weights (solve settings candidates).candidates =
      (solve settings candidates).solution.final.weights :=
  weights_withWeights (size_weights_solve settings candidates)

/-- The solver keeps what a steady view shows, candidate by candidate. -/
lemma map_solve {β : Type} {view : Candidate α → β} (hview : Steady view)
    (settings : Settings α) (candidates : List (Candidate α)) :
    (solve settings candidates).candidates.map view = candidates.map view := by
  rw [← map_link (fun candidate _ _ => hview candidate _ _ _) candidates]
  exact map_withWeights (size_weights_solve settings candidates) fun candidate _ =>
    hview candidate _ _ _

/-- The solver keeps the candidates, in their order. -/
theorem map_profile_solve (settings : Settings α) (candidates : List (Candidate α)) :
    (solve settings candidates).candidates.map profile = candidates.map profile :=
  map_solve steady_profile settings candidates

end ImportRank.Candidate
