import ImportRank.Import.Recognizer
import Mathlib.Algebra.BigOperators.Group.List.Basic

/-!
# Repeated steps

A recognizer that repeats a step reads a list of things if each step reads the next of them. What is
kept from step to step is an invariant that has the things still to be read as a parameter; there
have to be as many steps as things. Main statement: `exists_steps`.
-/

namespace ImportRank.Recognizer

variable {α β σ : Type} {step : σ → Option (Option σ)} {invariant : List β → σ → Prop}

/-- There are at least as many steps in a text as things that each take up some of it. -/
lemma length_le_flatMap {text : β → List α} (htext : ∀ thing, text thing ≠ []) (things : List β) :
    things.length ≤ (things.flatMap text).length := by
  have hlengths : things.length ≤ (things.map fun thing => (text thing).length).sum := by
    rw [← List.length_map fun thing => (text thing).length]
    refine List.length_le_sum_of_one_le _ fun length hlength => ?_
    obtain ⟨thing, -, rfl⟩ := List.mem_map.mp hlength
    exact List.length_pos_iff.mpr (htext thing)
  rwa [List.length_flatMap]

theorem exists_steps (hdone : ∀ place, invariant [] place → step place = some none)
    (hstep : ∀ thing things place, invariant (thing :: things) place →
      ∃ next, step place = some (some next) ∧ invariant things next)
    {things : List β} {limit : List α} (hlimit : things.length ≤ limit.length) {place : σ}
    (hplace : invariant things place) :
    ∃ last, steps step limit place = some last ∧ invariant [] last := by
  induction things generalizing limit place with
  | nil =>
    refine ⟨place, ?_, hplace⟩
    cases limit with
    | nil => rfl
    | cons _ limit => rw [steps, hdone place hplace]
  | cons thing things ih =>
    obtain ⟨next, hnext, hinvariant⟩ := hstep thing things place hplace
    cases limit with
    | nil => exact absurd hlimit (Nat.not_succ_le_zero _)
    | cons _ limit =>
      obtain ⟨last, hlast, hdone⟩ := ih (Nat.le_of_succ_le_succ hlimit) hinvariant
      exact ⟨last, by rw [steps, hnext]; exact hlast, hdone⟩

end ImportRank.Recognizer
