import ImportRank.Report.Event
import Mathlib.Data.List.Forall2

/-!
# Runs that end in a value

A run that ends in a value got through each of its parts. The lemmas here take such a run apart:
part by part, with the events told so far in between.
-/

namespace ImportRank

/-! ## Errors as values -/

section Except

variable {ε β γ : Type}

@[simp] lemma except_bind_eq_ok {first : Except ε β} {next : β → Except ε γ} {value : γ} :
    (first >>= next) = .ok value ↔ ∃ between, first = .ok between ∧ next between = .ok value := by
  cases first <;> simp [bind, Except.bind]

@[simp] lemma except_pure_eq_ok {start value : β} :
    (pure start : Except ε β) = .ok value ↔ start = value := by
  simp [pure, Except.pure]

@[simp] lemma mapError_eq_ok {δ : Type} {first : Except ε β} {report : ε → δ} {value : β} :
    first.mapError report = .ok value ↔ first = .ok value := by
  cases first <;> simp [Except.mapError]

lemma toOption_eq_some_iff {first : Except ε β} {value : β} :
    first.toOption = some value ↔ first = .ok value := by
  cases first <;> simp [Except.toOption]

end Except

/-! ## Parts of a run -/

namespace Run

variable {β γ : Type} {before after : List Event}

/-- The run ends in a value, with `before` told when it starts and `after` when it ends. -/
def Ends (run : Run β) (before : List Event) (value : β) (after : List Event) : Prop :=
  (run before : Except Error β × List Event) = (.ok value, after)

lemma result_eq_ok {run : Run β} {value : β} {events : List Event} :
    run.result = (.ok value, events) ↔ run.Ends [] value events :=
  Iff.rfl

@[simp] lemma ends_bind {run : Run β} {next : β → Run γ} {value : γ} :
    (run >>= next).Ends before value after ↔
      ∃ first between, run.Ends before first between ∧ (next first).Ends between value after := by
  -- the cases are on a pair in place of `run before`, whose type is one only after unfolding
  have hstart : ∀ start : Except Error β × List Event,
      (ExceptT.bindCont next start.1 start.2 : Except Error γ × List Event) = (.ok value, after) ↔
        ∃ first between, start = (.ok first, between) ∧ (next first).Ends between value after := by
    rintro ⟨error | first, between⟩
    · show (Except.error error, between) = (Except.ok value, after) ↔ _
      simp
    · show (next first).Ends between value after ↔ _
      simp
  exact hstart (run before)

@[simp] lemma ends_pure {start value : β} :
    (pure start : Run β).Ends before value after ↔ start = value ∧ before = after := by
  show (Except.ok start, before) = (Except.ok value, after) ↔ _
  simp

@[simp] lemma ends_tell {event : Event} {value : Unit} :
    (tell event).Ends before value after ↔ before ++ [event] = after := by
  show (Except.ok (), before ++ [event]) = (Except.ok value, after) ↔ _
  simp

@[simp] lemma not_ends_throw {error : Error} {value : β} :
    ¬ (throw error : Run β).Ends before value after := by
  show (Except.error error, before) ≠ (Except.ok value, after)
  simp

/-- A part that tells nothing and may fail. -/
@[simp] lemma ends_mk_pure {outcome : Except Error β} {value : β} :
    Ends (ExceptT.mk (pure outcome)) before value after ↔
      outcome = .ok value ∧ before = after := by
  show (outcome, before) = (Except.ok value, after) ↔ _
  simp

/-- A run that may have told of an event first ends in the value it has without. -/
lemma exists_ends_of_ite_tell {condition : Prop} [Decidable condition] {event : Event}
    {run : Run β} {value : β}
    (hends : (if condition then do tell event; run else run).Ends before value after) :
    ∃ between, run.Ends between value after := by
  split at hends
  · obtain ⟨_, between, _, hrun⟩ := ends_bind.mp hends
    exact ⟨between, hrun⟩
  · exact ⟨before, hends⟩

/-- Runs over the members of a list, one after the other, give one value for each. -/
theorem forall₂_of_ends_mapM {part : β → Run γ} {inputs : List β} {values : List γ}
    (hrun : (inputs.mapM part).Ends before values after) :
    List.Forall₂ (fun input value => ∃ earlier later, (part input).Ends earlier value later)
      inputs values := by
  induction inputs generalizing before values with
  | nil =>
    rw [List.mapM_nil, ends_pure] at hrun
    rw [← hrun.1]
    exact .nil
  | cons input inputs ih =>
    simp only [List.mapM_cons, ends_bind, ends_pure] at hrun
    obtain ⟨value, between, hpart, rest, _, hrest, rfl, rfl⟩ := hrun
    exact .cons ⟨before, between, hpart⟩ (ih hrest)

/-- Each of the values is what the run over some member ends in. -/
lemma exists_ends_of_mem {part : β → Run γ} {inputs : List β} {values : List γ}
    (hrun : (inputs.mapM part).Ends before values after) {value : γ} (hvalue : value ∈ values) :
    ∃ input ∈ inputs, ∃ earlier later, (part input).Ends earlier value later := by
  obtain ⟨hlength, hparts⟩ := List.forall₂_iff_get.mp (forall₂_of_ends_mapM hrun)
  obtain ⟨place, hplace, rfl⟩ := List.getElem_of_mem hvalue
  exact ⟨inputs[place], List.getElem_mem _, hparts place (hlength ▸ hplace) hplace⟩

end Run

end ImportRank
