import Mathlib.Data.List.Perm.Basic
import Mathlib.Data.List.Range
import Mathlib.Logic.Relation
import Mathlib.Tactic.Lemma

/-!
# A pool of workers

A pool gets its tasks all at once and in order. It starts the next one while a worker is free, a
worker finishes the task it runs at any time, and what is finished arrives at the caller in any
order. No task is lost or doubled, and a pool that has a worker never gets stuck: whatever has
happened so far, all tasks arrive. They can arrive in every order, as `completes_iff` says.
-/

namespace ImportRank

/-- The tasks of a pool, by their place among all that were handed in: those that wait, those that
run, those that are finished, and those that have arrived, in the order of arrival. -/
structure Pool where
  waiting : List ℕ
  running : List ℕ
  finished : List ℕ
  arrived : List ℕ

namespace Pool

/-- A pool of which nothing has been started. -/
def handed (count : ℕ) : Pool :=
  { waiting := List.range count, running := [], finished := [], arrived := [] }

/-- A pool of which everything has arrived. -/
def emptied (order : List ℕ) : Pool :=
  { waiting := [], running := [], finished := [], arrived := order }

/-- What can happen in a pool with some workers. -/
inductive Step (workers : ℕ) : Pool → Pool → Prop
  | start {task : ℕ} {waiting running finished arrived : List ℕ}
      (hfree : running.length < workers) :
      Step workers ⟨task :: waiting, running, finished, arrived⟩
        ⟨waiting, task :: running, finished, arrived⟩
  | finish {task : ℕ} {waiting before after finished arrived : List ℕ} :
      Step workers ⟨waiting, before ++ task :: after, finished, arrived⟩
        ⟨waiting, before ++ after, task :: finished, arrived⟩
  | arrive {task : ℕ} {waiting running before after arrived : List ℕ} :
      Step workers ⟨waiting, running, before ++ task :: after, arrived⟩
        ⟨waiting, running, before ++ after, arrived ++ [task]⟩

/-- What can have happened in a pool after some time. -/
def Reaches (workers : ℕ) : Pool → Pool → Prop := Relation.ReflTransGen (Step workers)

/-- The tasks of a pool can arrive in an order. -/
def Completes (workers count : ℕ) (order : List ℕ) : Prop :=
  Reaches workers (handed count) (emptied order)

variable {workers count : ℕ} {pool next : Pool} {order : List ℕ}

/-! ## What never changes -/

/-- All tasks of a pool. -/
def tasks (pool : Pool) : List ℕ :=
  pool.waiting ++ (pool.running ++ (pool.finished ++ pool.arrived))

lemma Step.perm_tasks (hstep : Step workers pool next) : next.tasks.Perm pool.tasks := by
  refine List.perm_iff_count.mpr fun task => ?_
  cases hstep <;> simp only [tasks, List.count_append, List.count_cons, List.count_nil] <;> omega

/-- No task is lost, and none is doubled. -/
theorem Reaches.perm_tasks (hreaches : Reaches workers pool next) :
    next.tasks.Perm pool.tasks := by
  induction hreaches with
  | refl => exact List.Perm.refl _
  | tail _ hstep ih => exact hstep.perm_tasks.trans ih

/-! ## Progress -/

/-- The number of steps that are left. -/
def work (pool : Pool) : ℕ :=
  3 * pool.waiting.length + 2 * pool.running.length + pool.finished.length

/-- A pool does not go on forever. -/
lemma Step.work_lt (hstep : Step workers pool next) : next.work < pool.work := by
  cases hstep <;> simp only [work, List.length_append, List.length_cons] <;> omega

/-- Where a task has not arrived, something can happen. -/
lemma exists_step (hworkers : 1 ≤ workers) (pool : Pool) :
    (∃ next, Step workers pool next) ∨ pool = emptied pool.arrived := by
  obtain ⟨waiting, running, finished, arrived⟩ := pool
  cases finished with
  | cons task finished => exact Or.inl ⟨_, @Step.arrive _ task _ _ [] finished _⟩
  | nil =>
    cases running with
    | cons task running => exact Or.inl ⟨_, @Step.finish _ task _ [] running _ _⟩
    | nil =>
      cases waiting with
      | cons task waiting => exact Or.inl ⟨_, Step.start hworkers⟩
      | nil => exact Or.inr rfl

/-- Whatever has happened so far, all tasks arrive in the end. -/
theorem exists_reaches_emptied (hworkers : 1 ≤ workers) (pool : Pool) :
    ∃ order, Reaches workers pool (emptied order) := by
  induction hwork : pool.work using Nat.strongRecOn generalizing pool with
  | ind work ih =>
    rcases exists_step hworkers pool with ⟨next, hstep⟩ | hempty
    · obtain ⟨order, hreaches⟩ := ih next.work (hwork ▸ hstep.work_lt) next rfl
      exact ⟨order, Relation.ReflTransGen.head hstep hreaches⟩
    · exact ⟨pool.arrived, hempty ▸ Relation.ReflTransGen.refl⟩

/-! ## Orders of arrival -/

/-- One worker can get through all tasks before anything arrives. -/
lemma reaches_finished (hworkers : 1 ≤ workers) (waiting finished arrived : List ℕ) :
    Reaches workers ⟨waiting, [], finished, arrived⟩
      ⟨[], [], waiting.reverse ++ finished, arrived⟩ := by
  induction waiting generalizing finished with
  | nil => exact Relation.ReflTransGen.refl
  | cons task waiting ih =>
    rw [List.reverse_cons, List.append_assoc, List.singleton_append]
    have hfinish : Step workers ⟨waiting, [task], finished, arrived⟩
        ⟨waiting, [], task :: finished, arrived⟩ := @Step.finish _ task _ [] [] _ _
    exact .head (Step.start hworkers) (.head hfinish (ih (task :: finished)))

/-- What is finished can arrive in any order. -/
lemma reaches_arrived {finished : List ℕ} (horder : order.Perm finished) (arrived : List ℕ) :
    Reaches workers ⟨[], [], finished, arrived⟩ (emptied (arrived ++ order)) := by
  induction order generalizing finished arrived with
  | nil =>
    rw [List.nil_perm.mp horder, List.append_nil]
    exact Relation.ReflTransGen.refl
  | cons task order ih =>
    obtain ⟨before, after, rfl⟩ := List.append_of_mem (horder.subset List.mem_cons_self)
    have hrest : order.Perm (before ++ after) := (horder.trans List.perm_middle).cons_inv
    have hreaches := ih hrest (arrived ++ [task])
    rw [List.append_assoc, List.singleton_append] at hreaches
    exact .head Step.arrive hreaches

/-- However many workers there are, tasks can arrive in every order and in no other way. -/
theorem completes_iff (hworkers : 1 ≤ workers) :
    Completes workers count order ↔ order.Perm (List.range count) := by
  constructor
  · intro hcompletes
    have hperm := Reaches.perm_tasks hcompletes
    simpa [tasks, handed, emptied] using hperm
  · intro horder
    have hfinished := reaches_finished hworkers (List.range count) [] []
    rw [List.append_nil] at hfinished
    have hperm : order.Perm (List.range count).reverse := horder.trans (List.reverse_perm _).symm
    exact hfinished.trans (reaches_arrived hperm [])

end Pool

end ImportRank
