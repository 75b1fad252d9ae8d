import Dockhand.Transition.Exec
import Dockhand.Transition.Pool
import Mathlib.Data.List.Nodup
import Mathlib.Data.List.Range
import Mathlib.Data.List.Perm.Subperm

/-!
# Tasks that run side by side

A number of tasks is handed to goroutines, of which at most `bound` run at a time; a task that
waits is begun in any order, and the tasks end in any order. `Workers` is the state of such a group
and `Workers.step` its step: however it is scheduled, each task ends exactly once (`perm_of_run`),
no more than `bound` run (`running_of_run`), and the group gets to its end (`length_of_run` and
`enabled_of_not_done`).

Where task `i` writes the place `i` of a list, the order does not show: `set_of_perm`.
-/

namespace Transition

universe u v

/-- The tasks that wait, that run, and that have ended, in the order of their ends. -/
structure Workers (τ : Type u) where
  waiting : List τ
  running : List τ := []
  ended : List τ := []

/-- The `i`-th task that waits is started, or the `i`-th that runs ends. -/
inductive Workers.Event
  | start (i : ℕ)
  | finish (i : ℕ)
  deriving DecidableEq

namespace Workers

variable {τ : Type u} {bound i : ℕ} {w w' t : Workers τ} {tasks : List τ} {e : Event}
  {es : List Event}

/-- One step. -/
def step (bound : ℕ) (w : Workers τ) : Event → Option (Workers τ)
  | .start i =>
    if w.running.length < bound then
      w.waiting[i]?.map fun a =>
        { w with waiting := w.waiting.eraseIdx i, running := w.running ++ [a] }
    else none
  | .finish i =>
    w.running[i]?.map fun a => { w with running := w.running.eraseIdx i, ended := w.ended ++ [a] }

/-- All tasks, wherever they are. -/
def all (w : Workers τ) : List τ := w.ended ++ w.running ++ w.waiting

/-- What a step does. -/
theorem step_cases (he : w.step bound e = some w') :
    (∃ i a, w.waiting[i]? = some a ∧ w.running.length < bound ∧
      w' = { w with waiting := w.waiting.eraseIdx i, running := w.running ++ [a] }) ∨
    ∃ i a, w.running[i]? = some a ∧
      w' = { w with running := w.running.eraseIdx i, ended := w.ended ++ [a] } := by
  cases e with
  | start i =>
    obtain ⟨hlt, he⟩ := Option.ite_none_right_eq_some.mp he
    obtain ⟨a, ha, rfl⟩ := Option.map_eq_some_iff.mp he
    exact .inl ⟨i, a, ha, hlt, rfl⟩
  | finish i =>
    obtain ⟨a, ha, rfl⟩ := Option.map_eq_some_iff.mp he
    exact .inr ⟨i, a, ha, rfl⟩

private theorem all_of_step (he : w.step bound e = some w') : w'.all.Perm w.all := by
  obtain ⟨i, a, ha, -, rfl⟩ | ⟨i, a, ha, rfl⟩ := step_cases he
  · have hwait := pool_perm ha
    simp only [all, List.append_assoc, List.singleton_append]
    exact (hwait.symm.append_left _).append_left _
  · have hrun := pool_perm ha
    simp only [all, List.append_assoc, List.singleton_append]
    exact (hrun.symm.append_right w.waiting).append_left _

/-- **No task is lost, and none is run twice.** -/
theorem perm_of_run (hrun : exec (step bound) { waiting := tasks } es = some t) :
    t.all.Perm tasks :=
  exec_invariant (I := fun w => w.all.Perm tasks) (fun _ _ _ h he => (all_of_step he).trans h)
    (by simp [all]) hrun

/-- At no time more tasks run than the pool has places for. -/
theorem running_of_run (hrun : exec (step bound) { waiting := tasks } es = some t) :
    t.running.length ≤ bound := by
  refine exec_invariant (I := fun w => w.running.length ≤ bound) (fun w e w' h he => ?_)
    (Nat.zero_le _) hrun
  obtain ⟨i, a, ha, hlt, rfl⟩ | ⟨i, a, ha, rfl⟩ := step_cases he
  · simpa [Nat.succ_le_iff] using hlt
  · exact (List.length_eraseIdx_le ..).trans h

/-! ### The end -/

/-- Nothing waits, and nothing runs. -/
def done (w : Workers τ) : Bool := w.waiting.isEmpty && w.running.isEmpty

/-- At the end, the tasks have ended in some order. -/
theorem ended_perm (hrun : exec (step bound) { waiting := tasks } es = some t)
    (hdone : t.done = true) : t.ended.Perm tasks := by
  have hall := perm_of_run hrun
  simp only [done, Bool.and_eq_true, List.isEmpty_iff] at hdone
  simpa [all, hdone] using hall

/-- Each task is started once and ends once, so that a run comes to an end. -/
theorem length_of_run (hrun : exec (step bound) { waiting := tasks } es = some t) :
    es.length ≤ 2 * tasks.length := by
  let rank (w : Workers τ) : ℕ := 2 * w.waiting.length + w.running.length
  have hrank : ∀ w e w', step bound w e = some w' → rank w' < rank w := by
    intro w e w' he
    obtain ⟨i, a, ha, -, rfl⟩ | ⟨i, a, ha, rfl⟩ := step_cases he
    · obtain ⟨hi, -⟩ := List.getElem?_eq_some_iff.mp ha
      simp [rank, List.length_eraseIdx, hi]
      omega
    · obtain ⟨hi, -⟩ := List.getElem?_eq_some_iff.mp ha
      simp [rank, List.length_eraseIdx, hi]
      omega
  have hle := exec_length_add_le hrank hrun
  simp only [rank, List.length_nil] at hle
  omega

/-- A pool with a place never gets stuck: as long as something waits or runs, something can happen.
-/
theorem enabled_of_not_done (hbound : 0 < bound) (h : w.done = false) :
    ∃ e, (w.step bound e).isSome = true := by
  cases hrun : w.running with
  | cons a l => exact ⟨.finish 0, by simp [step, hrun]⟩
  | nil =>
    cases hwait : w.waiting with
    | cons a l => exact ⟨.start 0, by simp [step, hrun, hwait, hbound]⟩
    | nil => simp [done, hrun, hwait] at h

end Workers

/-! ### Places of a list -/

section Places

variable {α : Type v} (f : ℕ → α)

private theorem length_foldl_set (order : List ℕ) (out : List α) :
    (order.foldl (fun out i => out.set i (f i)) out).length = out.length := by
  induction order generalizing out with
  | nil => rfl
  | cons i order ih => rw [List.foldl_cons, ih, List.length_set]

private theorem getElem?_foldl_set (order : List ℕ) (out : List α) {j : ℕ} (hj : j < out.length) :
    (order.foldl (fun out i => out.set i (f i)) out)[j]? =
      if j ∈ order then some (f j) else out[j]? := by
  induction order generalizing out with
  | nil => simp
  | cons i order ih =>
    rw [List.foldl_cons, ih _ (by simpa using hj), List.getElem?_set]
    by_cases hmem : j ∈ order
    · simp [hmem]
    · rcases eq_or_ne i j with rfl | hij
      · simp [hmem, hj]
      · simp [hmem, hij, hij.symm]

/-- Where each place is written by its own task, the order of the tasks does not show. -/
theorem set_of_perm {order : List ℕ} {out : List α} (h : order.Perm (List.range out.length)) :
    order.foldl (fun out i => out.set i (f i)) out = (List.range out.length).map f := by
  refine List.ext_getElem? fun j => ?_
  rcases lt_or_ge j out.length with hj | hj
  · rw [getElem?_foldl_set f order out hj, if_pos (h.mem_iff.mpr (List.mem_range.mpr hj))]
    simp [hj]
  · rw [List.getElem?_eq_none (by rwa [length_foldl_set]),
      List.getElem?_eq_none (by simpa using hj)]

end Places

end Transition
