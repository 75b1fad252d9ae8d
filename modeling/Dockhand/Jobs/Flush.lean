import Dockhand.Jobs.Job
import Dockhand.Transition.Exec

/-!
# Flushing a job to its row

`Job.flush` writes the job to its `deployments` row outside the lock. The system below is one job
with its row, the `flush` calls that are under way and the timers they have armed; an event lets
one of them take its next step. The function of the job may make its next call while a flush of
an earlier one is still under way, as calls from several goroutines do.
-/

namespace Dockhand.Jobs

open Go Transition

/-- The columns of a `deployments` row that a flush writes. -/
structure Row where
  steps : List JobStep
  log : List JobLogLine := []
  result : Dict String Json := ∅
  status : JobStatus := .running
  finishedAt : Option ℕ := none
  stackID : Option String

/-- `nullable`: the empty string is stored as `NULL`. -/
def nullable (s : String) : Option String := if s = "" then none else some s

/-- What a flush marshals under the lock. -/
def Job.columns (j : Job) : Row where
  steps := j.steps
  log := j.log
  result := j.result
  status := j.status
  finishedAt := j.finished
  stackID := nullable j.stackID

/-- The `UPDATE` of a flush, which keeps the stack when the job names none. -/
def Row.update (row cols : Row) : Row := { cols with stackID := cols.stackID.or row.stackID }

/-- Where a call of `flush` stands: before its first critical section, before `AfterFunc`, before
its `UPDATE` with the columns it marshalled, or before its last critical section. -/
inductive Flush
  | enter (force : Bool)
  | arm
  | exec (cols : Row)
  | written

/-- The throttle: 300 milliseconds. -/
def flushEvery : ℕ := 300000000

/-- A job with its row, the flushes that are on their way, and the timers that are set for later
ones. -/
structure System where
  job : Job
  now : ℕ
  row : Row
  flushes : List Flush := []
  timers : List ℕ := []

/-- What happens next: time passes, the job's function makes a call, a flush takes a step, a timer
fires, or the function returns and `run` settles the job. -/
inductive Event
  | tick (d : ℕ)
  | call (c : Call)
  | lock (i : ℕ)
  | arm (i : ℕ)
  | write (i : ℕ)
  | unlock (i : ℕ)
  | fire (i : ℕ)
  | finish (o : Outcome) (ctxErr rootErr : Bool)

/-- `Start` inserts the row and creates the job. -/
def System.start (spec : Spec) (now : ℕ) : System where
  job := Job.new spec
  now := now
  row := { steps := (Job.new spec).steps, stackID := nullable spec.stackID }

/-- The first critical section of `flush` returns without writing. -/
def Job.skipsFlush (j : Job) (now : ℕ) (force : Bool) : Prop :=
  ¬ j.dirty ∨ j.flushing ∨ (¬ force ∧ since now j.lastFlush < flushEvery)

instance (j : Job) (now : ℕ) (force : Bool) : Decidable (j.skipsFlush now force) :=
  inferInstanceAs (Decidable (_ ∨ _ ∨ _))

namespace System

/-- The first critical section of `flush`. -/
def lock (s : System) (i : ℕ) (force : Bool) : System :=
  if s.job.skipsFlush s.now force then
    if s.job.dirty ∧ ¬ s.job.scheduled then
      { s with job := { s.job with scheduled := true }, flushes := s.flushes.set i .arm }
    else { s with flushes := s.flushes.eraseIdx i }
  else
    { s with
      job := { s.job with flushing := true, dirty := false, lastFlush := some s.now }
      flushes := s.flushes.set i (.exec s.job.columns) }

/-- The last critical section of `flush`, which starts over when the job has finished since. -/
def unlock (s : System) (i : ℕ) : System :=
  { s with
    job := { s.job with flushing := false }
    flushes :=
      if s.job.dirty ∧ s.job.finished.isSome then s.flushes.set i (.enter true)
      else s.flushes.eraseIdx i }

/-- One step of the system. -/
def step (elapsed : ℕ → String) (s : System) : Event → Option System
  | .tick d => some { s with now := s.now + d }
  | .call c =>
    if s.job.finished.isSome then none
    else some
      { s with
        job := c.apply elapsed s.now s.job
        flushes := s.flushes ++ (c.flush?.map Flush.enter).toList }
  | .lock i =>
    match s.flushes[i]? with
    | some (.enter force) => some (s.lock i force)
    | _ => none
  | .arm i =>
    match s.flushes[i]? with
    | some .arm =>
      some { s with flushes := s.flushes.eraseIdx i, timers := s.timers ++ [s.now + flushEvery] }
    | _ => none
  | .write i =>
    match s.flushes[i]? with
    | some (.exec cols) =>
      some { s with row := s.row.update cols, flushes := s.flushes.set i .written }
    | _ => none
  | .unlock i =>
    match s.flushes[i]? with
    | some .written => some (s.unlock i)
    | _ => none
  | .fire i =>
    match s.timers[i]? with
    | some t =>
      if t ≤ s.now then some
        { s with
          job := { s.job with scheduled := false }
          flushes := s.flushes ++ [.enter false]
          timers := s.timers.eraseIdx i }
      else none
    | none => none
  | .finish o ctxErr rootErr =>
    if s.job.finished.isSome then none
    else some
      { s with
        job := s.job.finish elapsed s.now (o.failure? ctxErr rootErr)
        flushes := s.flushes ++ [.enter true] }

/-- No flush and no timer is pending. -/
def Quiescent (s : System) : Prop := s.flushes = [] ∧ s.timers = []

/-- The row carries the final state of the job. -/
structure Persisted (s : System) : Prop where
  steps : s.row.steps = s.job.steps
  log : s.row.log = s.job.log
  result : s.row.result = s.job.result
  status : s.row.status = s.job.status
  finishedAt : s.row.finishedAt = s.job.finished

end System

end Dockhand.Jobs
