import Dockhand.Go.Json
import Dockhand.Go.Strings

/-!
# Jobs

The in-memory state of a background job and what its methods do to it while they hold the job's
lock. The database writes, which happen outside the lock, are in the next module.

Times are nanoseconds of the monotonic clock; `none` is the zero `time.Time`. How the time a step
took is rendered, `util.Elapsed`, is the parameter `elapsed`: it formats a floating-point number,
and nothing depends on the text.
-/

namespace Dockhand.Jobs

open Go

/-- The states of a step. -/
inductive StepStatus
  | pending | running | done | failed | skipped
  deriving DecidableEq

/-- `JobStep`: a step of a job, with the time it took once it is done. -/
structure JobStep where
  label : String
  sub : String := ""
  status : StepStatus
  t : String := ""
  deriving DecidableEq

/-- `JobLogLine`: a line of the log, and how it is shown. -/
structure JobLogLine where
  text : String
  level : String
  deriving DecidableEq

/-- The states of a job. -/
inductive JobStatus
  | running | success | failed
  deriving DecidableEq

/-- A job to start. -/
structure Spec where
  hostID : String := ""
  stackID : String := ""
  plan : List String := []

/-- A running job. `cur` is the index of the running step. -/
structure Job where
  steps : List JobStep
  stepStart : List (Option ℕ)
  cur : Option ℕ := none
  log : List JobLogLine := []
  result : Dict String Json := ∅
  stackID : String := ""
  status : JobStatus := .running
  finished : Option ℕ := none
  dirty : Bool := false
  lastFlush : Option ℕ := none
  flushing : Bool := false
  scheduled : Bool := false

/-- The most log lines a job keeps. -/
def maxLog : ℕ := 5000

/-- `now.Sub(t)`, which saturates for the zero time. -/
def since (now : ℕ) : Option ℕ → ℕ
  | some t => now - t
  | none => 2 ^ 63 - 1

/-- The job that `Start` creates. -/
def Job.new (spec : Spec) : Job where
  steps := spec.plan.map fun label => { label, status := .pending }
  stepStart := spec.plan.map fun _ => none
  result := if spec.hostID = "" then ∅ else (∅ : Dict String Json).set "hostId" (.str spec.hostID)

namespace Job

/-! ### Steps -/

/-- How long step `i` has been running. -/
def elapsedAt (elapsed : ℕ → String) (now : ℕ) (j : Job) (i : ℕ) : String :=
  elapsed (since now (j.stepStart.getD i none))

/-- Change the running step, if there is one. -/
def modifyCurrent (f : JobStep → JobStep) (j : Job) : Job :=
  match j.cur with
  | some i => { j with steps := j.steps.modify i f }
  | none => j

/-- `finishCurrent` ends the running step with this status. -/
def finishCurrent (elapsed : ℕ → String) (now : ℕ) (status : StepStatus) (j : Job) : Job :=
  match j.cur with
  | some i =>
    { j with
      steps := j.steps.modify i fun s => { s with status, t := j.elapsedAt elapsed now i }
      cur := none }
  | none => j

/-- The first pending step with this label. -/
def pendingIdx (j : Job) (label : String) : Option ℕ :=
  j.steps.findIdx? fun s => s.label = label ∧ s.status = .pending

/-- `Step` finishes the running step and starts the one with this label, reusing a planned step
when one is pending. -/
def step (elapsed : ℕ → String) (now : ℕ) (label sub : String) (j : Job) : Job :=
  let j := j.finishCurrent elapsed now .done
  match j.pendingIdx label with
  | some i =>
    { j with
      steps := j.steps.modify i fun s => { s with status := .running, sub }
      stepStart := j.stepStart.set i (some now)
      cur := some i
      dirty := true }
  | none =>
    { j with
      steps := j.steps ++ [{ label, sub, status := .running }]
      stepStart := j.stepStart ++ [some now]
      cur := some j.steps.length
      dirty := true }

/-- `Sub` updates the running step's sub text. -/
def sub (sub : String) (j : Job) : Job :=
  match j.cur with
  | some _ => { j.modifyCurrent fun s => { s with sub } with dirty := true }
  | none => j

/-- `Done` marks the running step done without starting another. -/
def done (elapsed : ℕ → String) (now : ℕ) (sub : String) (j : Job) : Job :=
  let j := if sub = "" then j else j.modifyCurrent fun s => { s with sub }
  { j.finishCurrent elapsed now .done with dirty := true }

/-- `Skip` marks a planned or new step as skipped. -/
def skip (elapsed : ℕ → String) (now : ℕ) (label sub : String) (j : Job) : Job :=
  let j := j.finishCurrent elapsed now .done
  match j.pendingIdx label with
  | some i =>
    { j with
      steps := j.steps.modify i fun s => { s with status := .skipped, sub }
      dirty := true }
  | none =>
    { j with
      steps := j.steps ++ [{ label, sub, status := .skipped }]
      stepStart := j.stepStart ++ [some now]
      dirty := true }

/-- `Fail` marks the running step failed; the job goes on. -/
def fail (elapsed : ℕ → String) (now : ℕ) (sub : String) (j : Job) : Job :=
  let j := j.modifyCurrent fun s => { s with sub }
  { j.finishCurrent elapsed now .failed with dirty := true }

/-! ### Log, result and stack -/

/-- `appendLog` appends a line; when the log is full it drops a chunk from the front and leaves a
marker. -/
def appendLog (level text : String) (j : Job) : Job :=
  let log :=
    if j.log.length ≥ maxLog then
      { text := "… earlier output truncated", level := "muted" } ::
        j.log.drop (j.log.length - maxLog + 500)
    else j.log
  { j with log := log ++ [{ text, level }], dirty := true }

/-- `Log` appends the lines of a text. -/
def writeLog (level text : String) (j : Job) : Job :=
  (splitChar (trimRight text "\n") '\n').foldl (fun j line => j.appendLog level line) j

/-- `Set` stores a result value. -/
def set (k : String) (v : Json) (j : Job) : Job :=
  { j with result := j.result.set k v, dirty := true }

/-- `SetStack` links the job to a stack row. -/
def setStack (id : String) (j : Job) : Job := { j with stackID := id, dirty := true }

end Job

/-- A call that the function of a job makes on it. -/
inductive Call
  | step (label sub : String)
  | sub (sub : String)
  | done (sub : String)
  | skip (label sub : String)
  | fail (sub : String)
  | log (level text : String)
  | set (k : String) (v : Json)
  | setStack (id : String)

/-- What the call does under the lock. -/
def Call.apply (elapsed : ℕ → String) (now : ℕ) (j : Job) : Call → Job
  | .step label text => j.step elapsed now label text
  | .sub text => j.sub text
  | .done text => j.done elapsed now text
  | .skip label text => j.skip elapsed now label text
  | .fail text => j.fail elapsed now text
  | .log level text => j.writeLog level text
  | .set k v => j.set k v
  | .setStack id => j.setStack id

/-- Whether the call ends with a flush, and whether it forces it. -/
def Call.flush? : Call → Option Bool
  | .sub _ | .log .. => some false
  | .set .. => none
  | _ => some true

/-! ### The end of a job -/

/-- An error of the job's function, and what `errors.Is` finds in it. -/
structure FnError where
  message : String
  deadlineExceeded : Bool := false
  canceled : Bool := false

/-- How the job's function ends. -/
inductive Outcome
  | ok
  | error (e : FnError)
  | panic (value : String)

/-- The message the job fails with, given whether its own context and the root context are done. -/
def Outcome.failure? (ctxErr rootErr : Bool) : Outcome → Option String
  | .ok => none
  | .error e =>
    if e.deadlineExceeded ∧ ctxErr then some "job timed out after 45m0s"
    else if e.canceled ∧ rootErr then some "Dockhand was shut down while this job was running"
    else some e.message
  | .panic value => some ("internal error: " ++ value)

namespace Job

/-- The steps that never started are skipped. -/
def skipPending (j : Job) : Job :=
  { j with
    steps := j.steps.map fun s =>
      if s.status = .pending then { s with status := .skipped } else s }

/-- The end of `run`: the running step and the job get their final status. -/
def finish (elapsed : ℕ → String) (now : ℕ) (failure? : Option String) (j : Job) : Job :=
  match failure? with
  | some message =>
    let j := j.modifyCurrent fun s =>
      { s with sub := if s.sub = "" then truncate message 200 else s.sub }
    let j := (j.finishCurrent elapsed now .failed).skipPending.appendLog "error" message
    { j with status := .failed, finished := some now }
  | none =>
    let j := (j.finishCurrent elapsed now .done).skipPending
    { j with status := .success, finished := some now }

end Job

end Dockhand.Jobs
