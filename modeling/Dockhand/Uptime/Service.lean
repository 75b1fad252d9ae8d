import Dockhand.Alerts.Episodes
import Dockhand.Go.Strconv

/-!
# Uptime monitors

What the service does with one monitor: its row, its check results and incidents, its
`monitor_down` alert, and the calls that work on them, one database statement at a time.

A check works from a snapshot of the row. `checkAll` and `CheckNow` read the row and call
`CheckOne` with it; the call may start later, and it is dropped when the monitor has an entry in
the `running` map. The entry is there from the start of a check to its end, so the state holds the
entry together with the check that made it. `Update` reads the row, then writes it, then closes
what was open when it has disabled the monitor.

What `check` finds out over the network is an input. Database calls succeed, and the settings stay
as they are. `journal` is no part of the program: it records the results and the moments at which
the monitor was enabled, in their order.
-/

namespace Dockhand.Uptime

open Go Alerts

/-! ### Rows -/

/-- The ways in which a monitor checks its target. -/
inductive MonitorType
  | host | docker | http | tcp
  deriving DecidableEq

/-- The states of a monitor, as its row has them. -/
inductive Status
  | unknown | up | degraded | down | paused
  deriving DecidableEq

/-- The statuses that `check` returns. -/
inductive Verdict
  | up | degraded | down
  deriving DecidableEq

/-- The status that a verdict gives a monitor. -/
def Verdict.status : Verdict → Status
  | up => .up
  | degraded => .degraded
  | down => .down

/-- A row of `monitors`, with the columns of its host that a check reads. -/
structure Monitor where
  name : String
  type : MonitorType := .http
  hostID : Option String := none
  hostName : String := ""
  hostMonitor : Bool := true
  target : String
  expect : String := ""
  enabled : Bool := true
  status : Status := .unknown
  failCount : ℕ := 0
  lastLatency : ℕ := 0
  deriving DecidableEq

/-- What `check` returns, and a row of `check_results`. -/
structure Result where
  verdict : Verdict
  latency : ℕ := 0
  message : String := ""
  deriving DecidableEq

/-- A row of `incidents`. `ended` stands for `ended_at IS NOT NULL`. -/
structure Incident where
  message : String
  ended : Bool := false
  deriving DecidableEq

/-! ### Patches -/

/-- A list of expected statuses that does not parse; its message quotes the part at fault. -/
structure InvalidExpect where
  part : String
  deriving DecidableEq

/-- One part of a list of expected statuses: a status or a range of them. -/
def parsePart (part : String) : Except InvalidExpect (ℤ × ℤ) :=
  let (lo, hi) := cutChar part '-'
  let isRange := '-' ∈ part.toList
  match atoi (trimSpace lo), atoi (trimSpace (if isRange then hi else lo)) with
  | some a, some b => if a < 100 ∨ b > 599 ∨ a > b then .error ⟨part⟩ else .ok (a, b)
  | _, _ => .error ⟨part⟩

/-- The ranges that an expected status may be in. -/
def parseExpect (spec : String) : Except InvalidExpect (List (ℤ × ℤ)) := do
  let spec := if trimSpace spec = "" then "200-399" else trimSpace spec
  let parts := ((splitChar spec ',').map trimSpace).filter (· ≠ "")
  let rs ← parts.mapM parsePart
  if rs = [] then .error ⟨spec⟩ else .ok rs

/-- The body of a PATCH request. -/
structure Patch where
  enabled : Option Bool := none
  name : Option String := none
  target : Option String := none
  expect : Option String := none

/-- The expected statuses after a patch. -/
def Patch.newExpect (p : Patch) (m : Monitor) : Except InvalidExpect String :=
  match p.expect with
  | some e => (parseExpect e).map fun _ => trimSpace e
  | none => .ok m.expect

/-- The row that `Update` writes, computed from the one that it has read. -/
def Patch.apply (p : Patch) (m : Monitor) : Except InvalidExpect Monitor :=
  let enabled := p.enabled.getD m.enabled
  let name := trimSpace (p.name.getD "")
  let target := trimSpace (p.target.getD "")
  (p.newExpect m).map fun expect =>
    { m with
      enabled := enabled
      name := if name ≠ "" then name else m.name
      target := if target ≠ "" ∧ m.type ≠ .host then target else m.target
      expect := expect
      status :=
        if !enabled then .paused else if m.status = .paused then .unknown else m.status }

/-! ### The state -/

/-- A running check, named after the statement that it executes next. -/
inductive Check
  | checking (m : Monitor)
  | inserting (m : Monitor) (r : Result)
  | marking (m : Monitor) (r : Result)
  | looking (m : Monitor) (r : Result)
  | opening (m : Monitor) (r : Result)
  | raising (m : Monitor) (r : Result)
  | acting (r : Result) (raise : Raise)
  | closing (r : Result)
  | resolving (r : Result)
  /-- The check has recorded its result, if it has one, and drops its entry of the map. -/
  | leaving (r : Option Result)

/-- A running `Update` after its `SELECT`. -/
inductive UpdateCall
  | writing (m : Monitor)
  | closing
  | resolving
  deriving DecidableEq

/-- An entry of the journal. -/
inductive Mark
  | result (v : Verdict)
  | enabled
  deriving DecidableEq

/-- The table for one monitor, its results and incidents, the alerts, and the checks and updates
that are under way. The journal says in what order results were stored and the monitor was enabled.
-/
structure Service where
  id : String
  settings : Settings.Uptime
  monitor : Monitor
  results : List Result := []
  incidents : List Incident := []
  alerts : Engine
  waiting : List Monitor := []
  running : Option Check := none
  updates : List UpdateCall := []
  journal : List Mark := []

/-- What happens next. `next` is the next statement of the running check, `write i` that of an
`Update`. -/
inductive Event
  | checkAll
  | checkNow
  | start (i : ℕ)
  | cancelled
  | checked (r : Result)
  | next
  | update (p : Patch)
  | write (i : ℕ)

namespace Service

/-- The key of the monitor's alert. -/
def downKey (s : Service) : String := "monitor_down:" ++ s.id

/-- Whether the monitor has an open incident. -/
def incidentOpen (s : Service) : Bool := s.incidents.any fun i => !i.ended

/-- The failed checks in a row that open an incident. -/
def retries (s : Service) : ℕ :=
  if s.settings.retries < 1 then 1 else s.settings.retries.toInt.toNat

/-- Whether the monitor is attached to a host that the settings include. -/
def hostIncluded (s : Service) (m : Monitor) : Bool :=
  match m.hostID with
  | none => true
  | some h => s.settings.hostIDs = [] || h ∈ s.settings.hostIDs

/-- `UPDATE incidents SET ended_at = now()` for those that are open. -/
def closeIncident (s : Service) : Service :=
  { s with incidents := s.incidents.map fun i => { i with ended := true } }

/-- `alerts.Resolve` for the monitor's alert. -/
def resolve (s : Service) : Service := { s with alerts := s.alerts.close (· = s.downKey) }

/-- The alert that a failed check raises. -/
def downSpec (s : Service) (m : Monitor) (r : Result) : Spec where
  key := s.downKey
  severity := "crit"
  kind := "monitor_down"
  title := (if m.hostName ≠ "" ∧ m.type ≠ .host then m.name ++ " on " ++ m.hostName else m.name)
    ++ " is down"
  text := r.message
  hostID := m.hostID.getD ""
  action := "Open uptime"
  href := "/uptime"

/-- The fail count that `record` computes, from the snapshot. -/
def fails (m : Monitor) (r : Result) : ℕ := if r.verdict = .down then m.failCount + 1 else 0

/-- Where a failed check goes on once its incident is open. -/
def notify (s : Service) (m : Monitor) (r : Result) : Check :=
  if s.settings.notify ∧ m.type ≠ .host then .raising m r else .leaving (some r)

/-- The next statement of the running check, `none` while it waits for the network. -/
def advance (s : Service) : Check → Option Service
  | .checking _ => none
  | .inserting m r =>
    some { s with
      results := s.results ++ [{ r with message := truncate r.message 500 }]
      journal := s.journal ++ [.result r.verdict]
      running := some (.marking m r) }
  | .marking m r =>
    some { s with
      monitor := { s.monitor with
        status := r.verdict.status, failCount := fails m r, lastLatency := r.latency }
      running := some
        (if r.verdict = .down ∧ s.retries ≤ fails m r then .looking m r
        else if r.verdict ≠ .down then .closing r
        else .leaving (some r)) }
  | .looking m r =>
    some { s with running := some (if s.incidentOpen then s.notify m r else .opening m r) }
  | .opening m r =>
    some { s with
      incidents := s.incidents ++ [{ message := truncate r.message 500 }]
      running := some (s.notify m r) }
  | .raising m r =>
    some { s with
      running := some (.acting r ⟨(s.downSpec m r).withDefaults, s.alerts.isOpen s.downKey⟩) }
  | .acting r raise =>
    some { s with alerts := s.alerts.act raise, running := some (.leaving (some r)) }
  | .closing r => some { s.closeIncident with running := some (.resolving r) }
  | .resolving r => some { s.resolve with running := some (.leaving (some r)) }
  | .leaving _ => some { s with running := none }

/-- The entry of `CheckOne`: it takes the monitor's entry in the map, or returns. -/
def checkOne (s : Service) (m : Monitor) : Service :=
  if s.running.isSome then s
  else if m.type = .host ∧ (!m.hostMonitor || !s.hostIncluded m) then
    { s with running := some (.leaving none) }
  else { s with running := some (.checking m) }

/-- The `UPDATE` of `Update`. -/
def store (s : Service) (m : Monitor) : Service :=
  { s with
    monitor := { s.monitor with
      enabled := m.enabled, name := m.name, target := m.target, expect := m.expect
      status := m.status }
    journal := if m.enabled && !s.monitor.enabled then s.journal ++ [.enabled] else s.journal }

/-- The next statement of the `Update` at index `i`. -/
def callStep (s : Service) (i : ℕ) : UpdateCall → Service
  | .writing m =>
    if m.enabled then { s.store m with updates := s.updates.eraseIdx i }
    else { s.store m with updates := s.updates.set i .closing }
  | .closing => { s.closeIncident with updates := s.updates.set i .resolving }
  | .resolving => { s.resolve with updates := s.updates.eraseIdx i }

/-- One statement, or one call begun. -/
def step (s : Service) : Event → Option Service
  | .checkAll =>
    if s.monitor.enabled then some { s with waiting := s.waiting ++ [s.monitor] } else none
  | .checkNow => some { s with waiting := s.waiting ++ [s.monitor] }
  | .start i =>
    (s.waiting[i]?).map fun m => { s with waiting := s.waiting.eraseIdx i }.checkOne m
  | .cancelled =>
    match s.running with
    | some (.checking _) => some { s with running := some (.leaving none) }
    | _ => none
  | .checked r =>
    match s.running with
    | some (.checking m) => some { s with running := some (.inserting m r) }
    | _ => none
  | .next => s.running.bind s.advance
  | .update p =>
    match p.apply s.monitor with
    | .error _ => some s
    | .ok m => some { s with updates := s.updates ++ [.writing m] }
  | .write i => (s.updates[i]?).map (s.callStep i)

/-! ### What is open -/

/-- Whether the monitor's alert is open. -/
def alertOpen (s : Service) : Bool := s.alerts.isOpen s.downKey

@[simp] theorem incidentOpen_closeIncident (s : Service) :
    s.closeIncident.incidentOpen = false := by
  simp [incidentOpen, closeIncident]

@[simp] theorem alertOpen_closeIncident (s : Service) : s.closeIncident.alertOpen = s.alertOpen :=
  rfl

@[simp] theorem incidentOpen_resolve (s : Service) : s.resolve.incidentOpen = s.incidentOpen := rfl

@[simp] theorem alertOpen_resolve (s : Service) : s.resolve.alertOpen = false := by
  rw [alertOpen, resolve, Engine.isOpen_close]
  simp [downKey]

/-! ### The computed row -/

/-- A patch that leaves the monitor disabled marks it as paused. -/
theorem status_of_apply {p : Patch} {m m' : Monitor} (h : p.apply m = .ok m')
    (hoff : m'.enabled = false) : m'.status = .paused := by
  rw [Patch.apply] at h
  cases hexpect : p.newExpect m with
  | error e =>
    rw [hexpect] at h
    cases h
  | ok e =>
    rw [hexpect] at h
    obtain rfl := Except.ok.inj h
    exact if_pos (by simpa using hoff)

/-! ### What a step does -/

variable {s s' : Service}

/-- What is cancelled is a check that waits for the network. -/
theorem step_cancelled (hs : s.step .cancelled = some s') :
    ∃ m, s.running = some (.checking m) ∧ s' = { s with running := some (.leaving none) } := by
  simp only [step] at hs
  split at hs
  next m hrun => exact ⟨m, hrun, (Option.some.inj hs).symm⟩
  · cases hs

/-- A result comes in for a check that waits for it. -/
theorem step_checked {r : Result} (hs : s.step (.checked r) = some s') :
    ∃ m, s.running = some (.checking m) ∧ s' = { s with running := some (.inserting m r) } := by
  simp only [step] at hs
  split at hs
  next m hrun => exact ⟨m, hrun, (Option.some.inj hs).symm⟩
  · cases hs

/-- An `Update` is refused, or begins with the row that it has computed. -/
theorem step_update {p : Patch} (hs : s.step (.update p) = some s') :
    s' = s ∨ ∃ m, p.apply s.monitor = .ok m ∧
      s' = { s with updates := s.updates ++ [.writing m] } := by
  simp only [step] at hs
  split at hs
  · exact .inl (Option.some.inj hs).symm
  next m happly => exact .inr ⟨m, happly, (Option.some.inj hs).symm⟩

end Service

end Dockhand.Uptime
