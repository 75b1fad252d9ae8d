import Dockhand.Alerts.Episodes
import Dockhand.Hosts.Store
import Dockhand.Transition.Pool

/-!
# The host-down alert

The polls of one host, with the row of the host, the flag `wasOffline` that the monitor keeps in
memory and the alert engine. Each poll works from the row as it was when it started. A successful
one takes the flag, records the status and resolves `host_down` if the flag was set or its row was
offline. A failed one records the failure and, when that makes or leaves the host offline, sets the
flag and raises `host_down` if the flag was not set and its row is monitored. The poll loop never
has two polls in flight; `createHost`, `patchHost` and `testHost` start theirs next to it, and
`testHost` records a success of its own before.

The alert is to agree with the status when no poll is in flight. What it can miss comes from steps
that cross: a success that takes the flag while a failure is about to set it or to raise, a host
that becomes monitored with the flag set for a failure that raised nothing, a test that hides an
outage which the flag does not remember, a restart between a status and its alert. In the runs
without them it agrees: `HostWatch.agrees_of_run`.
-/

namespace Dockhand.Monitor

open Alerts Hosts Transition

/-! ### Polls -/

/-- The next step of a poll. `tested` is a `testHost` that has recorded its success and has not yet
started its poll. -/
inductive PollPhase where
  | tested
  | probing (r : Record)
  | failed (r : Record) (msg : String)
  | succeeded (r : Record) (degraded : Bool)
  | recording (r : Record) (degraded wasOffline : Bool)
  | resolving (r : Record)
  | flagging (r : Record) (n : ℕ) (msg : String)
  | raising (r : Record) (n : ℕ) (msg : String)
  | acting (r : Record) (n : ℕ) (msg : String) (wasOpen : Bool)

/-- A poll. `loop` tells the polls of the loop; `since` is history: it has started after the last
edit of the monitored flag. -/
structure Poll where
  phase : PollPhase
  loop : Bool := false
  since : Bool := true

/-- The poll has still to record its result. -/
def PollPhase.unrecorded : PollPhase → Bool
  | .tested | .probing _ | .failed .. | .succeeded .. | .recording .. => true
  | .resolving _ | .flagging .. | .raising .. | .acting .. => false

/-- The poll has taken the flag for a success, and has not ended. -/
def PollPhase.succeeding : PollPhase → Bool
  | .recording .. | .resolving _ => true
  | .tested | .probing _ | .failed .. | .succeeded .. | .flagging .. | .raising .. | .acting .. =>
    false

/-- The poll has recorded a failure that makes or leaves the host offline, and has not ended. -/
def PollPhase.failing : PollPhase → Bool
  | .flagging .. | .raising .. | .acting .. => true
  | .tested | .probing _ | .failed .. | .succeeded .. | .recording .. | .resolving _ => false

/-- The next step of the poll takes the flag. -/
def PollPhase.takes : PollPhase → Bool
  | .succeeded .. => true
  | .tested | .probing _ | .failed .. | .recording .. | .resolving _ | .flagging .. | .raising ..
  | .acting .. => false

/-- The poll is going to resolve the alert. -/
def PollPhase.resolves : PollPhase → Bool
  | .recording _ _ wasOffline => wasOffline
  | .resolving _ => true
  | .tested | .probing _ | .failed .. | .succeeded .. | .flagging .. | .raising .. | .acting .. =>
    false

/-- The poll is going to open the alert. -/
def PollPhase.raises : PollPhase → Bool
  | .raising .. => true
  | .acting _ _ _ wasOpen => !wasOpen
  | .tested | .probing _ | .failed .. | .succeeded .. | .recording .. | .resolving _
  | .flagging .. => false

/-- The poll has still to set the flag. -/
def PollPhase.flags : PollPhase → Bool
  | .flagging .. => true
  | .tested | .probing _ | .failed .. | .succeeded .. | .recording .. | .resolving _ | .raising ..
  | .acting .. => false

/-- The host, what the monitor keeps of it in memory, the alerts and the polls. The last four fields
are history. `edited`: the monitored flag has changed since the poll that ended last was started.
`masked`: a test has recorded a success of the offline host, and no poll has since recorded a
success or made it offline again. `forgotten`: Dockhand has restarted while the host was offline,
and no poll has taken or set the flag since. `unraised`: a poll of the unmonitored host has set the
flag, so that it raised nothing, and no success and no restart has cleared the flag since. -/
structure HostWatch where
  id : String
  row : Record
  wasOffline : Bool := false
  polling : Bool := false
  engine : Engine
  polls : List Poll := []
  edited : Bool := false
  masked : Bool := false
  forgotten : Bool := false
  unraised : Bool := false

/-- What happens to the host: the callers of `PollHost` and the steps of the polls. -/
inductive PollEvent where
  /-- The poll loop comes to the host. -/
  | pollAll
  /-- `createHost` starts a poll. -/
  | create
  /-- The `UPDATE` of `patchHost`. If connection settings have changed it starts a poll, from the
  row that the statement returns. -/
  | patch (monitored changed : Bool)
  /-- `testHost` records a success. -/
  | test
  /-- The probe of the poll `i` has ended: the host is degraded or not, or an error. -/
  | probed (i : ℕ) (result : Except String Bool)
  /-- `RecordFailure` of the poll `i`, with the retries of the settings. -/
  | recordFailure (i : ℕ) (retries : ℤ)
  /-- Another step of the poll `i`. -/
  | run (i : ℕ)
  | restart

namespace HostWatch

/-- The key of the alert. -/
def key (s : HostWatch) : String := "host_down:" ++ s.id

/-- `host_down` is open. -/
def down (s : HostWatch) : Bool := s.engine.isOpen s.key

/-- The alert that a poll raises. -/
def hostDown (s : HostWatch) (r : Record) (n : ℕ) (msg : String) : Spec where
  key := s.key
  severity := "crit"
  kind := "host_down"
  title := r.name ++ " is offline"
  text := "Dockhand could not reach " ++ r.name ++ " after " ++ toString n ++ " attempts: " ++ msg
  hostID := s.id
  action := "Open host"
  href := "/hosts/" ++ s.id
  pref := "hostDown"

/-- The event that a poll records when it has resolved the alert. -/
def hostUp (s : HostWatch) (r : Record) : Spec where
  key := "host_up:" ++ s.id
  severity := "ok"
  kind := "host_up"
  title := r.name ++ " recovered"
  text := r.name ++ " is reachable again."
  hostID := s.id
  action := "Open host"
  href := "/hosts/" ++ s.id
  pref := "hostDown"

/-- A poll starts. -/
def start (s : HostWatch) (p : Poll) : HostWatch := { s with polls := s.polls ++ [p] }

/-- A poll goes on with another step. -/
def set (s : HostWatch) (i : ℕ) (p : Poll) (phase : PollPhase) : HostWatch :=
  { s with polls := s.polls.set i { p with phase } }

/-- The poll ends. -/
def finish (s : HostWatch) (i : ℕ) (p : Poll) : HostWatch :=
  { s with polls := s.polls.eraseIdx i, polling := s.polling && !p.loop, edited := !p.since }

/-- The monitored flag of the row is written. -/
def edit (s : HostWatch) (monitored : Bool) : HostWatch :=
  if monitored = s.row.monitored then s
  else
    { s with
      row := { s.row with monitored }
      polls := s.polls.map fun p => { p with since := false }
      edited := true }

/-- `Resolve`, and the event if an alert was open. -/
def resolve (s : HostWatch) (r : Record) : Engine :=
  let e := s.engine.close (· = s.key)
  let up := (s.hostUp r).withDefaults
  if s.down then (e.insert up (some e.now)).dispatch .event up else e

/-- The next step of a poll that is neither its probe nor `RecordFailure`. -/
def advance (s : HostWatch) (i : ℕ) (p : Poll) : Option HostWatch :=
  match p.phase with
  | .tested => some (s.set i p (.probing s.row))
  | .probing _ | .failed .. => none
  | .succeeded r degraded =>
    some { s.set i p (.recording r degraded (s.wasOffline || r.status = .offline)) with
      wasOffline := false
      forgotten := false
      unraised := false }
  | .recording r degraded wasOffline =>
    let s := { s with
      row := s.row.succeed (if degraded then .degraded else .online)
      masked := false }
    some (if wasOffline then s.set i p (.resolving r) else s.finish i p)
  | .resolving r => some ({ s with engine := s.resolve r }.finish i p)
  | .flagging r n msg =>
    let first := !s.wasOffline
    let s := { s with
      wasOffline := true
      forgotten := false
      unraised := s.unraised || first && !r.monitored }
    some (if first && r.monitored then s.set i p (.raising r n msg) else s.finish i p)
  | .raising r n msg => some (s.set i p (.acting r n msg s.down))
  | .acting r n msg wasOpen =>
    some ({ s with engine := s.engine.act ⟨(s.hostDown r n msg).withDefaults, wasOpen⟩ }.finish i p)

/-- One step; `none` if it is not the next one of the poll. -/
def step (s : HostWatch) : PollEvent → Option HostWatch
  | .pollAll =>
    some (if s.polling then s else
      { s with polling := true }.start { phase := .probing s.row, loop := true })
  | .create => some (s.start { phase := .probing s.row })
  | .patch monitored changed =>
    let s := s.edit monitored
    some (if changed then s.start { phase := .probing s.row } else s)
  | .test =>
    let masked := s.masked || s.row.status = .offline
    some ({ s with row := s.row.succeed .online, masked }.start { phase := .tested })
  | .probed i result =>
    match s.polls[i]? with
    | some ⟨.probing r, loop, since⟩ =>
      match result with
      | .ok degraded => some (s.set i ⟨.probing r, loop, since⟩ (.succeeded r degraded))
      | .error msg => some (s.set i ⟨.probing r, loop, since⟩ (.failed r msg))
    | _ => none
  | .recordFailure i retries =>
    match s.polls[i]? with
    | some ⟨.failed r msg, loop, since⟩ =>
      let s := { s with row := s.row.fail (max retries 1) }
      some (if s.row.status = .offline then
        { s with masked := false }.set i ⟨.failed r msg, loop, since⟩
          (.flagging r s.row.failCount msg)
      else s.finish i ⟨.failed r msg, loop, since⟩)
    | _ => none
  | .run i => (s.polls[i]?).bind (s.advance i)
  | .restart =>
    some { s with
      wasOffline := false
      polling := false
      polls := []
      forgotten := s.row.status = .offline
      unraised := false }

/-! ### The property and the condition -/

/-- **The alert agrees with the status**, when no poll is in flight (a test that has still to start
its poll counts as one) and the one that ended last has started after the last edit. -/
def Agrees (s : HostWatch) : Prop :=
  s.polls.isEmpty = true → s.edited = false →
    (s.row.status ≠ .offline → s.down = false) ∧
      (s.row.status = .offline → s.row.monitored = true → s.down = true)

instance (s : HostWatch) : Decidable s.Agrees := inferInstanceAs (Decidable (_ → _))

/-- One of the polls is at such a step. -/
def Has (s : HostWatch) (f : PollPhase → Bool) : Prop := ∃ p ∈ s.polls, f p.phase = true

instance (s : HostWatch) (f : PollPhase → Bool) : Decidable (s.Has f) :=
  inferInstanceAs (Decidable (∃ p ∈ s.polls, _))

/-- The condition on what crosses. Polls overlap in any way up to their results. No success takes
the flag while a failing poll has still to set it or to raise, and no failure makes or leaves the
host offline while a successful poll has still to record or to resolve. The host becomes monitored
with no poll in flight and no outage that was not raised. After a test has hidden an outage, the
next result is a success or makes the host offline again, and a test does not hide one that a
restart has made Dockhand forget. A restart comes neither before that result nor between a status
and its alert. -/
def Apart (s : HostWatch) : PollEvent → Prop
  | .run i => ∀ p ∈ s.polls[i]?, p.phase.takes = true → ¬ s.Has PollPhase.failing
  | .recordFailure _ retries =>
    if (s.row.fail (max retries 1)).status = .offline then ¬ s.Has PollPhase.succeeding
    else s.masked = false
  | .patch monitored _ =>
    monitored = true → s.row.monitored = false → s.polls.isEmpty = true ∧ s.unraised = false
  | .test => s.forgotten = false
  | .restart => ¬ s.Has PollPhase.succeeding ∧ ¬ s.Has PollPhase.failing ∧ s.masked = false
  | .pollAll | .create | .probed .. => True

instance (s : HostWatch) : (e : PollEvent) → Decidable (s.Apart e)
  | .run _ => inferInstanceAs (Decidable (∀ p ∈ _, _))
  | .recordFailure _ retries =>
    inferInstanceAs (Decidable (if (s.row.fail (max retries 1)).status = .offline then
      ¬ s.Has PollPhase.succeeding else s.masked = false))
  | .patch .. => inferInstanceAs (Decidable (_ → _))
  | .test => inferInstanceAs (Decidable (_ = _))
  | .restart => inferInstanceAs (Decidable (_ ∧ _))
  | .pollAll | .create | .probed .. => isTrue trivial

/-- A host that is not offline, without an alert, without polls and without history. -/
structure New (s : HostWatch) : Prop where
  status : s.row.status ≠ .offline
  down : s.down = false
  polls : s.polls = []
  wasOffline : s.wasOffline = false
  masked : s.masked = false
  forgotten : s.forgotten = false
  unraised : s.unraised = false

/-! ### The effect of a step on the alert -/

variable {s s' : HostWatch} {i : ℕ} {p : Poll} {e : PollEvent} {es : List PollEvent}

/-- `Resolve` closes the alert, and the notice it sends does not open it. -/
theorem isOpen_resolve (s : HostWatch) (r : Record) : (s.resolve r).isOpen s.key = false := by
  -- the notice that the host is back has a key of its own
  have hne : s.key ≠ "host_up:" ++ s.id := fun h => by
    have := congrArg (fun t => t.toList[5]?) h
    simp [key] at this
  have hclosed : (s.engine.close (· = s.key)).isOpen s.key = false := by simp
  unfold resolve
  dsimp only
  split_ifs
  · rw [Engine.isOpen_dispatch, Engine.isOpen_insert, if_neg (by simpa [hostUp, Spec.withDefaults])]
    exact hclosed
  · exact hclosed

/-- The alert after the second statement of `Raise`: opened, or left as it is. -/
theorem isOpen_act (s : HostWatch) (r : Record) (n : ℕ) (msg : String) (wasOpen : Bool) :
    (s.engine.act ⟨(s.hostDown r n msg).withDefaults, wasOpen⟩).isOpen s.key =
      (!wasOpen || s.down) := by
  cases wasOpen with
  | true =>
    rw [Engine.act_of_open rfl, Engine.isOpen_refresh]
    rfl
  | false =>
    rw [Engine.act_of_closed rfl, Engine.isOpen_dispatch, Engine.isOpen_insert,
      if_pos (show s.key = (s.hostDown r n msg).withDefaults.key from rfl)]
    rfl

/-! ### The invariant -/

/-- What holds of a poll at each of its steps: the row that it works from is as monitored as the
host and, until a poll knows of the outage again, as offline; while it succeeds the flag is down;
while it fails the outage is not over; and an alert that it has found open is still open. -/
def PhaseInv (s : HostWatch) : PollPhase → Prop
  | .tested => True
  | .probing r | .failed r _ | .succeeded r _ =>
    (s.row.monitored = true → r.monitored = true) ∧ (s.forgotten = true → r.status = .offline)
  | .recording .. => s.wasOffline = false ∧ s.forgotten = false
  | .resolving _ => s.wasOffline = false ∧ s.forgotten = false ∧ s.row.status ≠ .offline
  | .flagging r _ _ =>
    (s.row.monitored = true → r.monitored = true) ∧ (s.row.status = .offline ∨ s.masked = true)
  | .raising .. => s.wasOffline = true ∧ (s.row.status = .offline ∨ s.masked = true)
  | .acting _ _ _ wasOpen =>
    s.wasOffline = true ∧ (s.row.status = .offline ∨ s.masked = true) ∧
      (wasOpen = true → s.down = true)

/-- The invariant. An open alert is right, or hidden by a test, or about to be resolved (`alarm`),
and the flag or the rows of the polls know of it (`memory`). A set flag has raised the alert, or is
about to, unless the host was not monitored (`heard`). A missing alert is about to be raised
(`silence`). -/
structure AlertInv (s : HostWatch) : Prop where
  phases : ∀ p ∈ s.polls, s.PhaseInv p.phase
  apart : s.Has PollPhase.failing → ¬ s.Has PollPhase.succeeding
  masked : s.masked = true → s.Has PollPhase.unrecorded
  forgotten : s.forgotten = true → s.row.status = .offline
  unraised : s.unraised = true → s.row.monitored = false
  alarm : s.down = true → s.row.status = .offline ∨ s.masked = true ∨ s.Has PollPhase.resolves
  memory : s.down = true →
    s.wasOffline = true ∨ s.forgotten = true ∨ s.Has PollPhase.flags ∨ s.Has PollPhase.resolves
  heard : s.wasOffline = true → s.down = true ∨ s.unraised = true ∨ s.Has PollPhase.raises
  silence : s.edited = false → s.row.status = .offline → s.row.monitored = true →
    s.down = true ∨ s.Has PollPhase.flags ∨ s.Has PollPhase.raises

/-- A host without history. -/
private theorem AlertInv.of_new (h : s.New) : s.AlertInv where
  phases p hp := by simp [h.polls] at hp
  apart hfailing := by simp [Has, h.polls] at hfailing
  masked hmasked := by simp [h.masked] at hmasked
  forgotten hforgotten := by simp [h.forgotten] at hforgotten
  unraised hunraised := by simp [h.unraised] at hunraised
  alarm hdown := by simp [h.down] at hdown
  memory hdown := by simp [h.down] at hdown
  heard hflag := by simp [h.wasOffline] at hflag
  silence _ hoffline := absurd hoffline h.status

/-- **Without polls the alert agrees**: nothing is hidden and nothing is about to happen. -/
private theorem AlertInv.agrees (h : s.AlertInv) : s.Agrees := by
  intro hidle hedited
  have hno : ∀ f, ¬ s.Has f := by simp [Has, List.isEmpty_iff.mp hidle]
  refine ⟨fun honline => ?_, fun hoffline hmonitored => ?_⟩
  · by_contra hdown
    rcases h.alarm (by simpa using hdown) with hoffline | hmasked | hresolves
    · exact honline hoffline
    · exact hno _ (h.masked hmasked)
    · exact hno _ hresolves
  · exact (h.silence hedited hoffline hmonitored).resolve_right fun hsome =>
      hsome.elim (hno _) (hno _)

/-! ### The steps of a poll

The poll `p` at `i` goes on or ends, and the others stay where they are. -/

section Move

variable {phase : PollPhase} {f : PollPhase → Bool}

/-- What some poll is about to do, some poll still is when another one goes on, or it goes on so. -/
private theorem Has.set (h : s.Has f) (hi : s.polls[i]? = some p)
    (hphase : f p.phase = true → f phase = true) : (s.set i p phase).Has f := by
  obtain ⟨q, hq, hf⟩ := h
  rcases (mem_pool hi).mp hq with rfl | hother
  · exact ⟨_, (mem_pool_set hi).mpr (.inl rfl), hphase hf⟩
  · exact ⟨q, (mem_pool_set hi).mpr (.inr hother), hf⟩

/-- Whoever is at a step after one poll has gone on was there before, or is that poll. -/
private theorem Has.of_set (h : (s.set i p phase).Has f) (hi : s.polls[i]? = some p) :
    f phase = true ∨ s.Has f := by
  obtain ⟨q, hq, hf⟩ := h
  rcases (mem_pool_set hi).mp hq with rfl | hother
  · exact .inl hf
  · exact .inr ⟨q, List.mem_of_mem_eraseIdx hother, hf⟩

/-- The poll that goes on is at its new step. -/
private theorem has_set (hi : s.polls[i]? = some p) (hf : f phase = true) :
    (s.set i p phase).Has f :=
  ⟨_, (mem_pool_set hi).mpr (.inl rfl), hf⟩

/-- What some poll is about to do, some poll still is when another one ends. -/
private theorem Has.finish (h : s.Has f) (hi : s.polls[i]? = some p) (hf : f p.phase = false) :
    (s.finish i p).Has f := by
  obtain ⟨q, hq, hq'⟩ := h
  refine ⟨q, ((mem_pool hi).mp hq).resolve_left fun heq => ?_, hq'⟩
  rw [heq, hf] at hq'
  cases hq'

/-- Whoever is at a step after one poll has ended was there before. -/
private theorem Has.of_finish (h : (s.finish i p).Has f) : s.Has f := by
  obtain ⟨q, hq, hf⟩ := h
  exact ⟨q, List.mem_of_mem_eraseIdx hq, hf⟩

/-- The poll that moves is at its step. -/
private theorem has_of_get (hi : s.polls[i]? = some p) (hf : f p.phase = true) : s.Has f :=
  ⟨p, List.mem_of_getElem? hi, hf⟩

/-- What some poll is about to do, some poll still is when another one starts. -/
private theorem Has.start (h : s.Has f) (p : Poll) : (s.start p).Has f := by
  obtain ⟨q, hq, hf⟩ := h
  exact ⟨q, List.mem_append_left _ hq, hf⟩

/-- Whoever is at a step after a poll has started was there before, or is that poll. -/
private theorem Has.of_start (h : (s.start p).Has f) (hf : f p.phase = false) : s.Has f := by
  obtain ⟨q, hq, hf'⟩ := h
  rcases List.mem_append.mp hq with hold | hnew
  · exact ⟨q, hold, hf'⟩
  · obtain rfl := List.mem_singleton.mp hnew
    rw [hf] at hf'
    cases hf'

/-- What holds of the polls after one has gone on, from what holds of each after the step. -/
private theorem phases_set (hi : s.polls[i]? = some p) (hphase : s'.PhaseInv phase)
    (hothers : ∀ q ∈ s.polls, s'.PhaseInv q.phase) :
    ∀ q ∈ (s.set i p phase).polls, s'.PhaseInv q.phase := by
  intro q hq
  rcases (mem_pool_set hi).mp hq with rfl | hother
  · exact hphase
  · exact hothers q (List.mem_of_mem_eraseIdx hother)

end Move

/-- What is kept of a poll depends on the row, the flag, the history and the alert. -/
private theorem PhaseInv.congr {phase : PollPhase} (h : s.PhaseInv phase) (hrow : s'.row = s.row)
    (hflag : s'.wasOffline = s.wasOffline) (hforgotten : s'.forgotten = s.forgotten)
    (hmasked : s'.masked = s.masked) (hdown : s'.down = s.down) : s'.PhaseInv phase := by
  cases phase <;> simp_all [PhaseInv]

/-- The polls that do not fail, when a success has taken the flag. -/
private theorem PhaseInv.take {phase : PollPhase} (h : s.PhaseInv phase)
    (hfailing : phase.failing = false) (hrow : s'.row = s.row) (hflag : s'.wasOffline = false)
    (hforgotten : s'.forgotten = false) : s'.PhaseInv phase := by
  cases phase <;> simp_all [PhaseInv, PollPhase.failing]

/-- The polls that do not fail, when the host is not offline any more. -/
private theorem PhaseInv.online {phase : PollPhase} (h : s.PhaseInv phase)
    (hfailing : phase.failing = false) (hmonitored : s'.row.monitored = s.row.monitored)
    (honline : s'.row.status ≠ .offline) (hflag : s'.wasOffline = s.wasOffline)
    (hforgotten : s'.forgotten = s.forgotten) : s'.PhaseInv phase := by
  cases phase <;> simp_all [PhaseInv, PollPhase.failing]

/-- The polls that do not succeed, when the host is offline. -/
private theorem PhaseInv.offline {phase : PollPhase} (h : s.PhaseInv phase)
    (hsucceeding : phase.succeeding = false) (hmonitored : s'.row.monitored = s.row.monitored)
    (hoffline : s'.row.status = .offline) (hflag : s'.wasOffline = s.wasOffline)
    (hforgotten : s'.forgotten = s.forgotten) (hdown : s'.down = s.down) : s'.PhaseInv phase := by
  cases phase <;> simp_all [PhaseInv, PollPhase.succeeding]

/-- The polls that do not succeed, when the flag is set. -/
private theorem PhaseInv.flag {phase : PollPhase} (h : s.PhaseInv phase)
    (hsucceeding : phase.succeeding = false) (hrow : s'.row = s.row) (hflag : s'.wasOffline = true)
    (hforgotten : s'.forgotten = false) (hmasked : s'.masked = s.masked)
    (hdown : s'.down = s.down) : s'.PhaseInv phase := by
  cases phase <;> simp_all [PhaseInv, PollPhase.succeeding]

/-- The polls when a test has recorded a success. -/
private theorem PhaseInv.test {phase : PollPhase} (h : s.PhaseInv phase)
    (hmonitored : s'.row.monitored = s.row.monitored) (honline : s'.row.status ≠ .offline)
    (hmasked : s.masked = true ∨ s.row.status = .offline → s'.masked = true)
    (hflag : s'.wasOffline = s.wasOffline) (hforgotten : s'.forgotten = s.forgotten)
    (hdown : s'.down = s.down) : s'.PhaseInv phase := by
  cases phase <;> simp_all [PhaseInv] <;> tauto

/-- The polls when the alert is open. -/
private theorem PhaseInv.act {phase : PollPhase} (h : s.PhaseInv phase) (hrow : s'.row = s.row)
    (hflag : s'.wasOffline = s.wasOffline) (hforgotten : s'.forgotten = s.forgotten)
    (hmasked : s'.masked = s.masked) (hdown : s'.down = true) : s'.PhaseInv phase := by
  cases phase <;> simp_all [PhaseInv]

/-- A poll goes on that neither comes to its result nor leaves it. -/
private theorem AlertInv.set (h : s.AlertInv) (hi : s.polls[i]? = some p) {phase : PollPhase}
    (hold : p.phase.unrecorded = true ∧ p.phase.succeeding = false)
    (hnew : phase.unrecorded = true ∧ phase.succeeding = false) (hphase : s.PhaseInv phase) :
    (s.set i p phase).AlertInv := by
  obtain ⟨hold, hold'⟩ := hold
  obtain ⟨hnew, hnew'⟩ := hnew
  have hfailing : p.phase.failing = false ∧ phase.failing = false := by
    constructor
    · cases hp : p.phase <;> simp_all [PollPhase.unrecorded, PollPhase.failing]
    · cases phase <;> simp_all [PollPhase.unrecorded, PollPhase.failing]
  -- such a poll is neither about to change the alert nor the flag
  have hkeep : ∀ {f : PollPhase → Bool}, (f p.phase = true → f phase = true) → s.Has f →
      (s.set i p phase).Has f := fun hf hhas => hhas.set hi hf
  have hflags : p.phase.flags = true → phase.flags = true := by
    cases hp : p.phase <;> simp_all [PollPhase.flags, PollPhase.failing]
  have hresolves : p.phase.resolves = true → phase.resolves = true := by
    cases hp : p.phase <;> simp_all [PollPhase.resolves, PollPhase.succeeding]
  have hraises : p.phase.raises = true → phase.raises = true := by
    cases hp : p.phase <;> simp_all [PollPhase.raises, PollPhase.failing]
  refine ⟨phases_set hi (hphase.congr rfl rfl rfl rfl rfl) fun q hq =>
      (h.phases q hq).congr rfl rfl rfl rfl rfl, fun hhas => ?_, fun hmasked => has_set hi hnew,
    h.forgotten, h.unraised, fun hdown => ?_, fun hdown => ?_, fun hflag => ?_,
    fun hedited hoffline hmonitored => ?_⟩
  · intro hsucceeding
    have hbefore := (hhas.of_set hi).resolve_left (by simp [hfailing.2])
    exact h.apart hbefore ((hsucceeding.of_set hi).resolve_left (by simp [hnew']))
  · exact (h.alarm hdown).imp_right (.imp_right (hkeep hresolves))
  · exact (h.memory hdown).imp_right (.imp_right (.imp (hkeep hflags) (hkeep hresolves)))
  · exact (h.heard hflag).imp_right (.imp_right (hkeep hraises))
  · exact (h.silence hedited hoffline hmonitored).imp_right (.imp (hkeep hflags) (hkeep hraises))

/-- A poll starts. -/
private theorem AlertInv.start (h : s.AlertInv) {p : Poll} (hphase : s.PhaseInv p.phase)
    (hnew : p.phase.unrecorded = true ∧ p.phase.succeeding = false) : (s.start p).AlertInv := by
  have hfailing : p.phase.failing = false := by
    cases hp : p.phase <;> simp_all [PollPhase.unrecorded, PollPhase.failing]
  refine ⟨fun q hq => ?_, fun hhas hsucceeding => ?_, fun hmasked => (h.masked hmasked).start p,
    h.forgotten, h.unraised, fun hdown => ?_, fun hdown => ?_, fun hflag => ?_,
    fun hedited hoffline hmonitored => ?_⟩
  · rcases List.mem_append.mp hq with hold | hone
    · exact (h.phases q hold).congr rfl rfl rfl rfl rfl
    · obtain rfl := List.mem_singleton.mp hone
      exact hphase.congr rfl rfl rfl rfl rfl
  · exact h.apart (hhas.of_start hfailing) (hsucceeding.of_start hnew.2)
  · exact (h.alarm hdown).imp_right (.imp_right (·.start p))
  · exact (h.memory hdown).imp_right (.imp_right (.imp (·.start p) (·.start p)))
  · exact (h.heard hflag).imp_right (.imp_right (·.start p))
  · exact (h.silence hedited hoffline hmonitored).imp_right (.imp (·.start p) (·.start p))

/-- A poll starts from the row as it is. -/
private theorem AlertInv.start_probing (h : s.AlertInv) (loop : Bool) :
    (s.start { phase := .probing s.row, loop }).AlertInv :=
  h.start ⟨fun hmonitored => hmonitored, h.forgotten⟩ ⟨rfl, rfl⟩

/-- **A success takes the flag.** No failure is in its way, so that whatever knew of an open alert
has told this poll, or another one that is going to resolve it. -/
private theorem AlertInv.take {r : Record} {degraded : Bool} (h : s.AlertInv)
    (hi : s.polls[i]? = some p) (hp : p.phase = .succeeded r degraded)
    (hcond : ¬ s.Has PollPhase.failing) :
    AlertInv { s.set i p (.recording r degraded (s.wasOffline || r.status = .offline)) with
      wasOffline := false
      forgotten := false
      unraised := false } := by
  have hrow := h.phases p (List.mem_of_getElem? hi)
  rw [hp] at hrow
  have hnone : ∀ {f : PollPhase → Bool}, (∀ phase, f phase = true → phase.failing = true) →
      ¬ s.Has f := fun hf ⟨q, hq, hq'⟩ => hcond ⟨q, hq, hf _ hq'⟩
  have hresolves : s.Has PollPhase.resolves →
      (s.set i p (.recording r degraded (s.wasOffline || r.status = .offline))).Has
        PollPhase.resolves := fun hhas => hhas.set hi (by simp [hp, PollPhase.resolves])
  refine ⟨phases_set hi ⟨rfl, rfl⟩ fun q hq => ?_, fun hhas => ?_, fun _ => has_set hi rfl,
    fun hforgotten => (by cases hforgotten), fun hunraised => (by cases hunraised),
    fun hdown => (h.alarm hdown).imp_right (.imp_right hresolves), fun hdown => ?_,
    fun hflag => (by cases hflag), fun hedited hoffline hmonitored => ?_⟩
  · have hfailing : q.phase.failing = false :=
      Bool.eq_false_iff.mpr fun hfailing => hcond ⟨q, hq, hfailing⟩
    exact (h.phases q hq).take hfailing rfl rfl rfl
  · exact absurd ((hhas.of_set hi).resolve_left (by simp [PollPhase.failing])) hcond
  · -- the flag, or a row that was read while Dockhand had forgotten the outage
    refine .inr (.inr (.inr ?_))
    rcases h.memory hdown with hflag | hforgotten | hflags | hres
    · exact has_set hi (by simp [PollPhase.resolves, hflag])
    · exact has_set hi (by simp [PollPhase.resolves, hrow.2 hforgotten])
    · exact absurd hflags (hnone fun phase => by cases phase <;> simp [PollPhase.flags,
        PollPhase.failing])
    · exact hresolves hres
  · refine (h.silence hedited hoffline hmonitored).imp_right fun hsome => absurd hsome ?_
    exact not_or.mpr ⟨hnone fun phase => by cases phase <;> simp [PollPhase.flags,
      PollPhase.failing], hnone fun phase => by cases phase <;> simp [PollPhase.raises,
      PollPhase.failing]⟩

/-- No poll fails while another one succeeds. -/
private theorem AlertInv.not_failing (h : s.AlertInv) {q : Poll} (hi : s.polls[i]? = some p)
    (hp : p.phase.succeeding = true) (hq : q ∈ s.polls) : q.phase.failing = false :=
  Bool.eq_false_iff.mpr fun hfailing => h.apart ⟨q, hq, hfailing⟩ (has_of_get hi hp)

/-- No poll succeeds while another one fails. -/
private theorem AlertInv.not_succeeding (h : s.AlertInv) {q : Poll} (hi : s.polls[i]? = some p)
    (hp : p.phase.failing = true) (hq : q ∈ s.polls) : q.phase.succeeding = false :=
  Bool.eq_false_iff.mpr fun hsucceeding => h.apart (has_of_get hi hp) ⟨q, hq, hsucceeding⟩

/-- **A success is recorded.** The flag is down and Dockhand has forgotten nothing, so an open alert
is left to this poll or to another one. -/
private theorem AlertInv.record {r : Record} {degraded wasOffline : Bool} (h : s.AlertInv)
    (hi : s.polls[i]? = some p) (hp : p.phase = .recording r degraded wasOffline) :
    AlertInv (if wasOffline then
      { s with
        row := s.row.succeed (if degraded then .degraded else .online)
        masked := false }.set i p (.resolving r)
    else
      { s with
        row := s.row.succeed (if degraded then .degraded else .online)
        masked := false }.finish i p) := by
  have hsucceeding : p.phase.succeeding = true := by rw [hp]; rfl
  have honline : (s.row.succeed (if degraded then .degraded else .online)).status ≠ .offline := by
    cases degraded <;> simp [Record.succeed]
  obtain ⟨hflag, hforgotten⟩ : s.wasOffline = false ∧ s.forgotten = false := by
    have := h.phases p (List.mem_of_getElem? hi)
    rwa [hp] at this
  have hremembers : ∀ status : Status, s.forgotten = true → status = .offline := fun _ hforgot =>
    absurd (hforgotten.symm.trans hforgot) Bool.false_ne_true
  have hnone : ∀ {f : PollPhase → Bool}, (∀ phase, f phase = true → phase.failing = true) →
      ¬ s.Has f := fun hf ⟨q, hq, hq'⟩ => by
    have hfailing := hf _ hq'
    rw [h.not_failing hi hsucceeding hq] at hfailing
    cases hfailing
  have hresolves : s.down = true → s.Has PollPhase.resolves := fun hdown => by
    rcases h.memory hdown with h | h | hflags | hres
    · simp [hflag] at h
    · simp [hforgotten] at h
    · exact absurd hflags (hnone fun phase => by cases phase <;> simp [PollPhase.flags,
        PollPhase.failing])
    · exact hres
  cases wasOffline with
  | true =>
    rw [if_pos rfl]
    have hres : s.down = true → (s.set i p (.resolving r)).Has PollPhase.resolves :=
      fun hdown => (hresolves hdown).set hi fun _ => rfl
    refine ⟨phases_set hi ⟨hflag, hforgotten, honline⟩ fun q hq => ?_, fun hhas => ?_,
      fun hmasked => (by cases hmasked), hremembers _, h.unraised,
      fun hdown => .inr (.inr (hres hdown)), fun hdown => .inr (.inr (.inr (hres hdown))),
      fun hset => absurd (hflag.symm.trans hset) Bool.false_ne_true,
      fun _ hoffline => absurd hoffline honline⟩
    · exact (h.phases q hq).online (h.not_failing hi hsucceeding hq) rfl honline rfl rfl
    · exact absurd ((hhas.of_set hi).resolve_left (by simp [PollPhase.failing]))
        (hnone fun _ h => h)
  | false =>
    rw [if_neg (by decide)]
    have hres := fun hdown => (hresolves hdown).finish hi (by rw [hp]; rfl)
    refine ⟨fun q hq => ?_, fun hhas => absurd hhas.of_finish (hnone fun _ h => h),
      fun hmasked => (by cases hmasked), hremembers _, h.unraised,
      fun hdown => .inr (.inr (hres hdown)), fun hdown => .inr (.inr (.inr (hres hdown))),
      fun hset => absurd (hflag.symm.trans hset) Bool.false_ne_true,
      fun _ hoffline => absurd hoffline honline⟩
    have hq := List.mem_of_mem_eraseIdx hq
    exact (h.phases q hq).online (h.not_failing hi hsucceeding hq) rfl honline rfl rfl

/-- **The alert is resolved**, while the host is not offline and the flag is down. -/
private theorem AlertInv.resolve {r : Record} (h : s.AlertInv) (hi : s.polls[i]? = some p)
    (hp : p.phase = .resolving r) :
    AlertInv ({ s with engine := s.resolve r }.finish i p) := by
  have hsucceeding : p.phase.succeeding = true := by rw [hp]; rfl
  obtain ⟨hflag, hforgotten, honline⟩ : s.wasOffline = false ∧ s.forgotten = false ∧
      s.row.status ≠ .offline := by
    have := h.phases p (List.mem_of_getElem? hi)
    rwa [hp] at this
  have hclosed : ∀ hdown : HostWatch.down ({ s with engine := s.resolve r }.finish i p) = true,
      False := fun hdown => absurd ((s.isOpen_resolve r).symm.trans hdown) Bool.false_ne_true
  refine ⟨fun q hq => ?_, fun hhas => ?_, fun hmasked => ?_,
    fun h' => absurd (hforgotten.symm.trans h') Bool.false_ne_true, h.unraised,
    fun hdown => (hclosed hdown).elim, fun hdown => (hclosed hdown).elim,
    fun h' => absurd (hflag.symm.trans h') Bool.false_ne_true,
    fun _ hoffline => absurd hoffline honline⟩
  · have hq := List.mem_of_mem_eraseIdx hq
    exact (h.phases q hq).online (h.not_failing hi hsucceeding hq) rfl honline rfl rfl
  · exact absurd (has_of_get hi hsucceeding) (h.apart hhas.of_finish)
  · exact (h.masked hmasked).finish hi (by rw [hp]; rfl)

/-- A failure is recorded that leaves the host not offline: no test has hidden an outage, so an open
alert is left to a poll that resolves it. -/
private theorem AlertInv.fail_online {r : Record} {msg : String} {retries : ℤ} (h : s.AlertInv)
    (hi : s.polls[i]? = some p) (hp : p.phase = .failed r msg)
    (honline : (s.row.fail retries).status ≠ .offline) (hmasked : s.masked = false) :
    AlertInv ({ s with row := s.row.fail retries }.finish i p) := by
  have hbefore : s.row.status ≠ .offline := fun hoffline =>
    honline (by simp [Record.fail, hoffline])
  have hfailing : ∀ q ∈ s.polls, q.phase.failing = false := by
    intro q hq
    have hq := h.phases q hq
    cases hphase : q.phase <;> simp_all [PhaseInv, PollPhase.failing]
  have hres : s.down = true → s.Has PollPhase.resolves := fun hdown =>
    ((h.alarm hdown).resolve_left hbefore).resolve_left (by simp [hmasked])
  have hgoes : s.down = true → (s.finish i p).Has PollPhase.resolves := fun hdown =>
    (hres hdown).finish hi (by rw [hp]; rfl)
  refine ⟨fun q hq => ?_, fun ⟨q, hq, hq'⟩ => ?_,
    fun h' => absurd (hmasked.symm.trans h') Bool.false_ne_true,
    fun h' => absurd (h.forgotten h') hbefore, h.unraised,
    fun hdown => .inr (.inr (hgoes hdown)), fun hdown => .inr (.inr (.inr (hgoes hdown))),
    fun hflag => ?_, fun _ hoffline => absurd hoffline honline⟩
  · have hq := List.mem_of_mem_eraseIdx hq
    exact (h.phases q hq).online (hfailing q hq) rfl honline rfl rfl
  · rw [hfailing q (List.mem_of_mem_eraseIdx hq)] at hq'
    cases hq'
  · exact (h.heard hflag).imp_right (.imp_right fun hhas => hhas.finish hi (by rw [hp]; rfl))

/-- **A failure makes or leaves the host offline**, with no success in its way. -/
private theorem AlertInv.fail_offline {r : Record} {msg : String} {n : ℕ} {retries : ℤ}
    (h : s.AlertInv) (hi : s.polls[i]? = some p) (hp : p.phase = .failed r msg)
    (hoffline : (s.row.fail retries).status = .offline)
    (hcond : ¬ s.Has PollPhase.succeeding) :
    AlertInv ({ s with row := s.row.fail retries, masked := false }.set i p
      (.flagging r n msg)) := by
  have hrow : s.row.monitored = true → r.monitored = true := by
    have := h.phases p (List.mem_of_getElem? hi)
    rw [hp] at this
    exact this.1
  have hflags : HostWatch.Has ({ s with row := s.row.fail retries, masked := false }.set i p
      (.flagging r n msg)) PollPhase.flags := has_set hi rfl
  refine ⟨phases_set hi ⟨hrow, .inl hoffline⟩ fun q hq => ?_, fun _ hhas => ?_,
    fun hmasked => (by cases hmasked), fun _ => hoffline, h.unraised, fun _ => .inl hoffline,
    fun _ => .inr (.inr (.inl hflags)), fun hflag => ?_, fun _ _ _ => .inr (.inl hflags)⟩
  · refine (h.phases q hq).offline (Bool.eq_false_iff.mpr fun hs => hcond ⟨q, hq, hs⟩) rfl hoffline
      rfl rfl rfl
  · exact hcond ((hhas.of_set hi).resolve_left (by simp [PollPhase.succeeding]))
  · refine (h.heard hflag).imp_right (.imp_right fun hhas => hhas.set hi fun hraises => ?_)
    rw [hp] at hraises
    cases hraises

/-- **A failure sets the flag** and raises the alert, unless a failure before it has, or the host is
not monitored. -/
private theorem AlertInv.flag {r : Record} {n : ℕ} {msg : String} (h : s.AlertInv)
    (hi : s.polls[i]? = some p) (hp : p.phase = .flagging r n msg) :
    AlertInv (if !s.wasOffline && r.monitored then
      { s with
        wasOffline := true
        forgotten := false
        unraised := s.unraised || !s.wasOffline && !r.monitored }.set i p (.raising r n msg)
    else
      { s with
        wasOffline := true
        forgotten := false
        unraised := s.unraised || !s.wasOffline && !r.monitored }.finish i p) := by
  have hfailing : p.phase.failing = true := by rw [hp]; rfl
  obtain ⟨hrow, hstatus⟩ : (s.row.monitored = true → r.monitored = true) ∧
      (s.row.status = .offline ∨ s.masked = true) := by
    have := h.phases p (List.mem_of_getElem? hi)
    rwa [hp] at this
  have hunraised : (s.unraised || !s.wasOffline && !r.monitored) = true →
      s.row.monitored = false := by
    rw [Bool.or_eq_true, Bool.and_eq_true]
    rintro (hbefore | ⟨-, hnot⟩)
    · exact h.unraised hbefore
    · exact Bool.eq_false_iff.mpr fun hmonitored => by simp [hrow hmonitored] at hnot
  have hsilent : ¬ s.Has PollPhase.succeeding := h.apart (has_of_get hi hfailing)
  split_ifs with hraise
  · have hraises : HostWatch.Has ({ s with
        wasOffline := true
        forgotten := false
        unraised := s.unraised || !s.wasOffline && !r.monitored }.set i p (.raising r n msg))
        PollPhase.raises := has_set hi rfl
    refine ⟨phases_set hi ⟨rfl, hstatus⟩ fun q hq => ?_, fun _ hhas => ?_, fun hmasked => ?_,
      fun hforgotten => (by cases hforgotten), hunraised, fun hdown => ?_, fun _ => .inl rfl,
      fun _ => .inr (.inr hraises), fun _ _ _ => .inr (.inr hraises)⟩
    · exact (h.phases q hq).flag (h.not_succeeding hi hfailing hq) rfl rfl rfl rfl rfl
    · exact hsilent ((hhas.of_set hi).resolve_left (by simp [PollPhase.succeeding]))
    · exact (h.masked hmasked).set hi (by simp [hp, PollPhase.unrecorded])
    · exact (h.alarm hdown).imp_right (.imp_right fun hhas => absurd hhas fun ⟨q, hq, hres⟩ =>
        hsilent ⟨q, hq, by cases hq' : q.phase <;> simp_all [PollPhase.resolves,
          PollPhase.succeeding]⟩)
  · -- the flag was set before, or the host is not monitored
    have hheard : s.row.monitored = true → s.down = true ∨ s.Has PollPhase.raises := by
      intro hmonitored
      have hflag : s.wasOffline = true := by simpa [hrow hmonitored] using hraise
      refine (h.heard hflag).imp_right fun hsome => hsome.resolve_left fun hun => ?_
      rw [h.unraised hun] at hmonitored
      cases hmonitored
    have hgoes : s.Has PollPhase.raises → (s.finish i p).Has PollPhase.raises :=
      fun hhas => hhas.finish hi (by rw [hp]; rfl)
    refine ⟨fun q hq => ?_, fun _ hhas => hsilent hhas.of_finish, fun hmasked => ?_,
      fun hforgotten => (by cases hforgotten), hunraised, fun hdown => ?_, fun _ => .inl rfl,
      fun _ => ?_, fun _ _ hmonitored => ?_⟩
    · have hq := List.mem_of_mem_eraseIdx hq
      exact (h.phases q hq).flag (h.not_succeeding hi hfailing hq) rfl rfl rfl rfl rfl
    · exact (h.masked hmasked).finish hi (by rw [hp]; rfl)
    · exact (h.alarm hdown).imp_right (.imp_right fun hhas => hhas.finish hi (by rw [hp]; rfl))
    · cases hmonitored : r.monitored with
      | false =>
        cases hflag : s.wasOffline with
        | false => exact .inr (.inl (by simp [HostWatch.finish]))
        | true =>
          refine (h.heard hflag).imp_right (.imp (fun hun => ?_) hgoes)
          simp [HostWatch.finish, hun]
      | true =>
        have hflag : s.wasOffline = true := by simpa [hmonitored] using hraise
        refine (h.heard hflag).imp_right (.imp (fun hun => ?_) hgoes)
        simp [HostWatch.finish, hun]
    · exact (hheard hmonitored).imp_right fun hhas => .inr (hgoes hhas)

/-- A failure looks whether the alert is open. -/
private theorem AlertInv.look {r : Record} {n : ℕ} {msg : String} (h : s.AlertInv)
    (hi : s.polls[i]? = some p) (hp : p.phase = .raising r n msg) :
    (s.set i p (.acting r n msg s.down)).AlertInv := by
  have hfailing : p.phase.failing = true := by rw [hp]; rfl
  obtain ⟨hflag, hstatus⟩ : s.wasOffline = true ∧
      (s.row.status = .offline ∨ s.masked = true) := by
    have := h.phases p (List.mem_of_getElem? hi)
    rwa [hp] at this
  have hsilent : ¬ s.Has PollPhase.succeeding := h.apart (has_of_get hi hfailing)
  have hraises : s.down = true ∨
      (s.set i p (.acting r n msg s.down)).Has PollPhase.raises := by
    cases hdown : s.down with
    | true => exact .inl rfl
    | false => exact .inr (has_set hi rfl)
  refine ⟨phases_set hi ⟨hflag, hstatus, fun hdown => hdown⟩ fun q hq =>
      (h.phases q hq).congr rfl rfl rfl rfl rfl, fun _ hhas => ?_, fun hmasked => ?_, h.forgotten,
    h.unraised, fun hdown => ?_, fun _ => .inl hflag, fun _ => hraises.imp_right .inr,
    fun _ _ _ => hraises.imp_right .inr⟩
  · exact hsilent ((hhas.of_set hi).resolve_left (by simp [PollPhase.succeeding]))
  · exact (h.masked hmasked).set hi (by simp [hp, PollPhase.unrecorded])
  · exact (h.alarm hdown).imp_right (.imp_right fun hhas => hhas.set hi
      (by simp [hp, PollPhase.resolves]))

/-- **A failure opens or refreshes the alert**, which is open then. -/
private theorem AlertInv.act {r : Record} {n : ℕ} {msg : String} {wasOpen : Bool} (h : s.AlertInv)
    (hi : s.polls[i]? = some p) (hp : p.phase = .acting r n msg wasOpen) :
    AlertInv ({ s with
      engine := s.engine.act ⟨(s.hostDown r n msg).withDefaults, wasOpen⟩ }.finish i p) := by
  have hfailing : p.phase.failing = true := by rw [hp]; rfl
  obtain ⟨hflag, hstatus, hopen⟩ : s.wasOffline = true ∧
      (s.row.status = .offline ∨ s.masked = true) ∧ (wasOpen = true → s.down = true) := by
    have := h.phases p (List.mem_of_getElem? hi)
    rwa [hp] at this
  have hdown : (s.engine.act ⟨(s.hostDown r n msg).withDefaults, wasOpen⟩).isOpen s.key = true := by
    rw [s.isOpen_act]
    cases wasOpen with
    | true => exact hopen rfl
    | false => rfl
  refine ⟨fun q hq => ?_, fun hhas hsucceeding => h.apart hhas.of_finish hsucceeding.of_finish,
    fun hmasked => (h.masked hmasked).finish hi (by rw [hp]; rfl), h.forgotten, h.unraised,
    fun _ => hstatus.imp_right .inl, fun _ => .inl hflag, fun _ => .inl hdown,
    fun _ _ _ => .inl hdown⟩
  exact (h.phases q (List.mem_of_mem_eraseIdx hq)).act rfl rfl rfl rfl hdown

/-- **A step of a poll.** -/
private theorem AlertInv.advance (h : s.AlertInv) (hi : s.polls[i]? = some p)
    (hcond : p.phase.takes = true → ¬ s.Has PollPhase.failing) (hs : s.advance i p = some s') :
    s'.AlertInv := by
  unfold HostWatch.advance at hs
  cases hp : p.phase with
  | tested =>
    rw [hp] at hs
    obtain rfl := Option.some.inj hs
    exact h.set hi (by rw [hp]; exact ⟨rfl, rfl⟩) ⟨rfl, rfl⟩
      ⟨fun hmonitored => hmonitored, h.forgotten⟩
  | probing r =>
    rw [hp] at hs
    cases hs
  | failed r msg =>
    rw [hp] at hs
    cases hs
  | succeeded r degraded =>
    rw [hp] at hs
    obtain rfl := Option.some.inj hs
    exact h.take hi hp (hcond (by rw [hp]; rfl))
  | recording r degraded wasOffline =>
    rw [hp] at hs
    obtain rfl := Option.some.inj hs
    exact h.record hi hp
  | resolving r =>
    rw [hp] at hs
    obtain rfl := Option.some.inj hs
    exact h.resolve hi hp
  | flagging r n msg =>
    rw [hp] at hs
    obtain rfl := Option.some.inj hs
    exact h.flag hi hp
  | raising r n msg =>
    rw [hp] at hs
    obtain rfl := Option.some.inj hs
    exact h.look hi hp
  | acting r n msg wasOpen =>
    rw [hp] at hs
    obtain rfl := Option.some.inj hs
    exact h.act hi hp

/-! ### The other steps -/

/-- **The monitored flag is edited.** Where the host becomes monitored there is no poll, and every
outage that the flag stands for has been raised. -/
private theorem AlertInv.edit (h : s.AlertInv) (monitored : Bool)
    (hcond : monitored = true → s.row.monitored = false →
      s.polls.isEmpty = true ∧ s.unraised = false) : (s.edit monitored).AlertInv := by
  rw [HostWatch.edit]
  split_ifs with hsame
  · exact h
  have hmap : ∀ {f : PollPhase → Bool}, s.Has f →
      ∃ p ∈ s.polls.map fun p => { p with since := false }, f p.phase = true :=
    fun ⟨q, hq, hf⟩ => ⟨_, List.mem_map.mpr ⟨q, hq, rfl⟩, hf⟩
  have hof : ∀ {f : PollPhase → Bool},
      (∃ p ∈ s.polls.map fun p => { p with since := false }, f p.phase = true) → s.Has f := by
    rintro f ⟨_, hp, hf⟩
    obtain ⟨q, hq, rfl⟩ := List.mem_map.mp hp
    exact ⟨q, hq, hf⟩
  refine ⟨fun p hp => ?_, fun hhas hsucceeding => h.apart (hof hhas) (hof hsucceeding),
    fun hmasked => hmap (h.masked hmasked), h.forgotten, fun hunraised => ?_,
    fun hdown => (h.alarm hdown).imp_right (.imp_right hmap),
    fun hdown => (h.memory hdown).imp_right (.imp_right (.imp hmap hmap)),
    fun hflag => (h.heard hflag).imp_right (.imp_right hmap), fun hedited => (by cases hedited)⟩
  · obtain ⟨q, hq, rfl⟩ := List.mem_map.mp hp
    cases monitored with
    | true =>
      have hnil := (hcond rfl (by simpa using Ne.symm hsame)).1
      simp [List.isEmpty_iff.mp hnil] at hq
    | false =>
      have hq := h.phases q hq
      cases hphase : q.phase <;> simp_all [PhaseInv, HostWatch.down, HostWatch.key]
  · cases monitored with
    | true =>
      have hnone := (hcond rfl (by simpa using Ne.symm hsame)).2
      exact absurd (hnone.symm.trans hunraised) Bool.false_ne_true
    | false => rfl

/-- **A test records a success.** If the host was offline the outage is hidden, and the flag or a
failing poll still knows of it. -/
private theorem AlertInv.test (h : s.AlertInv) (hcond : s.forgotten = false) :
    AlertInv (HostWatch.start { s with
      row := s.row.succeed .online
      masked := s.masked || s.row.status = .offline } { phase := .tested }) := by
  have honline : (s.row.succeed .online).status ≠ .offline := by simp [Record.succeed]
  have hmasked : s.masked = true ∨ s.row.status = .offline →
      (s.masked || decide (s.row.status = .offline)) = true := by simp
  refine ⟨fun q hq => ?_, fun hhas hsucceeding => ?_,
    fun _ => ⟨_, List.mem_append_right _ (List.mem_singleton_self _), rfl⟩,
    fun h' => absurd (hcond.symm.trans h') Bool.false_ne_true, h.unraised, fun hdown => ?_,
    fun hdown => ?_, fun hflag => ?_, fun _ hoffline => absurd hoffline honline⟩
  · rcases List.mem_append.mp hq with hold | hnew
    · exact (h.phases q hold).test rfl honline hmasked rfl rfl rfl
    · obtain rfl := List.mem_singleton.mp hnew
      trivial
  · exact h.apart (Has.of_start hhas rfl) (Has.of_start hsucceeding rfl)
  · rcases h.alarm hdown with hoffline | hbefore | hres
    · exact .inr (.inl (hmasked (.inr hoffline)))
    · exact .inr (.inl (hmasked (.inl hbefore)))
    · exact .inr (.inr (hres.start _))
  · exact (h.memory hdown).imp_right (.imp_right (.imp (·.start _) (·.start _)))
  · exact (h.heard hflag).imp_right (.imp_right (·.start _))

/-- **Dockhand restarts**, with no result that has still to reach the alert. -/
private theorem AlertInv.restart (h : s.AlertInv) (hsucceeding : ¬ s.Has PollPhase.succeeding)
    (hfailing : ¬ s.Has PollPhase.failing) (hmasked : s.masked = false) :
    AlertInv { s with
      wasOffline := false
      polling := false
      polls := []
      forgotten := s.row.status = .offline
      unraised := false } := by
  have halarm : s.down = true → s.row.status = .offline := fun hdown => by
    rcases h.alarm hdown with hoffline | hmasked' | ⟨q, hq, hres⟩
    · exact hoffline
    · simp [hmasked] at hmasked'
    · exact absurd ⟨q, hq, by cases hq' : q.phase <;> simp_all [PollPhase.resolves,
        PollPhase.succeeding]⟩ hsucceeding
  refine ⟨fun q hq => (by cases hq), fun ⟨q, hq, _⟩ => (by cases hq),
    fun h' => absurd (hmasked.symm.trans h') Bool.false_ne_true, fun h' => of_decide_eq_true h',
    fun h' => (by cases h'), fun hdown => .inl (halarm hdown),
    fun hdown => .inr (.inl (decide_eq_true (halarm hdown))), fun h' => (by cases h'),
    fun hedited hoffline hmonitored => .inl ?_⟩
  refine (h.silence hedited hoffline hmonitored).resolve_right ?_
  rintro (⟨q, hq, hq'⟩ | ⟨q, hq, hq'⟩)
  · exact hfailing ⟨q, hq, by cases hp : q.phase <;> simp_all [PollPhase.flags, PollPhase.failing]⟩
  · exact hfailing ⟨q, hq, by cases hp : q.phase <;> simp_all [PollPhase.raises, PollPhase.failing]⟩

/-- **One step.** -/
theorem AlertInv.step (h : s.AlertInv) (hcond : s.Apart e) (hs : s.step e = some s') :
    s'.AlertInv := by
  cases e with
  | pollAll =>
    obtain rfl := Option.some.inj hs
    split_ifs
    · exact h
    · have hstart := h.start_probing true
      exact ⟨fun q hq => (hstart.phases q hq).congr rfl rfl rfl rfl rfl, hstart.apart,
        hstart.masked, hstart.forgotten, hstart.unraised, hstart.alarm, hstart.memory, hstart.heard,
        hstart.silence⟩
  | create =>
    obtain rfl := Option.some.inj hs
    exact h.start_probing false
  | patch monitored changed =>
    obtain rfl := Option.some.inj hs
    have hedit := h.edit monitored hcond
    split_ifs
    · exact hedit.start_probing false
    · exact hedit
  | test =>
    obtain rfl := Option.some.inj hs
    exact h.test hcond
  | probed i result =>
    simp only [HostWatch.step] at hs
    split at hs
    next r loop since hi =>
      have hrow := h.phases _ (List.mem_of_getElem? hi)
      cases result with
      | ok degraded =>
        obtain rfl := Option.some.inj hs
        exact h.set hi ⟨rfl, rfl⟩ ⟨rfl, rfl⟩ hrow
      | error msg =>
        obtain rfl := Option.some.inj hs
        exact h.set hi ⟨rfl, rfl⟩ ⟨rfl, rfl⟩ hrow
    · cases hs
  | recordFailure i retries =>
    simp only [HostWatch.step] at hs
    split at hs
    next r msg loop since hi =>
      obtain rfl := Option.some.inj hs
      simp only [Apart] at hcond
      split_ifs at hcond ⊢ with hoffline
      · exact h.fail_offline hi rfl hoffline hcond
      · exact h.fail_online hi rfl hoffline hcond
    · cases hs
  | run i =>
    obtain ⟨p, hi, hs⟩ := Option.bind_eq_some_iff.mp hs
    exact h.advance hi (hcond p hi) hs
  | restart =>
    obtain rfl := Option.some.inj hs
    exact h.restart hcond.1 hcond.2.1 hcond.2.2

/-- **The host-down alert agrees with the status** in every run without the steps that cross. -/
theorem agrees_of_run (hnew : s.New) (hcond : Along HostWatch.step Apart s es) :
    AllStates HostWatch.step Agrees s es :=
  (allStates_of_along (fun _ _ _ h hC hs => h.step hC hs) (AlertInv.of_new hnew) hcond).imp
    fun _ h => h.agrees

end HostWatch

/-! ### Disagreements for good -/

namespace Example

/-- A host that was never polled. -/
def watch : HostWatch where
  id := "1"
  row := { name := "nas", address := "a" }
  engine := { notifications := ⟨true, true, true, true, true, true, true⟩ }

/-- The host has no history. -/
theorem watch_new : watch.New := ⟨by decide, rfl, rfl, rfl, rfl, rfl, rfl⟩

/-- A poll of the loop that fails, with its `n` steps after `RecordFailure`. -/
def failedPoll (n : ℕ) : List PollEvent :=
  [.pollAll, .probed 0 (.error "timeout"), .recordFailure 0 1] ++ List.replicate n (.run 0)

/-- A poll of the loop that succeeds, with its `n` steps. -/
def goodPoll (n : ℕ) : List PollEvent :=
  [.pollAll, .probed 0 (.ok false)] ++ List.replicate n (.run 0)

/-- The host goes offline while it is not monitored, and stays offline when it is. -/
def monitoredLate : List PollEvent :=
  [.patch false false] ++ goodPoll 2 ++ failedPoll 1 ++ [.patch true false] ++ failedPoll 1

/-- The host is tested after a restart, and its next poll finds it online. -/
def testedAfterRestart : List PollEvent :=
  failedPoll 3 ++ [.restart, .test, .run 0, .probed 0 (.ok false), .run 0, .run 0]

/-- A test of the offline host succeeds, and its poll fails once of three times. -/
def testedThenFailed : List PollEvent :=
  failedPoll 3 ++ [.test, .run 0, .probed 0 (.error "timeout"), .recordFailure 0 3]

/-- A poll that `patchHost` has started finds the host up while one of the loop finds it down: the
success takes the flag before the failure sets it, and resolves after the failure has looked. -/
def crossed : List PollEvent :=
  failedPoll 3 ++
    [.pollAll, .patch true true, .probed 1 (.ok false), .run 1, .run 1,
      .probed 0 (.error "timeout"), .recordFailure 0 1, .run 0, .run 0, .run 0, .run 0]

/-- Down, up, down again while it is monitored, with a test in between, a poll that was started
before a failure and succeeds after it, and a restart while the host is offline. -/
def inTurn : List PollEvent :=
  goodPoll 2 ++ failedPoll 3 ++ failedPoll 1 ++ goodPoll 3 ++
    [.patch false false, .patch true false, .pollAll, .patch true true,
      .probed 0 (.error "timeout"), .probed 1 (.ok false), .recordFailure 0 1, .run 0, .run 0,
      .run 0] ++ List.replicate 3 (.run 0) ++ failedPoll 3 ++
    [.test, .run 0, .probed 0 (.ok true), .run 0, .run 0, .run 0] ++ failedPoll 3 ++ [.restart] ++
    failedPoll 3 ++ goodPoll 3

end Example

/-- A monitored host is offline without an alert, hosts are online with one, and a host that went
down while a poll found it up is offline without an alert. -/
theorem HostWatch.not_agrees :
    Example.watch.New ∧
      ¬ AllStates HostWatch.step HostWatch.Agrees Example.watch Example.monitoredLate ∧
      ¬ AllStates HostWatch.step HostWatch.Agrees Example.watch Example.testedAfterRestart ∧
      ¬ AllStates HostWatch.step HostWatch.Agrees Example.watch Example.testedThenFailed ∧
      ¬ AllStates HostWatch.step HostWatch.Agrees Example.watch Example.crossed :=
  ⟨Example.watch_new, by decide +kernel, by decide +kernel, by decide +kernel, by decide +kernel⟩

/-- The run with a test, polls that overlap and a restart meets the condition. -/
theorem HostWatch.agrees_of_run_inTurn :
    AllStates HostWatch.step HostWatch.Agrees Example.watch Example.inTurn :=
  HostWatch.agrees_of_run Example.watch_new (by decide +kernel)

end Dockhand.Monitor
