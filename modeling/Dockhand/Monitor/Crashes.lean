import Dockhand.Alerts.Episodes
import Dockhand.Transition.Pool

/-!
# The crash alert

One host, seen through its event stream and through its polls. `handleEvent` takes the messages of
the stream one after the other and raises `container_exited` when a container dies unexpectedly. A
poll lists the containers at one moment, and when it has inspected and measured them all it resolves
`container_exited` for every container that its list did not show as exited. The two run next to
each other, and each call on the alert engine is a step of its own.

A list that is older than the crash resolves its alert, and nothing raises it again
(`CrashWatch.not_alerted`). In the runs in which each poll resolves from a list that shows the
crashed containers as exited no crash alert is lost: `CrashWatch.alerted_of_run`.
-/

namespace Dockhand.Monitor

open Alerts Go Transition

/-! ### Calls on the alert engine -/

/-- A call that is still to be made; `act` is the second statement of a `Raise`. -/
inductive Call where
  | raise (spec : Spec)
  | act (r : Raise)
  | resolve (key : String)
  | resolvePrefix (pre : String) (keep : List String)

namespace Call

/-- Make the next statement of a call: what is left of the call, and the engine. -/
def run (e : Engine) : Call → List Call × Engine
  | .raise spec => ([.act ⟨spec.withDefaults, e.isOpen spec.key⟩], e)
  | .act r => ([], e.act r)
  | .resolve key => ([], e.close (· = key))
  | .resolvePrefix p keep => ([], e.close (Engine.inPrefix p keep))

/-- The call opens the alert, unless it finds it open. -/
def opens (key : String) : Call → Bool
  | .raise spec => spec.key = key
  | .act r => r.spec.key = key && !r.wasOpen
  | .resolve _ | .resolvePrefix .. => false

/-- The call closes the alert. -/
def closes (key : String) : Call → Bool
  | .raise _ | .act _ => false
  | .resolve k => key = k
  | .resolvePrefix p keep => Engine.inPrefix p keep key

variable {c : Call} {e : Engine} {key : String}

/-- An open alert is closed by a call that closes it, and by no other. -/
theorem isOpen_run (hopen : e.isOpen key = true) (hc : c.closes key = false) :
    (c.run e).2.isOpen key = true := by
  cases c with
  | raise spec => exact hopen
  | act r =>
    cases hwas : r.wasOpen with
    | true => simpa [run, Engine.act_of_open hwas] using hopen
    | false => simp [run, Engine.act_of_closed hwas, hopen]
  | resolve k => simpa [run, closes, hopen] using hc
  | resolvePrefix p keep => simpa [run, closes, hopen] using hc

/-- A call that opens the alert finds it open, opens it, or has still to open it. -/
theorem run_opens (hc : c.opens key = true) :
    (c.run e).2.isOpen key = true ∨ (c.run e).1.any (opens key) = true := by
  cases c with
  | raise spec =>
    have hkey : spec.key = key := by simpa [opens] using hc
    cases hopen : e.isOpen key with
    | true => exact .inl hopen
    | false => exact .inr (by simp [run, opens, Spec.withDefaults, hkey, hopen])
  | act r =>
    obtain ⟨hkey, hwas⟩ : r.spec.key = key ∧ r.wasOpen = false := by simpa [opens] using hc
    exact .inl (by simp [run, Engine.act_of_closed hwas, hkey])
  | resolve k => cases hc
  | resolvePrefix p keep => cases hc

/-- What is left of a call closes nothing. -/
theorem closes_run {c' : Call} (h : c' ∈ (c.run e).1) : c'.closes key = false := by
  cases c with
  | raise spec =>
    obtain rfl := List.mem_singleton.mp h
    rfl
  | _ => cases h

end Call

/-! ### Events and lists of containers -/

/-- An event of Docker about a container. The attributes that it does not have are empty. -/
structure Message where
  action : String
  name : String
  exitCode : String := ""
  oldName : String := ""

/-- An entry of a list of containers. -/
structure Container where
  name : String
  state : String
  health : String := ""

/-- The actions of Docker that are kept in the list of events. -/
def recordedActions : List String :=
  ["create", "start", "restart", "stop", "die", "kill", "pause", "unpause", "oom", "destroy",
    "rename", "update"]

namespace Message

/-- The action up to its first colon. -/
def base (msg : Message) : String := (cutChar msg.action ':').1

/-- `handleEvent` returns at once. -/
def ignored (msg : Message) : Bool :=
  msg.name = "" || (!recordedActions.contains msg.base && msg.base ≠ "health_status")

/-- The message tells of a change of the container's state. -/
def lifecycle (msg : Message) : Bool := msg.base ≠ "health_status" && msg.base ≠ "oom"

/-- A lifecycle event of the container, or its rename to another name. -/
def concerns (msg : Message) (name : String) : Bool :=
  !msg.ignored && msg.lifecycle && (msg.name = name || msg.base = "rename" && msg.oldName = name)

/-- The container has run out of memory. -/
def outOfMemory (msg : Message) (name : String) : Bool :=
  !msg.ignored && msg.base = "oom" && msg.name = name

end Message

/-- What the keys of a host's crash alerts begin with. -/
def exitedPrefix (id : String) : String := "container_exited:" ++ id ++ ":"

/-- The key of the alert of a crashed container. -/
def exitedKey (id name : String) : String := "container_exited:" ++ id ++ ":" ++ name

/-- What the keys of a host's health alerts begin with. -/
def unhealthyPrefix (id : String) : String := "unhealthy:" ++ id ++ ":"

/-- The key of the alert of an unhealthy container. -/
def unhealthyKey (id name : String) : String := "unhealthy:" ++ id ++ ":" ++ name

/-- The page that an alert about a container leads to. -/
def logsHref (id name : String) : String := "/hosts/" ++ id ++ "?tab=logs&c=" ++ name

/-- The alert of a crash or of a lack of memory. -/
def containerExited (id name title text : String) : Spec where
  key := exitedKey id name
  severity := "crit"
  kind := "container_exited"
  title := title
  text := text
  hostID := id
  action := "Open logs"
  href := logsHref id name
  pref := "containerCrash"

/-- The alert of a container whose health check fails. -/
def unhealthy (id hostName name : String) : Spec where
  key := unhealthyKey id name
  severity := "warn"
  kind := "unhealthy"
  title := name ++ " is unhealthy"
  text := "The health check of " ++ name ++ " on " ++ hostName ++ " is failing."
  hostID := id
  action := "Open logs"
  href := logsHref id name
  pref := "unhealthy"

/-- The container has stopped, as `docker ps` words it. -/
def Container.exited (c : Container) : Bool := c.state = "exited" || c.state = "dead"

/-- What `evaluateAlerts` calls for the containers of a list, after the alerts of the host. -/
def evaluateAlerts (id hostName : String) (ctrs : List Container) : List Call :=
  let sick := ctrs.filter fun c => c.health = "unhealthy"
  let keep := sick.map fun c => unhealthyKey id c.name
  let exitedKeep := (ctrs.filter Container.exited).map fun c => exitedKey id c.name
  sick.map (fun c => .raise (unhealthy id hostName c.name)) ++
    [.resolvePrefix (unhealthyPrefix id) keep, .resolvePrefix (exitedPrefix id) exitedKeep]

/-- What `handleEvent` calls; `crash` tells that the message is a die that counts as unexpected. -/
def eventCalls (id hostName : String) (crash : Bool) (msg : Message) : List Call :=
  let name := msg.name
  if msg.base = "die" then
    if crash then
      [.raise (containerExited id name (name ++ " exited with code " ++ msg.exitCode)
        ("Container " ++ name ++ " on " ++ hostName ++ " stopped unexpectedly."))]
    else []
  else if msg.base = "oom" then
    [.raise (containerExited id name (name ++ " ran out of memory")
      ("Container " ++ name ++ " on " ++ hostName ++ " was killed by the OOM killer."))]
  else if msg.base = "start" then [.resolve (exitedKey id name)]
  else if msg.base = "health_status" && hasSuffix msg.action "unhealthy" then
    [.raise (unhealthy id hostName name)]
  else if msg.base = "health_status" && hasSuffix msg.action " healthy" then
    [.resolve (unhealthyKey id name)]
  else if msg.base = "destroy" then
    [.resolve (exitedKey id name), .resolve (unhealthyKey id name)]
  else []

/-- The containers that have crashed once the message is handled. -/
def crashedAfter (crashed : List String) (crash : Bool) (msg : Message) : List String :=
  let others := crashed.filter fun name => !msg.concerns name
  if crash then others ++ [msg.name] else others

/-- A poll that has listed the containers, with the calls that it has still to make. -/
structure ListedPoll where
  containers : List Container
  calls : List Call

/-- The list shows the container as exited. -/
def ListedPoll.showsExited (p : ListedPoll) (name : String) : Bool :=
  p.containers.any fun c => c.name = name && c.exited

/-- The next call of the poll resolves the crash alerts that its list does not keep. -/
def ListedPoll.resolvesExited (id : String) (p : ListedPoll) : Bool :=
  match p.calls with
  | .resolvePrefix q _ :: _ => q = exitedPrefix id
  | _ => false

/-! ### The host -/

/-- Nanoseconds. -/
def minute : ℕ := 60 * 10 ^ 9

/-- `expectedActionT` in nanoseconds: how long an action of Dockhand explains what happens to a
container. -/
def expectedActionT : ℕ := 30 * 10 ^ 9

/-- The containers of the host, the messages on its stream, the calls that `handleEvent` has still
to make for the last one of them, the polls, the alerts, and what the monitor keeps in memory.
`crashed` is history: the containers of which the last lifecycle event that was handled is a die
that counted as unexpected. -/
structure CrashWatch where
  id : String
  hostName : String
  containers : List Container
  queue : List Message := []
  calls : List Call := []
  polls : List ListedPoll := []
  engine : Engine
  stopping : String → Option ℕ := fun _ => none
  expected : String → Option ℕ := fun _ => none
  crashed : List String := []

/-- What happens next: to the containers, in the handling of the stream, in a poll, or by Dockhand.
-/
inductive CrashEvent where
  /-- Something happens to the containers, and its messages are on the stream. -/
  | docker (msgs : List Message) (containers : List Container)
  /-- The next message is handled, once the calls for the one before are made. -/
  | handle
  /-- The next call of `handleEvent`. -/
  | call
  /-- A poll lists the containers. -/
  | list
  /-- The next call of the poll `i`. -/
  | poll (i : ℕ)
  /-- An action of Dockhand on a container. -/
  | recordAction (name : String)
  | tick (d : ℕ)

namespace CrashWatch

/-- The key under which the crash of a container is raised. -/
def key (s : CrashWatch) (name : String) : String := exitedKey s.id name

/-- Dockhand has acted on the container a short while ago; what is older is forgotten. -/
def expectedRecently (s : CrashWatch) (name : String) : Bool × CrashWatch :=
  match s.expected name with
  | none => (false, s)
  | some t =>
    if s.engine.now - t > expectedActionT then
      (false, { s with expected := Function.update s.expected name none })
    else (true, s)

/-- Somebody has stopped the container: Dockhand, or a stop or kill of the last minute. -/
def userStop (s : CrashWatch) (ours : Bool) (name : String) : Bool :=
  ours || (s.stopping name).any fun t => s.engine.now - t < minute

/-- The message is a die that counts as unexpected. -/
def unexpected (s : CrashWatch) (ours : Bool) (msg : Message) : Bool :=
  msg.base = "die" && msg.exitCode ≠ "" && msg.exitCode ≠ "0" && !s.userStop ours msg.name

/-- `handleEvent` up to its calls. -/
def handleEvent (s : CrashWatch) (msg : Message) : CrashWatch :=
  if msg.ignored then s
  else
    let (ours, s) := s.expectedRecently msg.name
    let s :=
      if msg.base = "stop" || msg.base = "kill" then
        { s with stopping := Function.update s.stopping msg.name (some s.engine.now) }
      else s
    let crash := s.unexpected ours msg
    { s with
      calls := eventCalls s.id s.hostName crash msg
      crashed := crashedAfter s.crashed crash msg
      stopping :=
        if msg.base = "die" then Function.update s.stopping msg.name none else s.stopping }

/-- One step; `none` if there is none of the kind to take. -/
def step (s : CrashWatch) : CrashEvent → Option CrashWatch
  | .docker msgs containers => some { s with queue := s.queue ++ msgs, containers }
  | .handle =>
    match s.calls, s.queue with
    | [], msg :: queue => some ({ s with queue }.handleEvent msg)
    | _, _ => none
  | .call =>
    match s.calls with
    | c :: cs =>
      let (left, engine) := c.run s.engine
      some { s with calls := left ++ cs, engine }
    | [] => none
  | .list =>
    some { s with
      polls := s.polls ++ [⟨s.containers, evaluateAlerts s.id s.hostName s.containers⟩] }
  | .poll i =>
    match s.polls[i]? with
    | some ⟨containers, c :: cs⟩ =>
      let (left, engine) := c.run s.engine
      some { s with polls := s.polls.set i ⟨containers, left ++ cs⟩, engine }
    | _ => none
  | .recordAction name =>
    some { s with expected := Function.update s.expected name (some s.engine.now) }
  | .tick d => some { s with engine := { s.engine with now := s.engine.now + d } }

/-! ### The property and the condition -/

/-- No message, call or poll is in flight. -/
def idle (s : CrashWatch) : Bool :=
  s.queue.isEmpty && s.calls.isEmpty && s.polls.all fun p => p.calls.isEmpty

/-- **No crash alert is lost.** When nothing is in flight, the alert of each crashed container is
open. -/
def Alerted (s : CrashWatch) : Prop :=
  s.idle = true → ∀ name ∈ s.crashed, s.engine.isOpen (s.key name) = true

instance (s : CrashWatch) : Decidable s.Alerted := inferInstanceAs (Decidable (_ → _))

/-- The crashed containers to which nothing else has happened since. -/
def standing (s : CrashWatch) : List String :=
  s.crashed.filter fun name => s.queue.all fun msg => !msg.concerns name

/-- A call of `handleEvent`, or a message that waits, has still to open the alert. -/
def willOpen (s : CrashWatch) (name : String) : Bool :=
  s.calls.any (Call.opens (s.key name)) || s.queue.any fun msg => msg.outOfMemory name

/-- The condition on the steps: a poll that resolves crash alerts has a list that shows the crashed
containers as exited, unless the alert has still to be opened. -/
def ListCurrent (s : CrashWatch) : CrashEvent → Prop
  | .poll i => ∀ p ∈ s.polls[i]?, p.resolvesExited s.id = true →
      ∀ name ∈ s.standing, p.showsExited name = true ∨ s.willOpen name = true
  | _ => True

instance (s : CrashWatch) : (e : CrashEvent) → Decidable (s.ListCurrent e)
  | .poll _ => inferInstanceAs (Decidable (∀ p ∈ _, _ → ∀ name ∈ _, _))
  | .docker .. | .handle | .call | .list | .recordAction _ | .tick _ => isTrue trivial

/-- Nothing has crashed yet, and no call and no poll is in flight. -/
structure New (s : CrashWatch) : Prop where
  crashed : s.crashed = []
  calls : s.calls = []
  polls : s.polls = []

end CrashWatch

/-! ### The keys -/

variable {id name name' : String} {msg : Message}

private theorem toList_exitedKey : (exitedKey id name).toList = (exitedPrefix id).toList ++
    name.toList :=
  String.toList_append

@[simp] theorem exitedKey_inj : exitedKey id name = exitedKey id name' ↔ name = name' := by
  rw [← String.toList_inj, toList_exitedKey, toList_exitedKey, List.append_cancel_left_eq,
    String.toList_inj]

private theorem exitedKey_ne_unhealthyKey : exitedKey id name ≠ unhealthyKey id name' := fun h => by
  have hhead := congrArg (fun t => t.toList.head?) h
  unfold exitedKey unhealthyKey at hhead
  simp at hhead

private theorem inPrefix_unhealthy (keep : List String) :
    Engine.inPrefix (unhealthyPrefix id) keep (exitedKey id name) = false := by
  unfold Engine.inPrefix hasPrefix unhealthyPrefix exitedKey
  simp

/-- A crash alert is closed unless its container is among those kept. -/
theorem inPrefix_exited (keep : List String) :
    Engine.inPrefix (exitedPrefix id) keep (exitedKey id name) =
      !keep.contains (exitedKey id name) := by
  rw [Engine.inPrefix, hasPrefix, toList_exitedKey]
  simp

/-- **What a poll closes**: a crash alert is closed by no call but the last one, and only if the
list does not show the container as exited. -/
theorem closes_evaluateAlerts {hostName : String} {ctrs : List Container} {c : Call}
    (hc : c ∈ evaluateAlerts id hostName ctrs) (hcloses : c.closes (exitedKey id name) = true) :
    (∃ keep, c = .resolvePrefix (exitedPrefix id) keep) ∧
      (ctrs.any fun c => c.name = name && c.exited) = false := by
  simp only [evaluateAlerts, List.mem_append, List.mem_map, List.mem_cons, List.not_mem_nil,
    or_false] at hc
  rcases hc with ⟨ctr, -, rfl⟩ | rfl | rfl
  · cases hcloses
  · exact absurd ((inPrefix_unhealthy _).symm.trans hcloses) (by decide)
  · refine ⟨⟨_, rfl⟩, ?_⟩
    rw [Call.closes, inPrefix_exited] at hcloses
    rw [List.any_eq_false]
    intro ctr hctr hshows
    obtain ⟨rfl, hexited⟩ : ctr.name = name ∧ ctr.exited = true := by simpa using hshows
    have hkept := List.mem_map_of_mem (f := fun c => exitedKey id c.name)
      (List.mem_filter.mpr ⟨hctr, hexited⟩)
    simp [hkept] at hcloses

/-! ### The effect of a message -/

section Messages

variable {crash : Bool} {crashed : List String} {hostName : String}

private theorem concerns_name (hmsg : msg.ignored = false) (hbase : msg.lifecycle = true) :
    msg.concerns msg.name = true := by
  simp [Message.concerns, hmsg, hbase]

/-- A container has crashed before, and the message is not about it, or the message is its die. -/
theorem mem_crashedAfter (h : name ∈ crashedAfter crashed crash msg) :
    name ∈ crashed ∧ msg.concerns name = false ∨ crash = true ∧ name = msg.name := by
  unfold crashedAfter at h
  split_ifs at h with hcrash
  · rcases List.mem_append.mp h with hother | hname
    · exact .inl (by simpa using List.mem_filter.mp hother)
    · exact .inr ⟨hcrash, List.mem_singleton.mp hname⟩
  · exact .inl (by simpa using List.mem_filter.mp h)

/-- An unexpected die raises the alert. -/
theorem opens_of_crash (hdie : msg.base = "die") :
    (eventCalls id hostName true msg).any (Call.opens (exitedKey id msg.name)) = true := by
  simp [eventCalls, hdie, Call.opens, containerExited]

/-- So does a lack of memory. -/
theorem opens_of_outOfMemory (h : msg.outOfMemory name = true) :
    (eventCalls id hostName crash msg).any (Call.opens (exitedKey id name)) = true := by
  obtain ⟨⟨-, hbase⟩, rfl⟩ : (msg.ignored = false ∧ msg.base = "oom") ∧ msg.name = name := by
    simpa [Message.outOfMemory] using h
  simp [eventCalls, hbase, Call.opens, containerExited]

/-- **A message resolves no crash that stands after it**: the starts and the removals of a container
are events of its life. -/
theorem closes_eventCalls {c : Call} (hmsg : msg.ignored = false)
    (hcrash : crash = true → msg.base = "die") (hname : name ∈ crashedAfter crashed crash msg)
    (hc : c ∈ eventCalls id hostName crash msg) : c.closes (exitedKey id name) = false := by
  have hne : msg.base = "start" ∨ msg.base = "destroy" →
      exitedKey id name ≠ exitedKey id msg.name := by
    rintro hbase heq
    obtain rfl := exitedKey_inj.mp heq
    have hlifecycle : msg.lifecycle = true := by
      rcases hbase with hbase | hbase <;> simp [Message.lifecycle, hbase]
    rcases mem_crashedAfter hname with ⟨-, hother⟩ | ⟨htrue, -⟩
    · exact absurd (hother.symm.trans (concerns_name hmsg hlifecycle)) (by decide)
    · rw [hcrash htrue] at hbase
      exact absurd hbase (by decide)
  have hunhealthy : exitedKey id name ≠ unhealthyKey id msg.name := exitedKey_ne_unhealthyKey
  unfold eventCalls at hc
  dsimp only at hc
  split_ifs at hc with hdie hunexpected hoom hstart hsick hwell hdestroy
  · obtain rfl := List.mem_singleton.mp hc
    rfl
  · cases hc
  · obtain rfl := List.mem_singleton.mp hc
    rfl
  · obtain rfl := List.mem_singleton.mp hc
    exact decide_eq_false (hne (.inl hstart))
  · obtain rfl := List.mem_singleton.mp hc
    rfl
  · obtain rfl := List.mem_singleton.mp hc
    exact decide_eq_false hunhealthy
  · rcases List.mem_pair.mp hc with rfl | rfl
    · exact decide_eq_false (hne (.inr hdestroy))
    · exact decide_eq_false hunhealthy
  · cases hc

end Messages

namespace CrashWatch

variable {s s' : CrashWatch} {e : CrashEvent} {es : List CrashEvent}

theorem expectedRecently_snd (s : CrashWatch) (name : String) :
    ∃ expected, (s.expectedRecently name).2 = { s with expected } := by
  unfold expectedRecently
  split
  · exact ⟨_, rfl⟩
  · split_ifs
    · exact ⟨_, rfl⟩
    · exact ⟨_, rfl⟩

private theorem base_of_unexpected {ours : Bool} (h : s.unexpected ours msg = true) :
    msg.base = "die" := by
  simp only [unexpected, Bool.and_eq_true, decide_eq_true_eq] at h
  exact h.1.1.1

theorem handleEvent_of_ignored (s : CrashWatch) (h : msg.ignored = true) :
    s.handleEvent msg = s := if_pos h

/-- **A message that is handled** sets the calls and the history, and otherwise only what the
monitor remembers of actions, stops and kills. -/
theorem handleEvent_of_not_ignored (s : CrashWatch) (h : msg.ignored = false) :
    ∃ crash stopping expected, (crash = true → msg.base = "die") ∧
      s.handleEvent msg =
        { s with
          calls := eventCalls s.id s.hostName crash msg
          crashed := crashedAfter s.crashed crash msg
          stopping, expected } := by
  obtain ⟨expected, hs⟩ := s.expectedRecently_snd msg.name
  rw [handleEvent, if_neg (by simp [h])]
  simp only [hs]
  split_ifs <;> exact ⟨_, _, expected, base_of_unexpected, rfl⟩

/-! ### The invariant -/

/-- The calls of a poll close a crash alert only with `ResolvePrefix`, and only if the list does not
show the container as exited. -/
def Careful (s : CrashWatch) (p : ListedPoll) : Prop :=
  ∀ c ∈ p.calls, ∀ name, c.closes (s.key name) = true →
    (∃ keep, c = .resolvePrefix (exitedPrefix s.id) keep) ∧ p.showsExited name = false

/-- **The invariant**: the alert of each crash that stands is open or has still to be opened, and
what is in flight closes none of them but through a list. -/
structure CrashInv (s : CrashWatch) : Prop where
  alerted : ∀ name ∈ s.standing, s.engine.isOpen (s.key name) = true ∨ s.willOpen name = true
  calls : ∀ c ∈ s.calls, ∀ name ∈ s.crashed, c.closes (s.key name) = false
  polls : ∀ p ∈ s.polls, s.Careful p

private theorem mem_standing :
    name ∈ s.standing ↔ name ∈ s.crashed ∧ ∀ msg ∈ s.queue, msg.concerns name = false := by
  simp [standing]

private theorem willOpen_iff :
    s.willOpen name = true ↔
      (∃ c ∈ s.calls, c.opens (s.key name) = true) ∨
        ∃ msg ∈ s.queue, msg.outOfMemory name = true := by
  simp [willOpen]

private theorem CrashInv.of_new (h : s.New) : s.CrashInv where
  alerted := by simp [standing, h.crashed]
  calls := by simp [h.calls]
  polls := by simp [h.polls]

private theorem CrashInv.alerted_of_idle (h : s.CrashInv) : s.Alerted := by
  intro hidle name hname
  simp only [idle, Bool.and_eq_true, List.isEmpty_iff] at hidle
  have hstanding : name ∈ s.standing := mem_standing.mpr ⟨hname, by simp [hidle.1.1]⟩
  exact (h.alerted name hstanding).resolve_right (by simp [willOpen, hidle.1.1, hidle.1.2])

/-- Messages arrive. -/
theorem CrashInv.docker (h : s.CrashInv) (msgs : List Message) (containers : List Container) :
    { s with queue := s.queue ++ msgs, containers }.CrashInv where
  alerted name hname := by
    obtain ⟨hcrashed, hquiet⟩ := mem_standing.mp hname
    have hstanding : name ∈ s.standing :=
      mem_standing.mpr ⟨hcrashed, fun msg hmsg => hquiet msg (List.mem_append_left _ hmsg)⟩
    refine (h.alerted name hstanding).imp_right fun hwill => willOpen_iff.mpr ?_
    exact (willOpen_iff.mp hwill).imp_right fun ⟨msg, hmsg, hoom⟩ =>
      ⟨msg, List.mem_append_left _ hmsg, hoom⟩
  calls := h.calls
  polls := h.polls

/-- What the invariant says of a crash that the next message is not about. -/
theorem CrashInv.alerted_of_next {queue : List Message} (h : s.CrashInv) (hcalls : s.calls = [])
    (hqueue : s.queue = msg :: queue) (hname : name ∈ s.crashed)
    (hmsg : msg.concerns name = false) (hquiet : ∀ m ∈ queue, m.concerns name = false) :
    s.engine.isOpen (s.key name) = true ∨ msg.outOfMemory name = true ∨
      ∃ m ∈ queue, m.outOfMemory name = true := by
  have hstanding : name ∈ s.standing := by
    refine mem_standing.mpr ⟨hname, ?_⟩
    rw [hqueue]
    exact List.forall_mem_cons.mpr ⟨hmsg, hquiet⟩
  refine (h.alerted name hstanding).imp_right fun hwill => ?_
  rcases willOpen_iff.mp hwill with ⟨c, hc, -⟩ | hoom
  · rw [hcalls] at hc
    cases hc
  · rw [hqueue] at hoom
    simpa using hoom

/-- **A message is handled.** -/
theorem CrashInv.handle {queue : List Message} (h : s.CrashInv) (hcalls : s.calls = [])
    (hqueue : s.queue = msg :: queue) : ({ s with queue }.handleEvent msg).CrashInv := by
  cases hmsg : msg.ignored with
  | true =>
    -- an ignored message is about no container
    rw [handleEvent_of_ignored _ hmsg]
    refine ⟨fun name hname => ?_, h.calls, h.polls⟩
    obtain ⟨hcrashed, hquiet⟩ := mem_standing.mp hname
    rcases h.alerted_of_next hcalls hqueue hcrashed (by simp [Message.concerns, hmsg]) hquiet with
      hopen | hoom | hoom
    · exact .inl hopen
    · simp [Message.outOfMemory, hmsg] at hoom
    · exact .inr (willOpen_iff.mpr (.inr hoom))
  | false =>
    obtain ⟨crash, stopping, expected, hcrash, hs⟩ :=
      handleEvent_of_not_ignored { s with queue } hmsg
    rw [hs]
    refine ⟨fun name hname => ?_,
      fun c hc name hname => closes_eventCalls hmsg hcrash hname hc, h.polls⟩
    obtain ⟨hcrashed, hquiet⟩ := mem_standing.mp hname
    rcases mem_crashedAfter hcrashed with ⟨hbefore, hother⟩ | ⟨rfl, rfl⟩
    · -- a crash from before: its alert is open, or is raised by this message or a later one
      rcases h.alerted_of_next hcalls hqueue hbefore hother hquiet with hopen | hoom | hoom
      · exact .inl hopen
      · exact .inr (willOpen_iff.mpr (.inl (List.any_eq_true.mp (opens_of_outOfMemory hoom))))
      · exact .inr (willOpen_iff.mpr (.inr hoom))
    · -- the crash that the message reports
      exact .inr (willOpen_iff.mpr (.inl (List.any_eq_true.mp (opens_of_crash (hcrash rfl)))))

/-- A call of `handleEvent` is made. -/
theorem CrashInv.call {c : Call} {cs : List Call} (h : s.CrashInv) (hcalls : s.calls = c :: cs) :
    { s with calls := (c.run s.engine).1 ++ cs, engine := (c.run s.engine).2 }.CrashInv where
  alerted name hname := by
    have hstanding : name ∈ s.standing := hname
    have hcloses : c.closes (s.key name) = false :=
      h.calls c (hcalls ▸ List.mem_cons_self) name (mem_standing.mp hstanding).1
    rcases h.alerted name hstanding with hopen | hwill
    · exact .inl (Call.isOpen_run hopen hcloses)
    · rw [willOpen_iff, hcalls] at hwill
      rcases hwill with ⟨c', hc', hopens⟩ | hoom
      · rcases List.mem_cons.mp hc' with rfl | hrest
        · -- the first statement of a `Raise` leaves the second one, which opens the alert
          refine (Call.run_opens hopens).imp_right fun hleft => willOpen_iff.mpr (.inl ?_)
          obtain ⟨c'', hc'', hopens'⟩ := List.any_eq_true.mp hleft
          exact ⟨c'', List.mem_append_left _ hc'', hopens'⟩
        · exact .inr (willOpen_iff.mpr (.inl ⟨c', List.mem_append_right _ hrest, hopens⟩))
      · exact .inr (willOpen_iff.mpr (.inr hoom))
  calls c' hc' name hname := by
    -- what a call leaves behind closes nothing
    rcases List.mem_append.mp hc' with hleft | hrest
    · exact Call.closes_run hleft
    · exact h.calls c' (hcalls ▸ List.mem_cons_of_mem _ hrest) name hname
  polls := h.polls

/-- A poll lists the containers. -/
theorem CrashInv.list (h : s.CrashInv) :
    ({ s with polls := s.polls ++
        [⟨s.containers, evaluateAlerts s.id s.hostName s.containers⟩] } : CrashWatch).CrashInv where
  alerted := h.alerted
  calls := h.calls
  polls p hp := by
    rcases List.mem_append.mp hp with hold | hnew
    · exact h.polls p hold
    · obtain rfl := List.mem_singleton.mp hnew
      exact fun c hc name => closes_evaluateAlerts hc

/-- **A call of a poll is made.** -/
theorem CrashInv.poll {i : ℕ} {containers : List Container} {c : Call} {cs : List Call}
    (h : s.CrashInv) (hi : s.polls[i]? = some ⟨containers, c :: cs⟩)
    (hcond : s.ListCurrent (.poll i)) :
    { s with
      polls := s.polls.set i ⟨containers, (c.run s.engine).1 ++ cs⟩
      engine := (c.run s.engine).2 }.CrashInv where
  alerted name hname := by
    have hstanding : name ∈ s.standing := hname
    have hp := h.polls _ (List.mem_of_getElem? hi)
    rcases h.alerted name hstanding with hopen | hwill
    · cases hcloses : c.closes (s.key name) with
      | false => exact .inl (Call.isOpen_run hopen hcloses)
      | true =>
        -- only a list that does not show the container as exited closes its alert
        obtain ⟨⟨keep, rfl⟩, hhidden⟩ := hp c List.mem_cons_self name hcloses
        have hresolves : ListedPoll.resolvesExited s.id
            ⟨containers, .resolvePrefix (exitedPrefix s.id) keep :: cs⟩ = true := decide_eq_true rfl
        rcases hcond _ hi hresolves name hstanding with hshows | hwill
        · exact absurd (hhidden.symm.trans hshows) (by decide)
        · exact .inr hwill
    · exact .inr hwill
  calls := h.calls
  polls p hp := by
    rcases List.mem_or_eq_of_mem_set hp with hold | rfl
    · exact h.polls p hold
    · intro c' hc' name hcloses
      rcases List.mem_append.mp hc' with hleft | hrest
      · rw [Call.closes_run hleft] at hcloses
        cases hcloses
      · exact h.polls _ (List.mem_of_getElem? hi) c' (List.mem_cons_of_mem _ hrest) name hcloses

/-- **One step.** -/
theorem CrashInv.step (h : s.CrashInv) (hcond : s.ListCurrent e) (hs : s.step e = some s') :
    s'.CrashInv := by
  cases e with
  | docker msgs containers =>
    obtain rfl := Option.some.inj hs
    exact h.docker msgs containers
  | handle =>
    simp only [CrashWatch.step] at hs
    split at hs
    next msg queue hcalls hqueue =>
      obtain rfl := Option.some.inj hs
      exact h.handle hcalls hqueue
    · cases hs
  | call =>
    simp only [CrashWatch.step] at hs
    split at hs
    next c cs hcalls =>
      obtain rfl := Option.some.inj hs
      exact h.call hcalls
    · cases hs
  | list =>
    obtain rfl := Option.some.inj hs
    exact h.list
  | poll i =>
    simp only [CrashWatch.step] at hs
    split at hs
    next containers c cs hi =>
      obtain rfl := Option.some.inj hs
      exact h.poll hi hcond
    · cases hs
  | recordAction name =>
    obtain rfl := Option.some.inj hs
    exact ⟨h.alerted, h.calls, h.polls⟩
  | tick d =>
    obtain rfl := Option.some.inj hs
    exact ⟨h.alerted, h.calls, h.polls⟩

/-- **No crash alert is lost** in a run whose polls resolve from lists that show the crashed
containers as exited. -/
theorem alerted_of_run (hnew : s.New) (hcond : Along CrashWatch.step ListCurrent s es) :
    AllStates CrashWatch.step Alerted s es :=
  (allStates_of_along (fun _ _ _ h hC hs => h.step hC hs) (CrashInv.of_new hnew) hcond).imp
    fun _ h => h.alerted_of_idle

end CrashWatch

/-! ### Crashes that are lost -/

namespace Example

/-- A host with one container. -/
def crashWatch : CrashWatch where
  id := "1"
  hostName := "nas"
  containers := [⟨"web", "running", "healthy"⟩]
  engine := { notifications := ⟨true, true, true, true, true, true, true⟩ }

private theorem crashWatch_new : crashWatch.New := ⟨rfl, rfl, rfl⟩

/-- The container dies. -/
def die (code state : String) : CrashEvent :=
  .docker [{ action := "die", name := "web", exitCode := code }] [⟨"web", state, ""⟩]

/-- The container is started. -/
def start : CrashEvent :=
  .docker [{ action := "start", name := "web" }] [⟨"web", "running", "healthy"⟩]

/-- The next message is handled, with its `n` calls. -/
def handled (n : ℕ) : List CrashEvent := .handle :: List.replicate n .call

/-- The container crashes between the list of a poll and its last call. -/
def staleList : List CrashEvent := [.list, die "137" "exited"] ++ handled 2 ++ [.poll 0, .poll 0]

/-- A poll lists the container while it waits to be restarted. -/
def whileRestarting : List CrashEvent :=
  [die "1" "restarting"] ++ handled 2 ++ [.list, .poll 0, .poll 0]

/-- A crash and its polls, a start, a stop by Dockhand, another start, and a crash whose messages
are handled while a poll that has listed it is running. -/
def listedLater : List CrashEvent :=
  [.list, .poll 0, .poll 0, die "137" "exited"] ++ handled 2 ++ [.list, .poll 1, .poll 1, start] ++
    handled 1 ++ [.recordAction "web", .tick (10 ^ 9), die "143" "exited"] ++ handled 0 ++
    [.tick minute, start] ++ handled 1 ++ [die "1" "exited", .list] ++ handled 1 ++
    [.poll 2, .poll 2, .call]

end Example

/-- The alert of a crash is closed for good by a poll that has listed the container before, and by
one that has listed it while it was restarting. -/
theorem CrashWatch.not_alerted :
    Example.crashWatch.New ∧ ¬ AllStates CrashWatch.step CrashWatch.Alerted Example.crashWatch
      Example.staleList ∧
      ¬ AllStates CrashWatch.step CrashWatch.Alerted Example.crashWatch Example.whileRestarting :=
  ⟨Example.crashWatch_new, by decide +kernel, by decide +kernel⟩

/-- A crash whose messages are handled while a poll that has listed it is running. -/
theorem CrashWatch.alerted_of_run_listedLater :
    AllStates CrashWatch.step CrashWatch.Alerted Example.crashWatch Example.listedLater :=
  CrashWatch.alerted_of_run Example.crashWatch_new (by decide +kernel)

end Dockhand.Monitor
