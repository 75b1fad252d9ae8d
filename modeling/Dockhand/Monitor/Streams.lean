import Dockhand.Go.Dict
import Dockhand.Transition.Pool
import Dockhand.Transition.Since
import Mathlib.Data.String.Basic

/-!
# The event streams of the hosts

Every host that is online has a goroutine that reads its Docker events. `syncEventStreams` begins
and cancels them, `Forget` cancels that of a host which is deleted, and one that ends by itself
removes its registration. `streams_of_run`: whatever the order of these, a host has at most one
stream that has not been cancelled, the one that is registered, and it has one exactly if it was
online at the last sync and its stream has not ended since.

An event queues a refresh of its host's containers after a while, with the context of its stream;
another event before then queues none, whatever its stream. `refreshes_of_run`: as long as no timer
of the host has ended after an event, in a refresh or with its stream cancelled, one is set or has
fired. A timer that was set with a stream which is cancelled by now refreshes nothing.
-/

namespace Dockhand.Monitor.Streams

open Transition

/-- How far the goroutine of a stream has come. -/
inductive Phase
  /-- It is in `streamEvents`, has returned from it, or is done. -/
  | running | returned | ended
  deriving DecidableEq

/-- The goroutine of a stream; `cancelled` says whether its own context is. -/
structure Stream where
  host : String
  cancelled : Bool := false
  phase : Phase := .running
  deriving DecidableEq

/-- A timer of `queueRefresh`, with the stream whose context it uses; when it has fired, its refresh
has still to begin. -/
structure Timer where
  host : String
  stream : ℕ
  fired : Bool := false
  deriving DecidableEq

/-- `online` are the hosts whose status is online or degraded, `want` what `syncEventStreams` has
read of them, `registered` is `evCancel`, and `stopped` says whether the root context is
cancelled. -/
structure Supervisor where
  online : List String := []
  want : Option (List String) := none
  registered : Dict String ℕ := ∅
  streams : List Stream := []
  stopped : Bool := false
  refreshQ : Dict String Bool := ∅
  timers : List Timer := []

/-- What happens next: to the hosts, to the streams, to their events and to the timers. -/
inductive Event
  /-- The polls and the user change the hosts. -/
  | setOnline (hosts : List String)
  /-- `syncEventStreams` reads the hosts, and goes over those it wants in some order. -/
  | list
  | sync (order : List String)
  | forget (host : String)
  | stop
  /-- A stream handles an event, ends, and removes its registration. -/
  | handle (k : ℕ)
  | ret (k : ℕ)
  | unregister (k : ℕ)
  /-- A timer fires, and refreshes if its context is not cancelled. -/
  | fire (i : ℕ)
  | refresh (i : ℕ)
  deriving DecidableEq

namespace Supervisor

/-- Cancels the registered stream of a host and removes it. -/
def drop (m : Supervisor) (host : String) : Supervisor :=
  match m.registered.get? host with
  | some k =>
    { m with
      registered := m.registered.del host
      streams := m.streams.modify k fun st => { st with cancelled := true } }
  | none => m

/-- Begins a stream for a host without one. -/
def begin (m : Supervisor) (host : String) : Supervisor :=
  match m.registered.get? host with
  | some _ => m
  | none =>
    { m with
      registered := m.registered.set host m.streams.length
      streams := m.streams ++ [{ host }] }

/-- The context of a stream is not cancelled. -/
def live (m : Supervisor) (k : ℕ) : Bool :=
  !m.stopped && (m.streams[k]?).any fun st => !st.cancelled

/-- The locked part of `syncEventStreams`. -/
def sync (m : Supervisor) (want order : List String) : Supervisor :=
  order.foldl begin
    (((m.registered.entries.map fun e => e.1).filter fun h => h ∉ want).foldl drop m)

/-- `queueRefresh`. -/
def queueRefresh (m : Supervisor) (k : ℕ) (host : String) : Supervisor :=
  if (m.refreshQ.get? host).getD false then m
  else
    { m with refreshQ := m.refreshQ.set host true, timers := m.timers ++ [{ host, stream := k }] }

/-- One step. -/
def step (m : Supervisor) : Event → Option Supervisor
  | .setOnline hosts => some { m with online := hosts }
  | .list => some { m with want := some m.online }
  | .sync order =>
    match m.want with
    | some want => if order.Perm want then some { m.sync want order with want := none } else none
    | none => none
  | .forget host => some (m.drop host)
  -- the supervisor's own cancel calls come after this one, which cancels all streams
  | .stop => some { m with stopped := true }
  | .handle k =>
    match m.streams[k]? with
    | some st => if st.phase = .running then some (m.queueRefresh k st.host) else none
    | none => none
  | .ret k =>
    match m.streams[k]? with
    | some st =>
      if st.phase = .running then
        some { m with streams := m.streams.modify k fun st => { st with phase := .returned } }
      else none
    | none => none
  | .unregister k =>
    match m.streams[k]? with
    | some st =>
      if st.phase = .returned then
        -- only its own registration (a newer stream may have replaced it)
        let m := if m.live k then m.drop st.host else m
        some { m with streams := m.streams.modify k fun st => { st with phase := .ended } }
      else none
    | none => none
  | .fire i =>
    match m.timers[i]? with
    | some t =>
      if t.fired then none
      else
        some { m with
          refreshQ := m.refreshQ.del t.host, timers := m.timers.set i { t with fired := true } }
    | none => none
  | .refresh i =>
    match m.timers[i]? with
    | some t => if t.fired then some { m with timers := m.timers.eraseIdx i } else none
    | none => none

variable {m m' t : Supervisor} {host h : String} {k : ℕ} {e : Event} {es : List Event}

/-- What a step can do. -/
inductive Step (m : Supervisor) : Event → Supervisor → Prop
  | setOnline (hosts : List String) : Step m (.setOnline hosts) { m with online := hosts }
  | list : Step m .list { m with want := some m.online }
  | sync {want order : List String} (hwant : m.want = some want) (hperm : order.Perm want) :
    Step m (.sync order) { m.sync want order with want := none }
  | forget (host : String) : Step m (.forget host) (m.drop host)
  | stop : Step m .stop { m with stopped := true }
  | handle {k : ℕ} {st : Stream} (hst : m.streams[k]? = some st) (hrun : st.phase = .running) :
    Step m (.handle k) (m.queueRefresh k st.host)
  | ret {k : ℕ} {st : Stream} (hst : m.streams[k]? = some st) (hrun : st.phase = .running) :
    Step m (.ret k)
      { m with streams := m.streams.modify k fun st => { st with phase := .returned } }
  | ended {k : ℕ} {st : Stream} (hst : m.streams[k]? = some st) (hlive : m.live k = true) :
    Step m (.unregister k) { m.drop st.host with
      streams := (m.drop st.host).streams.modify k fun st => { st with phase := .ended } }
  | replaced {k : ℕ} {st : Stream} (hst : m.streams[k]? = some st) (hlive : m.live k = false) :
    Step m (.unregister k)
      { m with streams := m.streams.modify k fun st => { st with phase := .ended } }
  | fire {i : ℕ} {x : Timer} (hx : m.timers[i]? = some x) (hfired : x.fired = false) :
    Step m (.fire i) { m with
      refreshQ := m.refreshQ.del x.host, timers := m.timers.set i { x with fired := true } }
  | refresh {i : ℕ} {x : Timer} (hx : m.timers[i]? = some x) (hfired : x.fired = true) :
    Step m (.refresh i) { m with timers := m.timers.eraseIdx i }

theorem step_sound (he : m.step e = some m') : Step m e m' := by
  cases e with
  | setOnline hosts =>
    obtain rfl := Option.some.inj he
    exact .setOnline hosts
  | list =>
    obtain rfl := Option.some.inj he
    exact .list
  | sync order =>
    simp only [step] at he
    split at he
    next want hwant =>
      obtain ⟨hperm, he⟩ := Option.ite_none_right_eq_some.mp he
      obtain rfl := Option.some.inj he
      exact .sync hwant hperm
    next => cases he
  | forget host =>
    obtain rfl := Option.some.inj he
    exact .forget host
  | stop =>
    obtain rfl := Option.some.inj he
    exact .stop
  | handle k =>
    simp only [step] at he
    split at he
    next st hst =>
      obtain ⟨hrun, he⟩ := Option.ite_none_right_eq_some.mp he
      obtain rfl := Option.some.inj he
      exact .handle hst hrun
    next => cases he
  | ret k =>
    simp only [step] at he
    split at he
    next st hst =>
      obtain ⟨hrun, he⟩ := Option.ite_none_right_eq_some.mp he
      obtain rfl := Option.some.inj he
      exact .ret hst hrun
    next => cases he
  | unregister k =>
    simp only [step] at he
    split at he
    next st hst =>
      obtain ⟨-, he⟩ := Option.ite_none_right_eq_some.mp he
      obtain rfl := Option.some.inj he
      cases hlive : m.live k with
      | true => exact .ended hst hlive
      | false => exact .replaced hst hlive
    next => cases he
  | fire i =>
    simp only [step] at he
    split at he
    next x hx =>
      obtain ⟨hfired, he⟩ := Option.ite_none_left_eq_some.mp he
      obtain rfl := Option.some.inj he
      exact .fire hx (by simpa using hfired)
    next => cases he
  | refresh i =>
    simp only [step] at he
    split at he
    next x hx =>
      obtain ⟨hfired, he⟩ := Option.ite_none_right_eq_some.mp he
      obtain rfl := Option.some.inj he
      exact .refresh hx hfired
    next => cases he

/-! ### Registrations -/

/-- A stream that has not been cancelled is registered, and the other way round. -/
structure Inv (m : Supervisor) : Prop where
  registered : ∀ h k, m.registered.get? h = some k →
    ∃ st, m.streams[k]? = some st ∧ st.host = h ∧ st.cancelled = false ∧
      (m.stopped = false → st.phase ≠ .ended)
  live : ∀ k st, m.streams[k]? = some st → st.cancelled = false →
    m.registered.get? st.host = some k

private theorem Inv.of_eq (hm : Inv m) (hregistered : m'.registered = m.registered)
    (hstreams : m'.streams = m.streams) (hstopped : m.stopped = true → m'.stopped = true) :
    Inv m' where
  registered h k hk := by
    rw [hregistered] at hk
    rw [hstreams]
    obtain ⟨st, hst, hhost, hcancelled, hphase⟩ := hm.registered h k hk
    refine ⟨st, hst, hhost, hcancelled, fun hstop => hphase ?_⟩
    cases hs : m.stopped with
    | false => rfl
    | true => rw [hstopped hs] at hstop; cases hstop
  live k st hst hcancelled := by
    rw [hstreams] at hst
    rw [hregistered]
    exact hm.live k st hst hcancelled

private theorem registered_drop (m : Supervisor) (host h : String) :
    (m.drop host).registered.get? h = if h = host then none else m.registered.get? h := by
  rw [drop]
  cases hr : m.registered.get? host with
  | none =>
    rcases eq_or_ne h host with rfl | hh
    · simp [hr]
    · simp [hh]
  | some k => simp [Dict.get?_del]

@[simp] theorem stopped_drop (m : Supervisor) (host : String) :
    (m.drop host).stopped = m.stopped := by
  rw [drop]
  cases m.registered.get? host <;> rfl

private theorem registered_begin (m : Supervisor) (host h : String) :
    ((m.begin host).registered.get? h).isSome =
      (decide (h = host) || (m.registered.get? h).isSome) := by
  rw [begin]
  cases hr : m.registered.get? host with
  | none =>
    rcases eq_or_ne h host with rfl | hh
    · simp
    · simp [hh]
  | some k =>
    rcases eq_or_ne h host with rfl | hh
    · simp [hr]
    · simp [hh]

theorem Inv.drop (hm : Inv m) (host : String) : Inv (m.drop host) := by
  rw [Supervisor.drop]
  cases hr : m.registered.get? host with
  | none => exact hm
  | some k =>
    obtain ⟨st, hst, hhost, -⟩ := hm.registered host k hr
    refine ⟨fun h k' hk' => ?_, fun k' st' hst' hcancelled => ?_⟩
    · rw [Dict.get?_del] at hk'
      obtain ⟨hne, hk'⟩ := Option.ite_none_left_eq_some.mp hk'
      obtain ⟨st', hst', hhost', hrest⟩ := hm.registered h k' hk'
      -- another stream, since it is another host's
      have hkk : k ≠ k' := by
        rintro rfl
        obtain rfl := Option.some.inj (hst.symm.trans hst')
        exact hne (hhost'.symm.trans hhost)
      exact ⟨st', by simp [hkk, hst'], hhost', hrest⟩
    · rcases eq_or_ne k k' with rfl | hkk
      · simp only [List.getElem?_modify, hst, if_true, Option.map_eq_map, Option.map_some,
          Option.some.injEq] at hst'
        rw [← hst'] at hcancelled
        cases hcancelled
      · have hold : m.streams[k']? = some st' := by
          simpa [List.getElem?_modify, hkk] using hst'
        have hreg := hm.live k' st' hold hcancelled
        rw [Dict.get?_del, if_neg, hreg]
        rintro rfl
        exact hkk (Option.some.inj (hr.symm.trans hreg))

theorem Inv.begin (hm : Inv m) (host : String) : Inv (m.begin host) := by
  rw [Supervisor.begin]
  cases hr : m.registered.get? host with
  | some k => exact hm
  | none =>
    refine ⟨fun h k hk => ?_, fun k st hst hcancelled => ?_⟩
    · rw [Dict.get?_set] at hk
      split_ifs at hk with hh
      · obtain rfl := Option.some.inj hk
        exact ⟨{ host }, by simp, hh.symm, rfl, fun _ => by simp⟩
      · obtain ⟨st, hst, hrest⟩ := hm.registered h k hk
        obtain ⟨hlt, -⟩ := List.getElem?_eq_some_iff.mp hst
        exact ⟨st, by rw [List.getElem?_append_left hlt, hst], hrest⟩
    · rw [Dict.get?_set]
      rcases lt_trichotomy k m.streams.length with hlt | rfl | hgt
      · rw [List.getElem?_append_left hlt] at hst
        have hreg := hm.live k st hst hcancelled
        rw [if_neg, hreg]
        intro heq
        rw [heq, hr] at hreg
        cases hreg
      · obtain rfl : ({ host } : Stream) = st := by simpa using hst
        rw [if_pos rfl]
      · rw [List.getElem?_eq_none (by simp; omega)] at hst
        cases hst

private theorem Inv.foldl_drop (hm : Inv m) (hosts : List String) :
    Inv (hosts.foldl Supervisor.drop m) := by
  induction hosts generalizing m with
  | nil => exact hm
  | cons host hosts ih => exact ih (hm.drop host)

private theorem Inv.foldl_begin (hm : Inv m) (hosts : List String) :
    Inv (hosts.foldl Supervisor.begin m) := by
  induction hosts generalizing m with
  | nil => exact hm
  | cons host hosts ih => exact ih (hm.begin host)

/-- The phase of a stream does not matter, unless one that is registered ends. -/
theorem Inv.setPhase (hm : Inv m) {phase : Phase}
    (hphase : ∀ h, m.registered.get? h = some k → m.stopped = false → phase ≠ .ended) :
    Inv { m with streams := m.streams.modify k fun st => { st with phase } } where
  registered h k' hk' := by
    obtain ⟨st, hst, hhost, hcancelled, hold⟩ := hm.registered h k' hk'
    rcases eq_or_ne k k' with rfl | hkk
    · exact ⟨{ st with phase }, by simp [hst], hhost, hcancelled, hphase h hk'⟩
    · exact ⟨st, by simp [hkk, hst], hhost, hcancelled, hold⟩
  live k' st' hst' hcancelled := by
    rw [List.getElem?_modify] at hst'
    obtain ⟨st, hst, rfl⟩ := Option.map_eq_some_iff.mp hst'
    have hreg := hm.live k' st hst (by split_ifs at hcancelled <;> exact hcancelled)
    rw [← hreg]
    split_ifs <;> rfl

private theorem registered_queueRefresh (m : Supervisor) (k : ℕ) (host : String) :
    (m.queueRefresh k host).registered = m.registered := by
  rw [queueRefresh]
  split_ifs <;> rfl

theorem Inv.queueRefresh (hm : Inv m) (k : ℕ) (host : String) : Inv (m.queueRefresh k host) := by
  rw [Supervisor.queueRefresh]
  split_ifs
  · exact hm
  · exact hm.of_eq rfl rfl id

theorem Inv.step (hm : Inv m) (he : m.step e = some m') : Inv m' := by
  cases step_sound he with
  | setOnline hosts => exact hm.of_eq rfl rfl id
  | list => exact hm.of_eq rfl rfl id
  | sync hwant hperm => exact ((hm.foldl_drop _).foldl_begin _).of_eq rfl rfl id
  | forget host => exact hm.drop host
  | stop => exact hm.of_eq rfl rfl fun _ => rfl
  | handle hst hrun => exact hm.queueRefresh ..
  | ret hst hrun => exact hm.setPhase fun _ _ _ => by simp
  | @ended k st hst hlive =>
    refine (hm.drop st.host).setPhase fun h hk _ => ?_
    -- the registration of the stream is gone
    rw [registered_drop] at hk
    obtain ⟨hne, hk⟩ := Option.ite_none_left_eq_some.mp hk
    obtain ⟨st', hst', hhost, -⟩ := hm.registered h k hk
    obtain rfl := Option.some.inj (hst.symm.trans hst')
    exact absurd hhost.symm hne
  | @replaced k st hst hlive =>
    refine hm.setPhase fun h hk hstop => ?_
    obtain ⟨st', hst', -, hcancelled, -⟩ := hm.registered h k hk
    simp [Supervisor.live, hstop, hst', hcancelled] at hlive
  | fire hx hfired => exact hm.of_eq rfl rfl id
  | refresh hx hfired => exact hm.of_eq rfl rfl id

private theorem inv_start : Inv {} where
  registered h k hk := by cases hk
  live k st hst := by cases hst

/-! ### When a host has a stream -/

/-- The host has a registered stream. -/
def watched (m : Supervisor) (h : String) : Bool := (m.registered.get? h).isSome

/-- `syncEventStreams` has found the host online. -/
def Finds (h : String) (_ : Supervisor) (e : Event) (_ : Supervisor) : Prop :=
  ∃ order, e = .sync order ∧ h ∈ order

/-- It has found it offline, the host is deleted, or its stream has ended by itself. -/
def Ends (h : String) (m : Supervisor) (e : Event) (_ : Supervisor) : Prop :=
  (∃ order, e = .sync order ∧ h ∉ order) ∨ e = .forget h ∨
    ∃ k st, e = .unregister k ∧ m.streams[k]? = some st ∧ st.host = h ∧ m.live k = true

private theorem registered_foldl_drop (hosts : List String) (m : Supervisor) (h : String) :
    (hosts.foldl drop m).registered.get? h =
      if h ∈ hosts then none else m.registered.get? h := by
  induction hosts generalizing m with
  | nil => simp
  | cons host hosts ih =>
    rw [List.foldl_cons, ih, registered_drop]
    by_cases hh : h = host <;> by_cases hmem : h ∈ hosts <;> simp [hh, hmem]

private theorem watched_foldl_begin (hosts : List String) (m : Supervisor) (h : String) :
    (hosts.foldl begin m).watched h = (decide (h ∈ hosts) || m.watched h) := by
  induction hosts generalizing m with
  | nil => simp
  | cons host hosts ih =>
    rw [List.foldl_cons, ih, watched, registered_begin]
    by_cases hh : h = host <;> by_cases hmem : h ∈ hosts <;> simp [hh, hmem, watched]

private theorem watched_sync {want order : List String} (hperm : order.Perm want) :
    (m.sync want order).watched h = decide (h ∈ order) := by
  rw [sync, watched_foldl_begin, watched, registered_foldl_drop]
  by_cases hmem : h ∈ order
  · simp [hmem]
  · have hwant : h ∉ want := fun hw => hmem (hperm.mem_iff.mpr hw)
    by_cases hkey : h ∈ m.registered.entries.map fun e => e.1
    · rw [if_pos (List.mem_filter.mpr ⟨hkey, decide_eq_true hwant⟩)]
      simp [hmem]
    · have hnone : m.registered.get? h = none := Assoc.lookup_eq_none_of_notMem hkey
      simp [hmem, hnone]

private theorem watched_drop (m : Supervisor) (host h : String) :
    (m.drop host).watched h = (m.watched h && decide (h ≠ host)) := by
  rw [watched, registered_drop, watched]
  by_cases hh : h = host <;> simp [hh]

private theorem watched_step (he : m.step e = some m') :
    m'.watched h = true ↔ Finds h m e m' ∨ m.watched h = true ∧ ¬ Ends h m e m' := by
  cases step_sound he with
  | @sync want order hwant hperm =>
    have hsync : watched { m.sync want order with want := none } h = decide (h ∈ order) :=
      watched_sync hperm
    rw [hsync]
    by_cases hmem : h ∈ order <;> simp [Finds, Ends, hmem]
  | forget host =>
    rw [watched_drop]
    simp [Finds, Ends, @eq_comm _ h host]
  | @ended k st hst hlive =>
    have hdrop : ∀ streams, watched { m.drop st.host with streams } h =
        (m.watched h && decide (h ≠ st.host)) := fun _ => watched_drop ..
    rw [hdrop]
    simp [Finds, Ends, hst, hlive, @eq_comm _ h st.host]
  | replaced hst hlive => simp [watched, Finds, Ends, hlive]
  | handle hst hrun => simp [watched, Finds, Ends, registered_queueRefresh]
  | setOnline hosts => simp [watched, Finds, Ends]
  | list => simp [watched, Finds, Ends]
  | stop => simp [watched, Finds, Ends]
  | ret hst hrun => simp [watched, Finds, Ends]
  | fire hx hfired => simp [watched, Finds, Ends]
  | refresh hx hfired => simp [watched, Finds, Ends]

/-- In every order of the steps, a host has at most one stream that is not cancelled, the registered
one, and it has one exactly if it has been found online since it was last found offline, it was
deleted, or its stream ended by itself. -/
theorem streams_of_run (hrun : exec step {} es = some t) :
    (∀ h k, t.registered.get? h = some k ↔
      ∃ st, t.streams[k]? = some st ∧ st.host = h ∧ st.cancelled = false) ∧
    ∀ h, t.watched h = true ↔ Since step (Finds h) (Ends h) {} es := by
  have hinv : Inv t := exec_invariant (fun _ _ _ h he => h.step he) inv_start hrun
  refine ⟨fun h k => ⟨fun hk => ?_, ?_⟩, fun h => ?_⟩
  · obtain ⟨st, hst, hhost, hcancelled, -⟩ := hinv.registered h k hk
    exact ⟨st, hst, hhost, hcancelled⟩
  · rintro ⟨st, hst, rfl, hcancelled⟩
    exact hinv.live k st hst hcancelled
  · exact exec_since_iff (H := fun m => m.watched h = true) (I := fun _ => True)
      (fun _ _ _ _ _ => trivial) (fun _ _ _ _ he => watched_step he) trivial (by simp [watched])
        hrun

/-- The first stream of a host ends, and a sync begins the second one. -/
def Example.twoStreams : List Event :=
  [.setOnline ["pi"], .list, .sync ["pi"], .handle 0, .ret 0, .unregister 0, .list, .sync ["pi"],
    .handle 1, .fire 0]

/-- The stream of a host ends, and another one is begun. -/
theorem streams_of_run_twoStreams : ∃ t, exec step {} Example.twoStreams = some t ∧
    (∀ h k, t.registered.get? h = some k ↔
      ∃ st, t.streams[k]? = some st ∧ st.host = h ∧ st.cancelled = false) ∧
    (∀ h, t.watched h = true ↔ Since step (Finds h) (Ends h) {} Example.twoStreams) := by
  have hend : (exec step {} Example.twoStreams).isSome = true := by decide +kernel
  obtain ⟨t, ht⟩ := Option.isSome_iff_exists.mp hend
  exact ⟨t, ht, streams_of_run ht⟩

/-! ### Refreshes -/

/-- `refreshQ[host]`. -/
def queued (m : Supervisor) (h : String) : Bool := (m.refreshQ.get? h).getD false

/-- A timer of the host is set and has not fired yet. -/
def waits (h : String) (x : Timer) : Bool := x.host = h && !x.fired

/-- A timer of the host has fired, and its refresh is to come. -/
def fired (h : String) (x : Timer) : Bool := x.host = h && x.fired

/-- An event of the host is handled. -/
def Handles (h : String) (m : Supervisor) (e : Event) (_ : Supervisor) : Prop :=
  ∃ k st, e = .handle k ∧ m.streams[k]? = some st ∧ st.host = h

/-- A timer of the host refreshes its containers, for its stream is live. -/
def Refreshes (h : String) (m : Supervisor) (e : Event) (_ : Supervisor) : Prop :=
  ∃ i x, e = .refresh i ∧ m.timers[i]? = some x ∧ x.host = h ∧ m.live x.stream = true

/-- A timer of the host does nothing because its stream is cancelled. -/
def Drops (h : String) (m : Supervisor) (e : Event) (_ : Supervisor) : Prop :=
  ∃ i x, e = .refresh i ∧ m.timers[i]? = some x ∧ x.host = h ∧ m.live x.stream = false

theorem timers_drop (m : Supervisor) (host : String) : (m.drop host).timers = m.timers ∧
    (m.drop host).refreshQ = m.refreshQ := by
  rw [drop]
  cases m.registered.get? host <;> exact ⟨rfl, rfl⟩

private theorem timers_begin (m : Supervisor) (host : String) : (m.begin host).timers = m.timers ∧
    (m.begin host).refreshQ = m.refreshQ := by
  rw [begin]
  cases m.registered.get? host <;> exact ⟨rfl, rfl⟩

theorem timers_sync (m : Supervisor) (want order : List String) :
    (m.sync want order).timers = m.timers ∧ (m.sync want order).refreshQ = m.refreshQ := by
  rw [sync]
  generalize (m.registered.entries.map fun e => e.1).filter (fun h => h ∉ want) = gone
  have hdrop : ∀ m : Supervisor, (gone.foldl drop m).timers = m.timers ∧
      (gone.foldl drop m).refreshQ = m.refreshQ := by
    induction gone with
    | nil => exact fun m => ⟨rfl, rfl⟩
    | cons host gone ih =>
      exact fun m => ⟨(ih _).1.trans (timers_drop m host).1, (ih _).2.trans (timers_drop m host).2⟩
  have hbegin : ∀ m : Supervisor, (order.foldl begin m).timers = m.timers ∧
      (order.foldl begin m).refreshQ = m.refreshQ := by
    induction order with
    | nil => exact fun m => ⟨rfl, rfl⟩
    | cons host order ih =>
      exact fun m => ⟨(ih _).1.trans (timers_begin m host).1,
        (ih _).2.trans (timers_begin m host).2⟩
  exact ⟨(hbegin _).1.trans (hdrop m).1, (hbegin _).2.trans (hdrop m).2⟩

/-- A timer of the host is set exactly if its flag is, and then it is the only one. -/
def Single (m : Supervisor) (h : String) : Prop := m.timers.countP (waits h) = (m.queued h).toNat

/-- A timer of the host is set, or has fired. Its stream may be cancelled. -/
def Coming (m : Supervisor) (h : String) : Prop := m.queued h = true ∨ ∃ x ∈ m.timers, fired h x

private theorem queued_queueRefresh (m : Supervisor) (k : ℕ) (host h : String) :
    (m.queueRefresh k host).queued h = (decide (h = host) || m.queued h) := by
  rw [queueRefresh]
  by_cases hq : (m.refreshQ.get? host).getD false = true
  · rw [if_pos hq]
    rcases eq_or_ne h host with rfl | hh
    · simp [queued, hq]
    · simp [hh]
  · rw [if_neg hq, queued, Dict.get?_set, queued]
    rcases eq_or_ne h host with rfl | hh
    · simp
    · simp [hh]

theorem Single.queueRefresh (hm : m.Single h) (k : ℕ) (host : String) :
    (m.queueRefresh k host).Single h := by
  rw [Single, queued_queueRefresh, Supervisor.queueRefresh]
  rw [Single] at hm
  by_cases hq : (m.refreshQ.get? host).getD false = true
  · rw [if_pos hq, hm]
    rcases eq_or_ne h host with rfl | hh
    · simp [queued, hq]
    · simp [hh]
  · rw [if_neg hq, List.countP_append, hm]
    rcases eq_or_ne h host with rfl | hh
    · simp [waits, queued, hq]
    · simp [waits, hh, hh.symm]

theorem Single.step (hm : m.Single h) (he : m.step e = some m') : m'.Single h := by
  cases step_sound he with
  | @sync want order hwant hperm =>
    obtain ⟨htimers, hqueue⟩ := timers_sync m want order
    simpa [Single, queued, htimers, hqueue] using hm
  | forget host =>
    obtain ⟨htimers, hqueue⟩ := timers_drop m host
    simpa [Single, queued, htimers, hqueue] using hm
  | @ended k st hst hlive =>
    obtain ⟨htimers, hqueue⟩ := timers_drop m st.host
    simpa [Single, queued, htimers, hqueue] using hm
  | handle hst hrun => exact hm.queueRefresh ..
  | @fire i x hx hfired =>
    rw [Single] at hm ⊢
    rw [countP_pool hx] at hm
    rw [countP_pool_set hx]
    simp only [queued, Dict.get?_del] at hm ⊢
    rcases eq_or_ne h x.host with rfl | hh
    · -- it was the only one
      have hle : ((m.refreshQ.get? x.host).getD false).toNat ≤ 1 := Bool.toNat_le _
      have hwaits : waits x.host x = true := by simp [waits, hfired]
      have hset : waits x.host { x with fired := true } = false := by simp [waits]
      rw [hwaits, if_pos rfl] at hm
      have hzero : (m.timers.eraseIdx i).countP (waits x.host) = 0 := by omega
      rw [hset, hzero, if_pos rfl]
      rfl
    · simpa [waits, hh, hh.symm] using hm
  | @refresh i x hx hfired =>
    rw [Single, countP_pool hx] at hm
    simpa [Single, queued, waits, hfired] using hm
  | setOnline hosts => exact hm
  | list => exact hm
  | stop => exact hm
  | ret hst hrun => exact hm
  | replaced hst hlive => exact hm

private theorem coming_of_step (he : m.step e = some m')
    (h' : Handles h m e m' ∨ m.Coming h ∧ ¬ (Refreshes h m e m' ∨ Drops h m e m')) :
    m'.Coming h := by
  cases step_sound he with
  | @sync want order hwant hperm =>
    obtain ⟨htimers, hqueue⟩ := timers_sync m want order
    simpa [Coming, Handles, queued, htimers, hqueue, Refreshes, Drops] using h'
  | forget host =>
    obtain ⟨htimers, hqueue⟩ := timers_drop m host
    simpa [Coming, Handles, queued, htimers, hqueue, Refreshes, Drops] using h'
  | @ended k st hst hlive =>
    obtain ⟨htimers, hqueue⟩ := timers_drop m st.host
    simpa [Coming, Handles, queued, htimers, hqueue, Refreshes, Drops] using h'
  | @handle k st hst hrun =>
    rw [Coming, queued_queueRefresh]
    rcases h' with ⟨k', st', hk, hst', hhost⟩ | ⟨hq | ⟨x, hx, hfired⟩, -⟩
    · obtain rfl := Event.handle.inj hk
      obtain rfl := Option.some.inj (hst.symm.trans hst')
      exact .inl (by simp [hhost])
    · exact .inl (by simp [hq])
    · refine .inr ⟨x, ?_, hfired⟩
      rw [queueRefresh]
      split_ifs
      · exact hx
      · exact List.mem_append_left _ hx
  | @fire i x hx hfired =>
    obtain ⟨hq | ⟨y, hy, hyf⟩, -⟩ := h'.resolve_left (by simp [Handles])
    · rcases eq_or_ne x.host h with hh | hh
      · exact .inr ⟨{ x with fired := true }, (mem_pool_set hx).mpr (.inl rfl), by simp [fired, hh]⟩
      · exact .inl (by simpa [queued, hh.symm] using hq)
    · refine .inr ⟨y, (mem_pool_set hx).mpr (.inr ?_), hyf⟩
      refine ((mem_pool hx).mp hy).resolve_left ?_
      rintro rfl
      simp [fired, hfired] at hyf
  | @refresh i x hx hfired =>
    obtain ⟨hcoming, hnot⟩ := h'.resolve_left (by simp [Handles])
    -- it is not a timer of the host
    have hh : x.host ≠ h := by
      rintro rfl
      refine hnot ?_
      cases hlive : m.live x.stream with
      | true => exact .inl ⟨i, x, rfl, hx, rfl, hlive⟩
      | false => exact .inr ⟨i, x, rfl, hx, rfl, hlive⟩
    refine hcoming.imp_right fun ⟨y, hy, hyf⟩ => ⟨y, ((mem_pool hx).mp hy).resolve_left ?_, hyf⟩
    rintro rfl
    simp [fired, hh] at hyf
  | setOnline hosts => simpa [Coming, Handles, Refreshes, Drops, queued] using h'
  | list => simpa [Coming, Handles, Refreshes, Drops, queued] using h'
  | stop => simpa [Coming, Handles, Refreshes, Drops, queued] using h'
  | ret hst hrun => simpa [Coming, Handles, Refreshes, Drops, queued] using h'
  | replaced hst hlive => simpa [Coming, Handles, Refreshes, Drops, queued] using h'

/-- **The timers.** A host has at most one timer set; and from an event on, a timer of the host is
set or has fired until one of them begins its refresh, or ends without one because the stream that
it was set with is cancelled. -/
theorem refreshes_of_run (hrun : exec step {} es = some t) (h : String) :
    t.timers.countP (waits h) = (t.queued h).toNat ∧
      (Since step (Handles h) (fun m e m' => Refreshes h m e m' ∨ Drops h m e m') {} es →
        t.queued h = true ∨ ∃ x ∈ t.timers, x.host = h ∧ x.fired = true) := by
  refine ⟨exec_invariant (I := fun m => m.Single h) (fun _ _ _ hm he => hm.step he) ?_ hrun, ?_⟩
  · simp [Single, queued]
  · intro hsince
    have hcoming := exec_of_since (H := fun m => m.Coming h) (I := fun _ => True)
      (fun _ _ _ _ _ => trivial) (fun _ _ _ _ he => coming_of_step he) trivial hrun hsince
    simpa [Coming, fired] using hcoming

/-- Both streams of the host have an event, and one timer is set for them. -/
theorem refreshes_of_run_twoStreams : ∃ t, exec step {} Example.twoStreams = some t ∧
    t.timers.countP (waits "pi") = (t.queued "pi").toNat ∧
      (Since step (Handles "pi") (fun m e m' => Refreshes "pi" m e m' ∨ Drops "pi" m e m') {}
          Example.twoStreams →
        t.queued "pi" = true ∨ ∃ x ∈ t.timers, x.host = "pi" ∧ x.fired = true) := by
  have hend : (exec step {} Example.twoStreams).isSome = true := by decide +kernel
  obtain ⟨t, ht⟩ := Option.isSome_iff_exists.mp hend
  exact ⟨t, ht, refreshes_of_run ht "pi"⟩

end Supervisor

end Dockhand.Monitor.Streams
