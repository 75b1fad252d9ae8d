import Dockhand.Transition.Pool
import Dockhand.Uptime.Service

/-!
# Paused monitors

A paused monitor is to stay paused: while it is disabled and no check runs, its status is
`paused`, no incident of it is open and neither is its alert. `Update` brings this about in three
statements, so an incident may stay open for as long as the `Update` that disabled the monitor has
still to close it, and the alert until it has resolved it.

A check does not look at `enabled` again before it records. It breaks the property when it stores
its status, opens the incident or opens the alert after the monitor was disabled; in a run where no
check does so, the property holds throughout: `Service.staysPaused_of_run`.
-/

namespace Dockhand.Uptime

open Transition Alerts

namespace Service

/-- **A disabled monitor is paused**: whenever no check of it runs. What the `Update` that disabled
it has still to close may be open. -/
def StaysPaused (s : Service) : Prop :=
  s.monitor.enabled = false → s.running = none →
    s.monitor.status = .paused ∧
    (.closing ∉ s.updates → s.incidentOpen = false) ∧
    (.closing ∉ s.updates → .resolving ∉ s.updates → s.alertOpen = false)

instance (s : Service) : Decidable s.StaysPaused :=
  have : Decidable (s.running = none) :=
    decidable_of_iff (s.running.isNone) Option.isNone_iff_eq_none
  inferInstanceAs (Decidable (_ → _ → _))

/-- No call is in flight, and the monitor is paused if it is disabled. -/
structure Idle (s : Service) : Prop where
  waiting : s.waiting = []
  running : s.running = none
  updates : s.updates = []
  staysPaused : s.StaysPaused

/-- A check that stores its status does so while the monitor is enabled. One that opens the
incident or the alert does so while the monitor is enabled, or while an `Update` that has disabled
it has still to close what the check opens. -/
def MayRecord (s : Service) : Check → Prop
  | .marking .. => s.monitor.enabled = true
  | .opening .. => s.monitor.enabled = true ∨ .closing ∈ s.updates
  | .acting _ raise =>
    s.monitor.enabled = true ∨ .closing ∈ s.updates ∨ .resolving ∈ s.updates ∨ raise.wasOpen = true
  | _ => True

instance (s : Service) : (c : Check) → Decidable (s.MayRecord c)
  | .marking .. => inferInstanceAs (Decidable (_ = _))
  | .opening .. => inferInstanceAs (Decidable (_ ∨ _))
  | .acting .. => inferInstanceAs (Decidable (_ ∨ _ ∨ _ ∨ _))
  | .checking _ | .inserting .. | .looking .. | .raising .. | .closing _ | .resolving _
  | .leaving _ => isTrue trivial

/-- The running check may execute its next statement. -/
def ChecksEnabled (s : Service) : Event → Prop
  | .next => ∀ c ∈ s.running, s.MayRecord c
  | _ => True

instance (s : Service) : (e : Event) → Decidable (s.ChecksEnabled e)
  | .next => inferInstanceAs (Decidable (∀ c ∈ _, _))
  | .checkAll | .checkNow | .start _ | .cancelled | .checked _ | .update _ | .write _ =>
    isTrue trivial

/-! ### The invariant -/

/-- The property, whether or not a check runs; an `Update` that is about to disable the monitor is
about to mark it as paused. -/
structure PausedInv (s : Service) : Prop where
  status : s.monitor.enabled = false → s.monitor.status = .paused
  incident : s.monitor.enabled = false → .closing ∈ s.updates ∨ s.incidentOpen = false
  alert : s.monitor.enabled = false →
    .closing ∈ s.updates ∨ .resolving ∈ s.updates ∨ s.alertOpen = false
  writes : ∀ m, .writing m ∈ s.updates → m.enabled = false → m.status = .paused

variable {s s' : Service} {e : Event}

private theorem PausedInv.of_idle (h : s.Idle) : s.PausedInv where
  status hoff := (h.staysPaused hoff h.running).1
  incident hoff := .inr ((h.staysPaused hoff h.running).2.1 (by simp [h.updates]))
  alert hoff :=
    .inr (.inr ((h.staysPaused hoff h.running).2.2 (by simp [h.updates]) (by simp [h.updates])))
  writes m hm := by simp [h.updates] at hm

private theorem PausedInv.staysPaused (h : s.PausedInv) : s.StaysPaused := fun hoff _ =>
  ⟨h.status hoff, fun hc => (h.incident hoff).resolve_left hc,
    fun hc hr => ((h.alert hoff).resolve_left hc).resolve_left hr⟩

/-- What the invariant speaks about has not changed. -/
theorem PausedInv.congr (h : s.PausedInv) (hm : s'.monitor = s.monitor)
    (hi : s'.incidentOpen = s.incidentOpen) (ha : s'.alertOpen = s.alertOpen)
    (hu : s'.updates = s.updates) : s'.PausedInv where
  status := by simpa only [hm] using h.status
  incident := by simpa only [hm, hu, hi] using h.incident
  alert := by simpa only [hm, hu, ha] using h.alert
  writes := by simpa only [hu] using h.writes

/-- As long as the monitor is enabled, only the `Update`s matter. -/
theorem PausedInv.of_enabled (hon : s.monitor.enabled = true)
    (h : ∀ m, .writing m ∈ s.updates → m.enabled = false → m.status = .paused) : s.PausedInv where
  status hoff := by simp [hon] at hoff
  incident hoff := by simp [hon] at hoff
  alert hoff := by simp [hon] at hoff
  writes := h

/-! ### The steps -/

/-- **One statement of a check.** -/
theorem PausedInv.advance {c : Check} (h : s.PausedInv) (hc : s.running = some c)
    (hcond : s.ChecksEnabled .next) (hs : s.advance c = some s') : s'.PausedInv := by
  have hcond : s.MayRecord c := hcond c hc
  cases c with
  | checking m => cases hs
  | inserting m r =>
    obtain rfl := Option.some.inj hs
    exact h.congr rfl rfl rfl rfl
  | marking m r =>
    obtain rfl := Option.some.inj hs
    -- the status of an enabled monitor is the check's to store
    exact .of_enabled hcond h.writes
  | looking m r =>
    obtain rfl := Option.some.inj hs
    exact h.congr rfl rfl rfl rfl
  | opening m r =>
    obtain rfl := Option.some.inj hs
    exact ⟨h.status, fun hoff => .inl (hcond.resolve_left (by simpa using hoff)), h.alert, h.writes⟩
  | raising m r =>
    obtain rfl := Option.some.inj hs
    exact h.congr rfl rfl rfl rfl
  | acting r raise =>
    obtain rfl := Option.some.inj hs
    refine ⟨h.status, h.incident, fun hoff => ?_, h.writes⟩
    rcases hcond with hon | hclosing | hresolving | hwas
    · exact absurd hon (by simpa using hoff)
    · exact .inl hclosing
    · exact .inr (.inl hresolving)
    · -- the alert was open at the SELECT, so this statement only refreshes it
      have hsame : (s.alerts.act raise).isOpen s.downKey = s.alertOpen := by
        rw [Engine.act_of_open hwas, Engine.isOpen_refresh, alertOpen]
      exact (h.alert hoff).imp_right (Or.imp_right hsame.trans)
  | closing r =>
    obtain rfl := Option.some.inj hs
    exact ⟨h.status, fun _ => .inr (incidentOpen_closeIncident s), h.alert, h.writes⟩
  | resolving r =>
    obtain rfl := Option.some.inj hs
    exact ⟨h.status, h.incident, fun _ => .inr (.inr (alertOpen_resolve s)), h.writes⟩
  | leaving r =>
    obtain rfl := Option.some.inj hs
    exact h.congr rfl rfl rfl rfl

/-- **One statement of an `Update`.** -/
theorem PausedInv.callStep {i : ℕ} {u : UpdateCall} (h : s.PausedInv)
    (hi : s.updates[i]? = some u) : (s.callStep i u).PausedInv := by
  have hmem : u ∈ s.updates := List.mem_of_getElem? hi
  have hrest : ∀ v ∈ s.updates.eraseIdx i, v ∈ s.updates := fun v => List.mem_of_mem_eraseIdx
  cases u with
  | writing m =>
    rw [Service.callStep]
    split_ifs with hon
    · exact .of_enabled hon fun m' hm' => h.writes m' (hrest _ hm')
    · -- from here on the `Update` owes the closing of the incident and of the alert
      have hoff : m.enabled = false := by simpa using hon
      have hclosing : UpdateCall.closing ∈ s.updates.set i .closing :=
        (mem_pool_set hi).mpr (.inl rfl)
      refine ⟨fun _ => h.writes m hmem hoff, fun _ => .inl hclosing, fun _ => .inl hclosing,
        fun m' hm' => ?_⟩
      exact h.writes m' (hrest _ (((mem_pool_set hi).mp hm').resolve_left (by simp)))
  | closing =>
    have hresolving : UpdateCall.resolving ∈ s.updates.set i .resolving :=
      (mem_pool_set hi).mpr (.inl rfl)
    refine ⟨h.status, fun _ => .inr (incidentOpen_closeIncident s), fun _ => .inr (.inl hresolving),
      fun m' hm' => ?_⟩
    exact h.writes m' (hrest _ (((mem_pool_set hi).mp hm').resolve_left (by simp)))
  | resolving =>
    refine ⟨h.status, fun hoff => ?_, fun _ => .inr (.inr (alertOpen_resolve s)),
      fun m' hm' => h.writes m' (hrest _ hm')⟩
    exact (h.incident hoff).imp_left fun hc => ((mem_pool hi).mp hc).resolve_left (by simp)

/-- **One step.** -/
theorem PausedInv.step (h : s.PausedInv) (hcond : s.ChecksEnabled e) (hs : s.step e = some s') :
    s'.PausedInv := by
  cases e with
  | checkAll =>
    obtain ⟨-, hs⟩ := Option.ite_none_right_eq_some.mp hs
    obtain rfl := Option.some.inj hs
    exact h.congr rfl rfl rfl rfl
  | checkNow =>
    obtain rfl := Option.some.inj hs
    exact h.congr rfl rfl rfl rfl
  | start i =>
    obtain ⟨m, -, rfl⟩ := Option.map_eq_some_iff.mp hs
    rw [checkOne]
    split_ifs <;> exact h.congr rfl rfl rfl rfl
  | cancelled =>
    obtain ⟨m, -, rfl⟩ := step_cancelled hs
    exact h.congr rfl rfl rfl rfl
  | checked r =>
    obtain ⟨m, -, rfl⟩ := step_checked hs
    exact h.congr rfl rfl rfl rfl
  | next =>
    obtain ⟨c, hc, hs⟩ := Option.bind_eq_some_iff.mp hs
    exact h.advance hc hcond hs
  | update p =>
    obtain rfl | ⟨m, happly, rfl⟩ := step_update hs
    · exact h
    · have hold : ∀ u ∈ s.updates, u ∈ s.updates ++ [.writing m] := fun u => List.mem_append_left _
      refine ⟨h.status, fun hoff => (h.incident hoff).imp_left (hold _),
        fun hoff => (h.alert hoff).imp (hold _) (Or.imp_left (hold _)), fun m' hm' hoff => ?_⟩
      rcases List.mem_append.mp hm' with hm' | hm'
      · exact h.writes m' hm' hoff
      · obtain rfl := UpdateCall.writing.inj (List.mem_singleton.mp hm')
        exact status_of_apply happly hoff
  | write i =>
    obtain ⟨u, hi, rfl⟩ := Option.map_eq_some_iff.mp hs
    exact h.callStep hi

/-! ### Whole runs -/

/-- **A paused monitor stays paused** in every run in which no check stores its status, opens the
incident or opens the alert of a disabled monitor. -/
theorem staysPaused_of_run {es : List Event} (hidle : s.Idle)
    (hcond : Along Service.step ChecksEnabled s es) : AllStates Service.step StaysPaused s es :=
  (allStates_of_along (fun _ _ _ h hC hs => h.step hC hs) (PausedInv.of_idle hidle) hcond).imp
    fun _ h => h.staysPaused

end Service

/-! ### Pauses and checks -/

namespace Example

/-- A monitor that has not been checked yet. Its first failed check opens an incident. -/
def web : Service where
  id := "1"
  settings := { retries := 1, notify := true }
  monitor := { name := "web", target := "http://web" }
  alerts := { notifications := {} }

theorem web_idle : web.Idle := ⟨rfl, rfl, rfl, by decide⟩

/-- The user pauses the monitor: the row, the incident, the alert. -/
def pause : List Event := [.update { enabled := some false }, .write 0, .write 0, .write 0]

/-- A check finds the monitor down: its result, its status, the incident, the alert. -/
def down : List Event := .checked { verdict := .down } :: List.replicate 7 .next

/-- The monitor is paused while a check of it runs. -/
def pausedDuringCheck : List Event := [.checkAll, .start 0] ++ pause ++ down

/-- The monitor is paused between two checks. -/
def pausedBetweenChecks : List Event := [.checkAll, .start 0] ++ down ++ pause

end Example

/-- A check that was running when the monitor was paused leaves it down, with an open incident and
an open alert, and so does a check that the user asks for after the pause. -/
theorem Service.not_staysPaused :
    Example.web.Idle ∧ ¬ AllStates Service.step StaysPaused Example.web Example.pausedDuringCheck ∧
      ¬ AllStates Service.step StaysPaused Example.web
        (Example.pause ++ [.checkNow, .start 0] ++ Example.down) :=
  ⟨Example.web_idle, by decide +kernel, by decide +kernel⟩

/-- The monitor is paused when its check has ended. -/
theorem Service.staysPaused_of_run_betweenChecks :
    AllStates Service.step StaysPaused Example.web Example.pausedBetweenChecks :=
  Service.staysPaused_of_run Example.web_idle (by decide +kernel)

end Dockhand.Uptime
