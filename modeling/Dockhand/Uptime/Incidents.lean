import Dockhand.Transition.Pool
import Dockhand.Uptime.Service
import Mathlib.Data.List.DropRight

/-!
# Consecutive failures and incidents

After a completed check the stored fail count is to be the number of failed checks in a row since
the last other result or since the monitor was enabled, at most one incident is to be open, and
one is to be open exactly when that number has reached the retries.

`record` adds one to the fail count of the snapshot that the check works from, and `Update` leaves
the fail count as it is, so the count goes wrong when another check has completed since the
snapshot was taken, and after a pause. An `Update` that disables the monitor closes the incident in
a statement of its own, which may come too late or while a check runs. In a run in which none of
this happens, every completed check leaves the machine as it is to be: `Service.counted_of_run`.
The proof follows the running check through its statements: `Service.PhaseInv` says for each of
them how the stored row, the journal and the incidents stand.
-/

namespace Dockhand.Uptime

open Transition

/-- The failed checks in a row at the end of a journal. -/
def downs (j : List Mark) : ℕ := (j.rtakeWhile (· = .result .down)).length

@[simp] theorem downs_nil : downs [] = 0 := rfl

private theorem downs_concat (j : List Mark) (m : Mark) :
    downs (j ++ [m]) = if m = .result .down then downs j + 1 else 0 := by
  rw [downs, List.rtakeWhile_concat]
  split_ifs with h h' h'
  · rw [List.length_append, List.length_singleton, downs]
  · exact absurd (of_decide_eq_true h) h'
  · exact absurd (decide_eq_true h') h
  · rfl

/-- The result that the check has recorded. -/
def Check.recorded : Check → Option Result
  | .checking _ | .inserting .. => none
  | .marking _ r | .looking _ r | .opening _ r | .raising _ r | .acting r _ | .closing r
  | .resolving r => some r
  | .leaving r => r

namespace Service

/-- How many incidents of the monitor are open. -/
def openIncidents (s : Service) : ℕ := s.incidents.countP fun i => !i.ended

/-- **The machine is as it is to be after a completed check.** -/
def Counted (s : Service) : Prop :=
  s.monitor.failCount = downs s.journal ∧ s.openIncidents ≤ 1 ∧
    (s.incidentOpen = true ↔ s.retries ≤ downs s.journal)

instance (s : Service) : Decidable s.Counted := inferInstanceAs (Decidable (_ ∧ _))

/-- If the step ends a check that has recorded a result, the machine is as it is to be. -/
def CountedAfterCheck (s : Service) (e : Event) (s' : Service) : Prop :=
  match e, s.running with
  | .next, some (.leaving (some _)) => s'.Counted
  | _, _ => True

instance (s : Service) (e : Event) (s' : Service) : Decidable (s.CountedAfterCheck e s') := by
  unfold CountedAfterCheck
  split <;> infer_instance

/-- A monitor that was just created: nothing is in flight, and nothing has failed. -/
structure New (s : Service) : Prop where
  waiting : s.waiting = []
  running : s.running = none
  updates : s.updates = []
  failCount : s.monitor.failCount = 0
  openIncidents : s.openIncidents = 0
  journal : s.journal = []

/-! ### The condition -/

/-- The fail count that a snapshot is to have: the stored one, or zero when the monitor was enabled
after its last result. -/
def due (s : Service) : ℕ :=
  if s.journal.getLast? = some .enabled then 0 else s.monitor.failCount

/-- A check records `down` from a snapshot with the fail count that is due. -/
def FreshSnapshot (s : Service) : Check → Prop
  | .inserting m r => r.verdict = .down → m.failCount = s.due
  | _ => True

instance (s : Service) : (c : Check) → Decidable (s.FreshSnapshot c)
  | .inserting .. => inferInstanceAs (Decidable (_ → _))
  | .checking _ | .marking .. | .looking .. | .opening .. | .raising .. | .acting .. | .closing _
  | .resolving _ | .leaving _ => isTrue trivial

/-- The check leaves an incident open that it has found or made. -/
def HoldsIncident (s : Service) : Check → Prop
  | .raising .. | .acting .. => True
  | .leaving (some r) => r.verdict = .down ∧ s.retries ≤ s.monitor.failCount
  | _ => False

instance (s : Service) : (c : Check) → Decidable (s.HoldsIncident c)
  | .raising .. | .acting .. => isTrue trivial
  | .leaving (some _) => inferInstanceAs (Decidable (_ ∧ _))
  | .leaving none | .checking _ | .inserting .. | .marking .. | .looking .. | .opening ..
  | .closing _ | .resolving _ => isFalse not_false

/-- An `Update` enables the disabled monitor when no incident is open any more and no running
check has recorded `down`, and it closes the incidents while no running check holds one. -/
def MayWrite (s : Service) : UpdateCall → Prop
  | .writing m => m.enabled = true → s.monitor.enabled = false →
      s.incidentOpen = false ∧ ∀ c ∈ s.running, ∀ r ∈ c.recorded, r.verdict ≠ .down
  | .closing => ∀ c ∈ s.running, ¬ s.HoldsIncident c
  | .resolving => True

instance (s : Service) : (u : UpdateCall) → Decidable (s.MayWrite u)
  | .writing _ => inferInstanceAs (Decidable (_ → _ → _))
  | .closing => inferInstanceAs (Decidable (∀ c ∈ _, _))
  | .resolving => isTrue trivial

/-- Checks and pauses stay out of each other's way. -/
def InTurn (s : Service) : Event → Prop
  | .next => ∀ c ∈ s.running, s.FreshSnapshot c
  | .write i => ∀ u ∈ s.updates[i]?, s.MayWrite u
  | _ => True

instance (s : Service) : (e : Event) → Decidable (s.InTurn e)
  | .next => inferInstanceAs (Decidable (∀ c ∈ _, _))
  | .write _ => inferInstanceAs (Decidable (∀ u ∈ _, _))
  | .checkAll | .checkNow | .start _ | .cancelled | .checked _ | .update _ => isTrue trivial

/-! ### The incidents -/

variable {s s' : Service} {e : Event}

private theorem one_le_retries (s : Service) : 1 ≤ s.retries := by
  rw [retries]
  split_ifs with h
  · exact le_rfl
  · have hle : 1 ≤ s.settings.retries.toInt := by simpa [Int64.lt_iff_toInt_lt] using h
    omega

private theorem incidentOpen_iff : s.incidentOpen = true ↔ 0 < s.openIncidents := by
  rw [incidentOpen, openIncidents, List.countP_pos_iff, List.any_eq_true]

private theorem openIncidents_eq_zero (h : s.incidentOpen = false) : s.openIncidents = 0 := by
  by_contra hne
  exact absurd (incidentOpen_iff.mpr (Nat.pos_of_ne_zero hne)) (by simp [h])

@[simp] theorem openIncidents_closeIncident (s : Service) : s.closeIncident.openIncidents = 0 :=
  openIncidents_eq_zero (incidentOpen_closeIncident s)

/-! ### The invariant -/

/-- Between two checks: the fail count that is due is the number of failures in a row, and an open
incident means that they have reached the retries. -/
def Between (s : Service) : Prop :=
  s.due = downs s.journal ∧ (s.incidentOpen = true → s.retries ≤ downs s.journal)

/-- How the row, the journal and the incidents stand before each statement of a check. -/
def PhaseInv (s : Service) : Option Check → Prop
  | none | some (.checking _) | some (.inserting ..) | some (.leaving none) => s.Between
  | some (.marking m r) =>
    fails m r = downs s.journal ∧
      (r.verdict = .down → s.incidentOpen = true → s.retries ≤ downs s.journal)
  | some (.looking _ r) =>
    r.verdict = .down ∧ s.monitor.failCount = downs s.journal ∧ s.retries ≤ downs s.journal
  | some (.opening _ r) =>
    r.verdict = .down ∧ s.monitor.failCount = downs s.journal ∧ s.retries ≤ downs s.journal ∧
      s.incidentOpen = false
  | some (.raising _ r) | some (.acting r _) =>
    r.verdict = .down ∧ s.monitor.failCount = downs s.journal ∧ s.retries ≤ downs s.journal ∧
      s.incidentOpen = true
  | some (.closing r) =>
    r.verdict ≠ .down ∧ s.monitor.failCount = 0 ∧ downs s.journal = 0
  | some (.resolving r) =>
    r.verdict ≠ .down ∧ s.monitor.failCount = 0 ∧ downs s.journal = 0 ∧ s.incidentOpen = false
  | some (.leaving (some r)) =>
    (r.verdict ≠ .down → downs s.journal = 0) ∧ s.monitor.failCount = downs s.journal ∧
      (s.incidentOpen = true ↔ s.retries ≤ downs s.journal)

/-- The invariant: at most one incident is open, and the running check finds what it expects. -/
structure CountInv (s : Service) : Prop where
  one : s.openIncidents ≤ 1
  phase : s.PhaseInv s.running

private theorem CountInv.of_new (h : s.New) : s.CountInv where
  one := by rw [h.openIncidents]; exact Nat.zero_le _
  phase := by
    have hclosed : s.incidentOpen = false := by
      rw [← Bool.not_eq_true, incidentOpen_iff, h.openIncidents]
      exact lt_irrefl 0
    rw [h.running]
    exact ⟨by simp [due, h.journal, h.failCount], by simp [hclosed]⟩

/-- What a phase speaks about has not changed. -/
theorem PhaseInv.congr {c : Option Check} (h : s.PhaseInv c)
    (hm : s'.monitor.failCount = s.monitor.failCount) (hj : s'.journal = s.journal)
    (hi : s'.incidentOpen = s.incidentOpen) (hset : s'.settings = s.settings) :
    s'.PhaseInv c := by
  have hdue : s'.due = s.due := by rw [due, due, hj, hm]
  have hretries : s'.retries = s.retries := by rw [retries, retries, hset]
  have hphase : s'.PhaseInv c = s.PhaseInv c := by
    unfold PhaseInv Between
    rw [hdue, hretries, hj, hm, hi]
  exact hphase ▸ h

/-- What the invariant speaks about has not changed. -/
theorem CountInv.congr (h : s.CountInv) (hm : s'.monitor.failCount = s.monitor.failCount)
    (hj : s'.journal = s.journal) (hi : s'.incidents = s.incidents)
    (hset : s'.settings = s.settings) (hr : s'.running = s.running) : s'.CountInv where
  one := by rw [openIncidents, hi]; exact h.one
  phase := by
    rw [hr]
    exact h.phase.congr hm hj (by rw [incidentOpen, incidentOpen, hi]) hset

/-! ### The statements of a check -/

/-- Once the incident of a failed check is open, it stays to be announced or the check ends. -/
theorem phaseInv_notify {m : Monitor} {r : Result} (hdown : r.verdict = .down)
    (hcount : s.monitor.failCount = downs s.journal) (hretries : s.retries ≤ downs s.journal)
    (hopen : s.incidentOpen = true) (t : Service) : s.PhaseInv (some (t.notify m r)) := by
  rw [notify]
  split_ifs
  · exact ⟨hdown, hcount, hretries, hopen⟩
  · exact ⟨fun h => absurd hdown h, hcount, iff_of_true hopen hretries⟩

/-- The result is recorded. -/
theorem CountInv.inserting {m : Monitor} {r : Result} (h : s.CountInv)
    (hc : s.running = some (.inserting m r)) (hfresh : r.verdict = .down → m.failCount = s.due)
    (hs : s.advance (.inserting m r) = some s') : s'.CountInv := by
  obtain rfl := Option.some.inj hs
  have hphase : s.PhaseInv (some (.inserting m r)) := hc ▸ h.phase
  refine ⟨h.one, ?_⟩
  change fails m r = downs (s.journal ++ [.result r.verdict]) ∧
    (r.verdict = .down → s.incidentOpen = true →
      s.retries ≤ downs (s.journal ++ [.result r.verdict]))
  rw [fails, downs_concat]
  simp only [Mark.result.injEq]
  split_ifs with hdown
  · rw [hfresh hdown, hphase.1]
    exact ⟨rfl, fun _ hopen => (hphase.2 hopen).trans (Nat.le_succ _)⟩
  · exact ⟨rfl, fun h => absurd h hdown⟩

/-- The row gets the status and the fail count. -/
theorem CountInv.marking {m : Monitor} {r : Result} (h : s.CountInv)
    (hc : s.running = some (.marking m r)) (hs : s.advance (.marking m r) = some s') :
    s'.CountInv := by
  obtain rfl := Option.some.inj hs
  obtain ⟨hfails, hopen⟩ : s.PhaseInv (some (.marking m r)) := hc ▸ h.phase
  refine ⟨h.one, ?_⟩
  dsimp only
  split_ifs with hlook hup
  · exact ⟨hlook.1, hfails, hlook.2.trans hfails.le⟩
  · have hzero : fails m r = 0 := if_neg hup
    exact ⟨hup, hzero, hfails.symm.trans hzero⟩
  · -- down, and fewer failures than the retries: no incident is open
    have hdown : r.verdict = .down := not_not.mp hup
    have hfew : ¬ s.retries ≤ downs s.journal := fun hle => hlook ⟨hdown, hle.trans hfails.ge⟩
    exact ⟨fun hne => absurd hdown hne, hfails, iff_of_false (fun ho => hfew (hopen hdown ho)) hfew⟩

/-- The incident is inserted; none was open. -/
theorem CountInv.opening {m : Monitor} {r : Result} (h : s.CountInv)
    (hc : s.running = some (.opening m r)) (hs : s.advance (.opening m r) = some s') :
    s'.CountInv := by
  obtain rfl := Option.some.inj hs
  obtain ⟨hdown, hcount, hretries, hclosed⟩ : s.PhaseInv (some (.opening m r)) := hc ▸ h.phase
  have hzero : s.incidents.countP (fun i => !i.ended) = 0 := openIncidents_eq_zero hclosed
  constructor
  · simp [openIncidents, List.countP_append, hzero]
  · exact phaseInv_notify (s := { s with
      incidents := s.incidents ++ [_], running := some (s.notify m r) })
      hdown hcount hretries (by simp [incidentOpen]) s

/-- **One statement of a check.** -/
theorem CountInv.advance {c : Check} (h : s.CountInv) (hc : s.running = some c)
    (hfresh : s.FreshSnapshot c) (hs : s.advance c = some s') : s'.CountInv := by
  have hphase : s.PhaseInv (some c) := hc ▸ h.phase
  cases c with
  | checking m => cases hs
  | inserting m r => exact h.inserting hc hfresh hs
  | marking m r => exact h.marking hc hs
  | looking m r =>
    obtain rfl := Option.some.inj hs
    obtain ⟨hdown, hcount, hretries⟩ := hphase
    refine ⟨h.one, ?_⟩
    dsimp only
    split_ifs with hopen
    · exact phaseInv_notify hdown hcount hretries hopen s
    · exact ⟨hdown, hcount, hretries, eq_false_of_ne_true hopen⟩
  | opening m r => exact h.opening hc hs
  | raising m r =>
    obtain rfl := Option.some.inj hs
    exact ⟨h.one, hphase⟩
  | acting r raise =>
    obtain rfl := Option.some.inj hs
    obtain ⟨hdown, hcount, hretries, hopen⟩ := hphase
    exact ⟨h.one, fun hne => absurd hdown hne, hcount, iff_of_true hopen hretries⟩
  | closing r =>
    obtain rfl := Option.some.inj hs
    obtain ⟨hup, hcount, hzero⟩ := hphase
    refine ⟨?_, hup, hcount, hzero, incidentOpen_closeIncident s⟩
    exact (openIncidents_closeIncident s).trans_le (Nat.zero_le _)
  | resolving r =>
    obtain rfl := Option.some.inj hs
    obtain ⟨hup, hcount, hzero, hclosed⟩ := hphase
    refine ⟨h.one, fun _ => hzero, hcount.trans hzero.symm, iff_of_false ?_ ?_⟩
    · exact fun hopen => absurd (hclosed.symm.trans hopen) (by simp)
    · exact fun hle => absurd ((one_le_retries s).trans hle) (by simp [hzero, resolve])
  | leaving r =>
    obtain rfl := Option.some.inj hs
    cases r with
    | none => exact ⟨h.one, hphase⟩
    | some r =>
      obtain ⟨-, hcount, hiff⟩ := hphase
      refine ⟨h.one, ?_, fun hopen => hiff.mp hopen⟩
      -- the count that is due starts at zero if the monitor was enabled in the meantime
      change (if s.journal.getLast? = some .enabled then 0 else s.monitor.failCount) = _
      split_ifs with hlast
      · obtain ⟨j, hj⟩ := List.getLast?_eq_some_iff.mp hlast
        rw [hj, downs_concat, if_neg (by simp)]
      · exact hcount

/-- A check that completes leaves the machine as it is to be. -/
theorem CountInv.counted {r : Result} (h : s.CountInv) (hc : s.running = some (.leaving (some r)))
    (hs : s.advance (.leaving (some r)) = some s') : s'.Counted := by
  obtain rfl := Option.some.inj hs
  obtain ⟨-, hcount, hiff⟩ : s.PhaseInv (some (.leaving (some r))) := hc ▸ h.phase
  exact ⟨hcount, h.one, hiff⟩

/-! ### The statements of an `Update` -/

/-- Enabling the monitor starts a new count. -/
theorem PhaseInv.enabled {c : Option Check} {j : List Mark} (h : s.PhaseInv c)
    (hup : ∀ d ∈ c, ∀ r ∈ d.recorded, r.verdict ≠ .down)
    (hm : s'.monitor.failCount = s.monitor.failCount) (hj : s'.journal = j ++ [.enabled])
    (hi : s'.incidentOpen = false) : s'.PhaseInv c := by
  have hzero : downs s'.journal = 0 := by rw [hj, downs_concat, if_neg (by simp)]
  have hfew : ¬ s'.retries ≤ downs s'.journal := by
    have hpos := one_le_retries s'
    omega
  have hbetween : s'.Between := by
    refine ⟨?_, fun hopen => absurd (hi.symm.trans hopen) (by simp)⟩
    rw [due, hzero, hj, List.getLast?_concat, if_pos rfl]
  have hr : ∀ {d r}, c = some d → d.recorded = some r → r.verdict ≠ .down :=
    fun hc hrec => hup _ hc _ hrec
  -- no check runs, or nothing is recorded yet, or the result is not down: the phases between the
  -- `SELECT` of the incident and the alert are those of a failed check
  rcases c with _ | (_ | _ | ⟨m, r⟩ | ⟨m, r⟩ | ⟨m, r⟩ | ⟨m, r⟩ | ⟨r, raise⟩ | r | r | _ | r)
  · exact hbetween
  · exact hbetween
  · exact hbetween
  · have hne := hr rfl rfl
    exact ⟨(if_neg hne).trans hzero.symm, fun hdown => absurd hdown hne⟩
  · exact absurd h.1 (hr rfl rfl)
  · exact absurd h.1 (hr rfl rfl)
  · exact absurd h.1 (hr rfl rfl)
  · exact absurd h.1 (hr rfl rfl)
  · exact ⟨h.1, hm.trans h.2.1, hzero⟩
  · exact ⟨h.1, hm.trans h.2.1, hzero, hi⟩
  · exact hbetween
  · have hcount : s.monitor.failCount = 0 := h.2.1.trans (h.1 (hr rfl rfl))
    exact ⟨fun _ => hzero, hm.trans (hcount.trans hzero.symm), iff_of_false (by simp [hi]) hfew⟩

/-- The `UPDATE` of the row. -/
theorem CountInv.store {m : Monitor} (h : s.CountInv) (hcond : s.MayWrite (.writing m)) :
    (s.store m).CountInv := by
  refine ⟨h.one, ?_⟩
  by_cases hre : m.enabled = true ∧ s.monitor.enabled = false
  · -- the `UPDATE` enables a disabled monitor, which the journal notes
    obtain ⟨hclosed, hup⟩ := hcond hre.1 hre.2
    refine h.phase.enabled (j := s.journal) hup rfl ?_ hclosed
    simp [Service.store, hre]
  · have hj : (s.store m).journal = s.journal := if_neg (by simpa using hre)
    exact h.phase.congr rfl hj rfl rfl

/-- The closing of the incidents. -/
theorem CountInv.closeIncident (h : s.CountInv) (hcond : s.MayWrite .closing) :
    s.closeIncident.CountInv := by
  refine ⟨(openIncidents_closeIncident s).trans_le (Nat.zero_le _), ?_⟩
  have hclosed := incidentOpen_closeIncident s
  have hnone : ¬ s.closeIncident.incidentOpen = true := by simp [hclosed]
  have hphase := h.phase
  have hfree : ∀ c, s.running = some c → ¬ s.HoldsIncident c := hcond
  change s.closeIncident.PhaseInv s.running
  -- a check that has found or inserted its incident would lose it; the condition excludes those
  rcases hrun : s.running with
    _ | (_ | _ | ⟨m, r⟩ | ⟨m, r⟩ | ⟨m, r⟩ | ⟨m, r⟩ | ⟨r, raise⟩ | r | r | _ | r) <;>
    rw [hrun] at hphase
  · exact ⟨hphase.1, fun ho => absurd ho hnone⟩
  · exact ⟨hphase.1, fun ho => absurd ho hnone⟩
  · exact ⟨hphase.1, fun ho => absurd ho hnone⟩
  · exact ⟨hphase.1, fun _ ho => absurd ho hnone⟩
  · exact hphase
  · exact ⟨hphase.1, hphase.2.1, hphase.2.2.1, hclosed⟩
  · exact absurd trivial (hfree _ hrun)
  · exact absurd trivial (hfree _ hrun)
  · exact hphase
  · exact ⟨hphase.1, hphase.2.1, hphase.2.2.1, hclosed⟩
  · exact ⟨hphase.1, fun ho => absurd ho hnone⟩
  · -- it has not reached the retries, or the incident would be held
    obtain ⟨hzero, hcount, -⟩ := hphase
    refine ⟨hzero, hcount, iff_of_false hnone fun hle => ?_⟩
    by_cases hdown : r.verdict = .down
    · exact hfree _ hrun ⟨hdown, hle.trans hcount.ge⟩
    · have hpos := (one_le_retries s).trans hle
      have hd : downs s.journal = 0 := hzero hdown
      change 1 ≤ downs s.journal at hpos
      omega

/-- **One statement of an `Update`.** -/
theorem CountInv.callStep {u : UpdateCall} (h : s.CountInv) (hcond : s.MayWrite u) (i : ℕ) :
    (s.callStep i u).CountInv := by
  cases u with
  | writing m =>
    rw [Service.callStep]
    split_ifs <;> exact (h.store hcond).congr rfl rfl rfl rfl rfl
  | closing => exact (h.closeIncident hcond).congr rfl rfl rfl rfl rfl
  | resolving => exact h.congr rfl rfl rfl rfl rfl

/-! ### Whole runs -/

/-- A phase that the map entry enters with nothing recorded. -/
theorem CountInv.enter {c : Check} (h : s.CountInv) (hbetween : s.Between)
    (hc : ∀ t : Service, t.PhaseInv (some c) = t.Between) :
    CountInv { s with running := some c } :=
  ⟨h.one, (hc _).mpr hbetween⟩

/-- **One step.** -/
theorem CountInv.step (h : s.CountInv) (hcond : s.InTurn e) (hs : s.step e = some s') :
    s'.CountInv := by
  cases e with
  | checkAll =>
    obtain ⟨-, hs⟩ := Option.ite_none_right_eq_some.mp hs
    obtain rfl := Option.some.inj hs
    exact h.congr rfl rfl rfl rfl rfl
  | checkNow =>
    obtain rfl := Option.some.inj hs
    exact h.congr rfl rfl rfl rfl rfl
  | start i =>
    obtain ⟨m, -, rfl⟩ := Option.map_eq_some_iff.mp hs
    have hkeep : CountInv { s with waiting := s.waiting.eraseIdx i } :=
      h.congr rfl rfl rfl rfl rfl
    rw [checkOne]
    split_ifs with hbusy
    · exact hkeep
    all_goals
      have hnone : s.running = none := by simpa using hbusy
      have hbetween : s.PhaseInv none := hnone ▸ h.phase
      exact hkeep.enter hbetween fun _ => rfl
  | cancelled =>
    obtain ⟨m, hrun, rfl⟩ := step_cancelled hs
    have hbetween : s.PhaseInv (some (.checking m)) := hrun ▸ h.phase
    exact h.enter hbetween fun _ => rfl
  | checked r =>
    obtain ⟨m, hrun, rfl⟩ := step_checked hs
    have hbetween : s.PhaseInv (some (.checking m)) := hrun ▸ h.phase
    exact h.enter hbetween fun _ => rfl
  | next =>
    obtain ⟨c, hc, hs⟩ := Option.bind_eq_some_iff.mp hs
    exact h.advance hc (hcond c hc) hs
  | update p =>
    obtain rfl | ⟨m, -, rfl⟩ := step_update hs
    · exact h
    · exact h.congr rfl rfl rfl rfl rfl
  | write i =>
    obtain ⟨u, hi, rfl⟩ := Option.map_eq_some_iff.mp hs
    exact h.callStep (hcond u hi) i

/-- The completed check of a step. -/
theorem CountInv.countedAfterCheck (h : s.CountInv) (hs : s.step e = some s') :
    s.CountedAfterCheck e s' := by
  unfold CountedAfterCheck
  split
  next r hrun =>
    obtain ⟨c, hc, hadvance⟩ := Option.bind_eq_some_iff.mp hs
    obtain rfl : c = .leaving (some r) := Option.some.inj (hc.symm.trans hrun)
    exact h.counted hrun hadvance
  · trivial

/-- **Every completed check counts**, in every run of a new monitor in which checks record from
fresh snapshots and no `Update` enables it or closes its incident in the middle of a check. -/
theorem counted_of_run {es : List Event} (hnew : s.New) (hcond : Along Service.step InTurn s es) :
    AllSteps Service.step CountedAfterCheck s es :=
  allSteps_of_along (fun _ _ _ h hC hs => h.step hC hs) (fun _ _ _ h _ hs => h.countedAfterCheck hs)
    (CountInv.of_new hnew) hcond

end Service

/-! ### Two checks, and a pause -/

namespace Example

/-- A new monitor whose second failed check in a row opens an incident. -/
def shop : Service where
  id := "2"
  settings := { retries := 2, notify := true }
  monitor := { name := "shop", target := "http://shop" }
  alerts := { notifications := {} }

private theorem shop_new : shop.New := ⟨rfl, rfl, rfl, rfl, rfl, rfl⟩

/-- The first of the waiting checks runs and finds the monitor down. -/
def firstDown : List Event := [.start 0, .checked { verdict := .down }, .next, .next, .next]

/-- The same when it opens the incident. -/
def laterDown : List Event := firstDown ++ [.next, .next, .next, .next]

/-- The row is read for a second check before the first one has completed. -/
def staleSnapshot : List Event := [.checkAll, .checkNow] ++ firstDown ++ firstDown

/-- An `Update` that enables or disables the monitor, with its statements. -/
def setEnabled (v : Bool) : List Event :=
  .update { enabled := some v } :: List.replicate (if v then 1 else 3) (.write 0)

/-- The monitor is paused and resumed between two checks. -/
def pausedBetween : List Event :=
  [.checkNow] ++ firstDown ++ setEnabled false ++ setEnabled true ++ [.checkNow] ++ laterDown

/-- Two checks in turn open the incident, and a third one that finds the monitor up closes it
before the pause. -/
def inTurn : List Event :=
  [.checkAll] ++ firstDown ++ [.checkAll] ++ laterDown ++
    [.checkNow, .start 0, .checked { verdict := .up }, .next, .next, .next, .next, .next] ++
    setEnabled false ++ setEnabled true ++ [.checkAll] ++ firstDown

end Example

/-- After two failures in a row, one of them checked from a snapshot taken before the other, the
count is one. After one failure since the monitor was enabled again, it is two. -/
theorem Service.not_counted :
    Example.shop.New ∧ ¬ AllSteps Service.step CountedAfterCheck Example.shop
      Example.staleSnapshot ∧
      ¬ AllSteps Service.step CountedAfterCheck Example.shop Example.pausedBetween :=
  ⟨Example.shop_new, by decide +kernel, by decide +kernel⟩

/-- Two checks in turn open the incident, and a third one closes it before the pause. -/
theorem Service.counted_of_run_inTurn : AllSteps Service.step CountedAfterCheck Example.shop
    Example.inTurn :=
  Service.counted_of_run Example.shop_new (by decide +kernel)

end Dockhand.Uptime
