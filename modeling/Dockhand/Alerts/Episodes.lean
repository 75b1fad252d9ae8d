import Dockhand.Alerts.Engine

/-!
# One notification for each open episode

A `Raise` decides between refreshing and opening an alert by what it read one statement earlier.
When the alert is still as it was read, the decision is right: the `Raise` notifies exactly when
it opens the alert, and leaves it open (`Engine.notified_step`, `Engine.isOpen_act`). In a run
where this holds of every `Raise` on a key, each open episode of its alert notifies once, and an
alert that was raised last is open: `Engine.alerts_once`.
-/

namespace Dockhand.Alerts

open Go Transition

namespace Engine

variable {e e' : Engine} {ev : Event} {key : String}

/-! ### The effect of the statements on one key -/

@[simp] theorem isOpen_dispatch (e : Engine) (source : Source) (s : Spec) (key : String) :
    (e.dispatch source s).isOpen key = e.isOpen key := by
  rw [dispatch]
  split_ifs <;> rfl

@[simp] theorem isOpen_refresh (e : Engine) (s : Spec) (key : String) :
    (e.refresh s).isOpen key = e.isOpen key := by
  by_cases hk : key = s.key
  · subst hk
    simp only [isOpen, refresh, Function.update_self]
    cases e.alerts s.key <;> rfl
  · simp [isOpen, refresh, hk]

@[simp] theorem isOpen_insert (e : Engine) (s : Spec) (resolvedAt : Option ℕ) (key : String) :
    (e.insert s resolvedAt).isOpen key =
      if key = s.key then resolvedAt.isNone else e.isOpen key := by
  by_cases hk : key = s.key
  · subst hk
    simp [isOpen, insert, Spec.row]
  · simp [isOpen, insert, hk]

@[simp] theorem isOpen_close (e : Engine) (selects : String → Bool) (key : String) :
    (e.close selects).isOpen key = (e.isOpen key && !selects key) := by
  simp only [isOpen, close]
  cases e.alerts key with
  | none => rfl
  | some a =>
    cases hs : selects key with
    | false => simp
    | true => cases hr : a.resolvedAt <;> simp [hr]

/-- How many notifications the `Raise`s on this key have dispatched. -/
def notified (e : Engine) (key : String) : ℕ :=
  e.sent.countP fun m => m.source = .raise ∧ m.spec.key = key

@[simp] theorem notified_refresh (e : Engine) (s : Spec) (key : String) :
    (e.refresh s).notified key = e.notified key := rfl

@[simp] theorem notified_insert (e : Engine) (s : Spec) (resolvedAt : Option ℕ) (key : String) :
    (e.insert s resolvedAt).notified key = e.notified key := rfl

@[simp] theorem notified_close (e : Engine) (selects : String → Bool) (key : String) :
    (e.close selects).notified key = e.notified key := rfl

private theorem notified_dispatch_raise {s : Spec}
    (hpref : prefEnabled e.notifications s.pref = true) :
    (e.dispatch .raise s).notified key = e.notified key + if s.key = key then 1 else 0 := by
  simp [notified, dispatch, hpref, List.countP_append, List.countP_singleton]

private theorem notified_dispatch_of_ne {source : Source} {s : Spec}
    (h : source = .event ∨ s.key ≠ key) :
    (e.dispatch source s).notified key = e.notified key := by
  rw [dispatch]
  split_ifs
  · rcases h with rfl | h <;> simp_all [notified, List.countP_append]
  · rfl

/-! ### One step -/

theorem act_of_open {r : Raise} (h : r.wasOpen = true) (e : Engine) :
    e.act r = e.refresh r.spec := if_pos h

theorem act_of_closed {r : Raise} (h : r.wasOpen = false) (e : Engine) :
    e.act r = (e.insert r.spec none).dispatch .raise r.spec := if_neg (by simp [h])

private theorem step_act {i : ℕ} {r : Raise} (hi : e.raises[i]? = some r) :
    e.step (.act i) = some (act { e with raises := e.raises.eraseIdx i } r) := by
  rw [step, hi, Option.map_some]

/-- A `Raise` on this key makes its second statement while the alert is as the first one read
it. -/
def ReadsCurrent (key : String) (e : Engine) : Event → Prop
  | .act i => ∀ r ∈ e.raises[i]?, r.spec.key = key → r.wasOpen = e.isOpen key
  | _ => True

instance (key : String) (e : Engine) : (ev : Event) → Decidable (ReadsCurrent key e ev)
  | .act _ => inferInstanceAs (Decidable (∀ r ∈ _, _))
  | .tick _ | .raise _ | .event _ | .resolve _ | .resolvePrefix .. => isTrue trivial

/-- The preference of a `Raise` on this key is on. -/
def PrefOn (key : String) (e : Engine) : Event → Prop
  | .act i => ∀ r ∈ e.raises[i]?, r.spec.key = key →
      prefEnabled e.notifications r.spec.pref = true
  | _ => True

instance (key : String) (e : Engine) : (ev : Event) → Decidable (PrefOn key e ev)
  | .act _ => inferInstanceAs (Decidable (∀ r ∈ _, _))
  | .tick _ | .raise _ | .event _ | .resolve _ | .resolvePrefix .. => isTrue trivial

/-- The event executes a writing statement on the key. -/
def Writes (key : String) (e : Engine) : Event → Prop
  | .tick _ | .raise _ => False
  | .act i => ∃ r, e.raises[i]? = some r ∧ r.spec.key = key
  | .event s => s.key = key
  | .resolve k => k = key
  | .resolvePrefix p keep => inPrefix p keep key = true

/-- **A `Raise` that takes effect leaves its alert open.** -/
theorem isOpen_act {i : ℕ} {r : Raise} (hi : e.raises[i]? = some r)
    (hfresh : ReadsCurrent r.spec.key e (.act i)) (h : e.step (.act i) = some e') :
    e'.isOpen r.spec.key = true := by
  obtain rfl := Option.some.inj ((step_act hi).symm.trans h)
  have hread : r.wasOpen = e.isOpen r.spec.key := hfresh r hi rfl
  cases hwas : r.wasOpen with
  | true =>
    rw [act_of_open hwas, isOpen_refresh]
    exact hread.symm.trans hwas
  | false =>
    rw [act_of_closed hwas]
    simp

/-- A statement that does not write the key leaves its alert as it is. -/
theorem isOpen_of_not_writes (hnot : ¬ Writes key e ev) (h : e.step ev = some e') :
    e'.isOpen key = e.isOpen key := by
  cases ev with
  | tick d =>
    obtain rfl := Option.some.inj h
    rfl
  | raise s =>
    obtain rfl := Option.some.inj h
    rfl
  | act i =>
    obtain ⟨r, hi, rfl⟩ := Option.map_eq_some_iff.mp h
    have hne : key ≠ r.spec.key := fun hk => hnot ⟨r, hi, hk.symm⟩
    rw [act]
    split_ifs
    · rw [isOpen_refresh]
      rfl
    · rw [isOpen_dispatch, isOpen_insert, if_neg hne]
      rfl
  | event s =>
    obtain rfl := Option.some.inj h
    have hne : key ≠ s.key := fun hk => hnot hk.symm
    rw [isOpen_dispatch, isOpen_insert, if_neg (show key ≠ s.withDefaults.key from hne)]
  | resolve k =>
    obtain rfl := Option.some.inj h
    have hne : key ≠ k := fun hk => hnot hk.symm
    simp [hne]
  | resolvePrefix p keep =>
    obtain rfl := Option.some.inj h
    have hne : inPrefix p keep key = false := eq_false_of_ne_true hnot
    simp [hne]

/-- Nor does it notify. -/
theorem notified_of_not_writes (hnot : ¬ Writes key e ev) (h : e.step ev = some e') :
    e'.notified key = e.notified key := by
  cases ev with
  | act i =>
    obtain ⟨r, hi, rfl⟩ := Option.map_eq_some_iff.mp h
    rw [act]
    split_ifs
    · rfl
    · exact notified_dispatch_of_ne (.inr fun hk => hnot ⟨r, hi, hk⟩)
  | event s =>
    obtain rfl := Option.some.inj h
    exact notified_dispatch_of_ne (.inl rfl)
  | _ =>
    obtain rfl := Option.some.inj h
    rfl

/-- **A notification for each opening.** A step dispatches a `Raise`'s notification exactly when
it opens the alert. -/
theorem notified_step (hpref : PrefOn key e ev) (hfresh : ReadsCurrent key e ev)
    (h : e.step ev = some e') :
    e'.notified key =
      e.notified key + if e.isOpen key = false ∧ e'.isOpen key = true then 1 else 0 := by
  by_cases hwrites : Writes key e ev
  · cases ev with
    | act i =>
      obtain ⟨r, hi, rfl⟩ := hwrites
      have hread : r.wasOpen = e.isOpen r.spec.key := hfresh r hi rfl
      have hopen := isOpen_act hi hfresh h
      obtain rfl := Option.some.inj ((step_act hi).symm.trans h)
      rw [hopen, ← hread]
      cases hwas : r.wasOpen with
      | true =>
        rw [act_of_open hwas, notified_refresh]
        simp [notified]
      | false =>
        rw [act_of_closed hwas]
        refine (notified_dispatch_raise ?_).trans ?_
        · exact hpref r hi rfl
        · rw [notified_insert]
          simp [notified]
    | tick d => exact hwrites.elim
    | raise s => exact hwrites.elim
    | event s =>
      obtain rfl := Option.some.inj h
      have hkey : key = s.withDefaults.key := hwrites.symm
      rw [notified_dispatch_of_ne (.inl rfl), isOpen_dispatch, isOpen_insert, if_pos hkey]
      simp
    | resolve k =>
      obtain rfl := Option.some.inj h
      rw [notified_close, isOpen_close]
      simp +contextual
    | resolvePrefix p keep =>
      obtain rfl := Option.some.inj h
      rw [notified_close, isOpen_close]
      simp +contextual
  · rw [isOpen_of_not_writes hwrites h, if_neg (by simp), Nat.add_zero]
    exact notified_of_not_writes hwrites h

/-! ### Whole runs -/

variable {es : List Event}

/-- The alert is open in every state strictly between the first and the last one of the run. -/
def OpenBetween (key : String) (e : Engine) (es : List Event) : Prop :=
  ∀ pre post e', es = pre ++ post → pre ≠ [] → post ≠ [] → exec step e pre = some e' →
    e'.isOpen key = true

/-- From a moment at which the alert is not open, and as long as it is open in between, at most
one notification of a `Raise` is dispatched, and exactly one if the alert does open. -/
def NotifiesOnce (key : String) (e : Engine) (es : List Event) : Prop :=
  ∀ pre mid post u t, es = pre ++ mid ++ post → exec step e pre = some u →
    exec step u mid = some t → u.isOpen key = false → OpenBetween key u mid →
    t.notified key ≤ u.notified key + 1 ∧
      (Visits step (fun v => v.isOpen key = true) u mid →
        t.notified key = u.notified key + 1)

/-- As long as the last statement on the key is the second one of a `Raise`, its alert is open. -/
def NeverLost (key : String) (e : Engine) (es : List Event) : Prop :=
  ∀ pre i mid post u r u' t, es = pre ++ .act i :: (mid ++ post) → exec step e pre = some u →
    u.raises[i]? = some r → r.spec.key = key → u.step (.act i) = some u' →
    exec step u' mid = some t → Along step (fun v ev => ¬ Writes key v ev) u' mid →
    t.isOpen key = true

/-- While an alert stays open, nothing is dispatched for it. -/
theorem notified_of_open (hpref : Along step (PrefOn key) e es)
    (hfresh : Along step (ReadsCurrent key) e es) (hopen : e.isOpen key = true)
    (hbetween : OpenBetween key e es) (hrun : exec step e es = some e') :
    e'.notified key = e.notified key := by
  induction es generalizing e with
  | nil =>
    obtain rfl := Option.some.inj hrun
    rfl
  | cons ev es ih =>
    obtain ⟨v, hstep, hrest⟩ := exec_cons_eq_some.mp hrun
    have hsame : v.notified key = e.notified key := by
      rw [notified_step hpref.1 hfresh.1 hstep, hopen]
      simp
    rcases eq_or_ne es [] with rfl | hne
    · obtain rfl := Option.some.inj hrest
      exact hsame
    · have hv : v.isOpen key = true :=
        hbetween [ev] es v rfl (by simp) hne (by simp [hstep])
      rw [← hsame]
      refine ih (hpref.2 v hstep) (hfresh.2 v hstep) hv ?_ hrest
      rintro pre post w rfl hpre hpost hw
      exact hbetween (ev :: pre) post w rfl (by simp) hpost
        (exec_cons_eq_some.mpr ⟨v, hstep, hw⟩)

private theorem notifiesOnce_of_run (hpref : Along step (PrefOn key) e es)
    (hfresh : Along step (ReadsCurrent key) e es) : NotifiesOnce key e es := by
  rintro pre mid post u t rfl hpre hmid hclosed hbetween
  rw [List.append_assoc] at hpref hfresh
  have hpref := (along_append.mp ((along_append.mp hpref).2 u hpre)).1
  have hfresh := (along_append.mp ((along_append.mp hfresh).2 u hpre)).1
  cases mid with
  | nil =>
    obtain rfl := Option.some.inj hmid
    refine ⟨Nat.le_succ _, ?_⟩
    rintro ⟨pre', post', v, hsplit, hv, hopen⟩
    obtain ⟨rfl, rfl⟩ := List.append_eq_nil_iff.mp hsplit.symm
    obtain rfl := Option.some.inj hv
    rw [hclosed] at hopen
    cases hopen
  | cons ev mid =>
    obtain ⟨v, hstep, hrest⟩ := exec_cons_eq_some.mp hmid
    have hfirst := notified_step hpref.1 hfresh.1 hstep
    rw [hclosed] at hfirst
    cases hv : v.isOpen key with
    | true =>
      have hsame : t.notified key = v.notified key := by
        refine notified_of_open (hpref.2 v hstep) (hfresh.2 v hstep) hv ?_ hrest
        rintro pre' post' w rfl hpre' hpost' hw
        exact hbetween (ev :: pre') post' w rfl (by simp) hpost'
          (exec_cons_eq_some.mpr ⟨v, hstep, hw⟩)
      rw [hsame, hfirst, hv]
      simp
    | false =>
      -- the segment ends here, with the alert still not open
      have hmid' : mid = [] := by
        by_contra hne
        have hv' := hbetween [ev] mid v rfl (by simp) hne (by simp [hstep])
        rw [hv] at hv'
        cases hv'
      subst hmid'
      obtain rfl := Option.some.inj hrest
      rw [hfirst, hv]
      refine ⟨by simp, ?_⟩
      rintro ⟨pre', post', w, hsplit, hw, hopen⟩
      cases pre' with
      | nil =>
        obtain rfl := Option.some.inj hw
        rw [hclosed] at hopen
        cases hopen
      | cons ev' pre' =>
        obtain ⟨rfl, hnil⟩ := List.cons.inj hsplit
        obtain ⟨rfl, -⟩ := List.append_eq_nil_iff.mp hnil.symm
        obtain ⟨v', hv', hnil'⟩ := exec_cons_eq_some.mp hw
        obtain rfl := Option.some.inj (hstep.symm.trans hv')
        obtain rfl := Option.some.inj hnil'
        rw [hv] at hopen
        cases hopen

private theorem neverLost_of_run (hfresh : Along step (ReadsCurrent key) e es) :
    NeverLost key e es := by
  rintro pre i mid post u r u' t rfl hpre hi rfl hstep hmid hnot
  have hact := (along_append.mp hfresh).2 u hpre
  have hopen : u'.isOpen r.spec.key = true := isOpen_act hi hact.1 hstep
  exact exec_invariant_along (I := fun v => v.isOpen r.spec.key = true)
    (fun v ev v' hv hw hs => (isOpen_of_not_writes hw hs).trans hv) hopen hnot hmid

/-- **Each open episode notifies once and no raise is lost**, in every run in which each `Raise`
on the key acts while the alert is as it was read. -/
theorem alerts_once (hpref : Along step (PrefOn key) e es)
    (hfresh : Along step (ReadsCurrent key) e es) :
    NotifiesOnce key e es ∧ NeverLost key e es :=
  ⟨notifiesOnce_of_run hpref hfresh, neverLost_of_run hfresh⟩

end Engine

/-! ### Overlapping calls -/

namespace Example

/-- A host that went down. -/
def hostDown : Spec := { key := "host_down:1", severity := "crit", pref := "hostDown" }

/-- No alert, and all notifications on. -/
def quiet : Engine := { notifications := ⟨true, true, true, true, true, true, true⟩ }

/-- Two checks find the host down before either has inserted the alert. -/
def raisedTwice : List Event := [.raise hostDown, .raise hostDown, .act 0, .act 0]

/-- A check finds the host still down while another one finds it up. -/
def raisedAndResolved : List Event :=
  [.raise hostDown, .act 0, .raise hostDown, .resolve "host_down:1", .act 0]

/-- The host goes down, stays down, comes up and goes down again. -/
def inTurn : List Event :=
  [.raise hostDown, .act 0, .raise hostDown, .act 0, .resolve "host_down:1", .raise hostDown,
    .act 0]

end Example

/-- Two checks at once notify twice, and a check that overlaps a resolve leaves the alert closed
although it wrote last. -/
theorem Engine.not_alerts_once :
    ¬ NotifiesOnce "host_down:1" Example.quiet Example.raisedTwice ∧
      ¬ NeverLost "host_down:1" Example.quiet Example.raisedAndResolved := by
  constructor
  · intro h
    have hbetween : ∀ u, exec step Example.quiet
      [.raise Example.hostDown, .raise Example.hostDown] = some u →
        OpenBetween "host_down:1" u [.act 0, .act 0] := by
      rintro u hu pre post v hsplit hpre hpost hv
      obtain ⟨rfl, rfl⟩ : pre = [.act 0] ∧ post = [.act 0] := by
        rcases pre with _ | ⟨a, _ | ⟨b, pre⟩⟩
        · exact absurd rfl hpre
        · simpa [eq_comm] using hsplit
        · simp_all
      obtain rfl := Option.some.inj hu
      obtain rfl := Option.some.inj hv
      decide
    have htwice :=
      (h [.raise Example.hostDown, .raise Example.hostDown] [.act 0, .act 0] [] _ _ rfl rfl rfl
      (by decide) (hbetween _ rfl)).1
    exact absurd htwice (by decide)
  · intro h
    have hopen :=
      h [.raise Example.hostDown, .act 0, .raise Example.hostDown, .resolve "host_down:1"] 0 [] []
      _ _ _ _ rfl rfl rfl rfl rfl rfl trivial
    exact absurd hopen (by decide)

/-- Raises one after the other, with nothing between the statements of any. -/
theorem Engine.alerts_once_inTurn :
    NotifiesOnce "host_down:1" Example.quiet Example.inTurn ∧
      NeverLost "host_down:1" Example.quiet Example.inTurn := by
  exact Engine.alerts_once (by decide) (by decide)

end Dockhand.Alerts
