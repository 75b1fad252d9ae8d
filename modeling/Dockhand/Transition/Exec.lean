import Mathlib.Data.Option.Basic
import Mathlib.Data.List.Basic

/-!
# Runs of a partial labelled step function

A concurrent component is a state, a type of events and a step function
`step : σ → ε → Option σ`: an event names which thread moves and with which input, and
`none` means that the event is not enabled. An interleaving is then a list of events, and
`exec step s es` is the state it leads to.

* `exec_invariant` and `exec_invariant_along` are the induction rules: what every step
  preserves, every run preserves. The second one lets each step assume a condition `C` on
  the state it is taken in and on its event; `Along step C s es` says that the run meets it.
* `exec_length_add_le` bounds the length of a run by a rank that every step lowers.
* `Visits step P s es` says that some state of the run, the first and the last included,
  satisfies `P`. It is how a statement speaks about "some moment since".
* `AllStates step P s es` says it of every state of the run, and `AllSteps step Q s es` says `Q`
  of every step of it.
* `Paired step R s es es'` relates the events of two runs, and `exec_paired` is the induction rule
  for a relation between their states.
-/

namespace Transition

universe u v

variable {σ : Type u} {ε : Type v}

/-- Run a list of events, `none` as soon as one of them is not enabled. -/
def exec (step : σ → ε → Option σ) : σ → List ε → Option σ
  | s, [] => some s
  | s, e :: es => (step s e).bind fun s' => exec step s' es

variable {step : σ → ε → Option σ} {s t u : σ} {e : ε} {es es' : List ε}

@[simp] theorem exec_nil : exec step s [] = some s := rfl

@[simp] theorem exec_cons :
    exec step s (e :: es) = (step s e).bind fun s' => exec step s' es := rfl

theorem exec_cons_eq_some :
    exec step s (e :: es) = some t ↔ ∃ s', step s e = some s' ∧ exec step s' es = some t := by
  simp [Option.bind_eq_some_iff]

/-- A run splits at every point of its event list. -/
theorem exec_append : exec step s (es ++ es') = (exec step s es).bind (exec step · es') := by
  induction es generalizing s with
  | nil => rfl
  | cons e es ih =>
    rw [List.cons_append, exec_cons, exec_cons, Option.bind_assoc]
    exact congrArg _ (funext fun s' => ih)

theorem exec_append_eq_some :
    exec step s (es ++ es') = some u ↔
      ∃ t, exec step s es = some t ∧ exec step t es' = some u := by
  simp [exec_append, Option.bind_eq_some_iff]

theorem exec_concat_eq_some :
    exec step s (es ++ [e]) = some u ↔ ∃ t, exec step s es = some t ∧ step t e = some u := by
  simp [exec_append_eq_some]

/-! ### Invariants -/

/-- **The invariant rule.** What every step preserves, every run preserves. -/
theorem exec_invariant {I : σ → Prop} (hstep : ∀ s e s', I s → step s e = some s' → I s')
    (hs : I s) (hrun : exec step s es = some t) : I t := by
  induction es generalizing s with
  | nil =>
    obtain rfl : s = t := Option.some.inj hrun
    exact hs
  | cons e es ih =>
    obtain ⟨s', he, hes⟩ := exec_cons_eq_some.mp hrun
    exact ih (hstep s e s' hs he) hes

/-- **The ranking rule.** Where every step lowers a rank, no run is longer than the rank it starts
from. -/
theorem exec_length_add_le {rank : σ → ℕ}
    (hstep : ∀ s e s', step s e = some s' → rank s' < rank s) (hrun : exec step s es = some t) :
    es.length + rank t ≤ rank s := by
  induction es generalizing s with
  | nil =>
    obtain rfl := Option.some.inj hrun
    simp
  | cons e es ih =>
    obtain ⟨s', he, hes⟩ := exec_cons_eq_some.mp hrun
    have hrest := ih hes
    have hlt := hstep s e s' he
    rw [List.length_cons]
    omega

/-- Every step of the run from `s` meets `C` in the state it is taken in. -/
def Along (step : σ → ε → Option σ) (C : σ → ε → Prop) : σ → List ε → Prop
  | _, [] => True
  | s, e :: es => C s e ∧ ∀ s' ∈ step s e, Along step C s' es

instance Along.decidable (step : σ → ε → Option σ) (C : σ → ε → Prop)
    [∀ s e, Decidable (C s e)] : ∀ s es, Decidable (Along step C s es)
  | _, [] => isTrue trivial
  | s, e :: es =>
    match h : step s e with
    | none => decidable_of_iff (C s e) (by simp [Along, h])
    | some s' =>
      have := Along.decidable step C s' es
      decidable_of_iff (C s e ∧ Along step C s' es) (by simp [Along, h])

variable {C : σ → ε → Prop}

@[simp] theorem along_nil : Along step C s [] := trivial

theorem along_cons : Along step C s (e :: es) ↔ C s e ∧ ∀ s' ∈ step s e, Along step C s' es :=
  Iff.rfl

theorem along_append :
    Along step C s (es ++ es') ↔
      Along step C s es ∧ ∀ t, exec step s es = some t → Along step C t es' := by
  induction es generalizing s with
  | nil => simp
  | cons e es ih =>
    simp only [List.cons_append, along_cons, ih, exec_cons_eq_some, Option.mem_def]
    constructor
    · rintro ⟨hC, h⟩
      exact ⟨⟨hC, fun s' hs' => (h s' hs').1⟩, fun t ⟨s', hs', ht⟩ => (h s' hs').2 t ht⟩
    · rintro ⟨⟨hC, h⟩, h'⟩
      exact ⟨hC, fun s' hs' => ⟨h s' hs', fun t ht => h' t ⟨s', hs', ht⟩⟩⟩

/-- **The conditional invariant rule.** What every step that meets `C` preserves, every run
whose steps meet `C` preserves. -/
theorem exec_invariant_along {I : σ → Prop}
    (hstep : ∀ s e s', I s → C s e → step s e = some s' → I s')
    (hs : I s) (hC : Along step C s es) (hrun : exec step s es = some t) : I t := by
  induction es generalizing s with
  | nil =>
    obtain rfl : s = t := Option.some.inj hrun
    exact hs
  | cons e es ih =>
    obtain ⟨s', he, hes⟩ := exec_cons_eq_some.mp hrun
    exact ih (hstep s e s' hs hC.1 he) (hC.2 s' he) hes

/-! ### The states of a run -/

/-- Some state of the run satisfies `P`. -/
def Visits (step : σ → ε → Option σ) (P : σ → Prop) (s : σ) (es : List ε) : Prop :=
  ∃ pre post t, es = pre ++ post ∧ exec step s pre = some t ∧ P t

/-- Every state of the run satisfies `P`. -/
def AllStates (step : σ → ε → Option σ) (P : σ → Prop) (s : σ) (es : List ε) : Prop :=
  ∀ pre post t, es = pre ++ post → exec step s pre = some t → P t

variable {P : σ → Prop}

theorem Visits.append_right (h : Visits step P s es) : Visits step P s (es ++ es') := by
  obtain ⟨pre, post, t, rfl, ht, hP⟩ := h
  exact ⟨pre, post ++ es', t, List.append_assoc .., ht, hP⟩

/-- The last state of a run is one of its states. -/
theorem Visits.last (hrun : exec step s es = some t) (h : P t) : Visits step P s es :=
  ⟨es, [], t, (List.append_nil es).symm, hrun, h⟩

private theorem allStates_nil : AllStates step P s [] ↔ P s := by
  constructor
  · exact fun h => h [] [] s rfl rfl
  · rintro h pre post t hsplit ht
    obtain ⟨rfl, rfl⟩ := List.append_eq_nil_iff.mp hsplit.symm
    obtain rfl := Option.some.inj ht
    exact h

private theorem allStates_cons :
    AllStates step P s (e :: es) ↔ P s ∧ ∀ s' ∈ step s e, AllStates step P s' es := by
  constructor
  · refine fun h => ⟨h [] (e :: es) s rfl rfl, fun s' hs' => ?_⟩
    rintro pre post t rfl ht
    exact h (e :: pre) post t rfl (exec_cons_eq_some.mpr ⟨s', hs', ht⟩)
  · rintro ⟨hs, hrest⟩ pre post t hsplit ht
    cases pre with
    | nil =>
      obtain rfl := Option.some.inj ht
      exact hs
    | cons e' pre =>
      obtain ⟨rfl, rfl⟩ := List.cons.inj hsplit
      obtain ⟨s', hs', ht'⟩ := exec_cons_eq_some.mp ht
      exact hrest s' hs' pre post t rfl ht'

instance AllStates.decidable (step : σ → ε → Option σ) (P : σ → Prop) [DecidablePred P] :
    ∀ s es, Decidable (AllStates step P s es)
  | _, [] => decidable_of_iff _ allStates_nil.symm
  | s, e :: es =>
    match h : step s e with
    | none => decidable_of_iff (P s) (by simp [allStates_cons, h])
    | some s' =>
      have := AllStates.decidable step P s' es
      decidable_of_iff (P s ∧ AllStates step P s' es) (by simp [allStates_cons, h])

theorem AllStates.last (h : AllStates step P s es) (hrun : exec step s es = some t) : P t :=
  h es [] t (List.append_nil es).symm hrun

theorem AllStates.imp {Q : σ → Prop} (h : AllStates step P s es) (himp : ∀ t, P t → Q t) :
    AllStates step Q s es :=
  fun pre post t hsplit ht => himp t (h pre post t hsplit ht)

/-- What every step that meets `C` preserves holds in every state of a run that meets it. -/
theorem allStates_of_along {I : σ → Prop}
    (hstep : ∀ s e s', I s → C s e → step s e = some s' → I s')
    (hs : I s) (hC : Along step C s es) : AllStates step I s es := by
  rintro pre post t rfl ht
  exact exec_invariant_along hstep hs (along_append.mp hC).1 ht

/-! ### The steps of a run -/

/-- Every step of the run satisfies `Q`, of its state, its event and its next state. -/
def AllSteps (step : σ → ε → Option σ) (Q : σ → ε → σ → Prop) : σ → List ε → Prop
  | _, [] => True
  | s, e :: es => ∀ s' ∈ step s e, Q s e s' ∧ AllSteps step Q s' es

instance AllSteps.decidable (step : σ → ε → Option σ) (Q : σ → ε → σ → Prop)
    [∀ s e s', Decidable (Q s e s')] : ∀ s es, Decidable (AllSteps step Q s es)
  | _, [] => isTrue trivial
  | s, e :: es =>
    match h : step s e with
    | none => isTrue (by simp [AllSteps, h])
    | some s' =>
      have := AllSteps.decidable step Q s' es
      decidable_of_iff (Q s e s' ∧ AllSteps step Q s' es) (by simp [AllSteps, h])

variable {Q : σ → ε → σ → Prop}

theorem allSteps_cons :
    AllSteps step Q s (e :: es) ↔ ∀ s' ∈ step s e, Q s e s' ∧ AllSteps step Q s' es := Iff.rfl

/-- Under an invariant that every step meeting `C` preserves, a fact of each such step is a fact
of the whole run. -/
theorem allSteps_of_along {I : σ → Prop}
    (hstep : ∀ s e s', I s → C s e → step s e = some s' → I s')
    (hQ : ∀ s e s', I s → C s e → step s e = some s' → Q s e s')
    (hs : I s) (hC : Along step C s es) : AllSteps step Q s es := by
  induction es generalizing s with
  | nil => trivial
  | cons e es ih =>
    exact fun s' he => ⟨hQ s e s' hs hC.1 he, ih (hstep s e s' hs hC.1 he) (hC.2 s' he)⟩

/-- Where every event is enabled, what a step does exactly when it meets `C` every step of a run
does exactly when the whole run meets it. -/
theorem allSteps_iff_along (h : ∀ s e, ∃ s', step s e = some s' ∧ (Q s e s' ↔ C s e)) :
    AllSteps step Q s es ↔ Along step C s es := by
  induction es generalizing s with
  | nil => exact Iff.rfl
  | cons e es ih =>
    obtain ⟨s', he, hQ⟩ := h s e
    simp only [allSteps_cons, along_cons, he, Option.mem_some_iff, forall_eq', hQ, ih]

/-- The same under an invariant, for a run that goes to its end. -/
theorem allSteps_iff_along_of_inv {I : σ → Prop} (hstep : ∀ s e s', I s → step s e = some s' → I s')
    (h : ∀ s e s', I s → step s e = some s' → (Q s e s' ↔ C s e)) (hs : I s)
    (hrun : exec step s es = some t) : AllSteps step Q s es ↔ Along step C s es := by
  induction es generalizing s with
  | nil => exact Iff.rfl
  | cons e es ih =>
    obtain ⟨s', he, hes⟩ := exec_cons_eq_some.mp hrun
    simp only [allSteps_cons, along_cons, he, Option.mem_some_iff, forall_eq', h s e s' hs he,
      ih (hstep s e s' hs he) hes]

/-! ### Two runs side by side -/

/-- The events of two runs are related by `R` one by one, in the states of the first run. -/
def Paired (step : σ → ε → Option σ) (R : σ → ε → ε → Prop) : σ → List ε → List ε → Prop
  | _, [], [] => True
  | s, e :: es, e' :: es' => R s e e' ∧ ∀ s' ∈ step s e, Paired step R s' es es'
  | _, _, _ => False

/-- **The rule for two runs.** A relation between states that two related steps keep, the first of
which meets `C`, is kept by two related runs. -/
theorem exec_paired {R : σ → ε → ε → Prop} {I : σ → σ → Prop}
    (hstep : ∀ s t e e' s', I s t → R s e e' → C s e → step s e = some s' →
      ∃ t', step t e' = some t' ∧ I s' t')
    (hI : I s t) (hR : Paired step R s es es') (hC : Along step C s es)
    (hrun : exec step s es = some u) : ∃ u', exec step t es' = some u' ∧ I u u' := by
  induction es generalizing s t es' with
  | nil =>
    cases es' with
    | nil =>
      obtain rfl := Option.some.inj hrun
      exact ⟨t, rfl, hI⟩
    | cons e' es' => cases hR
  | cons e es ih =>
    cases es' with
    | nil => cases hR
    | cons e' es' =>
      obtain ⟨s', he, hes⟩ := exec_cons_eq_some.mp hrun
      obtain ⟨t', he', hI'⟩ := hstep s t e e' s' hI hR.1 hC.1 he
      obtain ⟨u', hu', hIu⟩ := ih hI' (hR.2 s' he) (hC.2 s' he) hes
      exact ⟨u', exec_cons_eq_some.mpr ⟨t', he', hu'⟩, hIu⟩

end Transition
