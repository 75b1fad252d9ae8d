import Dockhand.Transition.Exec
import Mathlib.Data.List.Induction
import Mathlib.Order.Nat

/-!
# What a run has done and not undone

A table that is written by some steps and cleared by others remembers the history of a run.
`Once step P s es` says that some step of the run satisfies `P`, and `Since step P Q s es` that
some step satisfies `P` and no later one satisfies `Q`. `exec_since_iff` is the rule for a
predicate on states that starts at the steps with `P` and ends at those with `Q`: it holds at the
end of a run exactly when the run has `P` since `Q`.
-/

namespace Transition

universe u v

variable {σ : Type u} {ε : Type v} {step : σ → ε → Option σ} {s t u v : σ} {e : ε}
  {es es' : List ε} {P Q R : σ → ε → σ → Prop}

theorem allSteps_append : AllSteps step Q s (es ++ es') ↔
    AllSteps step Q s es ∧ ∀ t, exec step s es = some t → AllSteps step Q t es' := by
  induction es generalizing s with
  | nil => simp [AllSteps]
  | cons e es ih =>
    simp only [List.cons_append, allSteps_cons, ih, exec_cons_eq_some, Option.mem_def]
    constructor
    · intro h
      exact ⟨fun s' he => ⟨(h s' he).1, (h s' he).2.1⟩,
        fun t ⟨s', he, ht⟩ => (h s' he).2.2 t ht⟩
    · rintro ⟨h, h'⟩ s' he
      exact ⟨(h s' he).1, (h s' he).2, fun t ht => h' t ⟨s', he, ht⟩⟩

theorem AllSteps.imp (h : AllSteps step Q s es) (himp : ∀ s e s', Q s e s' → R s e s') :
    AllSteps step R s es := by
  induction es generalizing s with
  | nil => trivial
  | cons e es ih => exact fun s' he => ⟨himp s e s' (h s' he).1, ih (h s' he).2⟩

/-- What grows with every step stays below its value at the end. -/
theorem allSteps_le {f : σ → ℕ} (hmono : ∀ s e s', step s e = some s' → f s ≤ f s')
    (hrun : exec step s es = some t) : AllSteps step (fun s _ _ => f s ≤ f t) s es := by
  induction es generalizing s with
  | nil => trivial
  | cons e es ih =>
    obtain ⟨s', he, hes⟩ := exec_cons_eq_some.mp hrun
    intro s'' he'
    obtain rfl : s' = s'' := Option.some.inj (he.symm.trans he')
    have hle : f s' ≤ f t :=
      exec_invariant (I := fun x => f s' ≤ f x)
        (fun a e b ha hab => ha.trans (hmono a e b hab)) le_rfl hes
    exact ⟨(hmono s e s' he).trans hle, ih hes⟩

/-- What every step with `p` adds one to, and no other changes, counts them. -/
theorem exec_countP {f : σ → ℕ} {p : ε → Bool} {I : σ → Prop}
    (hI : ∀ s e s', I s → step s e = some s' → I s')
    (hstep : ∀ s e s', I s → step s e = some s' → f s' = f s + (p e).toNat) (hs : I s)
    (hrun : exec step s es = some t) : f t = f s + es.countP p := by
  induction es generalizing s with
  | nil =>
    obtain rfl : s = t := Option.some.inj hrun
    rfl
  | cons e es ih =>
    obtain ⟨s', he, hes⟩ := exec_cons_eq_some.mp hrun
    rw [ih (hI s e s' hs he) hes, hstep s e s' hs he, List.countP_cons]
    cases p e <;> simp +arith

/-! ### Once -/

/-- Some step of the run satisfies `P`. -/
def Once (step : σ → ε → Option σ) (P : σ → ε → σ → Prop) (s : σ) (es : List ε) : Prop :=
  ∃ pre e post u v, es = pre ++ e :: post ∧ exec step s pre = some u ∧ step u e = some v ∧ P u e v

private theorem Once.concat (h : Once step P s es) : Once step P s (es ++ [e]) := by
  obtain ⟨pre, e', post, u, v, rfl, hu, hv, hP⟩ := h
  exact ⟨pre, e', post ++ [e], u, v, by simp, hu, hv, hP⟩

/-- What only a step with `P` can bring about is brought about by one. -/
theorem exec_once {H : σ → Prop}
    (hstep : ∀ s e s', step s e = some s' → H s' → H s ∨ P s e s') (h : ¬ H s)
    (hrun : exec step s es = some t) (hH : H t) : Once step P s es := by
  induction es using List.reverseRecOn generalizing t with
  | nil =>
    obtain rfl : s = t := Option.some.inj hrun
    exact absurd hH h
  | append_singleton es e ih =>
    obtain ⟨u, hu, he⟩ := exec_concat_eq_some.mp hrun
    rcases hstep u e t he hH with hHu | hP
    · exact (ih hu hHu).concat
    · exact ⟨es, e, [], u, t, rfl, hu, he, hP⟩

/-! ### Since -/

/-- Some step of the run satisfies `P`, and no later one `Q`. -/
def Since (step : σ → ε → Option σ) (P Q : σ → ε → σ → Prop) (s : σ) (es : List ε) : Prop :=
  ∃ pre e post u v, es = pre ++ e :: post ∧ exec step s pre = some u ∧ step u e = some v ∧
    P u e v ∧ AllSteps step (fun s e s' => ¬ Q s e s') v post

private theorem not_since_nil : ¬ Since step P Q s [] := by
  rintro ⟨pre, e, post, u, v, hsplit, -⟩
  exact absurd hsplit (by simp)

private theorem since_concat (hrun : exec step s es = some t) (he : step t e = some u) :
    Since step P Q s (es ++ [e]) ↔ P t e u ∨ Since step P Q s es ∧ ¬ Q t e u := by
  constructor
  · rintro ⟨pre, e', post, a, b, hsplit, ha, hb, hP, hQ⟩
    rcases List.eq_nil_or_concat post with rfl | ⟨post, e'', rfl⟩
    · -- the step with `P` is the last one
      obtain ⟨rfl, hlast⟩ := List.append_inj' hsplit rfl
      obtain rfl : e = e' := by simpa using hlast
      obtain rfl : t = a := Option.some.inj (hrun.symm.trans ha)
      obtain rfl : u = b := Option.some.inj (he.symm.trans hb)
      exact .inl hP
    · rw [List.concat_eq_append] at hsplit hQ
      rw [← List.cons_append, ← List.append_assoc] at hsplit
      obtain ⟨rfl, hlast⟩ := List.append_inj' hsplit rfl
      obtain rfl : e = e'' := by simpa using hlast
      obtain ⟨hQ, hlast⟩ := allSteps_append.mp hQ
      obtain ⟨a', ha', hes⟩ := exec_append_eq_some.mp hrun
      obtain rfl : a = a' := Option.some.inj (ha.symm.trans ha')
      obtain ⟨b', hb', hpost⟩ := exec_cons_eq_some.mp hes
      obtain rfl : b = b' := Option.some.inj (hb.symm.trans hb')
      exact .inr ⟨⟨pre, e', post, a, b, rfl, ha, hb, hP, hQ⟩, (hlast t hpost u he).1⟩
  · rintro (hP | ⟨⟨pre, e', post, a, b, rfl, ha, hb, hP, hQ⟩, hnot⟩)
    · exact ⟨es, e, [], t, u, rfl, hrun, he, hP, trivial⟩
    · obtain ⟨a', ha', hes⟩ := exec_append_eq_some.mp hrun
      obtain rfl : a = a' := Option.some.inj (ha.symm.trans ha')
      obtain ⟨b', hb', hpost⟩ := exec_cons_eq_some.mp hes
      obtain rfl : b = b' := Option.some.inj (hb.symm.trans hb')
      refine ⟨pre, e', post ++ [e], a, b, by simp, ha, hb, hP, allSteps_append.mpr ⟨hQ, ?_⟩⟩
      intro c hc
      obtain rfl : t = c := Option.some.inj (hpost.symm.trans hc)
      intro u' hu'
      obtain rfl : u = u' := Option.some.inj (he.symm.trans hu')
      exact ⟨hnot, trivial⟩

/-- **The rule of histories.** What starts at the steps with `P` and ends at the steps with `Q`
holds at the end of a run exactly when the run has `P` since `Q`. -/
theorem exec_since_iff {H I : σ → Prop} (hI : ∀ s e s', I s → step s e = some s' → I s')
    (hstep : ∀ s e s', I s → step s e = some s' → (H s' ↔ P s e s' ∨ H s ∧ ¬ Q s e s'))
    (hs : I s) (h : ¬ H s) (hrun : exec step s es = some t) : H t ↔ Since step P Q s es := by
  induction es using List.reverseRecOn generalizing t with
  | nil =>
    obtain rfl : s = t := Option.some.inj hrun
    exact iff_of_false h not_since_nil
  | append_singleton es e ih =>
    obtain ⟨u, hu, he⟩ := exec_concat_eq_some.mp hrun
    rw [hstep u e t (exec_invariant hI hs hu) he, ih hu, since_concat hu he]

/-- What every step with `P` brings about, and only steps with `Q` can end, holds where the run has
`P` since `Q`. -/
theorem exec_of_since {H I : σ → Prop} (hI : ∀ s e s', I s → step s e = some s' → I s')
    (hstep : ∀ s e s', I s → step s e = some s' → P s e s' ∨ H s ∧ ¬ Q s e s' → H s')
    (hs : I s) (hrun : exec step s es = some t) (h : Since step P Q s es) : H t := by
  induction es using List.reverseRecOn generalizing t with
  | nil => exact absurd h not_since_nil
  | append_singleton es e ih =>
    obtain ⟨u, hu, he⟩ := exec_concat_eq_some.mp hrun
    refine hstep u e t (exec_invariant hI hs hu) he ?_
    exact ((since_concat hu he).mp h).imp_right fun ⟨hbefore, hnot⟩ => ⟨ih hu hbefore, hnot⟩

/-- Steps that the run does not take end nothing. -/
theorem since_or_iff (hrun : exec step s es = some t)
    (hR : AllSteps step (fun s e s' => ¬ R s e s') s es) :
    Since step P (fun s e s' => Q s e s' ∨ R s e s') s es ↔ Since step P Q s es := by
  constructor
  · rintro ⟨pre, e, post, u, v, hsplit, hu, hv, hP, hQ⟩
    exact ⟨pre, e, post, u, v, hsplit, hu, hv, hP, hQ.imp fun _ _ _ h => mt Or.inl h⟩
  · rintro ⟨pre, e, post, u, v, rfl, hu, hv, hP, hQ⟩
    refine ⟨pre, e, post, u, v, rfl, hu, hv, hP, ?_⟩
    have hpost := ((allSteps_append.mp hR).2 u hu v hv).2
    clear hR hrun hu hv hP
    induction post generalizing v with
    | nil => trivial
    | cons e' post ih =>
      intro w hw
      exact ⟨not_or.mpr ⟨(hQ w hw).1, (hpost w hw).1⟩, ih w (hQ w hw).2 (hpost w hw).2⟩

/-- What a longer run has done and not undone was done in its second part, or in its first part and
not undone in the second. -/
theorem Since.of_append (h : Since step P Q s (es ++ es')) (hu : exec step s es = some u) :
    Since step P Q u es' ∨
      Since step P Q s es ∧ AllSteps step (fun s e s' => ¬ Q s e s') u es' := by
  obtain ⟨pre, e, post, a, b, hsplit, ha, hb, hP, hQ⟩ := h
  rcases List.append_eq_append_iff.mp hsplit with ⟨mid, rfl, rfl⟩ | ⟨mid, rfl, hmid⟩
  · obtain ⟨u', hu', hmid⟩ := exec_append_eq_some.mp ha
    obtain rfl : u = u' := Option.some.inj (hu.symm.trans hu')
    exact .inl ⟨mid, e, post, a, b, rfl, hmid, hb, hP, hQ⟩
  · cases mid with
    | nil =>
      obtain rfl : u = a := by simpa [ha] using hu.symm
      exact .inl ⟨[], e, post, u, b, hmid.symm, rfl, hb, hP, hQ⟩
    | cons e' mid =>
      obtain ⟨rfl, rfl⟩ := List.cons.inj hmid
      obtain ⟨a', ha', hmid'⟩ := exec_append_eq_some.mp hu
      obtain rfl : a = a' := Option.some.inj (ha.symm.trans ha')
      obtain ⟨b', hb', hmid''⟩ := exec_cons_eq_some.mp hmid'
      obtain rfl : b = b' := Option.some.inj (hb.symm.trans hb')
      obtain ⟨hQ, hQ'⟩ := allSteps_append.mp hQ
      exact .inr ⟨⟨pre, e, mid, a, b, rfl, ha, hb, hP, hQ⟩, hQ' u hmid''⟩

/-- After a step that ends everything of before, the run has `P` since then. -/
theorem Since.of_reset (h : Since step P Q s (es ++ e :: es')) (hu : exec step s es = some u)
    (hv : step u e = some v) (hP : ¬ P u e v) (hQ : Q u e v) : Since step P Q v es' := by
  have hsplit : es ++ e :: es' = (es ++ [e]) ++ es' := by simp
  have hrun : exec step s (es ++ [e]) = some v := exec_concat_eq_some.mpr ⟨u, hu, hv⟩
  rw [hsplit] at h
  refine (h.of_append hrun).resolve_right fun hbefore => ?_
  rcases (since_concat hu hv).mp hbefore.1 with hnow | hnow
  · exact hP hnow
  · exact hnow.2 hQ

end Transition
