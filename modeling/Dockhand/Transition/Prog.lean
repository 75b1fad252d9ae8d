import Mathlib.Data.List.Defs

/-!
# Programs run side by side

A program changes a state and returns a result or an error; what it did before an error stays done.
`Alike R m P` says that runs of `m` from related states end alike, in related states, and that a
result satisfies `P`. With equality on the states that satisfy an invariant for `R` this is an
ordinary rule of invariants, and with a relation that forgets a part of the state it says that the
program does not depend on that part.
-/

namespace Transition

universe u

variable {ε σ α β : Type u}

/-- A program with errors in `ε` over states in `σ`. -/
def Prog (ε σ α : Type u) := σ → Except ε α × σ

namespace Prog

instance : Monad (Prog ε σ) where
  pure a := fun s => (.ok a, s)
  bind m f := fun s =>
    match m s with
    | (.ok a, s') => f a s'
    | (.error e, s') => (.error e, s')

/-- The program ends with an error, and leaves the state as it is. -/
def throw (e : ε) : Prog ε σ α := fun s => (.error e, s)

/-- A result that does not depend on the state. -/
def ofExcept (r : Except ε α) : Prog ε σ α := fun s => (r, s)

/-- A result that is read off the state. -/
def reads (f : σ → Except ε α) : Prog ε σ α := fun s => (f s, s)

/-- The outcome of a program, which does not fail any more. -/
def attempt (m : Prog ε σ α) : Prog ε σ (Except ε α) := fun s => (.ok (m s).1, (m s).2)

/-- A loop that stops at the first error. -/
def each (f : α → Prog ε σ β) : List α → Prog ε σ (List β)
  | [] => pure []
  | a :: l => do
    let b ← f a
    let bs ← each f l
    return b :: bs

private theorem bind_apply (m : Prog ε σ α) (f : α → Prog ε σ β) (s : σ) :
    (m >>= f) s = match m s with
      | (.ok a, s') => f a s'
      | (.error e, s') => (.error e, s') := rfl

/-- From related states the program ends alike, in related states, and its result satisfies `P`. -/
def Alike (R : σ → σ → Prop) (m : Prog ε σ α) (P : α → Prop) : Prop :=
  ∀ s s', R s s' → R (m s).2 (m s').2 ∧ (m s).1 = (m s').1 ∧ ∀ a, (m s).1 = .ok a → P a

variable {R : σ → σ → Prop} {m : Prog ε σ α} {f : α → Prog ε σ β} {P : α → Prop} {Q : β → Prop}

theorem Alike.pure {a : α} (h : P a) : Alike R (pure a : Prog ε σ α) P := fun _ _ hR =>
  ⟨hR, rfl, fun _ hb => Except.ok.inj hb ▸ h⟩

theorem Alike.throw {e : ε} : Alike R (throw e : Prog ε σ α) P := fun _ _ hR =>
  ⟨hR, rfl, fun _ hb => nomatch hb⟩

theorem Alike.ofExcept {r : Except ε α} (h : ∀ a, r = .ok a → P a) :
    Alike R (ofExcept r : Prog ε σ α) P := fun _ _ hR => ⟨hR, rfl, h⟩

/-- What is read agrees in related states. -/
theorem Alike.reads {g : σ → Except ε α} (h : ∀ s s', R s s' → g s = g s')
    (hP : ∀ s s', R s s' → ∀ a, g s = .ok a → P a) : Alike R (reads g : Prog ε σ α) P :=
  fun s s' hR => ⟨hR, h s s' hR, hP s s' hR⟩

theorem Alike.bind (hm : Alike R m P) (hf : ∀ a, P a → Alike R (f a) Q) : Alike R (m >>= f) Q := by
  intro s s' hR
  obtain ⟨hstate, heq, hP⟩ := hm s s' hR
  rw [bind_apply, bind_apply]
  generalize m s = x at hstate heq hP ⊢
  generalize m s' = x' at hstate heq ⊢
  obtain ⟨r, t⟩ := x
  obtain ⟨r', t'⟩ := x'
  obtain rfl : r = r' := heq
  cases r with
  | error e => exact ⟨hstate, rfl, fun _ hb => nomatch hb⟩
  | ok a => exact hf a (hP a rfl) t t' hstate

theorem Alike.attempt (h : Alike R m P) : Alike R (attempt m) fun _ => True := fun s s' hR =>
  ⟨(h s s' hR).1, congrArg Except.ok (h s s' hR).2.1, fun _ _ => trivial⟩

theorem Alike.ite {c : Prop} [Decidable c] {m' : Prog ε σ α} (h : c → Alike R m P)
    (h' : ¬ c → Alike R m' P) : Alike R (if c then m else m') P := by
  by_cases hc : c
  · rw [if_pos hc]
    exact h hc
  · rw [if_neg hc]
    exact h' hc

/-- A loop over values that satisfy `P`. -/
theorem Alike.each {l : List α} (hl : ∀ a ∈ l, P a) (hf : ∀ a, P a → Alike R (f a) Q) :
    Alike R (each f l) fun bs => ∀ b ∈ bs, Q b := by
  induction l with
  | nil => exact Alike.pure fun b hb => nomatch hb
  | cons a l ih =>
    refine (hf a (hl a List.mem_cons_self)).bind fun b hb => ?_
    refine (ih fun a' ha' => hl a' (List.mem_cons_of_mem a ha')).bind fun bs hbs => ?_
    exact Alike.pure fun b' hb' => (List.mem_cons.mp hb').elim (fun h => h ▸ hb) (hbs b')

end Prog

end Transition
