import Mathlib.Logic.Basic

/-!
# Tokens in custody

A token that is handed from place to place and is never copied: every place of a system holds at
most one token, and no token is held at two places. The rules say which changes keep that.
-/

namespace Transition

universe u v

variable {π : Type u} {ι : Type v} {held held' : π → Option ι}

/-- No token is held at two places. -/
def Linear (held : π → Option ι) : Prop := ∀ p q t, held p = some t → held q = some t → p = q

/-- Tokens may be dropped. -/
theorem Linear.drop (h : Linear held) (hdrop : ∀ p t, held' p = some t → held p = some t) :
    Linear held' :=
  fun p q t hp hq => h p q t (hdrop p t hp) (hdrop q t hq)

/-- A token may be handed from `a` to `b`, whatever `b` held before. -/
theorem Linear.move (h : Linear held) {a b : π} (hmove : ∀ p t, held' p = some t →
    p = b ∧ held a = some t ∨ p ≠ a ∧ held p = some t) : Linear held' := by
  intro p q t hp hq
  rcases hmove p t hp with ⟨rfl, hp⟩ | ⟨hpa, hp⟩
  · rcases hmove q t hq with ⟨rfl, -⟩ | ⟨hqa, hq⟩
    · rfl
    · exact absurd (h q a t hq hp) hqa
  · rcases hmove q t hq with ⟨rfl, hq⟩ | ⟨-, hq⟩
    · exact absurd (h p a t hp hq) hpa
    · exact h p q t hp hq

/-- A token that is nowhere may be put at `b`. -/
theorem Linear.put (h : Linear held) {b : π} {new : ι} (hnew : ∀ p, held p ≠ some new)
    (hput : ∀ p t, held' p = some t → p = b ∧ t = new ∨ held p = some t) : Linear held' := by
  intro p q t hp hq
  rcases hput p t hp with ⟨rfl, rfl⟩ | hp
  · rcases hput q t hq with ⟨rfl, -⟩ | hq
    · rfl
    · exact absurd hq (hnew q)
  · rcases hput q t hq with ⟨rfl, rfl⟩ | hq
    · exact absurd hp (hnew p)
    · exact h p q t hp hq

end Transition
