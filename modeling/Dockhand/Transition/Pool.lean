import Mathlib.Data.List.Count
import Mathlib.Data.List.Perm.Basic

/-!
# A pool of threads

The threads of a system are a list of their local states; an event names one of them by its
index, and its step replaces it or, at its end, removes it. What is counted over the pool, or
holds of all of it, does not depend on the order of the list: these lemmas put the thread that
moves in front of the others.
-/

namespace Transition

universe u

variable {τ : Type u} {l : List τ} {i : ℕ} {a b : τ}

theorem pool_perm (h : l[i]? = some a) : l.Perm (a :: l.eraseIdx i) := by
  obtain ⟨hi, rfl⟩ := List.getElem?_eq_some_iff.mp h
  exact (List.getElem_cons_eraseIdx_perm hi).symm

private theorem pool_set_perm (h : l[i]? = some a) (b : τ) :
    (l.set i b).Perm (b :: l.eraseIdx i) := by
  obtain ⟨hi, -⟩ := List.getElem?_eq_some_iff.mp h
  exact List.set_perm_cons_eraseIdx hi b

variable {p : τ → Bool}

theorem countP_pool (h : l[i]? = some a) (p : τ → Bool) :
    l.countP p = (l.eraseIdx i).countP p + if p a then 1 else 0 := by
  rw [(pool_perm h).countP_eq, List.countP_cons]

theorem countP_pool_set (h : l[i]? = some a) (b : τ) (p : τ → Bool) :
    (l.set i b).countP p = (l.eraseIdx i).countP p + if p b then 1 else 0 := by
  rw [(pool_set_perm h b).countP_eq, List.countP_cons]

theorem mem_pool (h : l[i]? = some a) : b ∈ l ↔ b = a ∨ b ∈ l.eraseIdx i := by
  rw [(pool_perm h).mem_iff, List.mem_cons]

theorem mem_pool_set (h : l[i]? = some a) {b c : τ} :
    c ∈ l.set i b ↔ c = b ∨ c ∈ l.eraseIdx i := by
  rw [(pool_set_perm h b).mem_iff, List.mem_cons]

end Transition
