import Mathlib.Data.List.Infix
import Mathlib.Data.List.Lex
import Mathlib.Order.Lattice
import Mathlib.Order.Compare
import Mathlib.Order.Monotone.Basic

/-!
# Lexicographic comparison

Lists are compared by the first element in which they differ, a prefix coming first. What is
appended to two lists decides their order only when one of them is a prefix of the other.
-/

universe u

namespace Data

variable {α : Type u} [LinearOrder α] {a b : α} {p s t x y : List α}

/-- The lexicographic comparison of two lists by the order of their elements. -/
def lexCmp : List α → List α → Ordering
  | [], [] => .eq
  | [], _ :: _ => .lt
  | _ :: _, [] => .gt
  | a :: s, b :: t => (cmp a b).then (lexCmp s t)

@[simp] theorem lexCmp_nil : lexCmp ([] : List α) [] = .eq := rfl

@[simp] theorem lexCmp_nil_cons (a : α) (s : List α) : lexCmp [] (a :: s) = .lt := rfl

@[simp] theorem lexCmp_cons_nil (a : α) (s : List α) : lexCmp (a :: s) [] = .gt := rfl

theorem lexCmp_cons_cons (a b : α) (s t : List α) :
    lexCmp (a :: s) (b :: t) = (cmp a b).then (lexCmp s t) := rfl

theorem lexCmp_cons_self (a : α) (s t : List α) : lexCmp (a :: s) (a :: t) = lexCmp s t := by
  rw [lexCmp_cons_cons, cmp_self_eq_eq, Ordering.then]

theorem lexCmp_cons_of_ne (h : a ≠ b) (s t : List α) : lexCmp (a :: s) (b :: t) = cmp a b := by
  rw [lexCmp_cons_cons]
  cases hab : cmp a b with
  | eq => exact absurd ((cmp_eq_eq_iff a b).mp hab) h
  | lt => rfl
  | gt => rfl

theorem lexCmp_eq_iff : lexCmp s t = .eq ↔ s = t := by
  induction s generalizing t with
  | nil => cases t <;> simp
  | cons a s ih =>
    cases t with
    | nil => simp
    | cons b t =>
      by_cases hab : a = b
      · subst hab
        rw [lexCmp_cons_self, ih, List.cons_inj_right]
      · rw [lexCmp_cons_of_ne hab, cmp_eq_eq_iff, List.cons_eq_cons]
        exact iff_of_false hab fun h => hab h.1

theorem lexCmp_lt_iff : lexCmp s t = .lt ↔ s < t := by
  induction s generalizing t with
  | nil => cases t <;> simp
  | cons a s ih =>
    cases t with
    | nil => simp
    | cons b t =>
      rw [List.cons_lt_cons_iff]
      by_cases hab : a = b
      · subst hab
        rw [lexCmp_cons_self, ih]
        simp
      · rw [lexCmp_cons_of_ne hab, cmp_eq_lt_iff]
        simp [hab]

@[simp] theorem lexCmp_self (s : List α) : lexCmp s s = .eq := lexCmp_eq_iff.mpr rfl

theorem lexCmp_append_left (p s t : List α) : lexCmp (p ++ s) (p ++ t) = lexCmp s t := by
  induction p with
  | nil => rfl
  | cons a p ih => rw [List.cons_append, List.cons_append, lexCmp_cons_self, ih]

/-- Lists of which neither is a prefix of the other differ before what is appended to them. -/
theorem lexCmp_append_append (hxy : ¬ x <+: y) (hyx : ¬ y <+: x) :
    lexCmp (x ++ s) (y ++ t) = lexCmp x y := by
  induction x generalizing y with
  | nil => exact absurd List.nil_prefix hxy
  | cons a x ih =>
    cases y with
    | nil => exact absurd List.nil_prefix hyx
    | cons b y =>
      rw [List.cons_append, List.cons_append]
      by_cases hab : a = b
      · subst hab
        rw [lexCmp_cons_self, lexCmp_cons_self]
        exact ih (fun h => hxy (List.cons_prefix_cons.mpr ⟨rfl, h⟩))
          fun h => hyx (List.cons_prefix_cons.mpr ⟨rfl, h⟩)
      · rw [lexCmp_cons_of_ne hab, lexCmp_cons_of_ne hab]

theorem lexCmp_of_isPrefix (h : x <+: y) (hne : x ≠ y) : lexCmp x y = .lt := by
  obtain ⟨r, rfl⟩ := h
  cases r with
  | nil => exact absurd (List.append_nil x).symm hne
  | cons a r =>
    have hcmp := lexCmp_append_left x [] (a :: r)
    rwa [List.append_nil] at hcmp

theorem lexCmp_swap (s t : List α) : (lexCmp s t).swap = lexCmp t s := by
  induction s generalizing t with
  | nil => cases t <;> rfl
  | cons a s ih =>
    cases t with
    | nil => rfl
    | cons b t => rw [lexCmp_cons_cons, lexCmp_cons_cons, Ordering.swap_then, cmp_swap, ih]

theorem lexCmp_map {β : Type u} [LinearOrder β] {f : α → β} (hf : StrictMono f) (s t : List α) :
    lexCmp (s.map f) (t.map f) = lexCmp s t := by
  induction s generalizing t with
  | nil => cases t <;> rfl
  | cons a s ih =>
    cases t with
    | nil => rfl
    | cons b t =>
      rw [List.map_cons, List.map_cons, lexCmp_cons_cons, lexCmp_cons_cons, hf.cmp_map_eq, ih]

end Data
