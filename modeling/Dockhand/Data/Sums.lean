import Mathlib.Algebra.BigOperators.Group.List.Basic
import Mathlib.Algebra.Order.BigOperators.Group.List
import Mathlib.Algebra.Order.Group.Nat
import Mathlib.Algebra.Ring.Nat
import Mathlib.Data.List.Dedup
import Mathlib.Data.List.Nodup

/-!
# Sums over lists

Sums of natural numbers over two lists, one inside the other, and over lists that repeat an element.
-/

universe u v

namespace Data

variable {α : Type u} {β : Type v}

theorem sum_map_add (l : List α) (f g : α → ℕ) :
    (l.map fun a => f a + g a).sum = (l.map f).sum + (l.map g).sum := by
  induction l with
  | nil => rfl
  | cons a l ih =>
    simp only [List.map_cons, List.sum_cons, ih]
    omega

/-- **Exchange of sums.** -/
theorem sum_sum_comm (l : List α) (k : List β) (f : α → β → ℕ) :
    (l.map fun a => (k.map fun b => f a b).sum).sum =
      (k.map fun b => (l.map fun a => f a b).sum).sum := by
  induction l with
  | nil => induction k <;> simp_all
  | cons a l ih => simp only [List.map_cons, List.sum_cons, ih, sum_map_add]

/-- Sums with a summand below another one each are the same only when the summands are. -/
theorem sum_eq_sum_iff {l : List α} {f g : α → ℕ} (h : ∀ a ∈ l, f a ≤ g a) :
    (l.map f).sum = (l.map g).sum ↔ ∀ a ∈ l, f a = g a := by
  induction l with
  | nil => simp
  | cons a l ih =>
    obtain ⟨ha, hl⟩ := List.forall_mem_cons.mp h
    have hle : (l.map f).sum ≤ (l.map g).sum := List.sum_le_sum hl
    rw [List.forall_mem_cons, ← ih hl, List.map_cons, List.map_cons, List.sum_cons, List.sum_cons]
    omega

/-- A property holds of as many elements with repeats as without them only when none of its elements
is repeated. -/
theorem countP_dedup_iff [DecidableEq α] {l : List α} {p : α → Bool} :
    l.dedup.countP p = l.countP p ↔ ∀ a ∈ l, p a = true → l.count a = 1 := by
  rw [List.countP_eq_length_filter, List.countP_eq_length_filter]
  constructor
  · intro hlen a ha hpa
    have heq : l.dedup.filter p = l.filter p := ((List.dedup_sublist l).filter p).eq_of_length hlen
    have hnodup : (l.filter p).Nodup := heq ▸ (List.nodup_dedup l).filter p
    rw [← List.count_filter hpa]
    exact List.count_eq_one_of_mem hnodup (List.mem_filter.mpr ⟨ha, hpa⟩)
  · intro hcount
    have hnodup : (l.filter p).Nodup := by
      refine List.nodup_iff_count_le_one.mpr fun a => ?_
      by_cases hmem : a ∈ l.filter p
      · obtain ⟨ha, hpa⟩ := List.mem_filter.mp hmem
        rw [List.count_filter hpa, hcount a ha hpa]
      · rw [List.count_eq_zero_of_not_mem hmem]
        exact Nat.zero_le 1
    refine ((List.perm_ext_iff_of_nodup ((List.nodup_dedup l).filter p) hnodup).mpr fun a =>
      ?_).length_eq
    rw [List.mem_filter, List.mem_filter, List.mem_dedup]

/-- A sum over the entries that keys find is one over all entries, each as often as its key stands
in the list. -/
theorem sum_filterMap_find? {κ : Type v} [DecidableEq κ] {l : List α} {key : α → κ}
    (hl : (l.map key).Nodup) (ks : List κ) (f : α → ℕ) :
    ((ks.filterMap fun k => l.find? fun a => key a = k).map f).sum =
      (l.map fun a => ks.count (key a) * f a).sum := by
  induction ks with
  | nil => simp
  | cons k ks ih =>
    have hone : ((l.find? fun a => key a = k).map f).getD 0 =
        (l.map fun a => if key a = k then f a else 0).sum := by
      clear ih
      induction l with
      | nil => rfl
      | cons a l ih =>
        rw [List.map_cons, List.nodup_cons] at hl
        rw [List.map_cons, List.sum_cons]
        by_cases hk : key a = k
        · subst hk
          have hzero : (l.map fun b => if key b = key a then f b else 0).sum = 0 := by
            rw [List.sum_eq_zero]
            intro n hn
            obtain ⟨b, hb, rfl⟩ := List.mem_map.mp hn
            exact if_neg fun h : key b = key a => hl.1 (h ▸ List.mem_map_of_mem hb)
          rw [hzero]
          simp
        · rw [List.find?_cons_of_neg (by simpa using hk), if_neg hk, zero_add, ih hl.2]
    have hcons : ((k :: ks).filterMap fun k => l.find? fun a => key a = k).map f =
        ((l.find? fun a => key a = k).map f).toList ++
          (ks.filterMap fun k => l.find? fun a => key a = k).map f := by
      cases h : l.find? fun a => key a = k <;> simp [h]
    have htoList : (((l.find? fun a => key a = k).map f).toList).sum =
        ((l.find? fun a => key a = k).map f).getD 0 := by
      cases (l.find? fun a => key a = k).map f <;> simp
    rw [hcons, List.sum_append, htoList, hone, ih, ← sum_map_add]
    congr 1
    refine List.map_congr_left fun a _ => ?_
    rw [List.count_cons]
    by_cases hk : key a = k
    · subst hk
      simp [Nat.add_mul, Nat.add_comm]
    · simp [hk, Ne.symm hk]

end Data
