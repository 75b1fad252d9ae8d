import Mathlib.Algebra.BigOperators.Group.List.Basic
import Mathlib.Algebra.Order.Group.Multiset
import Mathlib.Data.List.Dedup
import Mathlib.Data.List.Nodup

/-!
# Grouping and adding up

`groups key f l` is the result of a query that groups the rows `l` by `key` and adds up `f` in each
group. `sum_groups` says that adding up the groups again, by something that only depends on the key,
is the same as adding up the rows. A loop that adds what it reads to a quantity leaves there the sum
(`foldl_add`).
-/

universe u v w

namespace Data

variable {α : Type u} {κ : Type v} {M : Type w} [AddCommMonoid M] [DecidableEq κ]
  {key : α → κ} {f : α → M}

/-- The sum of `f` over the rows with a property. -/
def sumOver (p : α → Prop) [DecidablePred p] (f : α → M) (l : List α) : M :=
  ((l.filter fun a => p a).map f).sum

/-- `SELECT key, sum(f) ... GROUP BY key`: an entry for every key that occurs. -/
def groups (key : α → κ) (f : α → M) (l : List α) : List (κ × M) :=
  (l.map key).dedup.map fun k => (k, sumOver (key · = k) f l)

section

variable (p : α → Prop) [DecidablePred p]

@[simp] theorem sumOver_nil : sumOver p f [] = 0 := rfl

theorem sumOver_cons (a : α) (l : List α) :
    sumOver p f (a :: l) = (if p a then f a else 0) + sumOver p f l := by
  by_cases ha : p a <;> simp [sumOver, ha]

theorem sum_map_ite (l : List α) : (l.map fun a => if p a then f a else 0).sum = sumOver p f l := by
  induction l with
  | nil => rfl
  | cons a l ih => rw [List.map_cons, List.sum_cons, sumOver_cons, ih]

theorem sumOver_congr {q : α → Prop} [DecidablePred q] {l : List α} (h : ∀ a ∈ l, p a ↔ q a) :
    sumOver p f l = sumOver q f l := by
  rw [sumOver, sumOver, List.filter_congr fun a ha => decide_eq_decide.mpr (h a ha)]

theorem sumOver_filter {q : α → Prop} [DecidablePred q] (l : List α) :
    sumOver p f (l.filter fun a => q a) = sumOver (fun a => q a ∧ p a) f l := by
  rw [sumOver, sumOver, List.filter_filter]
  simp [and_comm]

theorem sumOver_perm {l l' : List α} (h : l.Perm l') : sumOver p f l = sumOver p f l' :=
  ((h.filter _).map f).sum_eq

end

/-- In a list without repeats, one place at most has a given key. -/
theorem sum_map_ite_eq {ks : List κ} (hks : ks.Nodup) (k : κ) (m : M) :
    (ks.map fun k' => if k = k' then m else 0).sum = if k ∈ ks then m else 0 := by
  induction ks with
  | nil => simp
  | cons k' ks ih =>
    obtain ⟨hnot, hks⟩ := List.nodup_cons.mp hks
    rw [List.map_cons, List.sum_cons, ih hks]
    by_cases hk : k = k'
    · subst hk
      simp [hnot]
    · simp [hk]

/-- Sums by key, over keys that cover the rows, add up to the sum over the rows. -/
theorem sum_sumOver {ks : List κ} (hks : ks.Nodup) (p : κ → Prop) [DecidablePred p] {l : List α}
    (hcover : ∀ a ∈ l, p (key a) → key a ∈ ks) :
    ((ks.filter fun k => p k).map fun k => sumOver (key · = k) f l).sum =
      sumOver (fun a => p (key a)) f l := by
  induction l with
  | nil => simp
  | cons a l ih =>
    obtain ⟨ha, hl⟩ := List.forall_mem_cons.mp hcover
    have hone : (if p (key a) then f a else 0) =
        ((ks.filter fun k => p k).map fun k => if key a = k then f a else 0).sum := by
      rw [sum_map_ite_eq (hks.filter _)]
      by_cases hp : p (key a) <;> simp [hp, ha]
    rw [sumOver_cons, hone, ← ih hl, ← List.sum_map_add]
    simp only [sumOver_cons]

theorem sum_sumOver_mem {ks : List κ} (hks : ks.Nodup) (l : List α) :
    (ks.map fun k => sumOver (key · = k) f l).sum = sumOver (fun a => key a ∈ ks) f l := by
  rw [← sum_sumOver hks (· ∈ ks) fun a _ h => h,
    List.filter_eq_self.mpr fun k hk => by simpa using hk]

/-- The rows of some keys, key by key. -/
theorem perm_flatMap_filter {ks : List κ} (hks : ks.Nodup) (l : List α) :
    (ks.flatMap fun k => l.filter fun a => key a = k).Perm (l.filter fun a => key a ∈ ks) := by
  have hone : ∀ l : List α, (l.map fun a => ({a} : Multiset α)).sum = l := fun l => by
    induction l with
    | nil => rfl
    | cons a l ih =>
      rw [List.map_cons, List.sum_cons, ih, Multiset.singleton_add, Multiset.cons_coe]
  have hsum : (ks.map fun k => sumOver (key · = k) (fun a => ({a} : Multiset α)) l).sum =
      sumOver (fun a => key a ∈ ks) (fun a => {a}) l := sum_sumOver_mem hks l
  simp only [sumOver, hone] at hsum
  rw [← Multiset.coe_eq_coe, ← hsum, List.flatMap]
  clear hsum hks
  induction ks with
  | nil => rfl
  | cons k ks ih => rw [List.map_cons, List.flatten_cons, List.map_cons, List.sum_cons, ← ih,
      Multiset.coe_add]

/-- **Adding up groups.** By a property of the key, the groups add up to the same as the rows. -/
theorem sum_groups (p : κ → Prop) [DecidablePred p] (l : List α) :
    sumOver (fun e => p e.1) Prod.snd (groups key f l) = sumOver (fun a => p (key a)) f l := by
  rw [← sum_sumOver (List.nodup_dedup (l.map key)) p
    fun a ha _ => List.mem_dedup.mpr (List.mem_map_of_mem ha)]
  rw [sumOver, groups, List.filter_map, List.map_map]
  rfl

theorem nodup_groups (l : List α) : ((groups key f l).map Prod.fst).Nodup := by
  have hmap : (groups key f l).map Prod.fst = (l.map key).dedup := by
    simp [groups, Function.comp_def]
  exact hmap ▸ List.nodup_dedup _

/-- A quantity to which every step of a loop adds. -/
theorem foldl_add {β : Type v} {σ : Type u} {g : σ → β → σ} {F : σ → M} {f : β → M}
    (h : ∀ s b, F (g s b) = F s + f b) (s : σ) (l : List β) :
    F (l.foldl g s) = F s + (l.map f).sum := by
  induction l generalizing s with
  | nil => simp
  | cons b l ih => rw [List.foldl_cons, ih, h, List.map_cons, List.sum_cons, add_assoc]

end Data
