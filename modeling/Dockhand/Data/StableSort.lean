import Mathlib.Data.List.Sort
import Mathlib.Data.List.Nodup

/-!
# Sorting by a key

A list that is sorted by a key is determined by what it holds of each key, in order
(`eq_of_filter_key`), and a stable sort leaves that alone (`filter_mergeSort`). A list that consists
of a block for each of some keys is therefore put into the order of the keys block by block, in
whatever order the blocks come (`mergeSort_flatMap`).
-/

namespace Data

universe u v w

variable {α : Type u} {β : Type v} {κ : Type w} [LinearOrder κ] {key : α → κ}

/-- A list that is sorted by a key is determined by what it holds of each key. -/
theorem eq_of_filter_key {l l' : List α} (hl : l.Pairwise fun a b => key a ≤ key b)
    (hl' : l'.Pairwise fun a b => key a ≤ key b)
    (h : ∀ k, (l.filter fun a => key a = k) = l'.filter fun a => key a = k) : l = l' := by
  induction l generalizing l' with
  | nil =>
    cases l' with
    | nil => rfl
    | cons b l' => simpa using h (key b)
  | cons a l ih =>
    cases l' with
    | nil => simpa using h (key a)
    | cons b l' =>
      -- each of the two heads is in the other list, so that they have the same key
      have hab : key a ≤ key b := by
        have hmem : b ∈ (a :: l).filter fun x => key x = key b := by simp [h (key b)]
        rcases List.mem_cons.mp (List.mem_filter.mp hmem).1 with rfl | hmem
        · exact le_rfl
        · exact (List.pairwise_cons.mp hl).1 b hmem
      have hba : key b ≤ key a := by
        have hmem : a ∈ (b :: l').filter fun x => key x = key a := by simp [← h (key a)]
        rcases List.mem_cons.mp (List.mem_filter.mp hmem).1 with rfl | hmem
        · exact le_rfl
        · exact (List.pairwise_cons.mp hl').1 a hmem
      have hkey := le_antisymm hab hba
      have hhead := h (key a)
      rw [List.filter_cons_of_pos (by simp), List.filter_cons_of_pos (by simp [hkey])] at hhead
      obtain ⟨rfl, -⟩ := List.cons.inj hhead
      refine congrArg (a :: ·) (ih (List.pairwise_cons.mp hl).2 (List.pairwise_cons.mp hl').2 ?_)
      intro k
      have hk := h k
      rw [List.filter_cons, List.filter_cons] at hk
      split_ifs at hk
      · exact (List.cons.inj hk).2
      · exact hk

theorem pairwise_mergeSort_key (l : List α) :
    (l.mergeSort fun a b => key a ≤ key b).Pairwise fun a b => key a ≤ key b := by
  have hsorted : (l.mergeSort fun a b => key a ≤ key b).Pairwise
      fun a b => decide (key a ≤ key b) = true := by
    refine List.pairwise_mergeSort ?_ ?_ l
    · intro a b c
      simpa using le_trans
    · intro a b
      simpa using le_total (key a) (key b)
  exact hsorted.imp of_decide_eq_true

/-- A stable sort keeps the order of what has the same key. -/
theorem filter_mergeSort (l : List α) (k : κ) :
    ((l.mergeSort fun a b => key a ≤ key b).filter fun a => key a = k) =
      l.filter fun a => key a = k := by
  have hsub : (l.filter fun a => key a = k).Sublist (l.mergeSort fun a b => key a ≤ key b) := by
    refine List.sublist_mergeSort ?_ ?_ ?_ List.filter_sublist
    · intro a b c
      simpa using le_trans
    · intro a b
      simpa using le_total (key a) (key b)
    · refine List.pairwise_of_forall_mem_list fun a ha b hb => ?_
      simp only [List.mem_filter, decide_eq_true_eq] at ha hb
      simp [ha.2, hb.2]
  have hsub' := hsub.filter fun a => decide (key a = k)
  rw [List.filter_filter, show (fun a => decide (key a = k) && decide (key a = k)) =
    fun a => decide (key a = k) from funext fun a => Bool.and_self _] at hsub'
  exact (hsub'.eq_of_length (((List.mergeSort_perm l _).filter _).length_eq.symm)).symm

/-- A stable sort is the one list that is sorted and holds the same of each key. -/
theorem mergeSort_eq_of_filter {l l' : List α} (hl' : l'.Pairwise fun a b => key a ≤ key b)
    (h : ∀ k, (l.filter fun a => key a = k) = l'.filter fun a => key a = k) :
    (l.mergeSort fun a b => key a ≤ key b) = l' :=
  eq_of_filter_key (pairwise_mergeSort_key l) hl' fun k => (filter_mergeSort l k).trans (h k)

section Blocks

variable {bkey : β → κ} {f : β → List α} {bs bs' : List β}

private theorem filter_flatMap_key (hf : ∀ b ∈ bs, ∀ a ∈ f b, key a = bkey b) (k : κ) :
    ((bs.flatMap f).filter fun a => key a = k) = (bs.filter fun b => bkey b = k).flatMap f := by
  induction bs with
  | nil => rfl
  | cons b bs ih =>
    rw [List.flatMap_cons, List.filter_append, ih fun b' hb' => hf b' (List.mem_cons_of_mem b hb'),
      List.filter_cons]
    have hb := hf b List.mem_cons_self
    split_ifs with hk
    · rw [List.flatMap_cons, List.filter_eq_self.mpr fun a ha => by simpa [hb a ha] using hk]
    · rw [List.filter_eq_nil_iff.mpr fun a ha => by simpa [hb a ha] using hk, List.nil_append]

/-- Of keys that are all different, a list holds at most one of each. -/
theorem filter_key_of_perm (hperm : bs.Perm bs') (hnodup : (bs.map bkey).Nodup) (k : κ) :
    (bs.filter fun b => bkey b = k) = bs'.filter fun b => bkey b = k := by
  have hfilter := hperm.filter fun b => decide (bkey b = k)
  have hlen : (bs.filter fun b => bkey b = k).length ≤ 1 := by
    by_contra hlong
    have hsub := (List.filter_sublist (p := fun b => decide (bkey b = k)) (l := bs)).map bkey
    have hnd := hsub.nodup hnodup
    generalize hxs : (bs.filter fun b => bkey b = k) = xs at hlong hnd
    match xs with
    | [] => simp at hlong
    | [x] => simp at hlong
    | x :: y :: xs =>
      have hmem : ∀ z ∈ x :: y :: xs, bkey z = k := fun z hz => by
        rw [← hxs] at hz
        exact of_decide_eq_true (List.mem_filter.mp hz).2
      have hx := hmem x (by simp)
      have hy := hmem y (by simp)
      simp [hx, hy] at hnd
  generalize hxs : (bs.filter fun b => bkey b = k) = xs at hfilter hlen
  match xs with
  | [] => exact hfilter.nil_eq
  | [x] => exact List.singleton_perm.mp hfilter
  | x :: y :: xs => simp at hlen

/-- With keys that are all different, the order in which a list is sorted does not show. -/
theorem mergeSort_eq_of_perm {l l' : List α} (hperm : l.Perm l') (hnodup : (l.map key).Nodup) :
    (l.mergeSort fun a b => key a ≤ key b) = l'.mergeSort fun a b => key a ≤ key b :=
  mergeSort_eq_of_filter (pairwise_mergeSort_key l')
    (filter_key_of_perm (hperm.trans (List.mergeSort_perm l' _).symm) hnodup)

/-- Then it is sorted strictly. -/
theorem pairwise_lt_mergeSort {l : List α} (hnodup : (l.map key).Nodup) :
    (l.mergeSort fun a b => key a ≤ key b).Pairwise fun a b => key a < key b := by
  have hkeys := ((List.mergeSort_perm l fun a b => key a ≤ key b).map key).nodup_iff.mpr hnodup
  exact (pairwise_mergeSort_key l).imp₂ (fun _ _ => lt_of_le_of_ne) (List.pairwise_map.mp hkeys)

/-- Blocks of different keys come out in the order of their keys, whatever order they go in. -/
theorem mergeSort_flatMap (hperm : bs.Perm bs') (hnodup : (bs.map bkey).Nodup)
    (hsorted : bs'.Pairwise fun a b => bkey a ≤ bkey b)
    (hf : ∀ b ∈ bs, ∀ a ∈ f b, key a = bkey b) :
    ((bs.flatMap f).mergeSort fun a b => key a ≤ key b) = bs'.flatMap f := by
  have hf' : ∀ b ∈ bs', ∀ a ∈ f b, key a = bkey b := fun b hb => hf b (hperm.mem_iff.mpr hb)
  refine mergeSort_eq_of_filter ?_ fun k => ?_
  · refine List.pairwise_flatMap.mpr ⟨fun b hb => ?_,
      hsorted.imp_of_mem fun ha hb hab x hx y hy => ?_⟩
    · refine List.pairwise_of_forall_mem_list fun x hx y hy => ?_
      rw [hf' b hb x hx, hf' b hb y hy]
    · rw [hf' _ ha x hx, hf' _ hb y hy]
      exact hab
  · rw [filter_flatMap_key hf, filter_flatMap_key hf', filter_key_of_perm hperm hnodup]

end Blocks

end Data
