import Mathlib.Data.List.Count
import Mathlib.Data.List.Nodup
import Mathlib.Data.List.Perm.Basic

/-!
# Merging lists of keyed entries

Two lists of entries are merged by the key of an entry: what the first list says about a key
stands, and the second list fills in the keys the first does not mention. `appendMissing` is
the merge, and `mergeBy` the variant that takes the second list as it is when the first is empty.

Neither list needs distinct keys. `count_appendMissing` says how often an entry is in a merge:
as often as in the first list, and once more when the first list has no entry of its key and it
is the first entry of its key in the second. From it, `perm_appendMissing_filter_iff`
characterizes when the entries that both lists have can be dropped from the first list before a
merge without changing the result.
-/

universe u v

namespace MergeBy

variable {α : Type u} {κ : Type v} [DecidableEq κ] (key : α → κ)

/-- Append an entry unless the list has one of its key. -/
def addMissing (xs : List α) (y : α) : List α :=
  if ∃ x ∈ xs, key x = key y then xs else xs ++ [y]

/-- Append, one after the other, the entries whose key is missing. -/
def appendMissing (xs ys : List α) : List α := ys.foldl (addMissing key) xs

/-- As `appendMissing`, but an empty first list takes the second one unchanged. -/
def mergeBy (xs ys : List α) : List α := if xs = [] then ys else appendMissing key xs ys

variable {key} {xs ys : List α} {a : α}

theorem appendMissing_cons {y : α} :
    appendMissing key xs (y :: ys) = appendMissing key (addMissing key xs y) ys := rfl

private theorem addMissing_of_mem {x y : α} (hx : x ∈ xs) (h : key x = key y) :
    addMissing key xs y = xs := if_pos ⟨x, hx, h⟩

private theorem mem_addMissing_of_mem {y : α} (ha : a ∈ xs) : a ∈ addMissing key xs y := by
  rw [addMissing]
  split_ifs
  · exact ha
  · exact List.mem_append_left _ ha

private theorem mem_of_mem_addMissing {y : α} (ha : a ∈ addMissing key xs y) : a ∈ xs ∨ a = y := by
  rw [addMissing] at ha
  split_ifs at ha
  · exact .inl ha
  · simpa using ha

private theorem exists_mem_addMissing {y : α} {k : κ} :
    (∃ x ∈ addMissing key xs y, key x = k) ↔ (∃ x ∈ xs, key x = k) ∨ key y = k := by
  rw [addMissing]
  split_ifs with h
  · obtain ⟨x, hx, hxy⟩ := h
    exact ⟨.inl, fun hk => hk.elim id fun hy => ⟨x, hx, hxy.trans hy⟩⟩
  · simp [or_and_right, exists_or]

/-- Entries whose keys are all there add nothing. -/
theorem appendMissing_eq_self (h : ∀ y ∈ ys, ∃ x ∈ xs, key x = key y) :
    appendMissing key xs ys = xs := by
  induction ys with
  | nil => rfl
  | cons y ys ih =>
    obtain ⟨x, hx, hxy⟩ := h y List.mem_cons_self
    rw [appendMissing_cons, addMissing_of_mem hx hxy]
    exact ih fun z hz => h z (List.mem_cons_of_mem _ hz)

theorem mem_appendMissing_of_mem (ha : a ∈ xs) : a ∈ appendMissing key xs ys := by
  induction ys generalizing xs with
  | nil => exact ha
  | cons y ys ih => exact ih (mem_addMissing_of_mem ha)

theorem mem_of_mem_appendMissing (ha : a ∈ appendMissing key xs ys) : a ∈ xs ∨ a ∈ ys := by
  induction ys generalizing xs with
  | nil => exact .inl ha
  | cons y ys ih =>
    rcases ih ha with ha | ha
    · rcases mem_of_mem_addMissing ha with ha | rfl
      exacts [.inl ha, .inr List.mem_cons_self]
    · exact .inr (List.mem_cons_of_mem _ ha)

/-- Every key of the second list is in the merge. -/
theorem exists_mem_appendMissing {y : α} (hy : y ∈ ys) :
    ∃ x ∈ appendMissing key xs ys, key x = key y := by
  induction ys generalizing xs with
  | nil => cases hy
  | cons z ys ih =>
    rw [appendMissing_cons]
    rcases List.mem_cons.mp hy with rfl | hy
    · have hex : ∃ x ∈ addMissing key xs y, key x = key y := exists_mem_addMissing.mpr (.inr rfl)
      obtain ⟨x, hx, hxy⟩ := hex
      exact ⟨x, mem_appendMissing_of_mem hx, hxy⟩
    · exact ih hy

private theorem nodup_map_addMissing {y : α} (h : (xs.map key).Nodup) :
    ((addMissing key xs y).map key).Nodup := by
  rw [addMissing]
  split_ifs with hy
  · exact h
  · have hnot : key y ∉ xs.map key := fun hmem => hy (by simpa using hmem)
    rw [List.map_append, List.map_singleton]
    exact List.nodup_append'.mpr ⟨h, List.nodup_singleton _, by simpa using hnot⟩

/-- No key comes in twice. -/
theorem nodup_map_appendMissing (h : (xs.map key).Nodup) :
    ((appendMissing key xs ys).map key).Nodup := by
  induction ys generalizing xs with
  | nil => exact h
  | cons y ys ih => exact ih (nodup_map_addMissing h)

private theorem appendMissing_ne_nil (h : xs ≠ []) : appendMissing key xs ys ≠ [] := by
  obtain ⟨x, hx⟩ := List.exists_mem_of_ne_nil xs h
  exact List.ne_nil_of_mem (mem_appendMissing_of_mem hx)

/-- **Merging twice** is merging once. -/
theorem mergeBy_mergeBy : mergeBy key (mergeBy key xs ys) ys = mergeBy key xs ys := by
  by_cases hxs : xs = []
  · rw [mergeBy, mergeBy, if_pos hxs]
    split_ifs
    · rfl
    · exact appendMissing_eq_self fun y hy => ⟨y, hy, rfl⟩
  · have hne : appendMissing key xs ys ≠ [] := appendMissing_ne_nil hxs
    rw [mergeBy, mergeBy, if_neg hxs, if_neg hne]
    exact appendMissing_eq_self fun y hy => exists_mem_appendMissing hy

/-! ### Counting -/

variable [DecidableEq α]

/-- **Counting in a merge.** -/
theorem count_appendMissing :
    (appendMissing key xs ys).count a =
      xs.count a +
        if (∀ x ∈ xs, key x ≠ key a) ∧ ys.find? (key · = key a) = some a then 1 else 0 := by
  induction ys generalizing xs with
  | nil => simp [appendMissing]
  | cons y ys ih =>
    rw [appendMissing_cons, ih, List.find?_cons]
    -- the head decides the key of `a` when they share it, and leaves it alone otherwise
    have hkeys : (∀ x ∈ addMissing key xs y, key x ≠ key a) ↔
        (∀ x ∈ xs, key x ≠ key a) ∧ key y ≠ key a := by
      have hex : (∃ x ∈ addMissing key xs y, key x = key a) ↔
          (∃ x ∈ xs, key x = key a) ∨ key y = key a := exists_mem_addMissing
      simpa only [not_exists, not_and, not_or] using not_congr hex
    by_cases hy : key y = key a
    · have hnot : ¬ ∀ x ∈ addMissing key xs y, key x ≠ key a := fun h => (hkeys.mp h).2 hy
      rw [if_neg fun h => hnot h.1, decide_eq_true hy, Nat.add_zero]
      by_cases hxs : ∃ x ∈ xs, key x = key y
      · have hcond : ¬ ∀ x ∈ xs, key x ≠ key a := fun h =>
          hxs.elim fun x hx => h x hx.1 (hx.2.trans hy)
        rw [addMissing, if_pos hxs, if_neg fun h => hcond h.1, Nat.add_zero]
      · have hcond : ∀ x ∈ xs, key x ≠ key a := fun x hx hxa => hxs ⟨x, hx, hxa.trans hy.symm⟩
        have hhead : (∀ x ∈ xs, key x ≠ key a) ∧ some y = some a ↔ y = a := by
          rw [and_iff_right hcond, Option.some_inj]
        rw [addMissing, if_neg hxs, List.count_append, List.count_singleton]
        simp only [hhead, beq_iff_eq]
    · have hcount : (addMissing key xs y).count a = xs.count a := by
        have hne : y ≠ a := fun h => hy (h ▸ rfl)
        rw [addMissing]
        split_ifs
        · rfl
        · rw [List.count_append, List.count_singleton, if_neg (by simpa using hne), Nat.add_zero]
      rw [hcount, decide_eq_false hy]
      simp only [hkeys, and_iff_left hy]

private theorem count_appendMissing_of_mem (ha : a ∈ xs) :
    (appendMissing key xs ys).count a = xs.count a := by
  rw [count_appendMissing, if_neg fun h => h.1 a ha rfl, Nat.add_zero]

/-! ### Dropping what both lists have -/

/-- `a` is the only entry of its key in `xs`. -/
def OnlyOfKey (key : α → κ) (a : α) (xs : List α) : Prop := xs.filter (key · = key a) = [a]

/-- `a` is the first entry of its key in `ys`. -/
def FirstOfKey (key : α → κ) (a : α) (ys : List α) : Prop := ys.find? (key · = key a) = some a

instance : Decidable (OnlyOfKey key a xs) := inferInstanceAs (Decidable (_ = _))

instance : Decidable (FirstOfKey key a ys) := inferInstanceAs (Decidable (_ = _))

private theorem onlyOfKey_iff :
    OnlyOfKey key a xs ↔ xs.count a = 1 ∧ ∀ x ∈ xs, key x = key a → x = a := by
  have hcount : (xs.filter (key · = key a)).count a = xs.count a :=
    List.count_filter (by simp)
  constructor
  · intro h
    refine ⟨by rw [← hcount, h, List.count_singleton_self], fun x hx hxa => ?_⟩
    have hmem : x ∈ xs.filter (key · = key a) := List.mem_filter.mpr ⟨hx, by simpa using hxa⟩
    rw [h] at hmem
    exact List.mem_singleton.mp hmem
  · rintro ⟨hone, hsame⟩
    have hall : ∀ x ∈ xs.filter (key · = key a), x = a := fun x hx =>
      hsame x (List.mem_filter.mp hx).1 (by simpa using (List.mem_filter.mp hx).2)
    have hrep := List.eq_replicate_iff.mpr ⟨rfl, hall⟩
    rw [hone, hrep, List.count_replicate_self] at hcount
    rw [OnlyOfKey, hrep, hcount, List.replicate_one]

/-- **Dropping the common entries.** When the first list has an entry of its own, dropping the
entries that both lists have and merging again gives the same entries if and only if every
common entry is the only one of its key in the first list and the first of its key in the
second. -/
theorem perm_appendMissing_filter_iff :
    (appendMissing key ((appendMissing key xs ys).filter (· ∉ ys)) ys).Perm
        (appendMissing key xs ys) ↔
      ∀ a ∈ xs, a ∈ ys → OnlyOfKey key a xs ∧ FirstOfKey key a ys := by
  have hfilter : ∀ x, x ∈ (appendMissing key xs ys).filter (· ∉ ys) ↔ x ∈ xs ∧ x ∉ ys := fun x => by
    rw [List.mem_filter, decide_eq_true_iff]
    exact ⟨fun h => ⟨(mem_of_mem_appendMissing h.1).resolve_right h.2, h.2⟩,
      fun h => ⟨mem_appendMissing_of_mem h.1, h.2⟩⟩
  -- how often an entry is dropped and how often it comes back
  have hcount : ∀ a, a ∈ ys → ((appendMissing key xs ys).filter (· ∉ ys)).count a = 0 :=
    fun a ha => List.count_eq_zero.mpr fun h => ((hfilter a).mp h).2 ha
  rw [List.perm_iff_count]
  constructor
  · intro h a hxs hys
    have ha := h a
    rw [count_appendMissing, count_appendMissing_of_mem hxs, hcount a hys, Nat.zero_add] at ha
    have hpos : 0 < xs.count a := List.count_pos_iff.mpr hxs
    split_ifs at ha with hk
    · refine ⟨onlyOfKey_iff.mpr ⟨ha.symm, fun x hx hxa => ?_⟩, hk.2⟩
      have hxy : x ∈ ys := by
        by_contra hxy
        exact hk.1 x ((hfilter x).mpr ⟨hx, hxy⟩) hxa
      -- two common entries of one key would both have to come back
      have hx' := h x
      rw [count_appendMissing, count_appendMissing_of_mem hx, hcount x hxy, Nat.zero_add, hxa]
        at hx'
      have hposx : 0 < xs.count x := List.count_pos_iff.mpr hx
      split_ifs at hx' with hkx
      · exact Option.some.inj (hkx.2.symm.trans hk.2)
      · omega
    · omega
  · intro h a
    by_cases hys : a ∈ ys
    · rw [count_appendMissing, hcount a hys, Nat.zero_add]
      by_cases hxs : a ∈ xs
      · obtain ⟨honly, hfirst⟩ := h a hxs hys
        obtain ⟨hone, hsame⟩ := onlyOfKey_iff.mp honly
        have hnone : ∀ x ∈ (appendMissing key xs ys).filter (· ∉ ys), key x ≠ key a :=
          fun x hx hxa => ((hfilter x).mp hx).2 (hsame x ((hfilter x).mp hx).1 hxa ▸ hys)
        rw [if_pos ⟨hnone, hfirst⟩, count_appendMissing_of_mem hxs, hone]
      · rw [count_appendMissing, List.count_eq_zero_of_not_mem hxs, Nat.zero_add]
        refine if_congr (and_congr_left fun hfirst => ?_) rfl rfl
        constructor
        · intro hk x hx hxa
          by_cases hxy : x ∈ ys
          · -- a common entry of the key of `a` is the first of its key, so it is `a`
            have hx' := (h x hx hxy).2
            rw [FirstOfKey, hxa] at hx'
            exact hxs (Option.some.inj (hx'.symm.trans hfirst) ▸ hx)
          · exact hk x ((hfilter x).mpr ⟨hx, hxy⟩) hxa
        · exact fun hk x hx => hk x ((hfilter x).mp hx).1
    · have hfind : ys.find? (key · = key a) ≠ some a := fun hf =>
        hys (List.mem_of_find?_eq_some hf)
      have hsame : ((appendMissing key xs ys).filter (· ∉ ys)).count a =
          (appendMissing key xs ys).count a := List.count_filter (by simpa using hys)
      rw [count_appendMissing, hsame, if_neg fun hk => hfind hk.2, Nat.add_zero]

/-! ### Distinct keys -/

theorem onlyOfKey_of_nodup (hxs : (xs.map key).Nodup) (ha : a ∈ xs) : OnlyOfKey key a xs :=
  onlyOfKey_iff.mpr ⟨List.count_eq_one_of_mem hxs.of_map ha,
    fun _ hx hxa => List.inj_on_of_nodup_map hxs hx ha hxa⟩

omit [DecidableEq α] in
theorem firstOfKey_of_nodup (hys : (ys.map key).Nodup) (ha : a ∈ ys) : FirstOfKey key a ys := by
  rw [FirstOfKey]
  cases h : ys.find? (key · = key a) with
  | none => exact absurd (decide_eq_true rfl) (List.find?_eq_none.mp h a ha)
  | some b =>
    have hb : key b = key a := by simpa using List.find?_some h
    rw [List.inj_on_of_nodup_map hys (List.mem_of_find?_eq_some h) ha hb]

/-- With distinct keys, merging entries that are all in the second list gives the second list. -/
theorem perm_mergeBy_of_subset (hxs : (xs.map key).Nodup) (hys : (ys.map key).Nodup)
    (h : ∀ a ∈ xs, a ∈ ys) : (mergeBy key xs ys).Perm ys := by
  rw [mergeBy]
  split_ifs
  · exact List.Perm.refl _
  · refine List.perm_iff_count.mpr fun a => ?_
    by_cases ha : a ∈ xs
    · rw [count_appendMissing_of_mem ha, List.count_eq_one_of_mem hxs.of_map ha,
        List.count_eq_one_of_mem hys.of_map (h a ha)]
    · rw [count_appendMissing, List.count_eq_zero_of_not_mem ha, Nat.zero_add]
      by_cases hay : a ∈ ys
      · have hnone : ∀ x ∈ xs, key x ≠ key a := fun x hx hxa =>
          ha (List.inj_on_of_nodup_map hys (h x hx) hay hxa ▸ hx)
        rw [if_pos ⟨hnone, firstOfKey_of_nodup hys hay⟩, List.count_eq_one_of_mem hys.of_map hay]
      · rw [List.count_eq_zero_of_not_mem hay,
          if_neg fun hk => hay (List.mem_of_find?_eq_some hk.2)]

end MergeBy
