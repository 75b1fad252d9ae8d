import Mathlib.Data.List.Forall2
import Mathlib.Data.Option.Basic
import Mathlib.Data.String.Basic
import Mathlib.Data.List.Pairwise

/-!
# Finite maps with sorted keys

A Go map has no order, but `encoding/json` writes it in key order, so the representation used
here keeps the keys sorted: two maps with the same lookups are then equal, and walking the
list is walking the map in the order in which it is encoded.

The operations `Assoc.set` and `Assoc.del` are stated on raw association lists, because an
inductive type such as a JSON tree can nest only a literal `List (κ × α)`. Their lookup
equations hold for every list, sorted or not. `Dict κ α` bundles a list with the proof that its
keys are strictly increasing, and `Dict.ext_get?` is extensionality.
-/

universe u v w

variable {κ : Type u} {α : Type v} {β : Type w} [LinearOrder κ]

/-- Functions that agree on related values agree on related options. -/
theorem Option.Rel.map_eq {P : α → β → Prop} {o : Option α} {o' : Option β} (h : Option.Rel P o o')
    {γ : Type*} {f : α → γ} {g : β → γ} (hfg : ∀ a b, P a b → f a = g b) : o.map f = o'.map g := by
  cases h with
  | none => rfl
  | some hab => exact congrArg Option.some (hfg _ _ hab)

theorem Option.Rel.map {P : α → β → Prop} {o : Option α} {o' : Option β} (h : Option.Rel P o o')
    {γ δ : Type*} {f : α → γ} {g : β → δ} {Q : γ → δ → Prop} (hfg : ∀ a b, P a b → Q (f a) (g b)) :
    Option.Rel Q (o.map f) (o'.map g) := by
  cases h with
  | none => exact .none
  | some hab => exact .some (hfg _ _ hab)

namespace Assoc

/-- Insert a key in its sorted place, replacing its value when it is there. -/
def set (k : κ) (v : α) : List (κ × α) → List (κ × α)
  | [] => [(k, v)]
  | (k', v') :: m =>
    if k < k' then (k, v) :: (k', v') :: m
    else if k = k' then (k, v) :: m
    else (k', v') :: set k v m

/-- Remove a key. -/
def del (k : κ) (m : List (κ × α)) : List (κ × α) := m.filter fun e => e.1 ≠ k

/-- The keys of the list are strictly increasing. -/
def Sorted (m : List (κ × α)) : Prop := m.Pairwise fun a b => a.1 < b.1

instance (m : List (κ × α)) : Decidable (Sorted m) :=
  inferInstanceAs (Decidable (m.Pairwise fun a b => a.1 < b.1))

theorem lookup_cons (k : κ) (e : κ × α) (m : List (κ × α)) :
    (e :: m).lookup k = if k = e.1 then some e.2 else m.lookup k := by
  rw [List.lookup_cons]
  by_cases h : k = e.1
  · rw [if_pos h, beq_iff_eq.mpr h]
  · rw [if_neg h, beq_false_of_ne h]

theorem lookup_set (k k' : κ) (v : α) (m : List (κ × α)) :
    (set k v m).lookup k' = if k' = k then some v else m.lookup k' := by
  induction m with
  | nil => simp [set, lookup_cons]
  | cons e m ih =>
    obtain ⟨a, x⟩ := e
    rcases lt_trichotomy k a with hlt | rfl | hgt
    · rw [set, if_pos hlt, lookup_cons]
    · rw [set, if_neg (lt_irrefl k), if_pos rfl, lookup_cons, lookup_cons]
      split_ifs <;> rfl
    · rw [set, if_neg hgt.not_gt, if_neg hgt.ne', lookup_cons, lookup_cons, ih]
      split_ifs with h h'
      · exact absurd (h'.symm.trans h) hgt.ne'
      · rfl
      · rfl
      · rfl

/-- Filtering by the key filters the lookups. -/
theorem lookup_filter_fst (p : κ → Prop) [DecidablePred p] (k : κ) (m : List (κ × α)) :
    (m.filter fun e => p e.1).lookup k = if p k then m.lookup k else none := by
  induction m with
  | nil => simp
  | cons e m ih =>
    by_cases he : p e.1
    · rw [List.filter_cons_of_pos (by simpa using he), lookup_cons, lookup_cons, ih]
      by_cases hk : k = e.1
      · rw [if_pos hk, if_pos hk, if_pos (hk ▸ he)]
      · rw [if_neg hk, if_neg hk]
    · rw [List.filter_cons_of_neg (by simpa using he), ih, lookup_cons]
      by_cases hp : p k
      · rw [if_pos hp, if_pos hp, if_neg fun hk : k = e.1 => he (hk ▸ hp)]
      · rw [if_neg hp, if_neg hp]

theorem lookup_del (k k' : κ) (m : List (κ × α)) :
    (del k m).lookup k' = if k' = k then none else m.lookup k' := by
  rw [del, lookup_filter_fst (· ≠ k)]
  by_cases h : k' = k <;> simp [h]

theorem mem_of_mem_set {k : κ} {v : α} {e : κ × α} {m : List (κ × α)} (h : e ∈ set k v m) :
    e = (k, v) ∨ e ∈ m := by
  induction m with
  | nil => simpa [set] using h
  | cons a m ih =>
    rw [set] at h
    split_ifs at h with hlt heq
    · simpa using h
    · rcases List.mem_cons.mp h with rfl | h
      · exact .inl rfl
      · exact .inr (List.mem_cons_of_mem _ h)
    · rcases List.mem_cons.mp h with rfl | h
      · exact .inr List.mem_cons_self
      · exact (ih h).imp_right (List.mem_cons_of_mem _)

theorem Sorted.set {m : List (κ × α)} (h : Sorted m) (k : κ) (v : α) : Sorted (set k v m) := by
  induction m with
  | nil => exact List.pairwise_singleton _ _
  | cons a m ih =>
    obtain ⟨ha, hm⟩ := List.pairwise_cons.mp h
    rw [Assoc.set]
    split_ifs with hlt heq
    · refine List.pairwise_cons.mpr ⟨fun e he => ?_, h⟩
      rcases List.mem_cons.mp he with rfl | he
      · exact hlt
      · exact hlt.trans (ha e he)
    · exact List.pairwise_cons.mpr ⟨fun e he => heq ▸ ha e he, hm⟩
    · refine List.pairwise_cons.mpr ⟨fun e he => ?_, ih hm⟩
      rcases mem_of_mem_set he with rfl | he
      · exact lt_of_le_of_ne (not_lt.mp hlt) (Ne.symm heq)
      · exact ha e he

/-- A key larger than all the others goes to the end. -/
theorem set_eq_append {m : List (κ × α)} {k : κ} (v : α) (h : ∀ e ∈ m, e.1 < k) :
    set k v m = m ++ [(k, v)] := by
  induction m with
  | nil => rfl
  | cons e m ih =>
    have he := h e List.mem_cons_self
    rw [Assoc.set, if_neg he.not_gt, if_neg he.ne', List.cons_append,
      ih fun e' he' => h e' (List.mem_cons_of_mem _ he')]

theorem Sorted.del {m : List (κ × α)} (h : Sorted m) (k : κ) : Sorted (del k m) := h.filter _

theorem Sorted.nodup {m : List (κ × α)} (h : Sorted m) : (m.map fun e => e.1).Nodup :=
  (List.pairwise_map.mpr h).imp fun hlt => hlt.ne

theorem lookup_eq_none_of_notMem {m : List (κ × α)} {k : κ} (h : k ∉ m.map fun e => e.1) :
    m.lookup k = none := by
  induction m with
  | nil => rfl
  | cons e m ih =>
    obtain ⟨hne, hm⟩ := not_or.mp (mt List.mem_cons.mpr h)
    rw [lookup_cons, if_neg hne, ih hm]

/-- In a sorted list a key smaller than all the others is absent. -/
theorem lookup_eq_none {m : List (κ × α)} {k : κ} (h : ∀ e ∈ m, k < e.1) : m.lookup k = none := by
  induction m with
  | nil => rfl
  | cons e m ih =>
    rw [lookup_cons, if_neg (h e List.mem_cons_self).ne]
    exact ih fun e' he' => h e' (List.mem_cons_of_mem _ he')

/-- A sorted list is determined by its lookups. -/
theorem Sorted.ext {m n : List (κ × α)} (hm : Sorted m) (hn : Sorted n)
    (h : ∀ k, m.lookup k = n.lookup k) : m = n := by
  induction m generalizing n with
  | nil =>
    cases n with
    | nil => rfl
    | cons b n => simpa [lookup_cons] using h b.1
  | cons a m ih =>
    cases n with
    | nil => simpa [lookup_cons] using h a.1
    | cons b n =>
      obtain ⟨ha, hm'⟩ := List.pairwise_cons.mp hm
      obtain ⟨hb, hn'⟩ := List.pairwise_cons.mp hn
      -- the smaller of the two heads would be absent from the other list
      have hkey : a.1 = b.1 := by
        rcases lt_trichotomy a.1 b.1 with hlt | heq | hlt
        · have hnone : (b :: n).lookup a.1 = none := lookup_eq_none fun e he => by
            rcases List.mem_cons.mp he with rfl | he
            exacts [hlt, hlt.trans (hb e he)]
          rw [← h, lookup_cons, if_pos rfl] at hnone
          cases hnone
        · exact heq
        · have hnone : (a :: m).lookup b.1 = none := lookup_eq_none fun e he => by
            rcases List.mem_cons.mp he with rfl | he
            exacts [hlt, hlt.trans (ha e he)]
          rw [h, lookup_cons, if_pos rfl] at hnone
          cases hnone
      have hval : a.2 = b.2 := by
        have heq := h a.1
        rw [lookup_cons, lookup_cons, if_pos rfl, if_pos hkey] at heq
        exact Option.some.inj heq
      obtain rfl : a = b := Prod.ext hkey hval
      have hrest : ∀ k, m.lookup k = n.lookup k := fun k => by
        by_cases hk : k = a.1
        · rw [hk, lookup_eq_none ha, lookup_eq_none hb]
        · simpa only [lookup_cons, if_neg hk] using h k
      rw [ih hm' hn' hrest]

/-- In a sorted list the entries with a given key are what its lookup finds. -/
theorem Sorted.filter_eq_lookup {m : List (κ × α)} (h : Sorted m) (k : κ) :
    (m.filter fun e => e.1 = k) = ((m.lookup k).map (k, ·)).toList := by
  induction m with
  | nil => rfl
  | cons e m ih =>
    obtain ⟨he, hm⟩ := List.pairwise_cons.mp h
    rw [lookup_cons]
    by_cases hk : k = e.1
    · subst hk
      rw [List.filter_cons_of_pos (by simp), ih hm, lookup_eq_none he, if_pos rfl]
      rfl
    · rw [List.filter_cons_of_neg (by simpa using Ne.symm hk), ih hm, if_neg hk]

/-- A key set in a sorted list stands between the smaller and the larger ones. -/
theorem Sorted.set_eq {m : List (κ × α)} (h : Sorted m) (k : κ) (v : α) :
    Assoc.set k v m = m.filter (fun e => e.1 < k) ++ (k, v) :: m.filter fun e => k < e.1 := by
  induction m with
  | nil => rfl
  | cons e m ih =>
    obtain ⟨he, hm⟩ := List.pairwise_cons.mp h
    rw [Assoc.set]
    have hlarger : k ≤ e.1 → m.filter (fun e => e.1 < k) = [] ∧ m.filter (fun e => k < e.1) = m :=
      fun hle => ⟨List.filter_eq_nil_iff.mpr fun a ha => by
          simpa using hle.trans (he a ha).le,
        List.filter_eq_self.mpr fun a ha => by simpa using hle.trans_lt (he a ha)⟩
    rcases lt_trichotomy k e.1 with hlt | rfl | hgt
    · simp [hlt, hlt.not_gt, hlarger hlt.le]
    · simp [hlarger le_rfl]
    · simp [hgt, hgt.not_gt, hgt.ne', ih hm]

theorem lookup_map_snd (f : α → β) (k : κ) (m : List (κ × α)) :
    (m.map fun e => (e.1, f e.2)).lookup k = (m.lookup k).map f := by
  induction m with
  | nil => rfl
  | cons e m ih =>
    rw [List.map_cons, lookup_cons, lookup_cons, ih]
    split_ifs <;> rfl

/-- Mapping the values, with their keys, maps the lookups. -/
theorem lookup_mapVals (f : κ → α → β) (k : κ) (m : List (κ × α)) :
    (m.map fun e => (e.1, f e.1 e.2)).lookup k = (m.lookup k).map (f k) := by
  induction m with
  | nil => rfl
  | cons e m ih =>
    rw [List.map_cons, lookup_cons, lookup_cons, ih]
    split_ifs with hk
    · rw [hk, Option.map_some]
    · rfl

/-- Lists with the same keys and related values have related lookups. -/
theorem lookup_rel {P : κ → α → β → Prop} {m : List (κ × α)} {n : List (κ × β)}
    (h : List.Forall₂ (fun e e' => e.1 = e'.1 ∧ P e.1 e.2 e'.2) m n) (k : κ) :
    Option.Rel (P k) (m.lookup k) (n.lookup k) := by
  induction h with
  | nil => exact .none
  | @cons e e' m n he _ ih =>
    obtain ⟨hkey, hval⟩ := he
    rw [lookup_cons, lookup_cons, ← hkey]
    split_ifs with hk
    · exact .some (hk ▸ hval)
    · exact ih

theorem Sorted.map_snd {m : List (κ × α)} (h : Sorted m) (f : α → β) :
    Sorted (m.map fun e => (e.1, f e.2)) :=
  List.pairwise_map.mpr h

private theorem Sorted.mapVals {m : List (κ × α)} (h : Sorted m) (f : κ → α → β) :
    Sorted (m.map fun e => (e.1, f e.1 e.2)) :=
  List.pairwise_map.mpr h

/-- In a sorted list an entry is what the lookup of its key finds. -/
theorem Sorted.lookup_eq_some_iff {m : List (κ × α)} (h : Sorted m) {k : κ} {v : α} :
    m.lookup k = some v ↔ (k, v) ∈ m := by
  induction m with
  | nil => simp
  | cons e m ih =>
    obtain ⟨he, hm⟩ := List.pairwise_cons.mp h
    rw [lookup_cons, List.mem_cons]
    by_cases hk : k = e.1
    · subst hk
      have hnot : (e.1, v) ∉ m := fun hmem => lt_irrefl _ (he (e.1, v) hmem)
      simp [hnot, Prod.ext_iff, eq_comm]
    · simp [ih hm, Prod.ext_iff, hk]

end Assoc

/-- A finite map, as an association list with strictly increasing keys. -/
structure Dict (κ : Type u) (α : Type v) [LinearOrder κ] where
  entries : List (κ × α)
  sorted : Assoc.Sorted entries
  deriving DecidableEq

namespace Dict

instance : EmptyCollection (Dict κ α) := ⟨⟨[], List.Pairwise.nil⟩⟩

/-- The value of a key. -/
def get? (m : Dict κ α) (k : κ) : Option α := m.entries.lookup k

/-- `m[k] = v`. -/
def set (m : Dict κ α) (k : κ) (v : α) : Dict κ α := ⟨Assoc.set k v m.entries, m.sorted.set k v⟩

/-- `delete(m, k)`. -/
def del (m : Dict κ α) (k : κ) : Dict κ α := ⟨Assoc.del k m.entries, m.sorted.del k⟩

@[simp] theorem get?_empty (k : κ) : (∅ : Dict κ α).get? k = none := rfl

@[simp] theorem get?_set (m : Dict κ α) (k k' : κ) (v : α) :
    (m.set k v).get? k' = if k' = k then some v else m.get? k' :=
  Assoc.lookup_set ..

@[simp] theorem get?_del (m : Dict κ α) (k k' : κ) :
    (m.del k).get? k' = if k' = k then none else m.get? k' :=
  Assoc.lookup_del ..

/-- A `range` loop that deletes the entries without `p`. -/
def filter (m : Dict κ α) (p : κ → α → Bool) : Dict κ α :=
  ⟨m.entries.filter fun e => p e.1 e.2, List.Pairwise.filter _ m.sorted⟩

/-- A `range` loop that writes `f k v` for every entry into a new map. -/
def mapVals (m : Dict κ α) (f : κ → α → β) : Dict κ β :=
  ⟨m.entries.map fun e => (e.1, f e.1 e.2), m.sorted.mapVals f⟩

@[simp] theorem get?_mapVals (m : Dict κ α) (f : κ → α → β) (k : κ) :
    (m.mapVals f).get? k = (m.get? k).map (f k) :=
  Assoc.lookup_mapVals f k m.entries

/-- Maps with the same keys and values related by `P`. -/
def Related (P : κ → α → β → Prop) (m : Dict κ α) (n : Dict κ β) : Prop :=
  List.Forall₂ (fun e e' => e.1 = e'.1 ∧ P e.1 e.2 e'.2) m.entries n.entries

theorem Related.get? {P : κ → α → β → Prop} {m : Dict κ α} {n : Dict κ β} (h : m.Related P n)
    (k : κ) : Option.Rel (P k) (m.get? k) (n.get? k) :=
  Assoc.lookup_rel h k

/-- A `range` loop over sorted entries whose body acts, in `m`, on the key of its entry alone. -/
theorem get?_foldl {step : Dict κ α → κ × β → Dict κ α} {g : κ → β → Option α → Option α}
    (hstep : ∀ m e k, (step m e).get? k = if k = e.1 then g k e.2 (m.get? k) else m.get? k)
    (m : Dict κ α) {l : List (κ × β)} (hl : Assoc.Sorted l) (k : κ) :
    (l.foldl step m).get? k = (l.lookup k).elim (m.get? k) (g k · (m.get? k)) := by
  induction l generalizing m with
  | nil => rfl
  | cons e l ih =>
    obtain ⟨he, hl'⟩ := List.pairwise_cons.mp hl
    rw [List.foldl_cons, ih _ hl', Assoc.lookup_cons, hstep]
    by_cases hk : k = e.1
    · subst hk
      rw [Assoc.lookup_eq_none he, if_pos rfl, if_pos rfl]
      rfl
    · rw [if_neg hk, if_neg hk]

/-- **Extensionality.** A map is determined by its lookups. -/
theorem ext_get? {m n : Dict κ α} (h : ∀ k, m.get? k = n.get? k) : m = n := by
  cases m with
  | mk m hm =>
    cases n with
    | mk n hn =>
      obtain rfl : m = n := hm.ext hn h
      rfl

theorem get?_eq_some_iff {m : Dict κ α} {k : κ} {v : α} :
    m.get? k = some v ↔ (k, v) ∈ m.entries :=
  m.sorted.lookup_eq_some_iff

@[simp] theorem get?_filter (m : Dict κ α) (p : κ → α → Bool) (k : κ) :
    (m.filter p).get? k = (m.get? k).filter (p k) := by
  refine Option.ext fun v => ?_
  rw [Option.filter_eq_some_iff, get?_eq_some_iff, get?_eq_some_iff]
  exact List.mem_filter

end Dict

/-- A Go map as one `range` loop visits it: the entries in the order of the loop, with distinct
keys. -/
structure GoMap (κ : Type u) (α : Type v) where
  entries : List (κ × α)
  nodup : (entries.map fun e => e.1).Nodup
