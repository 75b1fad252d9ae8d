import Mathlib.Data.Finset.Max
import Mathlib.Data.Finset.Card
import Mathlib.Order.Interval.Finset.Defs

/-!
# Taking the first free place

Places of a linear order are taken one after another: each request names a place and takes the first
free one above it. Which places are taken in the end does not depend on the order of the requests,
and `some_mem_placed_iff` says which they are without running through them: a free place is taken
when, from some place on, more requests lie below it than free places do.
-/

universe u

variable {α : Type u} [LinearOrder α]

/-- The first of some places above a place. -/
def firstAbove (free : Finset α) (n : α) : Option α :=
  if h : (free.filter (n < ·)).Nonempty then some ((free.filter (n < ·)).min' h) else none

/-- What each of a list of requests takes. -/
def placed : Finset α → List α → List (Option α)
  | _, [] => []
  | free, n :: ns =>
    match firstAbove free n with
    | some q => some q :: placed (free.erase q) ns
    | none => none :: placed free ns

/-- A free place is filled by a list of requests: from some place on, more of them lie below it than
free places do. -/
def Filled (free : Finset α) (ns : List α) (q : α) : Prop :=
  q ∈ free ∧ ∃ a, (free.filter fun s => a < s ∧ s < q).card < ns.countP fun n => a ≤ n ∧ n < q

theorem firstAbove_eq_some_iff {free : Finset α} {n q : α} :
    firstAbove free n = some q ↔ q ∈ free ∧ n < q ∧ ∀ s ∈ free, n < s → q ≤ s := by
  rw [firstAbove]
  constructor
  · intro h
    split_ifs at h with hne
    obtain rfl := Option.some_inj.mp h
    obtain ⟨hfree, hlt⟩ := Finset.mem_filter.mp (Finset.min'_mem _ hne)
    exact ⟨hfree, hlt, fun s hs hns => Finset.min'_le _ s (Finset.mem_filter.mpr ⟨hs, hns⟩)⟩
  · rintro ⟨hfree, hlt, hle⟩
    have hmem : q ∈ free.filter (n < ·) := Finset.mem_filter.mpr ⟨hfree, hlt⟩
    rw [dif_pos ⟨q, hmem⟩, Option.some_inj]
    refine le_antisymm (Finset.min'_le _ q hmem) (Finset.le_min' _ _ _ fun s hs => ?_)
    obtain ⟨hs, hns⟩ := Finset.mem_filter.mp hs
    exact hle s hs hns

theorem firstAbove_eq_none_iff {free : Finset α} {n : α} :
    firstAbove free n = none ↔ ∀ s ∈ free, s ≤ n := by
  rw [firstAbove]
  constructor
  · intro h s hs
    split_ifs at h with hne
    by_contra hlt
    exact hne ⟨s, Finset.mem_filter.mpr ⟨hs, not_le.mp hlt⟩⟩
  · intro h
    refine dif_neg ?_
    rintro ⟨s, hs⟩
    obtain ⟨hs, hns⟩ := Finset.mem_filter.mp hs
    exact absurd (h s hs) (not_le.mpr hns)

theorem not_filled_nil {free : Finset α} {q : α} : ¬ Filled free [] q := fun ⟨_, _, h⟩ =>
  absurd h (Nat.not_lt_zero _)

/-- A request that finds nothing changes nothing. -/
theorem filled_cons_of_none {free : Finset α} {n q : α} {ns : List α}
    (h : firstAbove free n = none) :
    Filled free (n :: ns) q ↔ Filled free ns q := by
  refine and_congr_right fun hq => exists_congr fun a => ?_
  have hle : q ≤ n := firstAbove_eq_none_iff.mp h q hq
  rw [List.countP_cons_of_neg]
  simp [hle]

/-- A request fills the place it finds, and the others fill theirs without it. -/
theorem filled_cons_of_some {free : Finset α} {n p q : α} {ns : List α}
    (h : firstAbove free n = some p) :
    Filled free (n :: ns) q ↔ q = p ∨ Filled (free.erase p) ns q := by
  obtain ⟨hp, hnp, hfirst⟩ := firstAbove_eq_some_iff.mp h
  -- The free places of an interval, with and without the one that is taken.
  have herase : ∀ a, p ∈ free.filter (fun s => a < s ∧ s < q) →
      (free.filter fun s => a < s ∧ s < q).card =
        ((free.erase p).filter fun s => a < s ∧ s < q).card + 1 := by
    intro a ha
    rw [Finset.filter_erase, Finset.card_erase_add_one ha]
  have hkeep : ∀ a, p ∉ free.filter (fun s => a < s ∧ s < q) →
      (free.filter fun s => a < s ∧ s < q).card =
        ((free.erase p).filter fun s => a < s ∧ s < q).card := by
    intro a ha
    rw [Finset.filter_erase, Finset.erase_eq_of_notMem ha]
  constructor
  · rintro ⟨hq, a, ha⟩
    rcases eq_or_ne q p with rfl | hne
    · exact Or.inl rfl
    refine Or.inr ⟨Finset.mem_erase.mpr ⟨hne, hq⟩, a, ?_⟩
    by_cases hn : a ≤ n ∧ n < q
    · have hpq : p < q := lt_of_le_of_ne (hfirst q hq hn.2) (Ne.symm hne)
      have hcard := herase a (Finset.mem_filter.mpr ⟨hp, lt_of_le_of_lt hn.1 hnp, hpq⟩)
      rw [List.countP_cons_of_pos (by simpa using hn)] at ha
      omega
    · rw [List.countP_cons_of_neg (by simpa using hn)] at ha
      refine lt_of_le_of_lt (Finset.card_le_card ?_) ha
      exact Finset.filter_subset_filter _ (Finset.erase_subset p free)
  · rintro (rfl | ⟨hq, a, ha⟩)
    · refine ⟨hp, n, ?_⟩
      have hnone : free.filter (fun s => n < s ∧ s < q) = ∅ := by
        refine Finset.filter_eq_empty_iff.mpr ?_
        rintro s hs ⟨hns, hsq⟩
        exact absurd (hfirst s hs hns) (not_le.mpr hsq)
      rw [hnone, List.countP_cons_of_pos (by simpa using hnp)]
      simp
    · obtain ⟨hne, hq⟩ := Finset.mem_erase.mp hq
      by_cases hpa : a < p ∧ p < q
      · have hcard := herase a (Finset.mem_filter.mpr ⟨hp, hpa⟩)
        rcases le_or_gt a n with han | hna
        · refine ⟨hq, a, ?_⟩
          rw [List.countP_cons_of_pos (by simpa using ⟨han, hnp.trans hpa.2⟩)]
          omega
        · -- no free place lies between the request and the place it finds: one may start at the
          -- request
          refine ⟨hq, n, ?_⟩
          have hsame : free.filter (fun s => n < s ∧ s < q) = free.filter fun s => a < s ∧
              s < q := by
            refine Finset.filter_congr fun s hs => and_congr_left fun _ => ?_
            exact ⟨fun hns => hpa.1.trans_le (hfirst s hs hns), fun has => hna.trans has⟩
          have hmono : (ns.countP fun m => a ≤ m ∧ m < q) ≤ ns.countP fun m => n ≤ m ∧ m < q := by
            refine List.countP_mono_left fun m _ hm => ?_
            simp only [decide_eq_true_eq] at hm ⊢
            exact ⟨hna.le.trans hm.1, hm.2⟩
          rw [hsame, List.countP_cons_of_pos (by simpa using hnp.trans hpa.2)]
          omega
      · refine ⟨hq, a, ?_⟩
        have hcard := hkeep a fun hmem => hpa (Finset.mem_filter.mp hmem).2
        have hcons : (ns.countP fun m => a ≤ m ∧ m < q) ≤ (n :: ns).countP fun m => a ≤ m ∧
            m < q := by
          rw [List.countP_cons]
          exact Nat.le_add_right _ _
        omega

/-- The places that are taken are those that the requests fill. -/
theorem some_mem_placed_iff {free : Finset α} {ns : List α} {q : α} :
    some q ∈ placed free ns ↔ Filled free ns q := by
  induction ns generalizing free with
  | nil => simp [placed, not_filled_nil]
  | cons n ns ih =>
    cases h : firstAbove free n with
    | none => simp [placed, h, ih, filled_cons_of_none h]
    | some p => simp [placed, h, ih, filled_cons_of_some h]

/-- The places that a list of requests leaves free. -/
def leftFree (free : Finset α) (ns : List α) : Finset α := free.filter (some · ∉ placed free ns)

private theorem leftFree_cons_of_some {free : Finset α} {n p : α} (h : firstAbove free n = some p)
    (ns : List α) :
    leftFree free (n :: ns) = leftFree (free.erase p) ns := by
  ext q
  simp only [leftFree, placed, h, Finset.mem_filter, Finset.mem_erase, List.mem_cons,
    Option.some_inj]
  tauto

/-- Nothing is taken twice. -/
theorem nodup_placed (free : Finset α) (ns : List α) : ((placed free ns).filterMap id).Nodup := by
  induction ns generalizing free with
  | nil => exact List.nodup_nil
  | cons n ns ih =>
    cases h : firstAbove free n with
    | none => simpa [placed, h] using ih free
    | some p =>
      have hp : some p ∉ placed (free.erase p) ns := fun hmem =>
        (Finset.mem_erase.mp (some_mem_placed_iff.mp hmem).1).1 rfl
      simpa [placed, h] using ⟨hp, ih (free.erase p)⟩

theorem length_placed (free : Finset α) (ns : List α) : (placed free ns).length = ns.length := by
  induction ns generalizing free with
  | nil => rfl
  | cons n ns ih => cases h : firstAbove free n <;> simp [placed, h, ih]

/-- A request takes the first place above it that the requests before it leave free. -/
theorem mem_zip_placed {β : Type*} {g : β → α} {free : Finset α} {ps : List β} {p : β}
    {o : Option α} :
    (p, o) ∈ ps.zip (placed free (ps.map g)) ↔
      ∃ pre post, ps = pre ++ p :: post ∧ firstAbove (leftFree free (pre.map g)) (g p) = o := by
  induction ps generalizing free with
  | nil => simp
  | cons a ps ih =>
    have hleft : ∀ ns, leftFree free (g a :: ns) = leftFree (leftFree free [g a]) ns := by
      intro ns
      cases h : firstAbove free (g a) with
      | none => simp [leftFree, placed, h]
      | some q => rw [leftFree_cons_of_some h, leftFree_cons_of_some h]; simp [leftFree, placed]
    have hplaced : placed free (g a :: ps.map g) =
        firstAbove free (g a) :: placed (leftFree free [g a]) (ps.map g) := by
      cases h : firstAbove free (g a) with
      | none => simp [leftFree, placed, h]
      | some q => rw [leftFree_cons_of_some h]; simp [leftFree, placed, h]
    rw [List.map_cons, hplaced, List.zip_cons_cons, List.mem_cons, ih]
    constructor
    · rintro (heq | ⟨pre, post, rfl, ho⟩)
      · obtain ⟨rfl, rfl⟩ := Prod.mk.inj heq
        exact ⟨[], ps, rfl, by simp [leftFree, placed]⟩
      · exact ⟨a :: pre, post, rfl, by rw [List.map_cons, hleft, ho]⟩
    · rintro ⟨pre, post, hps, ho⟩
      cases pre with
      | nil =>
        obtain ⟨rfl, rfl⟩ := List.cons.inj hps
        exact Or.inl (by simpa [leftFree, placed] using ho.symm)
      | cons b pre =>
        obtain ⟨rfl, rfl⟩ := List.cons.inj hps
        rw [List.map_cons, hleft] at ho
        exact Or.inr ⟨pre, post, rfl, ho⟩

theorem mem_leftFree {free : Finset α} {ns : List α} {q : α} :
    q ∈ leftFree free ns ↔ q ∈ free ∧ ¬ Filled free ns q := by
  rw [leftFree, Finset.mem_filter, some_mem_placed_iff]
