import Mathlib.Data.Int.ModEq
import Mathlib.Data.Set.Basic
import Mathlib.Tactic.Linarith
import Mathlib.Tactic.Ring

/-!
# Recurring intervals

The union of the translates of a half-open interval by some of the multiples of a period. Whatever
is neither empty nor everything tells its ends modulo the period: `Recurring.modEq`. When it is
everything, one interval reaches the next: `Recurring.eq_univ_iff`.
-/

namespace Data

/-- The points of `[p * d + a, p * d + b)` for the `d` of a set. -/
def Recurring (p : ℤ) (A : Set ℤ) (a b : ℤ) : Set ℤ := {x | ∃ d ∈ A, p * d + a ≤ x ∧ x < p * d + b}

namespace Recurring

/-! ### Ends of a set of integers -/

section Ends

variable {S : Set ℤ} {x y : ℤ}

private theorem exists_rise (hx : x ∈ S) (hy : y ∉ S) (hlt : y < x) : ∃ z, z ∈ S ∧ z - 1 ∉ S := by
  by_contra hno
  push Not at hno
  have hall : ∀ n : ℕ, x - n ∈ S := by
    intro n
    induction n with
    | zero => simpa using hx
    | succ n ih =>
      have h := hno _ ih
      rwa [sub_sub, ← Nat.cast_succ] at h
  have h := hall (x - y).toNat
  rw [Int.toNat_of_nonneg (by omega), sub_sub_cancel] at h
  exact hy h

private theorem exists_fall (hx : x ∈ S) (hy : y ∉ S) (hlt : x < y) : ∃ z, z - 1 ∈ S ∧ z ∉ S := by
  by_contra hno
  push Not at hno
  have hall : ∀ n : ℕ, x + n ∈ S := by
    intro n
    induction n with
    | zero => simpa using hx
    | succ n ih => exact hno _ (by simpa [add_sub_assoc] using ih)
  have h := hall (y - x).toNat
  rw [Int.toNat_of_nonneg (by omega), add_sub_cancel] at h
  exact hy h

end Ends

/-! ### Ends of recurring intervals -/

variable {p q a b a' b' x : ℤ} {A : Set ℤ}

private theorem modEq_of_rise (hx : x ∈ Recurring p A a b) (hy : x - 1 ∉ Recurring p A a b) :
    x ≡ a [ZMOD p] := by
  obtain ⟨d, hd, hle, hlt⟩ := hx
  have hax : x = p * d + a := by
    by_contra hne
    exact hy ⟨d, hd, by omega, by omega⟩
  rw [hax]
  exact (Int.modEq_iff_dvd.mpr ⟨d, by ring⟩).symm

private theorem modEq_of_fall (hx : x - 1 ∈ Recurring p A a b) (hy : x ∉ Recurring p A a b) :
    x ≡ b [ZMOD p] := by
  obtain ⟨d, hd, hle, hlt⟩ := hx
  have hbx : x = p * d + b := by
    by_contra hne
    exact hy ⟨d, hd, by omega, by omega⟩
  rw [hbx]
  exact (Int.modEq_iff_dvd.mpr ⟨d, by ring⟩).symm

private theorem add_mem (hA : ∀ d, d + q ∈ A ↔ d ∈ A) (n : ℤ) (hx : x ∈ Recurring p A a b) :
    x + p * (n * q) ∈ Recurring p A a b := by
  obtain ⟨d, hd, hle, hlt⟩ := hx
  have hmem : d + n * q ∈ A := by
    induction n using Int.induction_on with
    | zero => simpa using hd
    | succ n ih => rwa [add_mul, one_mul, ← add_assoc, hA]
    | pred n ih => rwa [← hA, sub_mul, one_mul, add_assoc, sub_add_cancel]
  exact ⟨d + n * q, hmem, by linarith, by linarith⟩

/-- Recurring intervals that are neither nowhere nor everywhere begin and end somewhere. -/
theorem exists_ends (hp : 0 < p) (hq : 0 < q) (hA : ∀ d, d + q ∈ A ↔ d ∈ A)
    (hne : (Recurring p A a b).Nonempty) (hall : Recurring p A a b ≠ Set.univ) :
    (∃ z, z ∈ Recurring p A a b ∧ z - 1 ∉ Recurring p A a b) ∧
      ∃ z, z - 1 ∈ Recurring p A a b ∧ z ∉ Recurring p A a b := by
  obtain ⟨x, hx⟩ := hne
  obtain ⟨y, hy⟩ := (Set.ne_univ_iff_exists_notMem _).mp hall
  have hpq : 1 ≤ p * q := by nlinarith
  -- far enough to either side stands a translate of `x`
  have hfar : ∀ n : ℕ, (n : ℤ) ≤ p * (n * q) := fun n => by nlinarith [Int.natCast_nonneg n]
  have hleft := hfar (x - y + 1).toNat
  have hright := hfar (y - x + 1).toNat
  constructor
  · exact exists_rise (add_mem hA (y - x + 1).toNat hx) hy (by omega)
  · have hmem := add_mem hA (-((x - y + 1).toNat : ℤ)) hx
    rw [neg_mul, mul_neg] at hmem
    exact exists_fall hmem hy (by omega)

/-- The ends of recurring intervals are determined modulo the period. -/
theorem modEq (hp : 0 < p) (hq : 0 < q) (hA : ∀ d, d + q ∈ A ↔ d ∈ A)
    (hne : (Recurring p A a b).Nonempty) (hall : Recurring p A a b ≠ Set.univ)
    (h : Recurring p A a b = Recurring p A a' b') : a ≡ a' [ZMOD p] ∧ b ≡ b' [ZMOD p] := by
  obtain ⟨⟨x, hx, hx'⟩, y, hy, hy'⟩ := exists_ends hp hq hA hne hall
  constructor
  · exact (modEq_of_rise hx hx').symm.trans (modEq_of_rise (h ▸ hx) (h ▸ hx'))
  · exact (modEq_of_fall hy hy').symm.trans (modEq_of_fall (h ▸ hy) (h ▸ hy'))

/-- Only two intervals reach a point, when they are not longer than two periods. -/
theorem mem_iff_of_le (hp : 0 < p) (ha : 0 ≤ a) (hb : b ≤ 2 * p) :
    x ∈ Recurring p A a b ↔ (x / p ∈ A ∧ a ≤ x % p ∧ x % p < b) ∨
      (x / p - 1 ∈ A ∧ a ≤ x % p + p ∧ x % p + p < b) := by
  have hx := Int.mul_ediv_add_emod x p
  have hpos := Int.emod_nonneg x hp.ne'
  have hlt := Int.emod_lt_of_pos x hp
  constructor
  · rintro ⟨d, hd, hle, hlt'⟩
    have hle' : d < x / p + 1 := by nlinarith
    have hge : x / p < d + 2 := by nlinarith
    obtain rfl | rfl : d = x / p ∨ d = x / p - 1 := by omega
    · exact Or.inl ⟨hd, by linarith, by linarith⟩
    · exact Or.inr ⟨hd, by linarith, by linarith⟩
  · rintro (⟨hd, hle, hlt'⟩ | ⟨hd, hle, hlt'⟩)
    · exact ⟨x / p, hd, by linarith, by linarith⟩
    · exact ⟨x / p - 1, hd, by linarith, by linarith⟩

/-! ### Everywhere -/

/-- What ends before the interval after the next begins is followed by the next. -/
theorem reaches (hp : 0 < p) (hab : b < a + 2 * p) (h : Recurring p A a b = Set.univ) (d : ℤ) :
    d + 1 ∈ A ∧ a + p ≤ b := by
  obtain ⟨e, he, hle, hlt⟩ : p * d + b ∈ Recurring p A a b := h ▸ Set.mem_univ _
  have hde : d < e := by nlinarith
  have hed : e < d + 2 := by nlinarith
  obtain rfl : e = d + 1 := by omega
  exact ⟨he, by linarith⟩

theorem eq_univ_iff (hp : 0 < p) (hab : b < a + 2 * p) :
    Recurring p A a b = Set.univ ↔ A = Set.univ ∧ a + p ≤ b := by
  constructor
  · intro h
    refine ⟨Set.eq_univ_of_forall fun d => ?_, (reaches hp hab h 0).2⟩
    simpa using (reaches hp hab h (d - 1)).1
  · rintro ⟨rfl, hle⟩
    refine Set.eq_univ_of_forall fun x => ⟨(x - a) / p, Set.mem_univ _, ?_, ?_⟩
    · have hdiv := Int.mul_ediv_self_le (x := x - a) hp.ne'
      linarith
    · have hdiv := Int.lt_mul_ediv_self_add (x := x - a) hp
      linarith

end Recurring

end Data
