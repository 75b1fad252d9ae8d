import Mathlib.Data.Int.Order.Units
import Mathlib.Tactic.NormNum

/-!
# Integers that go through a float64

`encoding/json` decodes a number into an `any` as the nearest float64, and writes a float64 with the
fewest digits that are read as the same one. An integer that is decoded into a map and comes out of
it again is therefore rounded to 53 bits and printed again: `through`. The integers below 2^53 come
back as they were (`through_of_lt`), and no other integer comes back as one of them
(`through_eq_of_lt`).
-/

namespace Go.Float64

/-- The float64 nearest to a natural number, of two nearest the even one. -/
def roundNat (m : ℕ) : ℕ :=
  let e := m.log2 - 52
  let q := m / 2 ^ e
  let r := m % 2 ^ e
  (if 2 ^ e < 2 * r ∨ 2 ^ e = 2 * r ∧ q % 2 = 1 then q + 1 else q) * 2 ^ e

/-- The two decimals around `m` that end in `k` zeros, the nearer one first. -/
def neighbours (m k : ℕ) : List ℕ :=
  let lo := m / 10 ^ k * 10 ^ k
  let r := m % 10 ^ k
  if r = 0 then [lo]
  else if 10 ^ k < 2 * r ∨ 10 ^ k = 2 * r ∧ m / 10 ^ k % 2 = 1 then [lo + 10 ^ k, lo]
  else [lo, lo + 10 ^ k]

/-- The integer whose digits `strconv.FormatFloat(m, 'f', -1, 64)` writes: with the most zeros at
its end of those that are read as `m`. Up to 2^53 these are the digits of `m`. -/
def shortest (m : ℕ) : ℕ :=
  if m ≤ 2 ^ 53 then m
  else
    (((List.range 21).reverse.flatMap (neighbours m)).find? fun c => roundNat c = m).getD m

/-- The float64 of an integer. -/
def ofInt (n : ℤ) : ℤ := n.sign * roundNat n.natAbs

/-- The integer that is read in what is written of a float64 which is an integer. -/
def print (n : ℤ) : ℤ := n.sign * shortest n.natAbs

/-- What comes back of an integer. -/
def through (n : ℤ) : ℤ := print (ofInt n)

variable {m : ℕ} {n : ℤ}

theorem roundNat_of_lt (h : m < 2 ^ 53) : roundNat m = m := by
  have he : m.log2 - 52 = 0 := by
    by_cases hm : m = 0
    · rw [hm]
      rfl
    · have hlog := (Nat.log2_lt hm).mpr h
      omega
  simp [roundNat, he, Nat.mod_one]

/-- Rounding to 53 bits keeps the leading one. -/
theorem le_roundNat (h : 2 ^ 53 ≤ m) : 2 ^ 53 ≤ roundNat m := by
  have hne : m ≠ 0 := by
    rintro rfl
    simp at h
  have hlog : 53 ≤ m.log2 := (Nat.le_log2 hne).mpr h
  obtain ⟨e, he⟩ : ∃ e, m.log2 = 52 + (e + 1) := ⟨m.log2 - 53, by omega⟩
  have hquot : 2 ^ 52 ≤ m / 2 ^ (e + 1) := by
    rw [Nat.le_div_iff_mul_le (Nat.two_pow_pos _), ← Nat.pow_add, ← he]
    exact Nat.log2_self_le hne
  have hround : m / 2 ^ (e + 1) * 2 ^ (e + 1) ≤ roundNat m := by
    have hexp : m.log2 - 52 = e + 1 := by omega
    simp only [roundNat, hexp]
    refine Nat.mul_le_mul_right _ ?_
    split_ifs
    · exact Nat.le_succ _
    · exact le_rfl
  calc 2 ^ 53 = 2 ^ 52 * 2 ^ 1 := by norm_num
    _ ≤ m / 2 ^ (e + 1) * 2 ^ (e + 1) :=
      Nat.mul_le_mul hquot (Nat.pow_le_pow_right (by norm_num) (by omega))
    _ ≤ roundNat m := hround

private theorem shortest_of_le (h : m ≤ 2 ^ 53) : shortest m = m := if_pos h

/-- What is read as a large float64 is large. -/
theorem le_shortest (h : 2 ^ 53 ≤ m) : 2 ^ 53 ≤ shortest m := by
  rw [shortest]
  split_ifs
  · exact h
  · cases hfind : (((List.range 21).reverse.flatMap (neighbours m)).find?
        fun c => roundNat c = m) with
    | none => exact h
    | some c =>
      have hc : roundNat c = m := by simpa using List.find?_some hfind
      rw [Option.getD_some]
      by_contra hlt
      rw [roundNat_of_lt (by omega)] at hc
      omega

private theorem natAbs_sign_mul {k : ℕ} (hk : n = 0 → k = 0) : (n.sign * k).natAbs = k := by
  rw [Int.natAbs_mul, Int.natAbs_natCast]
  rcases eq_or_ne n 0 with hn | hn
  · rw [hk hn, mul_zero]
  · rw [Int.natAbs_sign_of_ne_zero hn, one_mul]

private theorem natAbs_ofInt (n : ℤ) : (ofInt n).natAbs = roundNat n.natAbs :=
  natAbs_sign_mul fun hn => by
    rw [hn]
    rfl

private theorem natAbs_through (n : ℤ) : (through n).natAbs = shortest (roundNat n.natAbs) := by
  rw [through, print, natAbs_ofInt]
  refine natAbs_sign_mul fun hn => ?_
  rw [← natAbs_ofInt, hn]
  rfl

/-- **Small integers survive.** -/
theorem through_of_lt (h : n.natAbs < 2 ^ 53) : through n = n := by
  have hround : ofInt n = n := by
    rw [ofInt, roundNat_of_lt h, Int.sign_mul_natAbs]
  rw [through, hround, print, shortest_of_le h.le, Int.sign_mul_natAbs]

/-- **Nothing else becomes one of them.** -/
theorem through_eq_of_lt (h : (through n).natAbs < 2 ^ 53) : through n = n := by
  refine through_of_lt ?_
  by_contra hge
  rw [natAbs_through] at h
  exact absurd (le_shortest (le_roundNat (not_lt.mp hge))) (not_le.mpr h)

example : through 9007199254740993 = 9007199254740992 ∧
    through 9223372036854775807 = 9223372036854776000 := by
  decide +kernel

end Go.Float64
