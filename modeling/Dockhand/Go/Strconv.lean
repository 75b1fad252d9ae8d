import Dockhand.Go.Strings
import Mathlib.Algebra.Order.Ring.Int
import Mathlib.Algebra.Ring.Nat
import Mathlib.Data.Int.Notation
import Mathlib.Data.Nat.Notation

/-!
# The `strconv` package

The conversions of Go's `strconv` package that the modelled code calls.
-/

namespace Go

/-- `strconv.Atoi`, `none` when it returns an error. An `int` has 64 bits. -/
def atoi (s : String) : Option ℤ :=
  let (negative, digits) :=
    match s.toList with
    | '-' :: ds => (true, ds)
    | '+' :: ds => (false, ds)
    | ds => (false, ds)
  if digits.isEmpty || !digits.all Char.isDigit then none
  else
    let n : ℕ := digits.foldl (fun n c => 10 * n + (c.toNat - '0'.toNat)) 0
    let v : ℤ := if negative then -n else n
    if -2 ^ 63 ≤ v ∧ v < 2 ^ 63 then some v else none

/-- What `strconv.Atoi` returns when its error is dropped: the nearest `int` to a number out of
range, and 0 for what is no number. -/
def atoiValue (s : String) : ℤ :=
  let (negative, digits) :=
    match s.toList with
    | '-' :: ds => (true, ds)
    | '+' :: ds => (false, ds)
    | ds => (false, ds)
  if digits.isEmpty || !digits.all Char.isDigit then 0
  else
    let n : ℕ := digits.foldl (fun n c => 10 * n + (c.toNat - '0'.toNat)) 0
    if negative then max (-2 ^ 63) (-n) else min (2 ^ 63 - 1) n

theorem isDigit_of_mem_repr {n : ℕ} {c : Char} (h : c ∈ n.repr.toList) : c.isDigit = true := by
  rw [Nat.toList_repr] at h
  exact Nat.isDigit_of_mem_toDigits (by decide) (by decide) h

theorem not_mem_repr {n : ℕ} {c : Char} (hc : c.isDigit = false) : c ∉ n.repr.toList := by
  intro h
  rw [isDigit_of_mem_repr h] at hc
  cases hc

/-- The digits of a number have no spaces around them. -/
theorem trimSpace_repr (n : ℕ) : trimSpace n.repr = n.repr :=
  trimSpace_of_forall fun _ hc => not_isSpace_of_isDigit (isDigit_of_mem_repr hc)

/-- A number is told by its digits. -/
theorem repr_inj {m n : ℕ} (h : m.repr = n.repr) : m = n := by
  have hlist := congrArg String.toList h
  rw [Nat.toList_repr, Nat.toList_repr] at hlist
  rw [← Nat.ofDigitChars_ten_toDigits (n := m), hlist, Nat.ofDigitChars_ten_toDigits]

/-- Digits whose number fits in an `int` are read. -/
theorem atoi_of_isDigit {s : String} {n : ℕ} (hne : s.toList ≠ [])
    (hall : s.toList.all Char.isDigit = true)
    (hvalue : s.toList.foldl (fun n c => 10 * n + (c.toNat - '0'.toNat)) 0 = n) (h : n < 2 ^ 63) :
    atoi s = some (n : ℤ) := by
  obtain ⟨c, ds, hds⟩ := List.exists_cons_of_ne_nil hne
  rw [hds] at hall hvalue
  have hc : c.isDigit = true := List.all_eq_true.mp hall c List.mem_cons_self
  have hminus : c ≠ '-' := by rintro rfl; exact absurd hc (by decide)
  have hplus : c ≠ '+' := by rintro rfl; exact absurd hc (by decide)
  have hbounds : -2 ^ 63 ≤ (n : ℤ) ∧ (n : ℤ) < 2 ^ 63 := by omega
  simp only [atoi, hds]
  split
  · rename_i heq
    exact absurd (List.cons.inj heq).1 hminus
  · rename_i heq
    exact absurd (List.cons.inj heq).1 hplus
  · simp only [List.isEmpty_cons, hall, hvalue, Bool.not_true, Bool.or_self, Bool.false_eq_true,
      if_false, hbounds, and_self, if_true]

/-- A number that fits in an `int` is read back. -/
theorem atoi_repr {n : ℕ} (h : n < 2 ^ 63) : atoi n.repr = some (n : ℤ) := by
  refine atoi_of_isDigit ?_ (List.all_eq_true.mpr fun _ hc => isDigit_of_mem_repr hc) ?_ h
  · rw [Nat.toList_repr]
    exact Nat.toDigits_ne_nil
  · rw [Nat.toList_repr, ← Nat.ofDigitChars_eq_foldl, Nat.ofDigitChars_ten_toDigits]

example : atoi "599" = some 599 ∧ atoi "-7" = some (-7) ∧ atoi "" = none ∧ atoi "2x" = none := by
  decide +kernel

end Go
