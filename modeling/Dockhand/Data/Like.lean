import Mathlib.Data.List.Infix

/-!
# Patterns of SQL

`LIKE` matches a whole text: `%` stands for any text, `_` for any character, and a backslash takes
the next character of the pattern literally.
-/

namespace Data

/-- The text matches the pattern. A pattern that ends with a lone backslash matches nothing. -/
def like : List Char → List Char → Bool
  | [], s => s.isEmpty
  | '%' :: p, s => s.tails.any (like p)
  | '_' :: p, s => match s with
    | [] => false
    | _ :: t => like p t
  | '\\' :: c :: p, s => match s with
    | [] => false
    | x :: t => c = x && like p t
  | c :: p, s => match s with
    | [] => false
    | x :: t => c ≠ '\\' && c = x && like p t

/-- A text without backslashes, as a prefix. -/
theorem like_prefix {s : List Char} (h : '\\' ∉ s) (t : List Char) :
    like (s ++ ['%']) (s ++ t) := by
  induction s with
  | nil => exact List.any_eq_true.mpr ⟨[], (List.mem_tails _ _).mpr List.nil_suffix, rfl⟩
  | cons c s ih =>
    obtain ⟨hc, hs⟩ : '\\' ≠ c ∧ '\\' ∉ s := not_or.mp (mt List.mem_cons.mpr h)
    have hslash : c ≠ '\\' := Ne.symm hc
    have hrest := ih hs
    by_cases hany : c = '%'
    · subst hany
      exact List.any_eq_true.mpr ⟨s ++ t, (List.mem_tails _ _).mpr (List.suffix_cons _ _), hrest⟩
    · by_cases hone : c = '_'
      · subst hone
        exact hrest
      · rw [List.cons_append, List.cons_append, like.eq_def]
        split <;> simp_all

example : like "1.2.1%".toList "1.2.10".toList = true ∧ like "1_2%".toList "1x2".toList = true ∧
    like "1\\%".toList "1.2".toList = false := by decide +kernel

end Data
