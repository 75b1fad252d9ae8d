import Mathlib.Computability.Language
import Dockhand.Go.Json

/-!
# Regular expressions

The regular expressions of Go's `regexp` package that match a whole text, over the code points of
the text. A matcher takes the derivative by one code point after another. `isMatch_iff` says that
it accepts the words of the expression's language. `Over` says what characters these consist of.
-/

namespace Go

/-- A regular expression over code points, without captures and anchors. -/
inductive Regexp where
  | fail
  | empty
  | one (p : Char → Bool)
  | seq (r s : Regexp)
  | alt (r s : Regexp)
  | star (r : Regexp)

namespace Regexp

/-- `.` without the flag `s`. -/
def dot : Regexp := .one (· ≠ '\n')

/-- A literal text. -/
def lit (s : String) : Regexp := s.toList.foldr (fun c r => seq (.one (· = c)) r) empty

/-- A literal text under the flag `i`. -/
def fold (s : String) : Regexp :=
  s.toList.foldr (fun c r => seq (.one fun d => Json.foldRune d = Json.foldRune c) r) empty

/-- `[cs]` -/
def oneOf (cs : String) : Regexp := .one (· ∈ cs.toList)

/-- `r?` -/
def opt (r : Regexp) : Regexp := alt empty r

/-- `r{n,}` -/
def atLeast (r : Regexp) : ℕ → Regexp
  | 0 => star r
  | n + 1 => seq r (atLeast r n)

/-- `r{0,n}` -/
def atMost (r : Regexp) : ℕ → Regexp
  | 0 => empty
  | n + 1 => opt (seq r (atMost r n))

/-- The expressions of a list in a row. -/
def cat (rs : List Regexp) : Regexp := rs.foldr seq empty

/-- One of the expressions of a list. -/
def any (rs : List Regexp) : Regexp := rs.foldr alt fail

/-- The empty text matches. -/
def nullable : Regexp → Bool
  | fail | one _ => false
  | empty | star _ => true
  | seq r s => r.nullable && s.nullable
  | alt r s => r.nullable || s.nullable

/-- What has to match after the code point `c`. -/
def deriv (c : Char) : Regexp → Regexp
  | fail | empty => fail
  | one p => if p c then empty else fail
  | seq r s =>
    if r.nullable then alt (seq (r.deriv c) s) (s.deriv c) else seq (r.deriv c) s
  | alt r s => alt (r.deriv c) (s.deriv c)
  | star r => seq (r.deriv c) (star r)

/-- `regexp.MatchString` of `^(r)$`. -/
def isMatch (r : Regexp) (s : List Char) : Bool := (s.foldl (fun r c => r.deriv c) r).nullable

/-- The texts that an expression describes. -/
def language : Regexp → Language Char
  | fail => 0
  | empty => 1
  | one p => {w | ∃ c, p c = true ∧ w = [c]}
  | seq r s => r.language * s.language
  | alt r s => r.language + s.language
  | star r => KStar.kstar r.language

/-! ### The matcher accepts the language -/

private theorem mem_one {p : Char → Bool} {w : List Char} :
    w ∈ (one p).language ↔ ∃ c, p c = true ∧ w = [c] := Iff.rfl

theorem nullable_iff (r : Regexp) : r.nullable = true ↔ [] ∈ r.language := by
  induction r with
  | fail => simp [nullable, language]
  | empty => simp [nullable, language]
  | one p => simp [nullable, mem_one]
  | seq r s ihr ihs => simp [nullable, language, Language.mem_mul, ihr, ihs]
  | alt r s ihr ihs => simp [nullable, language, Language.mem_add, ihr, ihs]
  | star r => simp [nullable, language, Language.nil_mem_kstar]

/-- A nonempty text of a product starts in the first factor, unless that one is empty. -/
theorem cons_mem_mul {l m : Language Char} {c : Char} {w : List Char} :
    c :: w ∈ l * m ↔ (∃ a, c :: a ∈ l ∧ ∃ b ∈ m, a ++ b = w) ∨ ([] ∈ l ∧ c :: w ∈ m) := by
  rw [Language.mem_mul]
  constructor
  · rintro ⟨a, ha, b, hb, hab⟩
    cases a with
    | nil =>
      rw [List.nil_append] at hab
      exact Or.inr ⟨ha, hab ▸ hb⟩
    | cons d a =>
      rw [List.cons_append, List.cons_eq_cons] at hab
      obtain ⟨rfl, hab⟩ := hab
      exact Or.inl ⟨a, ha, b, hb, hab⟩
  · rintro (⟨a, ha, b, hb, rfl⟩ | ⟨hl, hm⟩)
    · exact ⟨c :: a, ha, b, hb, rfl⟩
    · exact ⟨[], hl, c :: w, hm, rfl⟩

/-- A nonempty text of an iteration starts with a nonempty text of what is iterated. -/
theorem cons_mem_kstar {l : Language Char} {c : Char} {w : List Char} :
    c :: w ∈ KStar.kstar l ↔ ∃ a, c :: a ∈ l ∧ ∃ b ∈ KStar.kstar l, a ++ b = w := by
  constructor
  · intro h
    obtain ⟨ls, hls, hl⟩ := Language.mem_kstar_iff_exists_nonempty.mp h
    cases ls with
    | nil => exact absurd hls (by simp)
    | cons a ls =>
      have hrest : ls.flatten ∈ KStar.kstar l :=
        Language.join_mem_kstar fun y hy => (hl y (List.mem_cons_of_mem a hy)).1
      obtain ⟨ha, hne⟩ := hl a List.mem_cons_self
      cases a with
      | nil => exact absurd rfl hne
      | cons d a =>
        rw [List.flatten_cons, List.cons_append, List.cons_eq_cons] at hls
        obtain ⟨rfl, rfl⟩ := hls
        exact ⟨a, ha, ls.flatten, hrest, rfl⟩
  · rintro ⟨a, ha, b, hb, rfl⟩
    obtain ⟨ls, rfl, hl⟩ := Language.mem_kstar.mp hb
    refine Language.mem_kstar.mpr ⟨(c :: a) :: ls, by simp, ?_⟩
    intro y hy
    rcases List.mem_cons.mp hy with rfl | hy
    · exact ha
    · exact hl y hy

private theorem mem_deriv (c : Char) (r : Regexp) (w : List Char) :
    w ∈ (r.deriv c).language ↔ c :: w ∈ r.language := by
  induction r generalizing w with
  | fail => simp [deriv, language]
  | empty => simp [deriv, language]
  | one p =>
    rw [mem_one]
    by_cases hp : p c = true
    · simp [deriv, hp, language, Language.mem_one]
    · simp [deriv, hp, language]
  | seq r s ihr ihs =>
    have hfirst : w ∈ ((r.deriv c).seq s).language ↔
        ∃ a, c :: a ∈ r.language ∧ ∃ b ∈ s.language, a ++ b = w := by
      simp only [language, Language.mem_mul, ihr]
    rw [language, cons_mem_mul, ← hfirst, ← nullable_iff, deriv]
    by_cases hr : r.nullable = true
    · simp [hr, language, Language.mem_add, ihs]
    · simp [hr]
  | alt r s ihr ihs => simp [deriv, language, Language.mem_add, ihr, ihs]
  | star r ih => simp only [deriv, language, Language.mem_mul, ih, cons_mem_kstar]

theorem isMatch_iff (r : Regexp) (s : List Char) : r.isMatch s = true ↔ s ∈ r.language := by
  induction s generalizing r with
  | nil => exact r.nullable_iff
  | cons c s ih => exact (ih (r.deriv c)).trans (mem_deriv c r s)

/-! ### Classes -/

private theorem mem_star_one {p : Char → Bool} {w : List Char} :
    w ∈ (star (one p)).language ↔ ∀ c ∈ w, p c = true := by
  induction w with
  | nil => exact iff_of_true (Language.nil_mem_kstar _) fun c hc => absurd hc List.not_mem_nil
  | cons c w ih =>
    have hcons : c :: w ∈ (star (one p)).language ↔
        ∃ a, c :: a ∈ (one p).language ∧ ∃ b ∈ (star (one p)).language, a ++ b = w :=
      cons_mem_kstar
    rw [hcons, List.forall_mem_cons, ← ih]
    simp [mem_one]

/-- One code point of a class and then any number of those of another. -/
theorem mem_one_seq_star {p q : Char → Bool} {c : Char} {w : List Char} (hc : p c = true)
    (hw : ∀ d ∈ w, q d = true) : c :: w ∈ (seq (one p) (star (one q))).language :=
  Language.append_mem_mul (mem_one.mpr ⟨c, hc, rfl⟩) (mem_star_one.mpr hw)

/-! ### The characters of a text -/

/-- Every class of the expression consists of characters with `P`. -/
def Over (P : Char → Prop) : Regexp → Prop
  | fail | empty => True
  | one p => ∀ c, p c = true → P c
  | seq r s | alt r s => r.Over P ∧ s.Over P
  | star r => r.Over P

variable {P : Char → Prop} {r s : Regexp}

theorem Over.forall_mem (h : r.Over P) {w : List Char} (hw : w ∈ r.language) : ∀ c ∈ w, P c := by
  induction r generalizing w with
  | fail => cases hw
  | empty =>
    obtain rfl : w = [] := hw
    simp
  | one p =>
    obtain ⟨c, hc, rfl⟩ := mem_one.mp hw
    simpa using h c hc
  | seq r s ihr ihs =>
    obtain ⟨a, ha, b, hb, rfl⟩ := Language.mem_mul.mp hw
    exact fun c hc => (List.mem_append.mp hc).elim (ihr h.1 ha c) (ihs h.2 hb c)
  | alt r s ihr ihs =>
    rcases (Language.mem_add ..).mp hw with hw | hw
    · exact ihr h.1 hw
    · exact ihs h.2 hw
  | star r ih =>
    obtain ⟨ls, rfl, hls⟩ := Language.mem_kstar.mp hw
    intro c hc
    obtain ⟨a, ha, hca⟩ := List.mem_flatten.mp hc
    exact ih h (hls a ha) c hca

@[simp] theorem over_seq : (seq r s).Over P ↔ r.Over P ∧ s.Over P := Iff.rfl

@[simp] theorem over_alt : (alt r s).Over P ↔ r.Over P ∧ s.Over P := Iff.rfl

@[simp] theorem over_star : (star r).Over P ↔ r.Over P := Iff.rfl

@[simp] theorem over_opt : (opt r).Over P ↔ r.Over P :=
  ⟨And.right, fun h => ⟨trivial, h⟩⟩

@[simp] theorem over_oneOf [DecidablePred P] {cs : String} :
    (oneOf cs).Over P ↔ cs.toList.all (fun c => decide (P c)) = true := by
  simp [oneOf, Over]

@[simp] theorem over_atLeast {n : ℕ} : (atLeast r n).Over P ↔ r.Over P := by
  induction n with
  | zero => exact Iff.rfl
  | succ n ih => rw [atLeast, over_seq, ih, and_self_iff]

@[simp] theorem over_cat_nil : (cat []).Over P ↔ True := Iff.rfl

@[simp] theorem over_cat_cons {rs : List Regexp} :
    (cat (r :: rs)).Over P ↔ r.Over P ∧ (cat rs).Over P := Iff.rfl

theorem over_atMost {n : ℕ} (h : r.Over P) : (atMost r n).Over P := by
  induction n with
  | zero => trivial
  | succ n ih => exact over_opt.mpr ⟨h, ih⟩

end Regexp

end Go
