import Mathlib.Algebra.Order.Group.Nat
import Mathlib.Data.Bool.AllAny
import Mathlib.Data.Char
import Mathlib.Data.Int.Order.Basic
import Mathlib.Data.List.Forall2
import Dockhand.Data.Lexicographic
import Dockhand.System.Versions

/-!
# The order of versions

Semantic versions are ordered by their numbers and then by the identifiers of a pre-release, one by
one. `compareVersions` compares everything behind the first hyphen or plus as a text, so that the
tenth release candidate comes before the ninth, and a release with metadata before the release.
`compareVersions_iff` tells of which versions it knows the order.
-/

namespace Dockhand.System

open Data Go

/-! ### Semantic versions -/

/-- `[0-9A-Za-z-]` -/
def isIdentChar (c : Char) : Bool := c.isAlphanum || c = '-'

/-- An identifier of build metadata. -/
structure Word where
  val : List Char
  ne : val ≠ []
  chars : ∀ c ∈ val, isIdentChar c = true
  deriving DecidableEq

/-- An identifier of a pre-release: a number without leading zeros, or a word that is no number. -/
inductive Ident where
  | number (n : ℕ)
  | word (w : Word) (h : ∃ c ∈ w.val, c.isDigit = false)
  deriving DecidableEq

/-- The identifier as it is written. -/
def Ident.text : Ident → List Char
  | number n => Nat.toDigits 10 n
  | word w _ => w.val

/-- Numbers are compared as numbers and words as texts; a number is below a word. -/
def Ident.order : Ident → Ident → Ordering
  | number m, number n => cmp m n
  | number _, word _ _ => .lt
  | word _ _, number _ => .gt
  | word w _, word v _ => lexCmp w.val v.val

/-- A version of Semantic Versioning. -/
structure SemVer where
  major : ℕ
  minor : ℕ
  patch : ℕ
  pre : List Ident
  build : List Word

/-- The identifiers of two pre-releases one by one, fewer before more. -/
def identsCmp : List Ident → List Ident → Ordering
  | [], [] => .eq
  | [], _ :: _ => .lt
  | _ :: _, [] => .gt
  | x :: xs, y :: ys => (x.order y).then (identsCmp xs ys)

/-- A pre-release is below its release. -/
def preCmp (xs ys : List Ident) : Ordering :=
  match xs, ys with
  | [], [] => .eq
  | [], _ :: _ => .gt
  | _ :: _, [] => .lt
  | xs, ys => identsCmp xs ys

namespace SemVer

variable (a b : SemVer)

/-- The three numbers of a version, the most significant first. -/
def numbers : List ℕ := [a.major, a.minor, a.patch]

/-- The precedence of two versions. The metadata of a build does not count. -/
def precedence : Ordering := (lexCmp a.numbers b.numbers).then (preCmp a.pre b.pre)

end SemVer

/-! ### The text of a version -/

/-- Parts with dots between them. -/
def dotted (l : List (List Char)) : List Char := ['.'].intercalate l

namespace SemVer

variable (a : SemVer)

/-- The metadata of a build, behind a plus. -/
def metadata : List Char := if a.build = [] then [] else '+' :: dotted (a.build.map Word.val)

/-- What stands behind the first hyphen or plus. -/
def suffix : List Char :=
  if a.pre = [] then dotted (a.build.map Word.val) else dotted (a.pre.map Ident.text) ++ a.metadata

/-- The text of a version, with or without a leading `v`. -/
def text (lead : Bool) : String :=
  String.ofList ((if lead then ['v'] else []) ++ dotted (a.numbers.map (Nat.toDigits 10)) ++
    (if a.pre = [] then a.metadata else '-' :: (dotted (a.pre.map Ident.text) ++ a.metadata)))

end SemVer

/-! ### What `compareVersions` reads -/

/-- `strconv.Atoi` of a number, which is the greatest `int` when the number is out of range. -/
def readNumber (n : ℕ) : ℕ := min n (2 ^ 63 - 1)

private theorem atoiValue_toDigits (n : ℕ) : atoiValue (String.ofList (Nat.toDigits 10 n)) =
    readNumber n := by
  have hdigit : ∀ c ∈ Nat.toDigits 10 n, c.isDigit = true :=
    fun c hc => Nat.isDigit_of_mem_toDigits (by decide) (by decide) hc
  have hvalue : (Nat.toDigits 10 n).foldl (fun n c => 10 * n + (c.toNat - '0'.toNat)) 0 = n := by
    rw [← Nat.ofDigitChars_eq_foldl, Nat.ofDigitChars_ten_toDigits]
  obtain ⟨c, ds, hds⟩ := List.exists_cons_of_ne_nil (Nat.toDigits_ne_nil (n := n) (b := 10))
  have hc : c.isDigit = true := hdigit c (by simp [hds])
  have hminus : c ≠ '-' := by rintro rfl; exact absurd hc (by decide)
  have hplus : c ≠ '+' := by rintro rfl; exact absurd hc (by decide)
  rw [hds] at hdigit hvalue
  have hall : (c :: ds).all Char.isDigit = true := List.all_eq_true.mpr hdigit
  simp only [atoiValue, String.toList_ofList, hds]
  split
  · rename_i heq
    exact absurd (List.cons.inj heq).1 hminus
  · rename_i heq
    exact absurd (List.cons.inj heq).1 hplus
  · simp only [List.isEmpty_cons, hall, hvalue, Bool.not_true, Bool.or_self, Bool.false_eq_true,
      if_false, readNumber]
    omega

section Text

variable (a : SemVer)

private theorem mem_intercalate {sep : List Char} {l : List (List Char)} {c : Char}
    (h : c ∈ sep.intercalate l) :
    c ∈ sep ∨ ∃ w ∈ l, c ∈ w := by
  induction l with
  | nil => exact absurd h List.not_mem_nil
  | cons w l ih =>
    cases l with
    | nil => exact Or.inr ⟨w, List.mem_cons_self, by simpa using h⟩
    | cons v l =>
      rw [List.intercalate_cons_cons] at h
      simp only [List.mem_append] at h
      rcases h with (h | h) | h
      · exact Or.inr ⟨w, List.mem_cons_self, h⟩
      · exact Or.inl h
      · rcases ih h with h | ⟨x, hx, hc⟩
        · exact Or.inl h
        · exact Or.inr ⟨x, List.mem_cons_of_mem w hx, hc⟩

/-- What the text of a version is made of. -/
def IsVersionChar (c : Char) : Prop := isIdentChar c = true ∨ c = '.' ∨ c = '+'

private theorem isIdentChar_of_isDigit {c : Char} (h : c.isDigit = true) :
    isIdentChar c = true := by
  simp [isIdentChar, Char.isAlphanum, h]

private theorem isIdentChar_digits {n : ℕ} {c : Char} (h : c ∈ Nat.toDigits 10 n) :
    isIdentChar c = true :=
  isIdentChar_of_isDigit (Nat.isDigit_of_mem_toDigits (by decide) (by decide) h)

private theorem Ident.isIdentChar {x : Ident} {c : Char} (h : c ∈ x.text) :
    isIdentChar c = true := by
  cases x with
  | number n => exact isIdentChar_digits h
  | word w hw => exact w.chars c h

private theorem Ident.text_ne_nil (x : Ident) : x.text ≠ [] := by
  cases x with
  | number n => exact Nat.toDigits_ne_nil
  | word w hw => exact w.ne

private theorem isVersionChar_dotted {l : List (List Char)}
    (hl : ∀ w ∈ l, ∀ c ∈ w, isIdentChar c = true) :
    ∀ c ∈ dotted l, IsVersionChar c := by
  intro c hc
  rcases mem_intercalate hc with hc | ⟨w, hw, hc⟩
  · exact Or.inr (Or.inl (List.mem_singleton.mp hc))
  · exact Or.inl (hl w hw c hc)

private theorem identChars_numbers : ∀ w ∈ a.numbers.map (Nat.toDigits 10),
    ∀ c ∈ w, isIdentChar c = true := by
  intro w hw c hc
  obtain ⟨n, -, rfl⟩ := List.mem_map.mp hw
  exact isIdentChar_digits hc

private theorem identChars_pre : ∀ w ∈ a.pre.map Ident.text, ∀ c ∈ w, isIdentChar c = true := by
  intro w hw c hc
  obtain ⟨x, -, rfl⟩ := List.mem_map.mp hw
  exact x.isIdentChar hc

private theorem identChars_build : ∀ w ∈ a.build.map Word.val, ∀ c ∈ w, isIdentChar c = true := by
  intro w hw c hc
  obtain ⟨x, -, rfl⟩ := List.mem_map.mp hw
  exact x.chars c hc

private theorem isVersionChar_metadata : ∀ c ∈ a.metadata, IsVersionChar c := by
  intro c hc
  rw [SemVer.metadata] at hc
  split_ifs at hc
  · exact absurd hc List.not_mem_nil
  · rcases List.mem_cons.mp hc with rfl | hc
    · exact Or.inr (Or.inr rfl)
    · exact isVersionChar_dotted (identChars_build a) c hc

private theorem code_of_isIdentChar {c : Char} (h : isIdentChar c = true) :
    c = '-' ∨ (48 ≤ c.toNat ∧ c.toNat ≤ 122) := by
  rw [isIdentChar, Bool.or_eq_true, decide_eq_true_eq] at h
  rcases h with h | rfl
  · have hbounds := bounds_of_isAlphanum h
    exact Or.inr ⟨by omega, by omega⟩
  · exact Or.inl rfl

private theorem isSpace_eq_false {c : Char} (h : IsVersionChar c) : isSpace c = false := by
  rcases h with h | rfl | rfl
  · rcases code_of_isIdentChar h with rfl | ⟨hlow, hhigh⟩
    · decide
    · exact isSpace_eq_false_of_bounds (by omega) (by omega)
  · decide
  · decide

/-- What stands behind the numbers of a version. -/
def SemVer.behind : List Char :=
  if a.pre = [] then a.metadata else '-' :: (dotted (a.pre.map Ident.text) ++ a.metadata)

private theorem isVersionChar_behind : ∀ c ∈ a.behind, IsVersionChar c := by
  intro c hc
  rw [SemVer.behind] at hc
  split_ifs at hc
  · exact isVersionChar_metadata a c hc
  · rcases List.mem_cons.mp hc with rfl | hc
    · exact Or.inl rfl
    · rcases List.mem_append.mp hc with hc | hc
      · exact isVersionChar_dotted (identChars_pre a) c hc
      · exact isVersionChar_metadata a c hc

/-- The suffix is what stands behind the numbers without the hyphen or plus. -/
theorem drop_behind : a.behind.drop 1 = a.suffix := by
  rw [SemVer.behind, SemVer.suffix, SemVer.metadata]
  split_ifs with hpre hbuild
  · rw [hbuild]; rfl
  all_goals rfl

private theorem behind_head {c : Char} {r : List Char} (h : a.behind = c :: r) :
    c = '-' ∨ c = '+' := by
  rw [SemVer.behind, SemVer.metadata] at h
  split_ifs at h
  · exact Or.inr (List.cons.inj h).1.symm
  all_goals exact Or.inl (List.cons.inj h).1.symm

/-- The numbers of a version begin with a digit. -/
theorem numbers_head : ∃ c r, dotted (a.numbers.map (Nat.toDigits 10)) = c :: r ∧
    c.isDigit = true := by
  obtain ⟨c, r, hr⟩ := List.exists_cons_of_ne_nil (Nat.toDigits_ne_nil (n := a.major) (b := 10))
  have hc : c.isDigit = true :=
    Nat.isDigit_of_mem_toDigits (by decide) (by decide) (hr ▸ List.mem_cons_self)
  rw [dotted, SemVer.numbers, List.map_cons, List.map_cons, List.intercalate_cons_cons, hr]
  exact ⟨c, _, rfl, hc⟩

private theorem splitVersion_text (lead : Bool) :
    splitVersion (a.text lead) = (a.numbers.map fun n => (readNumber n : ℤ),
      String.ofList a.suffix) := by
  obtain ⟨c, r, hnumbers, hc⟩ := numbers_head a
  have hv : c ≠ 'v' := by rintro rfl; exact absurd hc (by decide)
  have htext : (a.text lead).toList = (if lead then ['v'] else []) ++
      (dotted (a.numbers.map (Nat.toDigits 10)) ++ a.behind) := by
    rw [SemVer.text, String.toList_ofList, List.append_assoc, SemVer.behind]
  have htrim : trimSpace (a.text lead) = a.text lead := by
    refine trimSpace_of_forall fun d hd => isSpace_eq_false ?_
    rw [htext] at hd
    rcases List.mem_append.mp hd with hd | hd
    · split_ifs at hd
      · rw [List.mem_singleton.mp hd]
        exact Or.inl rfl
      · exact absurd hd List.not_mem_nil
    · rcases List.mem_append.mp hd with hd | hd
      · exact isVersionChar_dotted (identChars_numbers a) d hd
      · exact isVersionChar_behind a d hd
  have hprefix : (trimPrefix (a.text lead) "v").toList =
      dotted (a.numbers.map (Nat.toDigits 10)) ++ a.behind := by
    cases lead with
    | true =>
      have hhas : hasPrefix (a.text true) "v" = true := by rw [hasPrefix, htext]; rfl
      rw [trimPrefix, if_pos hhas, String.toList_ofList, htext]
      rfl
    | false =>
      have hhas : hasPrefix (a.text false) "v" = false :=
        hasPrefix_eq_false (c := 'v') rfl (htext.trans (by rw [hnumbers]; rfl)) hv.symm
      rw [trimPrefix, hhas, if_neg Bool.false_ne_true, htext]
      rfl
  have hkeep : ∀ d ∈ dotted (a.numbers.map (Nat.toDigits 10)), decide (d ≠ '-' ∧ d ≠ '+') =
      true := by
    intro d hd
    rcases mem_intercalate hd with hd | ⟨w, hw, hd⟩
    · rw [List.mem_singleton.mp hd]
      decide
    · obtain ⟨n, -, rfl⟩ := List.mem_map.mp hw
      have hdigit : d.isDigit = true := Nat.isDigit_of_mem_toDigits (by decide) (by decide) hd
      rw [decide_eq_true_eq]
      constructor <;> rintro rfl <;> exact absurd hdigit (by decide)
  have hspan : (dotted (a.numbers.map (Nat.toDigits 10)) ++ a.behind).span
    (fun d => d ≠ '-' ∧ d ≠ '+') =
      (dotted (a.numbers.map (Nat.toDigits 10)), a.behind) := by
    rw [List.span_eq_takeWhile_dropWhile, List.takeWhile_append_of_pos hkeep,
      List.dropWhile_append_of_pos hkeep]
    cases hbehind : a.behind with
    | nil => simp
    | cons d r => rcases behind_head a hbehind with rfl | rfl <;> simp
  have hsplit : (dotted (a.numbers.map (Nat.toDigits 10))).splitOn '.' =
      a.numbers.map (Nat.toDigits 10) := by
    refine List.splitOn_intercalate '.' (fun w hw hdot => ?_) (List.cons_ne_nil _ _)
    exact absurd (identChars_numbers a w hw _ hdot) (by decide)
  rw [splitVersion, htrim, hprefix]
  simp only [hspan, hsplit, drop_behind]
  simp [SemVer.numbers, atoiValue_toDigits]

end Text

/-- How `compareVersions` compares two suffixes: no suffix comes last. -/
def suffixCmp (s t : List Char) : Ordering :=
  if s = t then .eq else if s = [] then .gt else if t = [] then .lt else lexCmp s t

private theorem lexCmp_eq_ite {α : Type} [LinearOrder α] (s t : List α) :
    lexCmp s t = if s = t then .eq else if s < t then .lt else .gt := by
  split_ifs with heq hlt
  · exact lexCmp_eq_iff.mpr heq
  · exact lexCmp_lt_iff.mpr hlt
  · cases h : lexCmp s t with
    | eq => exact absurd (lexCmp_eq_iff.mp h) heq
    | lt => exact absurd (lexCmp_lt_iff.mp h) hlt
    | gt => rfl

private theorem compareVersions_text (a b : SemVer) (u v : Bool) :
    compareVersions (a.text u) (b.text v) =
      (lexCmp (a.numbers.map readNumber) (b.numbers.map readNumber)).then
        (suffixCmp a.suffix b.suffix) := by
  have hcast : StrictMono (Nat.cast : ℕ → ℤ) := fun m n h => Int.ofNat_lt.mpr h
  have hmap : ∀ c : SemVer, c.numbers.map (fun n => (readNumber n : ℤ)) =
      (c.numbers.map readNumber).map (Nat.cast : ℕ → ℤ) := fun c => rfl
  rw [compareVersions, splitVersion_text, splitVersion_text, hmap, hmap, ← lexCmp_map hcast]
  generalize (a.numbers.map readNumber).map (Nat.cast : ℕ → ℤ) = x
  generalize (b.numbers.map readNumber).map (Nat.cast : ℕ → ℤ) = y
  have hempty : ∀ s : List Char, String.ofList s = "" ↔ s = [] := fun s => by
    rw [← String.toList_inj, String.toList_ofList]
    rfl
  have hlt : ∀ s t : List Char, String.ofList s < String.ofList t ↔ s < t := fun s t => by
    change (String.ofList s).toList < (String.ofList t).toList ↔ s < t
    rw [String.toList_ofList, String.toList_ofList]
  rw [lexCmp_eq_ite x y, suffixCmp, lexCmp_eq_ite a.suffix b.suffix]
  simp only [String.ofList_inj, hempty, hlt, ne_eq]
  by_cases hxy : x = y
  · simp only [hxy, not_true_eq_false, if_false, if_true, Ordering.then]
    split_ifs <;> rfl
  · simp only [hxy, not_false_eq_true, if_false, if_true]
    split_ifs <;> rfl

/-! ### Identifiers -/

section Identifiers

variable {x y : Ident} {xs ys : List Ident} {m n : List Char}

private theorem digits_lt_of_isPrefix {m n : ℕ} (h : Nat.toDigits 10 m <+: Nat.toDigits 10 n)
    (hne : m ≠ n) : m < n := by
  obtain ⟨r, hr⟩ := h
  have hvalue : Nat.ofDigitChars 10 r m = n := by
    have hread := congrArg (fun ds => Nat.ofDigitChars 10 ds 0) hr
    simpa only [Nat.ofDigitChars_append, Nat.ofDigitChars_ten_toDigits] using hread
  rw [Nat.ofDigitChars_eq_ofDigitChars_zero] at hvalue
  have hpow : 1 ≤ 10 ^ r.length := Nat.one_le_pow _ _ (by decide)
  have hle : m ≤ 10 ^ r.length * m := Nat.le_mul_of_pos_left m hpow
  omega

private theorem Ident.text_inj (h : x.text = y.text) : x = y := by
  have hmixed : ∀ (n : ℕ) (w : Word), (∃ c ∈ w.val, c.isDigit = false) →
      Nat.toDigits 10 n ≠ w.val := by
    rintro n w ⟨c, hc, hdigit⟩ hw
    have hdigit' : c.isDigit = true := Nat.isDigit_of_mem_toDigits (by decide) (by decide) (hw ▸ hc)
    exact absurd (hdigit.symm.trans hdigit') (by decide)
  cases x with
  | number m =>
    cases y with
    | number n =>
      have hread := congrArg (fun ds => Nat.ofDigitChars 10 ds 0) h
      simp only [Ident.text, Nat.ofDigitChars_ten_toDigits] at hread
      rw [hread]
    | word w hw => exact absurd h (hmixed m w hw)
  | word w hw =>
    cases y with
    | number n => exact absurd h.symm (hmixed n w hw)
    | word v hv =>
      obtain rfl : w = v := by
        cases w; cases v
        cases h
        rfl
      rfl

private theorem Ident.order_eq_iff : x.order y = .eq ↔ x = y := by
  cases x with
  | number m =>
    cases y with
    | number n => rw [Ident.order, cmp_eq_eq_iff, Ident.number.injEq]
    | word w hw => simp [Ident.order]
  | word w hw =>
    cases y with
    | number n => simp [Ident.order]
    | word v hv =>
      rw [Ident.order, lexCmp_eq_iff]
      constructor
      · exact fun h => Ident.text_inj h
      · exact fun h => congrArg Ident.text h

/-- An identifier is above those that its text continues. -/
theorem Ident.order_of_isPrefix (h : x.text <+: y.text) (hne : x ≠ y) : x.order y = .lt := by
  cases x with
  | number m =>
    cases y with
    | number n =>
      exact (cmp_eq_lt_iff m n).mpr (digits_lt_of_isPrefix h fun hmn =>
        hne (congrArg Ident.number hmn))
    | word w hw => rfl
  | word w hw =>
    cases y with
    | number n =>
      obtain ⟨c, hc, hdigit⟩ := hw
      have hdigit' : c.isDigit = true :=
        Nat.isDigit_of_mem_toDigits (by decide) (by decide) (h.subset hc)
      exact absurd (hdigit.symm.trans hdigit') (by decide)
    | word v hv => exact lexCmp_of_isPrefix h fun hwv => hne (Ident.text_inj hwv)

private theorem Ident.order_swap (x y : Ident) : (x.order y).swap = y.order x := by
  cases x <;> cases y
  · exact cmp_swap _ _
  · rfl
  · rfl
  · exact lexCmp_swap _ _

/-- What stands behind an identifier: the identifiers that follow, and the metadata. -/
def following (m : List Char) : List Ident → List Char
  | [] => m
  | x :: xs => '.' :: (dotted ((x :: xs).map Ident.text) ++ m)

private theorem dotted_cons (m : List Char) (x : Ident) (xs : List Ident) :
    dotted ((x :: xs).map Ident.text) ++ m = x.text ++ following m xs := by
  cases xs with
  | nil => simp [dotted, following]
  | cons y ys =>
    rw [dotted, List.map_cons, List.map_cons, List.intercalate_cons_cons]
    simp [dotted, following]

/-- Nothing, or what a plus begins. -/
def IsMetadata (m : List Char) : Prop := m = [] ∨ ∃ r, m = '+' :: r

private theorem IsMetadata.lexCmp_lt (hm : IsMetadata m) {c : Char}
    (hc : isIdentChar c = true ∨ c = '.')
    (r : List Char) : lexCmp m (c :: r) = .lt := by
  rcases hm with rfl | ⟨r', rfl⟩
  · rfl
  · have hlt : '+' < c := by
      rcases hc with hc | rfl
      · rcases code_of_isIdentChar hc with rfl | ⟨hlow, -⟩
        · decide
        · exact lt_of_lt_of_le (b := '0') (by decide) hlow
      · decide
    rw [lexCmp_cons_of_ne hlt.ne, cmp_eq_lt_iff]
    exact hlt

/-- Of two identifiers one of which continues the other, the shorter comes first in a text unless a
dot meets a hyphen behind it. -/
theorem lexCmp_following (hm : IsMetadata m) (h : x.text <+: y.text) (hne : x ≠ y) (t : List Char) :
    lexCmp (x.text ++ following m xs) (y.text ++ t) = .lt ↔
      ¬ (x.text ++ ['-'] <+: y.text ∧ xs ≠ []) := by
  obtain ⟨r, hr⟩ := h
  cases r with
  | nil => exact absurd (Ident.text_inj (by simpa using hr)) hne
  | cons c r =>
    have hc : isIdentChar c = true := y.isIdentChar (hr ▸ by simp)
    have hhyphen : x.text ++ ['-'] <+: y.text ↔ c = '-' := by
      rw [← hr, List.prefix_append_right_inj, List.cons_prefix_cons]
      simp [eq_comm]
    rw [hhyphen, ← hr, List.append_assoc, lexCmp_append_left, List.cons_append]
    cases xs with
    | nil =>
      rw [following, hm.lexCmp_lt (Or.inl hc)]
      simp
    | cons x' xs =>
      rw [following]
      rcases code_of_isIdentChar hc with rfl | ⟨hlow, -⟩
      · rw [lexCmp_cons_of_ne (by decide), cmp_eq_lt_iff]
        exact iff_of_false (by decide) fun h => h ⟨rfl, List.cons_ne_nil x' xs⟩
      · have hlt : '.' < c := lt_of_lt_of_le (b := '0') (by decide) hlow
        have hne' : c ≠ '-' := by
          rintro rfl
          exact absurd hlow (by decide)
        rw [lexCmp_cons_of_ne hlt.ne, cmp_eq_lt_iff]
        simp [hlt, hne']

/-- The texts of two pre-releases are ordered as their identifiers are. Of the first identifiers
that differ the texts have to be in the order of the identifiers, and where one continues the other
with a hyphen, no identifier may follow the shorter one. -/
def IdentsAgree (m n : List Char) : List Ident → List Ident → Prop
  | [], [] => m = n
  | [], _ :: _ => True
  | _ :: _, [] => True
  | x :: xs, y :: ys =>
    if x = y then IdentsAgree m n xs ys
    else
      lexCmp x.text y.text = x.order y ∧ ¬ (x.text ++ ['-'] <+: y.text ∧ xs ≠ []) ∧
        ¬ (y.text ++ ['-'] <+: x.text ∧ ys ≠ [])

private theorem not_isPrefix_of_isPrefix {v w : Ident} (h : v.text <+: w.text) :
    ¬ w.text ++ ['-'] <+: v.text := by
  intro hpre
  have hle := h.length_le
  have hlt := hpre.length_le
  rw [List.length_append, List.length_singleton] at hlt
  omega

/-- The first identifiers that differ, when one continues the other. -/
theorem lexCmp_ident_of_prefix (hm : IsMetadata m) (hxy : x.text <+: y.text) (hne : x ≠ y) :
    lexCmp (x.text ++ following m xs) (y.text ++ following n ys) = x.order y ↔
      lexCmp x.text y.text = x.order y ∧ ¬ (x.text ++ ['-'] <+: y.text ∧ xs ≠ []) ∧
        ¬ (y.text ++ ['-'] <+: x.text ∧ ys ≠ []) := by
  have htext : x.text ≠ y.text := fun h => hne (Ident.text_inj h)
  rw [Ident.order_of_isPrefix hxy hne, lexCmp_following hm hxy hne, lexCmp_of_isPrefix hxy htext]
  simp [not_isPrefix_of_isPrefix hxy]

/-- The first identifiers that differ. -/
theorem lexCmp_ident_iff (hm : IsMetadata m) (hn : IsMetadata n) (hne : x ≠ y) :
    lexCmp (x.text ++ following m xs) (y.text ++ following n ys) = x.order y ↔
      lexCmp x.text y.text = x.order y ∧ ¬ (x.text ++ ['-'] <+: y.text ∧ xs ≠ []) ∧
        ¬ (y.text ++ ['-'] <+: x.text ∧ ys ≠ []) := by
  by_cases hxy : x.text <+: y.text
  · exact lexCmp_ident_of_prefix hm hxy hne
  · by_cases hyx : y.text <+: x.text
    · have hswap : ∀ o p : Ordering, o.swap = p.swap ↔ o = p := by decide
      rw [← lexCmp_swap, ← lexCmp_swap y.text, ← Ident.order_swap y, hswap, hswap,
        lexCmp_ident_of_prefix hn hyx (Ne.symm hne)]
      tauto
    · have hx : ¬ x.text ++ ['-'] <+: y.text := fun h => hxy ((List.prefix_append _ _).trans h)
      have hy : ¬ y.text ++ ['-'] <+: x.text := fun h => hyx ((List.prefix_append _ _).trans h)
      rw [lexCmp_append_append hxy hyx]
      simp [hx, hy]

private theorem Ident.order_then (h : x ≠ y) (o : Ordering) : (x.order y).then o = x.order y := by
  cases hxy : x.order y with
  | eq => exact absurd (Ident.order_eq_iff.mp hxy) h
  | lt => rfl
  | gt => rfl

/-- When the texts of what follows are ordered as the identifiers are. -/
theorem lexCmp_following_iff (hm : IsMetadata m) (hn : IsMetadata n) (xs ys : List Ident) :
    lexCmp (following m xs) (following n ys) = identsCmp xs ys ↔ IdentsAgree m n xs ys := by
  induction xs generalizing ys with
  | nil =>
    cases ys with
    | nil => exact lexCmp_eq_iff
    | cons y ys => exact iff_of_true (hm.lexCmp_lt (Or.inr rfl) _) trivial
  | cons x xs ih =>
    cases ys with
    | nil =>
      refine iff_of_true ?_ trivial
      rw [← lexCmp_swap, following, following, hn.lexCmp_lt (Or.inr rfl)]
      rfl
    | cons y ys =>
      rw [following, following, lexCmp_cons_self, dotted_cons, dotted_cons, identsCmp, IdentsAgree]
      split_ifs with hxy
      · subst hxy
        rw [lexCmp_append_left, Ident.order_eq_iff.mpr rfl, Ordering.then, ih]
      · rw [Ident.order_then hxy, lexCmp_ident_iff hm hn hxy]

/-- When the texts of two pre-releases are ordered as their identifiers are. -/
theorem lexCmp_dotted_iff (hm : IsMetadata m) (hn : IsMetadata n) (x y : Ident)
    (xs ys : List Ident) :
    lexCmp (dotted ((x :: xs).map Ident.text) ++ m) (dotted ((y :: ys).map Ident.text) ++ n) =
      identsCmp (x :: xs) (y :: ys) ↔ IdentsAgree m n (x :: xs) (y :: ys) := by
  rw [← lexCmp_following_iff hm hn, following, following, lexCmp_cons_self]

end Identifiers

/-! ### Which versions are ordered by precedence -/

namespace SemVer

variable (a b : SemVer)

/-- The suffixes of two versions with the same numbers are ordered as the versions are. -/
def SuffixAgrees : Prop :=
  match a.pre, b.pre with
  | [], [] => dotted (a.build.map Word.val) = dotted (b.build.map Word.val)
  | [], _ :: _ => a.build = [] ∨ b.suffix < a.suffix
  | _ :: _, [] => b.build = [] ∨ a.suffix < b.suffix
  | xs, ys => IdentsAgree a.metadata b.metadata xs ys

/-- Of the first numbers that differ, one at least is below the greatest `int`. -/
def Told : List ℕ → List ℕ → Prop
  | m :: s, n :: t => if m = n then Told s t else m < 2 ^ 63 - 1 ∨ n < 2 ^ 63 - 1
  | _, _ => False

/-- The number is read as the greatest `int`. -/
def TooGreat (n : ℕ) : Prop := 2 ^ 63 - 1 ≤ n

/-- Numbers that are read alike. -/
def Alike : List ℕ → List ℕ → Prop := List.Forall₂ fun m n => m = n ∨ (TooGreat m ∧ TooGreat n)

/-- The first of the numbers that are not read alike is smaller on the left. -/
def Below : List ℕ → List ℕ → Prop
  | m :: s, n :: t => (m < n ∧ ¬ TooGreat m) ∨ ((m = n ∨ (TooGreat m ∧ TooGreat n)) ∧ Below s t)
  | _, _ => False

/-- A suffix comes before another, as a text or because there is no other. -/
def SuffixBelow (p q : List Char) : Prop := p ≠ [] ∧ (q = [] ∨ p < q)

/-- Of the first numbers that differ both are read as the greatest `int`, and what stands behind
them is in their order: the later numbers, or the suffixes `p` and `q` behind those that are read
alike. -/
def Hidden (p q : List Char) : List ℕ → List ℕ → Prop
  | m :: s, n :: t =>
    if m = n then Hidden p q s t
    else TooGreat m ∧ TooGreat n ∧
      if m < n then Below s t ∨ (Alike s t ∧ SuffixBelow p q)
      else Below t s ∨ (Alike t s ∧ SuffixBelow q p)
  | _, _ => False

private theorem isMetadata : IsMetadata a.metadata := by
  rw [metadata]
  split_ifs
  · exact Or.inl rfl
  · exact Or.inr ⟨_, rfl⟩

private theorem dotted_ne_nil {l : List (List Char)} (hl : l ≠ []) (hne : ∀ w ∈ l, w ≠ []) :
    dotted l ≠ [] := by
  obtain ⟨w, l, rfl⟩ := List.exists_cons_of_ne_nil hl
  have hw := hne w List.mem_cons_self
  cases l with
  | nil => simpa [dotted] using hw
  | cons v l => simp [dotted, List.intercalate_cons_cons]

private theorem suffix_ne_nil_of_pre (h : a.pre ≠ []) : a.suffix ≠ [] := by
  rw [suffix, if_neg h, ne_eq, List.append_eq_nil_iff, not_and]
  intro hnil
  refine absurd hnil (dotted_ne_nil (by simpa using h) fun w hw => ?_)
  obtain ⟨x, -, rfl⟩ := List.mem_map.mp hw
  exact x.text_ne_nil

private theorem suffix_eq_nil_iff (h : a.pre = []) : a.suffix = [] ↔ a.build = [] := by
  rw [suffix, if_pos h]
  constructor
  · intro hnil
    by_contra hb
    refine dotted_ne_nil (by simpa using hb) (fun w hw => ?_) hnil
    obtain ⟨x, -, rfl⟩ := List.mem_map.mp hw
    exact x.ne
  · intro hb
    rw [hb]
    rfl

private theorem suffixCmp_eq_iff {s t : List Char} : suffixCmp s t = .eq ↔ s = t := by
  rw [suffixCmp]
  split_ifs with hst hs ht
  · exact iff_of_true rfl hst
  · exact iff_of_false (by decide) hst
  · exact iff_of_false (by decide) hst
  · exact lexCmp_eq_iff

/-- No suffix is above every suffix, and otherwise the texts are compared. -/
theorem suffixCmp_gt_iff {s t : List Char} (ht : t ≠ []) : suffixCmp s t = .gt ↔ s = [] ∨
    t < s := by
  rw [suffixCmp]
  split_ifs with hst hs
  · subst hst
    simp [ht]
  · simp [hs]
  · rw [← lexCmp_lt_iff, ← lexCmp_swap s t]
    cases h : lexCmp s t <;> simp [hs]

private theorem suffixCmp_lt_iff {s t : List Char} (hs : s ≠ []) : suffixCmp s t = .lt ↔ t = [] ∨
    s < t := by
  rw [suffixCmp]
  split_ifs with hst ht
  · subst hst
    simp [hs]
  · simp [ht]
  · rw [← lexCmp_lt_iff]
    simp [ht]

private theorem suffixCmp_eq_lexCmp {s t : List Char} (hs : s ≠ []) (ht : t ≠ []) :
    suffixCmp s t = lexCmp s t := by
  rw [suffixCmp, if_neg hs, if_neg ht]
  split_ifs with hst
  · rw [hst, lexCmp_self]
  · rfl

private theorem suffixCmp_iff : suffixCmp a.suffix b.suffix = preCmp a.pre b.pre ↔
    a.SuffixAgrees b := by
  rw [SuffixAgrees]
  cases ha : a.pre with
  | nil =>
    cases hb : b.pre with
    | nil =>
      rw [preCmp, suffixCmp_eq_iff, suffix, suffix, if_pos ha, if_pos hb]
    | cons y ys =>
      have hne : b.suffix ≠ [] := b.suffix_ne_nil_of_pre (by simp [hb])
      rw [preCmp, suffixCmp_gt_iff hne, suffix_eq_nil_iff a ha]
  | cons x xs =>
    have hne : a.suffix ≠ [] := a.suffix_ne_nil_of_pre (by simp [ha])
    cases hb : b.pre with
    | nil => rw [preCmp, suffixCmp_lt_iff hne, suffix_eq_nil_iff b hb]
    | cons y ys =>
      have hne' : b.suffix ≠ [] := b.suffix_ne_nil_of_pre (by simp [hb])
      rw [suffixCmp_eq_lexCmp hne hne', suffix, suffix, if_neg (by simp [ha]),
        if_neg (by simp [hb]), ha, hb]
      exact lexCmp_dotted_iff a.isMetadata b.isMetadata x y xs ys

private theorem cmp_readNumber {m n : ℕ} (hmn : m ≠ n) (h : m < 2 ^ 63 - 1 ∨ n < 2 ^ 63 - 1) :
    readNumber m ≠ readNumber n ∧ cmp (readNumber m) (readNumber n) = cmp m n := by
  rw [readNumber, readNumber]
  refine ⟨by omega, ?_⟩
  rcases lt_or_gt_of_ne hmn with hlt | hlt
  · rw [(cmp_eq_lt_iff m n).mpr hlt, cmp_eq_lt_iff]
    omega
  · rw [(cmp_eq_gt_iff m n).mpr hlt, cmp_eq_gt_iff]
    omega

private theorem then_eq_self {o : Ordering} (h : o ≠ .eq) (p : Ordering) : o.then p = o := by
  cases o with
  | eq => exact absurd rfl h
  | lt => rfl
  | gt => rfl

private theorem readNumber_eq_iff {m n : ℕ} :
    readNumber m = readNumber n ↔ m = n ∨ (TooGreat m ∧ TooGreat n) := by
  unfold readNumber TooGreat
  omega

private theorem readNumber_lt_iff {m n : ℕ} : readNumber m < readNumber n ↔ m < n ∧
    ¬ TooGreat m := by
  unfold readNumber TooGreat
  omega

private theorem not_told_self (s : List ℕ) : ¬ Told s s := by
  induction s with
  | nil => exact id
  | cons m s ih => simpa [Told] using ih

private theorem not_hidden_self (p q : List Char) (s : List ℕ) : ¬ Hidden p q s s := by
  induction s with
  | nil => exact id
  | cons m s ih => simpa [Hidden] using ih

section Hidden

variable {p q : List Char} {s t : List ℕ}

private theorem suffixCmp_swap (p q : List Char) : (suffixCmp p q).swap = suffixCmp q p := by
  by_cases hpq : p = q
  · simp [suffixCmp, hpq]
  by_cases hp : p = []
  · simp [suffixCmp, hp, hp ▸ Ne.symm hpq, hp ▸ hpq]
  by_cases hq : q = []
  · simp [suffixCmp, hq, hp, Ne.symm hp]
  · simp [suffixCmp, hpq, Ne.symm hpq, hp, hq, lexCmp_swap]

private theorem suffixCmp_eq_lt_iff : suffixCmp p q = .lt ↔ SuffixBelow p q := by
  by_cases hp : p = []
  · subst hp
    refine iff_of_false (fun h => ?_) fun h => h.1 rfl
    rw [suffixCmp, if_pos (rfl : ([] : List Char) = [])] at h
    split_ifs at h
  · rw [suffixCmp_lt_iff hp, SuffixBelow, and_iff_right hp]

/-- What is read of two lists of numbers with suffixes is in order. -/
theorem then_suffixCmp_eq_lt_iff (hlen : s.length = t.length) :
    (lexCmp (s.map readNumber) (t.map readNumber)).then (suffixCmp p q) = .lt ↔
      Below s t ∨ (Alike s t ∧ SuffixBelow p q) := by
  rw [Ordering.then_eq_lt, suffixCmp_eq_lt_iff]
  refine or_congr ?_ (and_congr_left fun _ => ?_)
  · induction s generalizing t with
    | nil =>
      obtain rfl := List.length_eq_zero_iff.mp hlen.symm
      simp [Below]
    | cons m s ih =>
      obtain ⟨n, t, rfl⟩ := List.exists_cons_of_length_eq_add_one hlen.symm
      rw [List.map_cons, List.map_cons, lexCmp_cons_cons, Ordering.then_eq_lt, cmp_eq_lt_iff,
        cmp_eq_eq_iff, readNumber_lt_iff, readNumber_eq_iff, ih (Nat.succ.inj hlen), Below]
  · rw [lexCmp_eq_iff, ← List.forall₂_eq_eq_eq, List.forall₂_map_left_iff,
      List.forall₂_map_right_iff, Alike]
    simp only [readNumber_eq_iff]

/-- With different numbers what is read is in the order of the versions exactly when the numbers
tell it or hide it behind numbers in their order. -/
theorem then_suffixCmp_eq_iff (hlen : s.length = t.length) (hne : s ≠ t) :
    (lexCmp (s.map readNumber) (t.map readNumber)).then (suffixCmp p q) = lexCmp s t ↔
      Told s t ∨ Hidden p q s t := by
  induction s generalizing t with
  | nil => exact absurd (List.length_eq_zero_iff.mp hlen.symm).symm hne
  | cons m s ih =>
    obtain ⟨n, t, rfl⟩ := List.exists_cons_of_length_eq_add_one hlen.symm
    have hlen' : s.length = t.length := Nat.succ.inj hlen
    rw [List.map_cons, List.map_cons, Told, Hidden]
    by_cases hmn : m = n
    · subst hmn
      rw [lexCmp_cons_self, lexCmp_cons_self, if_pos rfl, if_pos rfl]
      exact ih hlen' fun heq => hne (congrArg _ heq)
    rw [if_neg hmn, if_neg hmn, lexCmp_cons_of_ne hmn]
    have hcmp : cmp m n ≠ .eq := fun h => hmn ((cmp_eq_eq_iff m n).mp h)
    by_cases htold : m < 2 ^ 63 - 1 ∨ n < 2 ^ 63 - 1
    · obtain ⟨hread, heq⟩ := cmp_readNumber hmn htold
      rw [lexCmp_cons_of_ne hread, heq, then_eq_self hcmp]
      exact iff_of_true rfl (.inl htold)
    -- both are read as the greatest `int`, and what comes next decides
    obtain ⟨hm, hn⟩ : TooGreat m ∧ TooGreat n := by
      unfold TooGreat
      omega
    rw [readNumber_eq_iff.mpr (.inr ⟨hm, hn⟩), lexCmp_cons_self, or_iff_right htold,
      and_iff_right hm, and_iff_right hn]
    by_cases hlt : m < n
    · rw [if_pos hlt, (cmp_eq_lt_iff m n).mpr hlt, then_suffixCmp_eq_lt_iff hlen']
    · have hgt : n < m := lt_of_le_of_ne (not_lt.mp hlt) (Ne.symm hmn)
      have hswap : ∀ o : Ordering, o = .gt ↔ o.swap = .lt := by decide
      rw [if_neg hlt, (cmp_eq_gt_iff m n).mpr hgt, hswap, Ordering.swap_then, lexCmp_swap,
        suffixCmp_swap, then_suffixCmp_eq_lt_iff hlen'.symm]

end Hidden

/-- Which versions are compared by their precedence: with the same numbers those whose suffixes
agree, and with others those whose first numbers that differ are not both as great as the greatest
`int`, or are both and have behind them later numbers, or suffixes, that are in their order. -/
theorem compareVersions_iff (u v : Bool) :
    compareVersions (a.text u) (b.text v) = a.precedence b ↔
      (a.numbers = b.numbers ∧ a.SuffixAgrees b) ∨ Told a.numbers b.numbers ∨
        Hidden a.suffix b.suffix a.numbers b.numbers := by
  rw [compareVersions_text, precedence]
  by_cases hnumbers : a.numbers = b.numbers
  · rw [hnumbers, lexCmp_self, lexCmp_self, Ordering.then, Ordering.then, suffixCmp_iff]
    simp [not_told_self, not_hidden_self]
  · have hne : lexCmp a.numbers b.numbers ≠ .eq := fun h => hnumbers (lexCmp_eq_iff.mp h)
    have hlen : a.numbers.length = b.numbers.length := rfl
    rw [then_eq_self hne, then_suffixCmp_eq_iff hlen hnumbers]
    simp [hnumbers]

end SemVer

/-- The ninth release candidate comes after the tenth. -/
theorem rc_ten_below_nine : ¬ ∀ (a b : SemVer) (u v : Bool),
    compareVersions (a.text u) (b.text v) = a.precedence b := by
  intro h
  let rc (n : ℕ) : SemVer :=
    ⟨1, 0, 0, [.word ⟨['r', 'c'], by decide, List.all_iff_forall_prop.mp (by decide)⟩
      ⟨'r', by decide, by decide⟩, .number n], []⟩
  have hcmp := h (rc 10) (rc 9) false false
  revert hcmp
  decide +kernel

end Dockhand.System
