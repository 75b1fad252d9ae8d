import Dockhand.Go.Strings
import Mathlib.Algebra.Ring.Nat

/-!
# Strings as bytes

A Go string is a list of bytes, each written as the character of its code. `runes` are the code
points that a loop over the string sees, and `equalFold` compares them without regard to case.
Bytes below 128 are code points of their own and end every sequence that is not complete, so two
strings that are equal under folding can be cut at a mark of punctuation together:
`exists_eq_append_of_folded_eq`.
-/

namespace Go

/-- How many bytes follow a first byte, and the range of the next one. -/
def following (b : Char) : ℕ × ℕ × ℕ :=
  let n := b.toNat
  if 0xC2 ≤ n ∧ n ≤ 0xDF then (1, 0x80, 0xBF)
  else if n = 0xE0 then (2, 0xA0, 0xBF)
  else if n = 0xED then (2, 0x80, 0x9F)
  else if 0xE1 ≤ n ∧ n ≤ 0xEF then (2, 0x80, 0xBF)
  else if n = 0xF0 then (3, 0x90, 0xBF)
  else if 0xF1 ≤ n ∧ n ≤ 0xF3 then (3, 0x80, 0xBF)
  else if n = 0xF4 then (3, 0x80, 0x8F)
  else (0, 0, 0)

/-- The bytes after a first byte go on with its sequence. -/
def continues (low high : ℕ) : List Char → Bool
  | [] => true
  | c :: cs => low ≤ c.toNat && c.toNat ≤ high && continues 0x80 0xBF cs

/-- `utf8.DecodeRuneInString`: the code point and how many bytes it takes after the first one. A
byte that begins no sequence is a replacement character. -/
def decodeRune (b : Char) (s : List Char) : ℕ × ℕ :=
  let (n, low, high) := following b
  if b.toNat < 0x80 then (b.toNat, 0)
  else if n ≠ 0 ∧ n ≤ s.length ∧ continues low high (s.take n) then
    ((s.take n).foldl (fun r c => 64 * r + c.toNat % 64) (b.toNat % 2 ^ (6 - n)), n)
  else (0xFFFD, 0)

/-- The code points of a string behind so many bytes of a sequence that has begun. -/
def runes : ℕ → List Char → List ℕ
  | _, [] => []
  | 0, b :: s => (decodeRune b s).1 :: runes (decodeRune b s).2 s
  | k + 1, _ :: s => runes k s

/-- A code point without its case. The orbit of a letter has a letter that is not ASCII in two
cases: the Kelvin sign and the long s. The orbits of the code points that remain are numbered by
`orbit`. -/
def foldRune (orbit : ℕ → ℕ) (r : ℕ) : ℕ :=
  if r = 0x212A then 'k'.toNat
  else if r = 0x17F then 's'.toNat
  else if r < 128 then (if 65 ≤ r ∧ r ≤ 90 then r + 32 else r)
  else 128 + orbit r

/-- The code points of a string without their case. -/
def folded (orbit : ℕ → ℕ) (s : List Char) : List ℕ := (runes 0 s).map (foldRune orbit)

/-- `strings.EqualFold`. -/
def equalFold (orbit : ℕ → ℕ) (s t : List Char) : Bool := folded orbit s = folded orbit t

/-- Which bytes belong to a space, behind so many bytes of a code point. -/
def spaceMarks : ℕ → Bool → List Char → List Bool
  | _, _, [] => []
  | 0, _, b :: s =>
    let (r, n) := decodeRune b s
    isSpace (Char.ofNat r) :: spaceMarks n (isSpace (Char.ofNat r)) s
  | k + 1, mark, _ :: s => mark :: spaceMarks k mark s

/-- What stands between the elements that are marked at both ends. -/
def trimMarked {α : Type} (marks : List Bool) (s : List α) : List α :=
  (((s.zip marks).dropWhile Prod.snd).rdropWhile Prod.snd).map Prod.fst

/-- `strings.TrimSpace` on bytes. -/
def trimSpaceUtf8 (s : List Char) : List Char := trimMarked (spaceMarks 0 false s) s

/-- `strings.TrimPrefix` on bytes. -/
def trimPrefixList (p s : List Char) : List Char := if p.isPrefixOf s then s.drop p.length else s

/-- `strings.TrimSuffix` on bytes. -/
def trimSuffixList (p s : List Char) : List Char :=
  if p.isSuffixOf s then s.take (s.length - p.length) else s

theorem trimPrefixList_append (p s : List Char) : trimPrefixList p (p ++ s) = s := by
  rw [trimPrefixList, if_pos (List.isPrefixOf_iff_prefix.mpr (List.prefix_append p s)),
    List.drop_left]

theorem trimPrefixList_eq_self {p s : List Char} (h : ¬ p <+: s) : trimPrefixList p s = s :=
  if_neg fun hpre => h (List.isPrefixOf_iff_prefix.mp hpre)

theorem trimPrefixList_suffix (p s : List Char) : trimPrefixList p s <:+ s := by
  unfold trimPrefixList
  split
  · exact List.drop_suffix _ _
  · exact List.suffix_refl s

theorem trimSuffixList_append (p s : List Char) : trimSuffixList p (s ++ p) = s := by
  rw [trimSuffixList, if_pos (List.isSuffixOf_iff_suffix.mpr (List.suffix_append s p)),
    List.length_append, Nat.add_sub_cancel, List.take_left]

theorem trimSuffixList_of_not_suffix {p s : List Char} (h : ¬ p <:+ s) : trimSuffixList p s = s :=
  if_neg fun hsuffix => h (List.isSuffixOf_iff_suffix.mp hsuffix)

/-- What has been trimmed off. -/
theorem exists_trimSuffixList (p s : List Char) :
    ∃ g, s = trimSuffixList p s ++ g ∧ (g = p ∨ g = [] ∧ ¬ p <:+ s) := by
  by_cases h : p <:+ s
  · obtain ⟨t, rfl⟩ := h
    exact ⟨p, by rw [trimSuffixList_append], Or.inl rfl⟩
  · exact ⟨[], by rw [trimSuffixList_of_not_suffix h, List.append_nil], Or.inr ⟨rfl, h⟩⟩

/-! ### Marks -/

/-- A character of ASCII that is no letter. -/
def IsMark (x : Char) : Prop := x.toNat < 128 ∧ ¬ (65 ≤ x.toNat ∧ x.toNat ≤ 90) ∧
  ¬ (97 ≤ x.toNat ∧ x.toNat ≤ 122)

instance (x : Char) : Decidable (IsMark x) := inferInstanceAs (Decidable (_ ∧ _))

variable {orbit : ℕ → ℕ} {x : Char} {s t a c : List Char}

private theorem foldRune_eq_mark (hx : IsMark x) {r : ℕ} : foldRune orbit r = x.toNat ↔
    r = x.toNat := by
  obtain ⟨hascii, hupper, hlower⟩ := hx
  have hk : 'k'.toNat = 107 := rfl
  have hs : 's'.toNat = 115 := rfl
  unfold foldRune
  split_ifs <;> omega

theorem decodeRune_ascii (hx : x.toNat < 128) : decodeRune x s = (x.toNat, 0) := by
  simp [decodeRune, hx]

/-- A byte of a sequence that goes on is not ASCII. -/
theorem continues_append_ascii (hx : x.toNat < 128) {low high : ℕ} (hlow : 128 ≤ low) :
    continues low high (a ++ x :: c) = false := by
  induction a generalizing low high with
  | nil =>
    simp only [List.nil_append, continues, Bool.and_eq_false_iff, decide_eq_false_iff_not]
    left; left
    omega
  | cons y a ih => simp [continues, ih (le_refl 128)]

private theorem following_low {b : Char} (h : (following b).1 ≠ 0) : 128 ≤ (following b).2.1 := by
  revert h
  simp only [following]
  split_ifs <;> simp

/-- A sequence ends before a byte of ASCII. -/
theorem decodeRune_append (hx : x.toNat < 128) (b : Char) (a c : List Char) :
    decodeRune b (a ++ x :: c) = decodeRune b a ∧ (decodeRune b a).2 ≤ a.length := by
  have hfollowing := following_low (b := b)
  simp only [decodeRune]
  generalize following b = f at hfollowing
  obtain ⟨n, low, high⟩ := f
  by_cases hb : b.toNat < 0x80
  · simp [hb]
  by_cases hlen : n ≤ a.length
  · -- the whole sequence stands before the byte
    rw [List.take_append_of_le_length hlen]
    refine ⟨by simp [hb, hlen, Nat.le_add_right_of_le hlen], ?_⟩
    split_ifs
    · exact hlen
    · exact Nat.zero_le _
  · have hcut : ¬ (n ≠ 0 ∧ n ≤ (a ++ x :: c).length ∧
        continues low high ((a ++ x :: c).take n) = true) := by
      rintro ⟨hn, -, hcont⟩
      obtain ⟨k, hk⟩ : ∃ k, n - a.length = k + 1 := Nat.exists_eq_succ_of_ne_zero (by omega)
      rw [List.take_append, List.take_of_length_le (by omega), hk, List.take_succ_cons,
        continues_append_ascii hx (hfollowing hn)] at hcont
      cases hcont
    have hshort : ¬ (n ≠ 0 ∧ n ≤ a.length ∧ continues low high (a.take n) = true) :=
      fun h => hlen h.2.1
    rw [if_neg hb, if_neg hcut, if_neg hb, if_neg hshort]
    exact ⟨rfl, Nat.zero_le _⟩

private theorem le_foldl (cs : List Char) (r : ℕ) :
    64 ^ cs.length * r ≤ cs.foldl (fun r c => 64 * r + c.toNat % 64) r := by
  induction cs generalizing r with
  | nil => simp
  | cons c cs ih =>
    calc 64 ^ (c :: cs).length * r = 64 ^ cs.length * (64 * r) := by
          rw [List.length_cons, Nat.pow_succ, Nat.mul_assoc]
      _ ≤ 64 ^ cs.length * (64 * r + c.toNat % 64) := Nat.mul_le_mul_left _ (Nat.le_add_right ..)
      _ ≤ _ := ih _

/-- The first two bytes of a sequence stand for enough that it is not written in fewer. -/
theorem le_of_following {b c : Char} {n low high : ℕ} (h : following b = (n, low, high))
    (hn : n ≠ 0) (hlow : low ≤ c.toNat) (hhigh : c.toNat ≤ high) :
    n = 1 ∧ 128 ≤ 64 * (b.toNat % 2 ^ (6 - n)) + c.toNat % 64 ∨
      1 < n ∧ 2 ≤ 64 * (b.toNat % 2 ^ (6 - n)) + c.toNat % 64 := by
  simp only [following] at h
  split_ifs at h <;> obtain ⟨rfl, rfl, rfl⟩ : _ ∧ _ ∧ _ := by simpa using h
  all_goals simp only [Nat.reduceSub, Nat.reducePow, true_and]
  all_goals omega

/-- The code point of a byte that is not ASCII is not ASCII. -/
theorem ascii_of_decodeRune {b : Char} (h : (decodeRune b s).1 < 128) : b.toNat < 128 := by
  by_contra hb
  obtain ⟨⟨n, low, high⟩, hf⟩ : ∃ f, following b = f := ⟨_, rfl⟩
  simp only [decodeRune, hf, if_neg hb] at h
  split_ifs at h with hseq
  · obtain ⟨hn, hlen, hcont⟩ := hseq
    obtain ⟨k, rfl⟩ : ∃ k, n = k + 1 := Nat.exists_eq_succ_of_ne_zero hn
    cases s with
    | nil => simp at hlen
    | cons c s =>
      simp only [List.take_succ_cons, continues, Bool.and_eq_true, decide_eq_true_eq,
        List.foldl_cons] at hcont h
      have hle := le_foldl (s.take k) (64 * (b.toNat % 2 ^ (6 - (k + 1))) + c.toNat % 64)
      rw [List.length_take_of_le (by simpa using hlen)] at hle
      rcases le_of_following hf hn hcont.1.1 hcont.1.2 with ⟨hone, hge⟩ | ⟨hmore, hge⟩
      · obtain rfl : k = 0 := by omega
        rw [List.take_zero, List.foldl_nil] at h
        omega
      · have hpow : 64 ≤ 64 ^ k := Nat.le_self_pow (by omega) 64
        have hmul := Nat.mul_le_mul hpow hge
        omega
  · simp at h

/-- What stands before a byte of ASCII and what stands after it are read on their own. -/
theorem runes_append (hx : x.toNat < 128) {k : ℕ} (hk : k ≤ a.length) :
    runes k (a ++ x :: c) = runes k a ++ x.toNat :: runes 0 c := by
  induction a generalizing k with
  | nil =>
    obtain rfl := Nat.le_zero.mp hk
    simp [runes, decodeRune_ascii hx]
  | cons b a ih =>
    cases k with
    | zero =>
      obtain ⟨heq, hle⟩ := decodeRune_append hx b a c
      simp [runes, heq, ih hle]
    | succ k => simpa [runes] using ih (Nat.le_of_succ_le_succ hk)

/-- A code point of ASCII is a byte of the string. -/
theorem exists_of_runes_eq_append {k n : ℕ} {p q : List ℕ} (hn : n < 128)
    (h : runes k s = p ++ n :: q) : ∃ a x c, s = a ++ x :: c ∧ x.toNat = n ∧ k ≤ a.length ∧
      runes k a = p ∧ runes 0 c = q := by
  induction s generalizing k p with
  | nil => simp [runes] at h
  | cons b s ih =>
    cases k with
    | succ k =>
      obtain ⟨a, x, c, rfl, hxn, hk, hp, hq⟩ := ih (k := k) (p := p) (by simpa [runes] using h)
      exact ⟨b :: a, x, c, rfl, hxn, by simpa using hk, by simpa [runes] using hp, hq⟩
    | zero =>
      simp only [runes] at h
      cases p with
      | nil =>
        obtain ⟨hr, hrest⟩ := List.cons.inj h
        have hb := ascii_of_decodeRune (hr ▸ hn)
        rw [decodeRune_ascii hb] at hr hrest
        exact ⟨[], b, s, rfl, hr, le_refl 0, rfl, hrest⟩
      | cons r p =>
        obtain ⟨hr, hrest⟩ := List.cons.inj h
        obtain ⟨a, x, c, rfl, hxn, hk, hp, hq⟩ := ih hrest
        obtain ⟨heq, -⟩ := decodeRune_append (hxn ▸ hn) b a c
        rw [heq] at hr hp
        refine ⟨b :: a, x, c, rfl, hxn, Nat.zero_le _, ?_, hq⟩
        rw [runes, hr, hp]

/-! ### Folding -/

@[simp] theorem folded_nil : folded orbit [] = [] := rfl

theorem folded_append (hx : IsMark x) :
    folded orbit (a ++ x :: c) = folded orbit a ++ x.toNat :: folded orbit c := by
  rw [folded, runes_append hx.1 (Nat.zero_le _), List.map_append, List.map_cons,
    (foldRune_eq_mark hx).mpr rfl, folded, folded]

/-- A mark of the folded string is a mark of the string. -/
theorem exists_of_folded_eq_append (hx : IsMark x) {p q : List ℕ}
    (h : folded orbit s = p ++ x.toNat :: q) :
    ∃ a c, s = a ++ x :: c ∧ folded orbit a = p ∧ folded orbit c = q := by
  obtain ⟨p', q', hruns, rfl, hq⟩ := List.map_eq_append_iff.mp h
  obtain ⟨r, q'', rfl, hr, rfl⟩ := List.map_eq_cons_iff.mp hq
  obtain rfl := (foldRune_eq_mark hx).mp hr
  obtain ⟨a, y, c, rfl, hy, -, rfl, rfl⟩ := exists_of_runes_eq_append hx.1 hruns
  obtain rfl : y = x := Char.toNat_inj.mp hy
  exact ⟨a, c, rfl, rfl, rfl⟩

/-- **Cutting at a mark.** Strings that are equal under folding have the same marks. -/
theorem exists_eq_append_of_folded_eq (hx : IsMark x)
    (h : folded orbit (a ++ x :: c) = folded orbit t) :
    ∃ a' c', t = a' ++ x :: c' ∧ folded orbit a = folded orbit a' ∧
      folded orbit c = folded orbit c' := by
  rw [folded_append hx] at h
  obtain ⟨a', c', ht, ha, hc⟩ := exists_of_folded_eq_append hx h.symm
  exact ⟨a', c', ht, ha.symm, hc.symm⟩

theorem mem_iff_of_folded_eq (hx : IsMark x) (h : folded orbit s = folded orbit t) :
    x ∈ s ↔ x ∈ t := by
  suffices hone : ∀ {s t : List Char}, folded orbit s = folded orbit t → x ∈ s → x ∈ t from
    ⟨hone h, hone h.symm⟩
  intro s t h hmem
  obtain ⟨a, c, rfl⟩ := List.append_of_mem hmem
  obtain ⟨a', c', rfl, -, -⟩ := exists_eq_append_of_folded_eq hx h
  simp

theorem folded_eq_nil : folded orbit s = [] ↔ s = [] := by
  cases s <;> simp [folded, runes]

theorem runes_of_ascii (h : ∀ c ∈ s, c.toNat < 128) : runes 0 s = s.map Char.toNat := by
  induction s with
  | nil => rfl
  | cons b s ih =>
    obtain ⟨hb, hs⟩ := List.forall_mem_cons.mp h
    rw [runes, decodeRune_ascii hb, ih hs, List.map_cons]

private theorem foldRune_lt {r : ℕ} (h : foldRune orbit r < 128) (hk : foldRune orbit r ≠ 'k'.toNat)
    (hs : foldRune orbit r ≠ 's'.toNat) : r < 128 := by
  unfold foldRune at h hk hs
  split_ifs at h hk hs <;> first | assumption | contradiction | omega

/-- A string that is equal to one of ASCII under folding is of ASCII, too, unless there is a letter
in it that is equal to one of another alphabet. -/
theorem ascii_of_folded (h : ∀ n ∈ folded orbit s, n < 128 ∧ n ≠ 'k'.toNat ∧ n ≠ 's'.toNat) :
    ∀ c ∈ s, c.toNat < 128 := by
  induction s with
  | nil => simp
  | cons b s ih =>
    rw [folded, runes, List.map_cons] at h
    obtain ⟨⟨hlt, hk, hs⟩, hrest⟩ := List.forall_mem_cons.mp h
    have hb := ascii_of_decodeRune (foldRune_lt hlt hk hs)
    rw [decodeRune_ascii hb] at hrest
    exact List.forall_mem_cons.mpr ⟨hb, ih hrest⟩

end Go
