import Dockhand.Go.Utf8
import Mathlib.Data.List.DropRight

/-!
# Writing code points, and trimming bytes

What a loop over the code points of a string writes, `reencode`, is the string with every byte that
begins no sequence replaced: what is written in UTF-8 comes through, and nothing else does
(`reencode_eq_self_iff`). A string can be cut at a character of ASCII before or after
(`reencode_append`). `trimSpaceUtf8_pad` trims a text between blanks.
-/

namespace Go

/-- `utf8.EncodeRune`: the bytes of a code point, or of the replacement character. -/
def encodeRune (r : ℕ) : List Char :=
  if r < 0x80 then [Char.ofNat r]
  else if r < 0x800 then [Char.ofNat (0xC0 + r / 64), Char.ofNat (0x80 + r % 64)]
  else if 0xD800 ≤ r ∧ r ≤ 0xDFFF ∨ 0x10FFFF < r then
    [Char.ofNat 0xEF, Char.ofNat 0xBF, Char.ofNat 0xBD]
  else if r < 0x10000 then
    [Char.ofNat (0xE0 + r / 4096), Char.ofNat (0x80 + r / 64 % 64), Char.ofNat (0x80 + r % 64)]
  else
    [Char.ofNat (0xF0 + r / 262144), Char.ofNat (0x80 + r / 4096 % 64),
      Char.ofNat (0x80 + r / 64 % 64), Char.ofNat (0x80 + r % 64)]

/-- What is written by a loop over the code points of a string. -/
def reencode (s : List Char) : List Char := (runes 0 s).flatMap encodeRune

/-- `strings.ToLower` on bytes, where `lower` is `unicode.ToLower` of the code points that are not
ASCII. -/
def toLowerUtf8 (lower : ℕ → ℕ) (s : List Char) : List Char :=
  (runes 0 s).flatMap fun r =>
    encodeRune (if r < 128 then (if 65 ≤ r ∧ r ≤ 90 then r + 32 else r) else lower r)

/-- A string that is written in UTF-8. A character is a code point that is no surrogate. -/
def IsUtf8 (s : List Char) : Prop := ∃ t : List Char, s = t.flatMap fun c => encodeRune c.toNat

variable {x y : Char} {s a c : List Char}

private theorem toNat_ofNat_of_isValidChar {n : ℕ} (h : n.isValidChar) :
    (Char.ofNat n).toNat = n := by
  rw [Char.ofNat, dif_pos h]
  rfl

private theorem toNat_ofNat {n : ℕ} (h : n < 256) : (Char.ofNat n).toNat = n :=
  toNat_ofNat_of_isValidChar (Or.inl (by omega))

theorem encodeRune_toNat (hx : x.toNat < 128) : encodeRune x.toNat = [x] := by
  rw [encodeRune, if_pos hx, Char.ofNat_toNat]

/-- ASCII is written for ASCII only. -/
theorem eq_of_mem_encodeRune {r : ℕ} (hx : x.toNat < 128) (h : x ∈ encodeRune r) : r = x.toNat := by
  by_cases hr : r < 0x80
  · rw [encodeRune, if_pos hr, List.mem_singleton] at h
    rw [h, toNat_ofNat (by omega)]
  · -- every byte that is written has its first bit set
    have hbyte : ∀ n, 128 ≤ n ∧ n < 256 → x ≠ Char.ofNat n := by
      rintro n ⟨hlow, hhigh⟩ rfl
      rw [toNat_ofNat hhigh] at hx
      omega
    rw [encodeRune, if_neg hr] at h
    exfalso
    split_ifs at h with h2 h3 h4
    all_goals
      simp only [List.mem_cons, List.not_mem_nil, or_false] at h
    · rcases h with h | h <;> exact hbyte _ (by omega) h
    · rcases h with h | h | h <;> exact hbyte _ (by omega) h
    · rcases h with h | h | h <;> exact hbyte _ (by omega) h
    · rcases h with h | h | h | h <;> exact hbyte _ (by omega) h

theorem reencode_append (hx : x.toNat < 128) :
    reencode (a ++ x :: c) = reencode a ++ x :: reencode c := by
  rw [reencode, runes_append hx (Nat.zero_le _), List.flatMap_append, List.flatMap_cons,
    encodeRune_toNat hx]
  rfl

theorem reencode_ascii_append (h : ∀ c ∈ a, c.toNat < 128) (s : List Char) :
    reencode (a ++ s) = a ++ reencode s := by
  induction a with
  | nil => rfl
  | cons b a ih =>
    obtain ⟨hb, ha⟩ := List.forall_mem_cons.mp h
    have hcons := reencode_append (a := []) (c := a ++ s) hb
    rw [List.nil_append] at hcons
    rw [List.cons_append, hcons, ih ha]
    rfl

theorem reencode_append_ascii (h : ∀ x ∈ c, x.toNat < 128) (s : List Char) :
    reencode (s ++ c) = reencode s ++ c := by
  cases c with
  | nil => rw [List.append_nil, List.append_nil]
  | cons x c =>
    obtain ⟨hx, hc⟩ := List.forall_mem_cons.mp h
    have hrest := reencode_ascii_append hc []
    rw [List.append_nil] at hrest
    rw [reencode_append hx, hrest]
    simp [reencode, runes]

theorem reencode_of_ascii (h : ∀ c ∈ s, c.toNat < 128) : reencode s = s :=
  reencode_append_ascii h []

/-- A code point of ASCII stands for itself. -/
theorem mem_of_mem_runes (hx : x.toNat < 128) (h : x.toNat ∈ runes 0 s) : x ∈ s := by
  obtain ⟨p, q, hpq⟩ := List.append_of_mem h
  obtain ⟨a, y, c, rfl, hy, -⟩ := exists_of_runes_eq_append hx hpq
  obtain rfl : y = x := Char.toNat_inj.mp hy
  simp

theorem mem_of_mem_reencode (hx : x.toNat < 128) (h : x ∈ reencode s) : x ∈ s := by
  obtain ⟨r, hr, hmem⟩ := List.mem_flatMap.mp h
  obtain rfl := eq_of_mem_encodeRune hx hmem
  exact mem_of_mem_runes hx hr

/-! ### Valid strings -/

private theorem runes_length_append (a s : List Char) : runes a.length (a ++ s) = runes 0 s := by
  induction a with
  | nil => rfl
  | cons b a ih => exact ih

/-- A sequence whose first byte announces it and whose second byte is in range. -/
theorem decodeRune_of_following {b c : Char} {low high : ℕ} (cs : List Char)
    (hf : following b = (cs.length + 1, low, high)) (hb : 0x80 ≤ b.toNat)
    (hc : low ≤ c.toNat ∧ c.toNat ≤ high) (hcs : ∀ d ∈ cs, 0x80 ≤ d.toNat ∧ d.toNat ≤ 0xBF)
    (s : List Char) :
    decodeRune b (c :: (cs ++ s)) =
      ((c :: cs).foldl (fun r c => 64 * r + c.toNat % 64) (b.toNat % 2 ^ (5 - cs.length)),
        cs.length + 1) := by
  have htake : (c :: (cs ++ s)).take (cs.length + 1) = c :: cs := by simp
  have hcont : continues 0x80 0xBF cs = true := by
    clear hf htake
    induction cs with
    | nil => rfl
    | cons d cs ih =>
      obtain ⟨hd, hcs⟩ := List.forall_mem_cons.mp hcs
      simp [continues, hd, ih hcs]
  have hseq : cs.length + 1 ≠ 0 ∧ cs.length + 1 ≤ (c :: (cs ++ s)).length ∧
      continues low high (c :: cs) = true :=
    ⟨Nat.succ_ne_zero _, by simp, by simp [continues, hc, hcont]⟩
  simp only [decodeRune, hf, htake]
  rw [if_neg (by omega), if_pos hseq, show 6 - (cs.length + 1) = 5 - cs.length by omega]

/-- What is written for a character is read as the character. -/
theorem decodeRune_of_encodeRune {r : ℕ} (hr : r < 0xD800 ∨ 0xDFFF < r ∧ r < 0x110000) {b : Char}
    {cs : List Char} (h : encodeRune r = b :: cs) (s : List Char) :
    decodeRune b (cs ++ s) = (r, cs.length) := by
  unfold encodeRune at h
  split_ifs at h with h1 h2 h3 h4 <;> obtain ⟨rfl, rfl⟩ := List.cons.inj h
  · have hb : (Char.ofNat r).toNat = r := toNat_ofNat (by omega)
    rw [decodeRune_ascii (by omega), hb]
    rfl
  · have hb : (Char.ofNat (0xC0 + r / 64)).toNat = 0xC0 + r / 64 := toNat_ofNat (by omega)
    have hc : (Char.ofNat (0x80 + r % 64)).toNat = 0x80 + r % 64 := toNat_ofNat (by omega)
    have hf : following (Char.ofNat (0xC0 + r / 64)) = (1, 0x80, 0xBF) := by
      rw [following, hb, if_pos (by omega)]
    refine (decodeRune_of_following [] hf (by omega) (by omega) (by simp) s).trans (Prod.ext ?_ rfl)
    simp only [List.foldl_cons, List.foldl_nil, List.length_nil, hb, hc]
    omega
  · omega
  · have hb : (Char.ofNat (0xE0 + r / 4096)).toNat = 0xE0 + r / 4096 := toNat_ofNat (by omega)
    have hc : (Char.ofNat (0x80 + r / 64 % 64)).toNat = 0x80 + r / 64 % 64 := toNat_ofNat (by omega)
    have hd : (Char.ofNat (0x80 + r % 64)).toNat = 0x80 + r % 64 := toNat_ofNat (by omega)
    obtain ⟨low, high, hf, hin⟩ : ∃ low high,
        following (Char.ofNat (0xE0 + r / 4096)) = (2, low, high) ∧
          low ≤ 0x80 + r / 64 % 64 ∧ 0x80 + r / 64 % 64 ≤ high := by
      simp only [following, hb]
      split_ifs <;> first | omega | exact ⟨_, _, rfl, by omega, by omega⟩
    refine (decodeRune_of_following [_] hf (by omega) (by omega) ?_ s).trans (Prod.ext ?_ rfl)
    · simp only [List.mem_singleton, forall_eq]
      omega
    · simp only [List.foldl_cons, List.foldl_nil, List.length_cons, List.length_nil, hb, hc, hd]
      omega
  · have hb : (Char.ofNat (0xF0 + r / 262144)).toNat = 0xF0 + r / 262144 := toNat_ofNat (by omega)
    have hc : (Char.ofNat (0x80 + r / 4096 % 64)).toNat = 0x80 + r / 4096 % 64 :=
      toNat_ofNat (by omega)
    have hd : (Char.ofNat (0x80 + r / 64 % 64)).toNat = 0x80 + r / 64 % 64 := toNat_ofNat (by omega)
    have he : (Char.ofNat (0x80 + r % 64)).toNat = 0x80 + r % 64 := toNat_ofNat (by omega)
    obtain ⟨low, high, hf, hin⟩ : ∃ low high,
        following (Char.ofNat (0xF0 + r / 262144)) = (3, low, high) ∧
          low ≤ 0x80 + r / 4096 % 64 ∧ 0x80 + r / 4096 % 64 ≤ high := by
      simp only [following, hb]
      split_ifs <;> first | omega | exact ⟨_, _, rfl, by omega, by omega⟩
    refine (decodeRune_of_following [_, _] hf (by omega) (by omega) ?_ s).trans (Prod.ext ?_ rfl)
    · simp only [List.mem_cons, List.not_mem_nil, or_false, forall_eq_or_imp, forall_eq]
      omega
    · simp only [List.foldl_cons, List.foldl_nil, List.length_cons, List.length_nil, hb, hc, hd, he]
      omega

private theorem encodeRune_ne_nil (r : ℕ) : encodeRune r ≠ [] := by
  unfold encodeRune
  split_ifs <;> exact List.cons_ne_nil _ _

private theorem runes_encodeRune_append (c : Char) (s : List Char) :
    runes 0 (encodeRune c.toNat ++ s) = c.toNat :: runes 0 s := by
  obtain ⟨b, cs, hb⟩ := List.exists_cons_of_ne_nil (encodeRune_ne_nil c.toNat)
  rw [hb, List.cons_append, runes, decodeRune_of_encodeRune c.valid hb, runes_length_append]
  rfl

/-- A surrogate, or a number behind the last character, is written as the replacement character. -/
theorem exists_encodeRune (r : ℕ) : ∃ c : Char, encodeRune r = encodeRune c.toNat := by
  by_cases h : r.isValidChar
  · exact ⟨Char.ofNat r, by rw [toNat_ofNat_of_isValidChar h]⟩
  · have hr : ¬ (r < 0xD800 ∨ 0xDFFF < r ∧ r < 0x110000) := h
    refine ⟨Char.ofNat 0xFFFD, ?_⟩
    rw [encodeRune, if_neg (by omega), if_neg (by omega), if_pos (by omega)]
    decide

/-- A string comes through a loop over its code points when it is written in UTF-8. -/
theorem reencode_eq_self_iff : reencode s = s ↔ IsUtf8 s := by
  constructor
  · intro h
    choose char hchar using exists_encodeRune
    refine ⟨(runes 0 s).map char, ?_⟩
    calc s = (runes 0 s).flatMap encodeRune := h.symm
      _ = (runes 0 s).flatMap fun r => encodeRune (char r).toNat :=
        congrArg ((runes 0 s).flatMap ·) (funext hchar)
      _ = ((runes 0 s).map char).flatMap fun c => encodeRune c.toNat := by
        rw [List.flatMap_map]
  · rintro ⟨t, rfl⟩
    induction t with
    | nil => rfl
    | cons c t ih =>
      rw [List.flatMap_cons, reencode, runes_encodeRune_append, List.flatMap_cons]
      exact congrArg (encodeRune c.toNat ++ ·) ih
/-! ### Trimming -/

private theorem spaceMarks_zero (mark mark' : Bool) (s : List Char) :
    spaceMarks 0 mark s = spaceMarks 0 mark' s := by
  cases s <;> rfl

private theorem length_spaceMarks (k : ℕ) (mark : Bool) (s : List Char) :
    (spaceMarks k mark s).length = s.length := by
  induction s generalizing k mark with
  | nil => cases k <;> rfl
  | cons b s ih =>
    cases k with
    | zero => simp [spaceMarks, ih]
    | succ k => simp [spaceMarks, ih]

private theorem spaceMarks_cons (hx : x.toNat < 128) (mark : Bool) (s : List Char) :
    spaceMarks 0 mark (x :: s) = isSpace x :: spaceMarks 0 false s := by
  rw [spaceMarks, decodeRune_ascii hx]
  simp only [Char.ofNat_toNat]
  rw [spaceMarks_zero]

/-- The bytes on both sides of a byte of ASCII are marked on their own. -/
theorem spaceMarks_append (hx : x.toNat < 128) {k : ℕ} (hk : k ≤ a.length) (mark : Bool) :
    spaceMarks k mark (a ++ x :: c) = spaceMarks k mark a ++ isSpace x :: spaceMarks 0 false c := by
  induction a generalizing k mark with
  | nil =>
    obtain rfl := Nat.le_zero.mp hk
    rw [List.nil_append, spaceMarks_cons hx]
    rfl
  | cons b a ih =>
    cases k with
    | zero =>
      obtain ⟨heq, hle⟩ := decodeRune_append hx b a c
      simp [spaceMarks, heq, ih hle]
    | succ k => simpa [spaceMarks] using ih (Nat.le_of_succ_le_succ hk) mark

/-- The spaces that stand between columns. -/
def isBlank (c : Char) : Bool := c = ' ' || c = '\t'

theorem ascii_of_isBlank (h : isBlank x = true) : x.toNat < 128 ∧ isSpace x = true := by
  rw [isBlank, Bool.or_eq_true, decide_eq_true_eq, decide_eq_true_eq] at h
  rcases h with rfl | rfl <;> exact ⟨by decide, by decide⟩

private theorem spaceMarks_blanks (h : ∀ c ∈ s, isBlank c = true) (mark : Bool) :
    spaceMarks 0 mark s = List.replicate s.length true := by
  induction s with
  | nil => rfl
  | cons b s ih =>
    obtain ⟨hb, hs⟩ := List.forall_mem_cons.mp h
    obtain ⟨hascii, hspace⟩ := ascii_of_isBlank hb
    rw [spaceMarks_cons hascii, hspace, spaceMarks_zero false mark, ih hs]
    rfl

/-- A text that begins and ends with characters of ASCII that are no spaces. -/
structure Dark (s : List Char) : Prop where
  first : ∃ x a, s = x :: a ∧ x.toNat < 128 ∧ isSpace x = false
  last : ∃ c y, s = c ++ [y] ∧ y.toNat < 128 ∧ isSpace y = false

theorem Dark.append {t : List Char} (hs : Dark s) (ht : Dark t) (m : List Char) :
    Dark (s ++ (m ++ t)) := by
  obtain ⟨x, a, rfl, hx⟩ := hs.first
  obtain ⟨c, y, rfl, hy⟩ := ht.last
  exact ⟨⟨x, _, rfl, hx⟩, ⟨x :: a ++ (m ++ c), y, by simp, hy⟩⟩

theorem dark_of_forall (hne : s ≠ []) (h : ∀ x ∈ s, x.toNat < 128 ∧ isSpace x = false) :
    Dark s := by
  refine ⟨?_, s.dropLast, s.getLast hne, (List.dropLast_append_getLast hne).symm,
    h _ (List.getLast_mem hne)⟩
  obtain ⟨x, a, rfl⟩ := List.exists_cons_of_ne_nil hne
  exact ⟨x, a, rfl, h x List.mem_cons_self⟩

/-- A dark text between blanks. -/
theorem trimSpaceUtf8_pad {pre post : List Char} (hpre : ∀ c ∈ pre, isBlank c = true)
    (hpost : ∀ c ∈ post, isBlank c = true) (h : Dark s) :
    trimSpaceUtf8 (pre ++ s ++ post) = s := by
  obtain ⟨x, a, hs, hx⟩ := h.first
  obtain ⟨c, y, hs', hy⟩ := h.last
  have hmarks : spaceMarks 0 false (pre ++ s ++ post) =
      List.replicate pre.length true ++ spaceMarks 0 false (s ++ post) := by
    rw [List.append_assoc, hs, List.cons_append, spaceMarks_append hx.1 (Nat.zero_le _),
      spaceMarks_blanks hpre, spaceMarks_cons hx.1]
  have hdrop : ((pre ++ s ++ post).zip (spaceMarks 0 false (pre ++ s ++ post))).dropWhile Prod.snd =
      (s ++ post).zip (spaceMarks 0 false (s ++ post)) := by
    rw [hmarks, List.append_assoc, List.zip_append (by simp), List.dropWhile_append_of_pos]
    · rw [hs, List.cons_append, spaceMarks_cons hx.1, List.zip_cons_cons,
        List.dropWhile_cons_of_neg (by simp [hx.2])]
    · intro p hp
      exact List.eq_of_mem_replicate (List.of_mem_zip hp).2
  have hend : (s ++ post).zip (spaceMarks 0 false (s ++ post)) =
      c.zip (spaceMarks 0 false c) ++ (y, false) :: post.zip (List.replicate post.length true) := by
    rw [hs', List.append_assoc, List.singleton_append, spaceMarks_append hy.1 (Nat.zero_le _),
      List.zip_append (length_spaceMarks ..).symm, List.zip_cons_cons, spaceMarks_blanks hpost,
      hy.2]
  have hrdrop : (post.zip (List.replicate post.length true)).rdropWhile Prod.snd = [] := by
    rw [List.rdropWhile_eq_nil_iff]
    intro p hp
    exact List.eq_of_mem_replicate (List.of_mem_zip hp).2
  rw [trimSpaceUtf8, trimMarked, hdrop, hend, rdropWhile_append_of_neg rfl, hrdrop, List.map_append,
    List.map_fst_zip (length_spaceMarks ..).ge, hs']
  rfl

theorem mem_of_mem_trimSpaceUtf8 (h : x ∈ trimSpaceUtf8 s) : x ∈ s := by
  obtain ⟨p, hp, rfl⟩ := List.mem_map.mp h
  have hmem := (List.dropWhile_sublist _).subset ((List.rdropWhile_prefix _ _).subset hp)
  exact (List.of_mem_zip hmem).1

end Go
