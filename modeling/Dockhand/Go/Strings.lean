import Mathlib.Data.List.DropRight
import Mathlib.Data.List.Infix

/-!
# The `strings` and `path` packages

The functions of Go's `strings` and `path` packages that the modelled code calls, on the code
points of a string.
-/

namespace Go

instance lawfulBEqChars : LawfulBEq (List Char) := inferInstance

/-- `unicode.IsSpace`. -/
def isSpace (c : Char) : Bool :=
  c ∈ ['\t', '\n', '\x0b', '\x0c', '\r', ' ', '\u0085', '\u00a0', '\u1680', '\u2028', '\u2029',
    '\u202f', '\u205f', '\u3000'] || ('\u2000' ≤ c && c ≤ '\u200a')

/-- The bytes of a string. -/
def utf8 (s : String) : List UInt8 := s.toUTF8.data.toList

/-- `strings.TrimSpace`. -/
def trimSpace (s : String) : String :=
  String.ofList ((s.toList.dropWhile isSpace).rdropWhile isSpace)

/-- `strings.TrimRight`. -/
def trimRight (s cutset : String) : String :=
  String.ofList (s.toList.rdropWhile (· ∈ cutset.toList))

/-- `strings.TrimLeft`. -/
def trimLeft (s cutset : String) : String :=
  String.ofList (s.toList.dropWhile (· ∈ cutset.toList))

/-- `strings.HasPrefix`. -/
def hasPrefix (s p : String) : Bool := p.toList.isPrefixOf s.toList

/-- `strings.HasSuffix`. -/
def hasSuffix (s p : String) : Bool := p.toList.isSuffixOf s.toList

/-- `strings.TrimPrefix`. -/
def trimPrefix (s p : String) : String :=
  if hasPrefix s p then String.ofList (s.toList.drop p.toList.length) else s

/-- `strings.TrimSuffix`. -/
def trimSuffix (s p : String) : String :=
  if hasSuffix s p then String.ofList (s.toList.take (s.toList.length - p.toList.length)) else s

/-- `strings.ContainsAny`. -/
def containsAny (s chars : String) : Bool := s.toList.any (· ∈ chars.toList)

/-- `strings.Split` at a single character. -/
def splitChar (s : String) (c : Char) : List String := (s.toList.splitOn c).map String.ofList

/-- `strings.Cut` at a single character: what stands before and after its first occurrence. -/
def cutChar (s : String) (c : Char) : String × String :=
  (String.ofList (s.toList.takeWhile (· ≠ c)), String.ofList ((s.toList.dropWhile (· ≠ c)).drop 1))

/-- `strings.Contains`. -/
def contains (s sub : String) : Bool := s.toList.tails.any (sub.toList.isPrefixOf ·)

/-- The first `n` code points with an ellipsis, when there are more. -/
def truncate (s : String) (n : ℕ) : String :=
  if s.toList.length ≤ n then s else String.ofList (s.toList.take n ++ ['…'])

/-- `strings.Trim`. -/
def trim (s cutset : String) : String :=
  trimRight (String.ofList (s.toList.dropWhile (· ∈ cutset.toList))) cutset

/-- `strings.Fields`. -/
def fields (s : String) : List String :=
  ((s.toList.splitOnP (isSpace ·)).filter (· ≠ [])).map String.ofList

/-- `strings.ReplaceAll` of a single character by another. -/
def replaceChar (s : String) (old new : Char) : String :=
  String.ofList (s.toList.map fun c => if c = old then new else c)

/-- Every occurrence of `old` from the left replaced, after the first `skip` characters, which
belong to an occurrence that has been replaced. -/
def replaceFrom (old new : List Char) : ℕ → List Char → List Char
  | _, [] => []
  | skip + 1, _ :: cs => replaceFrom old new skip cs
  | 0, c :: cs =>
    if old.isPrefixOf (c :: cs) then new ++ replaceFrom old new (old.length - 1) cs
    else c :: replaceFrom old new 0 cs

/-- `strings.ReplaceAll`, for an `old` that is not empty. -/
def replaceAll (s old new : String) : String :=
  String.ofList (replaceFrom old.toList new.toList 0 s.toList)

/-- What stands before and after the first occurrence of `sep`. -/
def cutList (sep : List Char) : List Char → Option (List Char × List Char)
  | [] => if sep = [] then some ([], []) else none
  | c :: cs =>
    if sep.isPrefixOf (c :: cs) then some ([], (c :: cs).drop sep.length)
    else (cutList sep cs).map fun p => (c :: p.1, p.2)

/-- `strings.Cut`, `none` when `sep` does not occur. -/
def cut (s sep : String) : Option (String × String) :=
  (cutList sep.toList s.toList).map fun p => (String.ofList p.1, String.ofList p.2)

/-- What stands before and after the last occurrence of a character. -/
def cutLast (s : String) (c : Char) : Option (String × String) :=
  (cutList [c] s.toList.reverse).map fun p =>
    (String.ofList p.2.reverse, String.ofList p.1.reverse)

/-- `unicode.ToLower` of the characters whose lower case is an ASCII letter: besides the capital
letters these are `İ` and the Kelvin sign. Every other character is kept. -/
def lowerChar (c : Char) : Char :=
  if c = '\u0130' then 'i' else if c = '\u212a' then 'k' else c.toLower

/-- `strings.ToLower`, where nothing but ASCII is looked for in the result. -/
def toLower (s : String) : String := String.ofList (s.toList.map lowerChar)

/-- One component of a path in `path.Clean`, on the components kept so far, the last one first. -/
def cleanStep (rooted : Bool) (kept : List String) (c : String) : List String :=
  if c = "" ∨ c = "." then kept
  else if c = ".." then
    match kept with
    | [] => if rooted then [] else [".."]
    | ".." :: _ => ".." :: kept
    | _ :: rest => rest
  else c :: kept

/-- `path.Clean`. -/
def pathClean (s : String) : String :=
  let rooted := hasPrefix s "/"
  let kept := ((splitChar s '/').foldl (cleanStep rooted) []).reverse
  if rooted then "/" ++ "/".intercalate kept
  else if kept = [] then "." else "/".intercalate kept

/-! ### Splitting -/

theorem splitChar_intercalate {sep : String} {c : Char} (hsep : sep.toList = [c])
    {ls : List String} (h : ∀ l ∈ ls, c ∉ l.toList) (hne : ls ≠ []) :
    splitChar (sep.intercalate ls) c = ls := by
  have hmap : ∀ l ∈ ls.map String.toList, c ∉ l := by simpa using h
  rw [splitChar, String.toList_intercalate, hsep, List.splitOn_intercalate c hmap
    (by simpa using hne)]
  simp [Function.comp_def]

theorem cutChar_append {s t sep : String} {c : Char} (hsep : sep.toList = [c])
    (h : c ∉ s.toList) : cutChar (s ++ sep ++ t) c = (s, t) := by
  have hall : ∀ x ∈ s.toList, (decide (x ≠ c)) = true := fun x hx =>
    decide_eq_true fun hxc : x = c => h (hxc ▸ hx)
  have hsplit : (s ++ sep ++ t).toList = s.toList ++ c :: t.toList := by simp [hsep]
  rw [cutChar, hsplit, List.takeWhile_append_of_pos hall, List.dropWhile_append_of_pos hall]
  simp

/-- A string that begins with a separator has an empty first part. -/
theorem empty_mem_splitChar_of_prefix {s sep : String} {c : Char} (hsep : sep.toList = [c])
    (h : hasPrefix s sep = true) : "" ∈ splitChar s c := by
  rw [hasPrefix, hsep, List.isPrefixOf_iff_prefix] at h
  obtain ⟨r, hr⟩ := h
  have hsplit : s.toList.splitOn c = [[]] ++ r.splitOn c := by
    rw [← hr, ← List.splitOn_nil c]
    exact List.splitOn_append_cons_self [] r
  rw [splitChar, hsplit]
  exact List.mem_map.mpr ⟨[], by simp, rfl⟩

/-- A string that ends with a separator has an empty last part. -/
theorem empty_mem_splitChar_of_suffix {s sep : String} {c : Char} (hsep : sep.toList = [c])
    (h : hasSuffix s sep = true) : "" ∈ splitChar s c := by
  rw [hasSuffix, hsep, List.isSuffixOf_iff_suffix] at h
  obtain ⟨r, hr⟩ := h
  have hsplit : s.toList.splitOn c = r.splitOn c ++ [[]] := by
    rw [← hr, ← List.splitOn_nil c]
    exact List.splitOn_append_cons_self r []
  rw [splitChar, hsplit]
  exact List.mem_map.mpr ⟨[], by simp, rfl⟩

private theorem mem_intersperse {α : Type} {x sep : α} {l : List α} (h : x ∈ l) :
    x ∈ l.intersperse sep := by
  induction l with
  | nil => cases h
  | cons a l ih =>
    cases l with
    | nil => exact h
    | cons b l =>
      rcases List.mem_cons.mp h with rfl | h
      · exact List.mem_cons_self
      · exact List.mem_cons_of_mem _ (List.mem_cons_of_mem _ (ih h))

private theorem infix_of_mem_splitChar {s l : String} {c : Char} (h : l ∈ splitChar s c) :
    l.toList <:+: s.toList := by
  obtain ⟨xs, hxs, rfl⟩ := List.mem_map.mp h
  have hjoin : [c].intercalate (s.toList.splitOn c) = s.toList := List.intercalate_splitOn c
  rw [← hjoin, List.intercalate, String.toList_ofList]
  exact List.infix_of_mem_flatten (mem_intersperse hxs)

/-- A part of a string occurs in it. -/
theorem contains_of_mem_splitChar {s l : String} {c : Char} (h : l ∈ splitChar s c) :
    contains s l = true := by
  obtain ⟨t, hprefix, hsuffix⟩ := List.infix_iff_prefix_suffix.mp (infix_of_mem_splitChar h)
  rw [contains, List.any_eq_true]
  exact ⟨t, (List.mem_tails ..).mpr hsuffix, by simpa using hprefix⟩

theorem cutList_append {c : Char} {s t : List Char} (h : c ∉ s) :
    cutList [c] (s ++ c :: t) = some (s, t) := by
  induction s with
  | nil => simp [cutList]
  | cons d s ih =>
    obtain ⟨hd, hs⟩ := List.ne_and_not_mem_of_not_mem_cons h
    have hne : ¬ [c].isPrefixOf (d :: (s ++ c :: t)) := by simpa using hd
    rw [List.cons_append, cutList, if_neg hne, ih hs, Option.map_some]

theorem cutList_of_not_mem {c : Char} {s : List Char} (h : c ∉ s) : cutList [c] s = none := by
  induction s with
  | nil => rfl
  | cons d s ih =>
    obtain ⟨hd, hs⟩ := List.ne_and_not_mem_of_not_mem_cons h
    have hne : ¬ [c].isPrefixOf (d :: s) := by simpa using hd
    rw [cutList, if_neg hne, ih hs, Option.map_none]

theorem eq_of_cutList {c : Char} {s a b : List Char} (h : cutList [c] s = some (a, b)) :
    s = a ++ c :: b ∧ c ∉ a := by
  by_cases hc : c ∈ s
  · obtain ⟨a', b', rfl, ha⟩ := List.eq_append_cons_of_mem hc
    rw [cutList_append ha, Option.some.injEq, Prod.mk.injEq] at h
    obtain ⟨rfl, rfl⟩ := h
    exact ⟨rfl, ha⟩
  · rw [cutList_of_not_mem hc] at h
    cases h

section Cutting

variable {s t sep : String} {c : Char}

theorem cut_append (hsep : sep.toList = [c]) (h : c ∉ s.toList) :
    cut (s ++ sep ++ t) sep = some (s, t) := by
  have hsplit : (s ++ sep ++ t).toList = s.toList ++ c :: t.toList := by simp [hsep]
  rw [cut, hsep, hsplit, cutList_append h]
  simp

theorem cut_of_not_mem (hsep : sep.toList = [c]) (h : c ∉ s.toList) : cut s sep = none := by
  rw [cut, hsep, cutList_of_not_mem h, Option.map_none]

theorem cutLast_append (hsep : sep.toList = [c]) (h : c ∉ t.toList) :
    cutLast (s ++ sep ++ t) c = some (s, t) := by
  have hreverse : (s ++ sep ++ t).toList.reverse = t.toList.reverse ++
    c :: s.toList.reverse := by simp [hsep]
  rw [cutLast, hreverse, cutList_append (by simpa using h)]
  simp

theorem cutLast_of_not_mem (h : c ∉ s.toList) : cutLast s c = none := by
  rw [cutLast, cutList_of_not_mem (by simpa using h), Option.map_none]

/-- The first occurrence of a character. -/
theorem exists_first (hsep : sep.toList = [c]) (h : c ∈ s.toList) :
    ∃ a b, s = a ++ sep ++ b ∧ c ∉ a.toList := by
  obtain ⟨a, b, heq, ha⟩ := List.eq_append_cons_of_mem h
  refine ⟨String.ofList a, String.ofList b, String.toList_inj.mp ?_, by simpa using ha⟩
  simp [heq, hsep]

/-- The last occurrence of a character. -/
theorem exists_final (hsep : sep.toList = [c]) (h : c ∈ s.toList) :
    ∃ a b, s = a ++ sep ++ b ∧ c ∉ b.toList := by
  obtain ⟨b, a, heq, hb⟩ := List.eq_append_cons_of_mem (List.mem_reverse.mpr h)
  refine ⟨String.ofList a.reverse, String.ofList b.reverse,
    String.toList_inj.mp ?_, by simpa using hb⟩
  have hlist : s.toList = a.reverse ++ c :: b.reverse := by simpa using congrArg List.reverse heq
  simp [hlist, hsep]

end Cutting

/-- Splitting two strings with a separator between them. -/
theorem splitChar_append_append {s t sep : String} {c : Char} (hsep : sep.toList = [c]) :
    splitChar (s ++ sep ++ t) c = splitChar s c ++ splitChar t c := by
  have hsplit : (s ++ sep ++ t).toList = s.toList ++ c :: t.toList := by simp [hsep]
  rw [splitChar, hsplit, List.splitOn_append_cons_self, List.map_append, splitChar, splitChar]

/-- What stands after the last separator is the last part. -/
theorem splitChar_append {s t sep : String} {c : Char} (hsep : sep.toList = [c])
    (h : c ∉ t.toList) : splitChar (s ++ sep ++ t) c = splitChar s c ++ [t] := by
  rw [splitChar_append_append hsep]
  simp [splitChar, List.splitOn_eq_singleton h]

theorem hasPrefix_eq_false {s p : String} {c d : Char} {r : List Char} (hp : p.toList = [c])
    (hs : s.toList = d :: r) (h : c ≠ d) : hasPrefix s p = false := by
  rw [hasPrefix, hp, hs, Bool.eq_false_iff, ne_eq, List.isPrefixOf_iff_prefix]
  exact fun hprefix => h (List.cons_prefix_cons.mp hprefix).1

theorem trimPrefix_append (s t : String) : trimPrefix (s ++ t) s = t := by
  simp [trimPrefix, hasPrefix]

/-! ### The letters and digits of ASCII -/

theorem bounds_of_isUpper {c : Char} (h : c.isUpper = true) : 65 ≤ c.toNat ∧ c.toNat ≤ 90 := by
  have hbounds : decide (c.val ≥ 'A'.val ∧ c.val ≤ 'Z'.val) = true := h
  exact of_decide_eq_true hbounds

theorem bounds_of_isLower {c : Char} (h : c.isLower = true) : 97 ≤ c.toNat ∧ c.toNat ≤ 122 := by
  have hbounds : (decide (c.val ≥ 'a'.val) && decide (c.val ≤ 'z'.val)) = true := h
  rw [Bool.and_eq_true, decide_eq_true_eq, decide_eq_true_eq] at hbounds
  exact hbounds

theorem bounds_of_isDigit {c : Char} (h : c.isDigit = true) : 48 ≤ c.toNat ∧ c.toNat ≤ 57 := by
  have hbounds : (decide (c.val ≥ '0'.val) && decide (c.val ≤ '9'.val)) = true := h
  rw [Bool.and_eq_true, decide_eq_true_eq, decide_eq_true_eq] at hbounds
  exact hbounds

/-- A letter of either case or a digit, by its code point. -/
theorem bounds_of_isAlphanum {c : Char} (h : c.isAlphanum = true) :
    65 ≤ c.toNat ∧ c.toNat ≤ 90 ∨ 97 ≤ c.toNat ∧ c.toNat ≤ 122 ∨ 48 ≤ c.toNat ∧ c.toNat ≤ 57 := by
  have hclass : ((c.isUpper || c.isLower) || c.isDigit) = true := h
  rw [Bool.or_eq_true, Bool.or_eq_true] at hclass
  rcases hclass with (h | h) | h
  · exact Or.inl (bounds_of_isUpper h)
  · exact Or.inr (Or.inl (bounds_of_isLower h))
  · exact Or.inr (Or.inr (bounds_of_isDigit h))

/-- What is no capital of ASCII stays as it is in lower case. -/
theorem toLower_of_not_capital {c : Char} (h : ¬ (65 ≤ c.toNat ∧ c.toNat ≤ 90)) :
    c.toLower = c :=
  dif_neg (c := c.val ≥ 'A'.val ∧ c.val ≤ 'Z'.val) h

/-! ### Trimming -/

theorem isSpace_eq_false_of_bounds {c : Char} (hlow : 33 ≤ c.toNat) (hhigh : c.toNat ≤ 126) :
    isSpace c = false := by
  rw [← Bool.not_eq_true]
  intro hspace
  simp only [isSpace, Bool.or_eq_true, Bool.and_eq_true, decide_eq_true_eq, List.mem_cons,
    List.not_mem_nil, or_false] at hspace
  rcases hspace with hmem | ⟨hrange, -⟩
  · rcases hmem with rfl | rfl | rfl | rfl | rfl | rfl | rfl | rfl | rfl | rfl | rfl | rfl | rfl |
      rfl <;>
      revert hlow hhigh <;> decide
  · have : 8192 ≤ c.toNat := hrange
    omega

theorem not_isSpace_of_isDigit {c : Char} (h : c.isDigit = true) : isSpace c = false := by
  have hbounds := bounds_of_isDigit h
  exact isSpace_eq_false_of_bounds (by omega) (by omega)

/-- The string does not begin with a space. -/
def StartsDark (s : String) : Prop := ∃ c r, s.toList = c :: r ∧ isSpace c = false

/-- The string does not end with a space. -/
def EndsDark (s : String) : Prop := ∃ r c, s.toList = r ++ [c] ∧ isSpace c = false

theorem StartsDark.append {s : String} (h : StartsDark s) (t : String) : StartsDark (s ++ t) := by
  obtain ⟨c, r, hs, hc⟩ := h
  exact ⟨c, r ++ t.toList, by simp [hs], hc⟩

theorem EndsDark.append {t : String} (h : EndsDark t) (s : String) : EndsDark (s ++ t) := by
  obtain ⟨r, c, ht, hc⟩ := h
  exact ⟨s.toList ++ r, c, by simp [ht], hc⟩

/-- There is nothing to trim. -/
theorem trimSpace_eq_self {s : String} (hs : StartsDark s) (he : EndsDark s) :
    trimSpace s = s := by
  obtain ⟨c, r, hs, hc⟩ := hs
  obtain ⟨r', c', he, hc'⟩ := he
  have hdrop : s.toList.dropWhile isSpace = s.toList := by
    rw [hs, List.dropWhile_cons_of_neg (by simp [hc])]
  rw [trimSpace, hdrop, he, List.rdropWhile_concat_neg _ _ _ (by simp [hc']), ← he,
    String.ofList_toList]

theorem toList_trimSpace (s : String) :
    (trimSpace s).toList = (s.toList.dropWhile isSpace).rdropWhile isSpace := by
  simp [trimSpace]

private theorem mem_dropWhile_iff {α : Type} {p : α → Bool} {a : α} (ha : p a = false)
    (l : List α) :
    a ∈ l.dropWhile p ↔ a ∈ l := by
  constructor
  · exact fun h => (List.dropWhile_sublist p).subset h
  · intro h
    rw [← List.takeWhile_append_dropWhile (p := p) (l := l), List.mem_append] at h
    refine h.resolve_left fun htake => ?_
    rw [List.mem_takeWhile_imp htake] at ha
    cases ha

/-- What is no space is not trimmed. -/
theorem mem_trimSpace {s : String} {c : Char} (hc : isSpace c = false) :
    c ∈ (trimSpace s).toList ↔ c ∈ s.toList := by
  rw [toList_trimSpace, List.rdropWhile, List.mem_reverse, mem_dropWhile_iff hc, List.mem_reverse,
    mem_dropWhile_iff hc]

/-- Nothing is left of a string exactly if it is blank. -/
theorem trimSpace_eq_empty_iff {s : String} :
    trimSpace s = "" ↔ ∀ c ∈ s.toList, isSpace c = true := by
  constructor
  · intro h c hc
    by_contra hdark
    have hmem := (mem_trimSpace (by simpa using hdark)).mpr hc
    simp [h] at hmem
  · intro h
    apply String.toList_injective
    rw [toList_trimSpace, List.dropWhile_eq_nil_iff.mpr h]
    rfl

/-- The parts of a blank string are blank. -/
theorem trimSpace_of_mem_splitChar {s l : String} {c : Char} (hs : trimSpace s = "")
    (hl : l ∈ splitChar s c) : trimSpace l = "" :=
  trimSpace_eq_empty_iff.mpr fun d hd =>
    trimSpace_eq_empty_iff.mp hs d ((infix_of_mem_splitChar hl).subset hd)

/-- Without spaces there is nothing to trim. -/
theorem trimSpace_of_forall {s : String} (h : ∀ c ∈ s.toList, isSpace c = false) :
    trimSpace s = s := by
  have hdrop : s.toList.dropWhile isSpace = s.toList := by
    rw [List.dropWhile_eq_self_iff]
    intro hlen
    simp [h _ (List.getElem_mem hlen)]
  have hrdrop : s.toList.rdropWhile isSpace = s.toList := by
    rw [List.rdropWhile_eq_self_iff]
    intro hne
    simp [h _ (List.getLast_mem hne)]
  rw [trimSpace, hdrop, hrdrop, String.ofList_toList]

theorem trimSpace_space_append (s : String) : trimSpace (" " ++ s) = trimSpace s := by
  have hspace : (" " ++ s).toList = ' ' :: s.toList := by simp
  rw [trimSpace, hspace, List.dropWhile_cons_of_pos (by decide), trimSpace]

/-- What is trimmed stays as it is. -/
@[simp] theorem trimSpace_trimSpace (s : String) : trimSpace (trimSpace s) = trimSpace s := by
  have hdrop : ((s.toList.dropWhile isSpace).rdropWhile isSpace).dropWhile isSpace =
      (s.toList.dropWhile isSpace).rdropWhile isSpace := by
    obtain ⟨r, hr⟩ := List.rdropWhile_prefix isSpace (s.toList.dropWhile isSpace)
    cases hl : (s.toList.dropWhile isSpace).rdropWhile isSpace with
    | nil => rfl
    | cons c l =>
      -- the first code point is the one that the first trim has stopped at
      have hhead := List.dropWhile_idempotent (p := isSpace) s.toList
      rw [← hr, hl, List.cons_append] at hhead
      by_cases hc : isSpace c
      · rw [List.dropWhile_cons_of_pos hc] at hhead
        have hlen := (List.dropWhile_suffix (l := l ++ r) isSpace).length_le
        rw [hhead, List.length_cons] at hlen
        omega
      · exact List.dropWhile_cons_of_neg hc
  apply String.toList_injective
  rw [toList_trimSpace, toList_trimSpace, hdrop, List.rdropWhile_idempotent]

/-- Trimming at the end stops at the last character that stays. -/
theorem rdropWhile_append_of_neg {α : Type} {p : α → Bool} {a : α} (ha : p a = false)
    (xs ys : List α) : (xs ++ a :: ys).rdropWhile p = xs ++ a :: ys.rdropWhile p := by
  have hneg : ¬ p a = true := by simp [ha]
  induction ys using List.reverseRecOn with
  | nil => rw [List.rdropWhile_concat_neg _ _ _ hneg, List.rdropWhile_nil]
  | append_singleton ys y ih =>
    have hsplit : xs ++ a :: (ys ++ [y]) = (xs ++ a :: ys) ++ [y] := by simp
    by_cases hy : p y = true
    · rw [hsplit, List.rdropWhile_concat_pos _ _ _ hy, ih, List.rdropWhile_concat_pos _ _ _ hy]
    · rw [hsplit, List.rdropWhile_concat_neg _ _ _ hy, List.rdropWhile_concat_neg _ _ _ hy, hsplit]

/-- It does not matter which end is trimmed first. -/
theorem dropWhile_rdropWhile {α : Type} (p : α → Bool) (l : List α) :
    (l.rdropWhile p).dropWhile p = (l.dropWhile p).rdropWhile p := by
  cases hl : l.dropWhile p with
  | nil =>
    have hall : l.rdropWhile p = [] :=
      List.rdropWhile_eq_nil_iff.mpr (List.dropWhile_eq_nil_iff.mp hl)
    rw [hall, List.rdropWhile_nil, List.dropWhile_nil]
  | cons a r =>
    have ha : p a = false := by
      have hne : l.dropWhile p ≠ [] := by simp [hl]
      simpa [hl] using List.head_dropWhile_not p hne
    have hfirst : ∀ x ∈ l.takeWhile p, p x = true := fun x hx => List.mem_takeWhile_imp hx
    have hneg : ¬ p a = true := by simp [ha]
    calc (l.rdropWhile p).dropWhile p
        = ((l.takeWhile p ++ a :: r).rdropWhile p).dropWhile p := by
          rw [← hl, List.takeWhile_append_dropWhile]
      _ = a :: r.rdropWhile p := by
          rw [rdropWhile_append_of_neg ha, List.dropWhile_append_of_pos hfirst,
            List.dropWhile_cons_of_neg hneg]
      _ = (a :: r).rdropWhile p := (rdropWhile_append_of_neg ha [] r).symm

theorem trimSpace_append_space {s t : String} {c : Char} (ht : t.toList = [c])
    (hc : isSpace c = true) : trimSpace (s ++ t) = trimSpace s := by
  apply String.toList_injective
  rw [toList_trimSpace, toList_trimSpace, ← dropWhile_rdropWhile, ← dropWhile_rdropWhile,
    String.toList_append, ht, List.rdropWhile_concat_pos _ _ _ hc]

/-- Of a text that begins with one that there is nothing to trim of, the rest is trimmed at its
end only. -/
theorem exists_trimSpace_append {s : String} (hs : StartsDark s) (he : EndsDark s) (t : String) :
    ∃ u, trimSpace (s ++ t) = s ++ u ∧ trimSpace u = trimSpace t := by
  obtain ⟨c, r, hs, hc⟩ := hs
  obtain ⟨r', c', he, hc'⟩ := he
  refine ⟨String.ofList (t.toList.rdropWhile isSpace), ?_, ?_⟩
  · apply String.toList_injective
    have hdrop : (s.toList ++ t.toList).dropWhile isSpace = s.toList ++ t.toList := by
      rw [hs, List.cons_append, List.dropWhile_cons_of_neg (by simp [hc])]
    rw [toList_trimSpace, String.toList_append, hdrop, he, List.append_assoc, List.singleton_append,
      rdropWhile_append_of_neg hc', String.toList_append, String.toList_ofList, he,
      List.append_assoc, List.singleton_append]
  · apply String.toList_injective
    rw [toList_trimSpace, toList_trimSpace, String.toList_ofList, dropWhile_rdropWhile,
      List.rdropWhile_idempotent]

/-- Trimming makes a string shorter, if anything. -/
theorem length_trimSpace_lt {s : String} (h : trimSpace s ≠ s) :
    (trimSpace s).toList.length < s.toList.length := by
  rw [toList_trimSpace]
  have hdrop := (List.dropWhile_suffix (l := s.toList) isSpace)
  have hrdrop := List.rdropWhile_prefix isSpace (s.toList.dropWhile isSpace)
  refine lt_of_le_of_ne (hrdrop.length_le.trans hdrop.length_le) fun hlen => h ?_
  apply String.toList_injective
  rw [toList_trimSpace, hrdrop.eq_of_length (le_antisymm hrdrop.length_le (hlen ▸ hdrop.length_le)),
    hdrop.eq_of_length (le_antisymm hdrop.length_le (hlen ▸ hrdrop.length_le))]

/-- What was trimmed begins and ends with something else than a space. -/
theorem dark_of_trimSpace {s : String} (h : trimSpace s = s) (hne : s ≠ "") :
    StartsDark s ∧ EndsDark s := by
  have hlist := congrArg String.toList h
  rw [toList_trimSpace] at hlist
  have hnil : s.toList ≠ [] := fun hs => hne (String.toList_eq_nil_iff.mp hs)
  -- both trims keep the length, so neither removes anything
  have hdrop : s.toList.dropWhile isSpace = s.toList := by
    refine (List.dropWhile_suffix isSpace).eq_of_length_le ?_
    calc s.toList.length = ((s.toList.dropWhile isSpace).rdropWhile isSpace).length := by rw [hlist]
      _ ≤ (s.toList.dropWhile isSpace).length := (List.rdropWhile_prefix _ _).length_le
  rw [hdrop] at hlist
  constructor
  · cases hs : s.toList with
    | nil => exact absurd hs hnil
    | cons c r =>
      refine ⟨c, r, hs, ?_⟩
      by_contra hc
      rw [hs, List.dropWhile_cons_of_pos (by simpa using hc)] at hdrop
      have hlen := (List.dropWhile_suffix (l := r) isSpace).length_le
      rw [hdrop, List.length_cons] at hlen
      omega
  · refine ⟨s.toList.dropLast, s.toList.getLast hnil,
      (List.dropLast_append_getLast hnil).symm, ?_⟩
    simpa using List.rdropWhile_eq_self_iff.mp hlist hnil

end Go
