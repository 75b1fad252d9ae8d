import Mathlib.Data.Bool.AllAny
import Dockhand.Go.Strings

/-!
# Lines of words

A command prints lines of words. `Word` is a string that `strings.Fields` leaves in one piece, and
`phrase s ws` is the line that begins with `s` and goes on with the words `ws`. `strings.Fields`
reads the columns of a line back (`fields_column`).
-/

namespace Go

/-! ### Occurrences -/

theorem contains_iff {s sub : String} : contains s sub = true ↔ sub.toList <:+: s.toList := by
  rw [contains, List.any_eq_true, List.infix_iff_prefix_suffix]
  constructor
  · rintro ⟨t, ht, hp⟩
    exact ⟨t, List.isPrefixOf_iff_prefix.mp hp, (List.mem_tails ..).mp ht⟩
  · rintro ⟨t, hp, ht⟩
    exact ⟨t, (List.mem_tails ..).mpr ht, List.isPrefixOf_iff_prefix.mpr hp⟩

theorem contains_append (a s b : String) : contains (a ++ s ++ b) s = true :=
  contains_iff.mpr ⟨a.toList, b.toList, by simp⟩

theorem contains_append_left {s sub : String} (t : String) (h : contains s sub = true) :
    contains (t ++ s) sub = true := by
  rw [contains_iff] at h ⊢
  rw [String.toList_append]
  exact h.trans (List.suffix_append t.toList s.toList).isInfix

theorem hasPrefix_append (s t : String) : hasPrefix (s ++ t) s = true := by
  simp [hasPrefix]

theorem toLower_append (s t : String) : toLower (s ++ t) = toLower s ++ toLower t := by
  simp [toLower, String.ofList_append]

/-- Spaces in front are trimmed. -/
theorem trimSpace_append {s : String} (h : s.toList.all isSpace = true) (t : String) :
    trimSpace (s ++ t) = trimSpace t := by
  rw [List.all_eq_true] at h
  rw [trimSpace, String.toList_append, List.dropWhile_append_of_pos h, trimSpace]

theorem not_mem_intercalate {c : Char} {sep : String} {ls : List String} (hsep : c ∉ sep.toList)
    (h : ∀ l ∈ ls, c ∉ l.toList) : c ∉ (sep.intercalate ls).toList := by
  induction ls with
  | nil => simp
  | cons l ls ih =>
    obtain ⟨hl, hls⟩ := List.forall_mem_cons.mp h
    cases ls with
    | nil => simpa using hl
    | cons l' ls =>
      rw [String.intercalate_cons_cons]
      simp only [String.toList_append, List.mem_append, not_or]
      exact ⟨⟨hl, hsep⟩, ih hls⟩

/-! ### Words -/

/-- A string that is not empty and has no spaces. -/
structure Word where
  text : String
  nonempty : text ≠ ""
  dark : ∀ c ∈ text.toList, isSpace c = false

theorem Word.startsDark (w : Word) : StartsDark w.text := by
  cases hw : w.text.toList with
  | nil => exact absurd (String.toList_eq_nil_iff.mp hw) w.nonempty
  | cons c r => exact ⟨c, r, hw, w.dark c (hw ▸ List.mem_cons_self)⟩

theorem Word.endsDark (w : Word) : EndsDark w.text := by
  cases hw : w.text.toList using List.reverseRecOn with
  | nil => exact absurd (String.toList_eq_nil_iff.mp hw) w.nonempty
  | append_singleton r c => exact ⟨r, c, hw, w.dark c (by simp [hw])⟩

/-- The line that begins with `s` and goes on with these words. -/
def phrase (s : String) (ws : List Word) : String := ws.foldl (fun l w => l ++ " " ++ w.text) s

theorem exists_phrase_eq (s : String) (ws : List Word) : ∃ t, phrase s ws = s ++ t := by
  induction ws generalizing s with
  | nil => exact ⟨"", by simp [phrase]⟩
  | cons w ws ih =>
    obtain ⟨t, ht⟩ := ih (s ++ " " ++ w.text)
    exact ⟨" " ++ w.text ++ t, by simpa [phrase, String.append_assoc] using ht⟩

theorem endsDark_phrase {s : String} (hs : EndsDark s) (ws : List Word) :
    EndsDark (phrase s ws) := by
  induction ws generalizing s with
  | nil => exact hs
  | cons w ws ih => exact ih (w.endsDark.append _)

/-- A line of words has no space but `' '` that its beginning has not. -/
theorem not_mem_phrase {s : String} {c : Char} (hc : isSpace c = true) (hne : c ≠ ' ')
    (hs : c ∉ s.toList) (ws : List Word) : c ∉ (phrase s ws).toList := by
  induction ws generalizing s with
  | nil => exact hs
  | cons w ws ih =>
    refine ih ?_
    have hw : c ∉ w.text.toList := fun h => by simp [w.dark c h] at hc
    simp [hs, hw, hne]

/-! ### Fields -/

private theorem fields_append {s t sep : String} {c : Char} (hsep : sep.toList = [c])
    (hc : isSpace c = true) : fields (s ++ sep ++ t) = fields s ++ fields t := by
  have hlist : (s ++ sep ++ t).toList = s.toList ++ c :: t.toList := by simp [hsep]
  rw [fields, hlist, List.splitOnP_append_cons _ _ hc, List.filter_append, List.map_append]
  rfl

/-- The words of a line that is not empty and has no spaces. -/
theorem fields_of_dark {s : String} (hne : s ≠ "") (h : ∀ c ∈ s.toList, isSpace c = false) :
    fields s = [s] := by
  have hlist : s.toList ≠ [] := fun hnil => hne (String.toList_eq_nil_iff.mp hnil)
  rw [fields, List.splitOnP_eq_singleton h]
  simp [hlist]

/-- So many spaces. -/
def blanks (n : ℕ) : String := String.ofList (List.replicate n ' ')

theorem toList_blanks (n : ℕ) : (blanks n).toList = List.replicate n ' ' := String.toList_ofList

private theorem blanks_succ (n : ℕ) : blanks (n + 1) = " " ++ blanks n :=
  String.toList_injective (by simp [toList_blanks, List.replicate_succ])

theorem fields_column (s : String) (n : ℕ) (t : String) :
    fields (s ++ blanks (n + 1) ++ t) = fields s ++ fields t := by
  have hspace : " ".toList = [' '] := rfl
  induction n generalizing s with
  | zero => exact fields_append hspace (by decide)
  | succ n ih =>
    have hcons : s ++ blanks (n + 1 + 1) ++ t = s ++ " " ++ ("" ++ blanks (n + 1) ++ t) := by
      rw [blanks_succ (n + 1)]
      simp only [String.append_assoc, String.empty_append]
    rw [hcons, fields_append hspace (by decide), ih]
    rfl

theorem fields_phrase (s : String) (ws : List Word) :
    fields (phrase s ws) = fields s ++ ws.map Word.text := by
  induction ws generalizing s with
  | nil => simp [phrase]
  | cons w ws ih =>
    have hspace : " ".toList = [' '] := rfl
    have hstep : phrase s (w :: ws) = phrase (s ++ " " ++ w.text) ws := rfl
    rw [hstep, ih, fields_append hspace (by decide), fields_of_dark w.nonempty w.dark]
    simp

/-! ### Cutting at several characters -/

/-- The separator ends with a character that stands nowhere before. -/
theorem cutList_append_of_last {c : Char} {s sep : List Char} (hsep : c ∉ sep) (hs : c ∉ s)
    (t : List Char) : cutList (sep ++ [c]) (s ++ (sep ++ c :: t)) = some (s, t) := by
  induction s with
  | nil =>
    have hpre : (sep ++ [c]).isPrefixOf (sep ++ c :: t) = true :=
      List.isPrefixOf_iff_prefix.mpr ⟨t, by simp⟩
    have hdrop : (sep ++ c :: t).drop (sep ++ [c]).length = t := by simp
    obtain ⟨x, xs, hx⟩ := List.exists_cons_of_ne_nil (show sep ++ c :: t ≠ [] by simp)
    rw [hx] at hpre hdrop
    rw [List.nil_append, hx, cutList, if_pos hpre, hdrop]
  | cons d s ih =>
    obtain ⟨hd, hs⟩ := List.ne_and_not_mem_of_not_mem_cons hs
    have hpre : ¬ (sep ++ [c]).isPrefixOf (d :: (s ++ (sep ++ c :: t))) = true := by
      intro h
      obtain ⟨r, hr⟩ := List.isPrefixOf_iff_prefix.mp h
      -- the character would stand among as many as the separator has before it
      have hget := congrArg (fun l : List Char => l[sep.length]?) hr
      have hlen : sep.length < (d :: (s ++ sep)).length := by
        rw [List.length_cons, List.length_append]
        omega
      have hleft : (sep ++ [c] ++ r)[sep.length]? = some c := by simp
      have hright : (d :: (s ++ (sep ++ c :: t)))[sep.length]? =
          (d :: (s ++ sep))[sep.length]? := by
        rw [← List.append_assoc, ← List.cons_append, List.getElem?_append_left hlen]
      have hmem : c ∈ d :: (s ++ sep) :=
        List.mem_of_getElem? (hright.symm.trans (hget.symm.trans hleft))
      simp [hd, hs, hsep] at hmem
    rw [List.cons_append, cutList, if_neg hpre, ih hs, Option.map_some]

theorem cut_append_of_last {c : Char} {u : List Char} {s sep : String}
    (hsep : sep.toList = u ++ [c])
    (hu : c ∉ u) (hs : c ∉ s.toList) (t : String) : cut (s ++ (sep ++ t)) sep = some (s, t) := by
  have hlist : (s ++ (sep ++ t)).toList = s.toList ++ (u ++ c :: t.toList) := by simp [hsep]
  rw [cut, hlist, hsep, cutList_append_of_last hu hs]
  simp

private theorem cutList_eq_none {c : Char} {s sep : List Char} (hc : c ∈ sep) (hs : c ∉ s) :
    cutList sep s = none := by
  induction s with
  | nil => exact if_neg (List.ne_nil_of_mem hc)
  | cons d s ih =>
    have hpre : ¬ sep.isPrefixOf (d :: s) = true := fun h =>
      hs ((List.isPrefixOf_iff_prefix.mp h).subset hc)
    rw [cutList, if_neg hpre, ih fun h => hs (List.mem_cons_of_mem _ h), Option.map_none]

theorem cut_eq_none {c : Char} {s sep : String} (hc : c ∈ sep.toList) (hs : c ∉ s.toList) :
    cut s sep = none := by
  rw [cut, cutList_eq_none hc hs, Option.map_none]

end Go
