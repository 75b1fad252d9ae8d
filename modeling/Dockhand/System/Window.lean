import Mathlib.Data.Fin.Basic
import Mathlib.Data.Fintype.Basic
import Mathlib.Data.List.DropRight
import Dockhand.Go.Json
import Dockhand.Go.Net
import Dockhand.Go.Strings

/-!
# Update windows

Automatic updates are installed inside of a recurring window, which is written as in
`Sun 03:00–05:00`. The settings take a window when `parseWindow` reads it. The days of a list are
told apart by three letters of what stands between commas and blanks, so that `Mon-Fri` is read as
Monday and a list of nothing but commas as no day: `says_iff` tells which lists mean what they say.
-/

namespace Dockhand.System.Windows

open Go

/-! ### Reading a window -/

/-- `time.Weekday`, from Sunday on. -/
abbrev Weekday := Fin 7

instance neZeroWeekday : NeZero (6 + 1) := ⟨by decide⟩

/-- A recurring maintenance window. -/
structure Window where
  /-- The window is always open. -/
  any : Bool
  /-- The days on which it opens, `none` for every day. -/
  days : Option (Finset Weekday)
  /-- Minutes after midnight. -/
  start : ℕ
  /-- Minutes after midnight, those of the next day when they are not behind `start`. -/
  stop : ℕ
deriving DecidableEq

/-- The errors of `parseWindow`. -/
inductive Refusal where
  /-- `can't read update window %q (use e.g. "Sun 03:00–05:00")` -/
  | unreadable (s : String)
  /-- `unknown day %q in update window` -/
  | unknownDay (part : List Char)
  /-- `bad time in update window %q` -/
  | badTime (s : String)
deriving DecidableEq

/-- `\s` of a regular expression. -/
def isBlank (c : Char) : Bool := c ∈ ['\t', '\n', '\x0c', '\r', ' ']

/-- `[a-z,\s-]` under the flag `i`. -/
def inDayList (c : Char) : Bool :=
  ('a' ≤ c && c ≤ 'z') || ('A' ≤ c && c ≤ 'Z') || c = 'ſ' || c = '\u212a' || c = ',' || c = '-' ||
    isBlank c

/-- The submatches of `windowRe`. -/
structure Submatch where
  days : List Char
  h₁ : List Char
  m₁ : List Char
  h₂ : List Char
  m₂ : List Char
deriving DecidableEq

/-- `(\d{1,2}):(\d{2})` at the start of a text: the groups, and what stands behind them. -/
def clock (s : List Char) : Option (List Char × List Char × List Char) :=
  let h := s.takeWhile Char.isDigit
  match s.dropWhile Char.isDigit with
  | ':' :: m :: m' :: rest =>
    if (h.length = 1 ∨ h.length = 2) ∧ m.isDigit ∧ m'.isDigit then some (h, [m, m'], rest) else none
  | _ => none

/-- `windowRe.FindStringSubmatch`, on a text without space around it. No digit is of the class of
the days, so they end before the first digit, and the shortest match leaves out the blanks behind
them. -/
def windowRe (t : List Char) : Option Submatch :=
  let days := (t.takeWhile inDayList).rdropWhile isBlank
  if days = [] ∨ days = t.takeWhile inDayList then none
  else
    match clock (t.dropWhile inDayList) with
    | some (h₁, m₁, rest) =>
      match rest.dropWhile isBlank with
      | dash :: rest =>
        if dash ∈ ['–', '—', '-'] then
          match clock (rest.dropWhile isBlank) with
          | some (h₂, m₂, rest) => if rest.all isBlank then some ⟨days, h₁, m₁, h₂, m₂⟩ else none
          | none => none
        else none
      | [] => none
    | none => none

/-- `dayNames`: the weekdays by their first three letters. -/
def dayNames : List (List Char × Weekday) :=
  [("sun".toList, 0), ("mon".toList, 1), ("tue".toList, 2), ("wed".toList, 3), ("thu".toList, 4),
    ("fri".toList, 5), ("sat".toList, 6)]

/-- The nonempty pieces between the characters of a kind, as of `strings.FieldsFunc`. -/
def pieces (p : Char → Bool) (s : List Char) : List (List Char) := (s.splitOnP p).filter (· ≠ [])

/-- The days of a list, with commas or spaces between them. -/
def parts (d : List Char) : List (List Char) := pieces (fun c => c = ',' || c = ' ') d

/-- `strings.TrimSpace` over the characters of the window. -/
def trim (s : List Char) : List Char := (s.dropWhile isSpace).rdropWhile isSpace

/-- The day of a part. The names are of ASCII, so three characters do for three bytes. -/
def dayOf (part : List Char) : Option Weekday := dayNames.lookup ((trim part).take 3)

/-- The loop of `parseWindow` over the parts of a list. -/
def parseList (days : Finset Weekday) : List (List Char) → Except Refusal (Finset Weekday)
  | [] => .ok days
  | part :: rest =>
    match dayOf part with
    | some wd => parseList (insert wd days) rest
    | none => .error (.unknownDay part)

/-- The words for every day of the week. -/
def everyDay : List (List Char) := ["daily".toList, "every day".toList, "everyday".toList]

/-- The days of a window, from its first group in lower case. -/
def parseDays (d : List Char) : Except Refusal (Option (Finset Weekday)) :=
  if d ∈ everyDay then .ok none
  else if d = "weekdays".toList then .ok (some {1, 2, 3, 4, 5})
  else if d = "weekends".toList then .ok (some {6, 0})
  else (parseList ∅ (parts d)).map some

/-- `fmt.Sscan` of digits into an `int`. A leading zero makes them octal, and what stands behind the
last octal digit is left unread. -/
def sscan (ds : List Char) : ℕ :=
  if ds.head? = some '0' then ofDigits 8 (ds.takeWhile fun c => '0' ≤ c && c ≤ '7')
  else ofDigits 10 ds

/-- The letters of ASCII in lower case. -/
def lower (s : List Char) : List Char := s.map lowerChar

/-- The window is always open: nothing is given, or `any time` in any case. -/
def isAnyTime (t : List Char) : Bool :=
  t = [] || t.map Json.foldRune = Json.foldName "any time" ||
    t.map Json.foldRune = Json.foldName "anytime"

/-- `parseWindow`: the days and the two times, or why the text is refused. -/
def parseWindow (s : String) : Except Refusal Window :=
  let t := trim s.toList
  if isAnyTime t then .ok ⟨true, none, 0, 0⟩
  else
    match windowRe t with
    | none => .error (.unreadable s)
    | some m =>
      match parseDays (lower (trim m.days)) with
      | .error e => .error e
      | .ok days =>
        if 24 < sscan m.h₁ ∨ 24 < sscan m.h₂ ∨ 59 < sscan m.m₁ ∨ 59 < sscan m.m₂ then
          .error (.badTime s)
        else
          .ok ⟨false, days, sscan m.h₁ * 60 + sscan m.m₁, sscan m.h₂ * 60 + sscan m.m₂⟩

/-- What `parseWindow` has read from, when it does not stand for any time. -/
theorem parseWindow_eq {s : String} {w : Window} (h : parseWindow s = .ok w)
    (hany : w.any = false) :
    isAnyTime (trim s.toList) = false ∧ ∃ m, windowRe (trim s.toList) = some m ∧
      parseDays (lower (trim m.days)) = .ok w.days ∧ sscan m.h₁ ≤ 24 ∧ sscan m.h₂ ≤ 24 ∧
      sscan m.m₁ ≤ 59 ∧ sscan m.m₂ ≤ 59 ∧ w.start = sscan m.h₁ * 60 + sscan m.m₁ ∧
      w.stop = sscan m.h₂ * 60 + sscan m.m₂ := by
  simp only [parseWindow] at h
  split at h
  · cases h
    exact absurd hany (by decide)
  · rename_i hne
    refine ⟨by simpa using hne, ?_⟩
    split at h
    · exact absurd h nofun
    · rename_i m hm
      split at h
      · exact absurd h nofun
      · rename_i days hdays
        split at h
        · exact absurd h nofun
        · rename_i hbounds
          cases h
          exact ⟨m, hm, hdays, by omega, by omega, by omega, by omega, rfl, rfl⟩

/-! ### The days of a list -/

/-- The full name of a weekday. -/
def fullName (n : Weekday) : List Char :=
  match n with
  | 0 => "sunday".toList
  | 1 => "monday".toList
  | 2 => "tuesday".toList
  | 3 => "wednesday".toList
  | 4 => "thursday".toList
  | 5 => "friday".toList
  | 6 => "saturday".toList

/-- A word is the name of a weekday or its abbreviation. -/
def IsName (word : List Char) (n : Weekday) : Prop := word = fullName n ∨ word = (fullName n).take 3

instance (word : List Char) (n : Weekday) : Decidable (IsName word n) :=
  inferInstanceAs (Decidable (_ ∨ _))

/-- The words of a text, which commas and white space separate. -/
def words (d : List Char) : List (List Char) := pieces (fun c => c = ',' || isSpace c) d

/-- The days that a window is written with, when they are a list. -/
def dayList (s : String) : Option (List Char) :=
  if isAnyTime (trim s.toList) then none
  else
    match windowRe (trim s.toList) with
    | none => none
    | some m =>
      let d := lower (trim m.days)
      if d ∈ everyDay ∨ d = "weekdays".toList ∨ d = "weekends".toList then none else some d

/-- Every word of the list names a weekday, and the days are those that are named, one at least. -/
def Says (d : List Char) (days : Option (Finset Weekday)) : Prop :=
  ∃ D : Finset Weekday, days = some D ∧ D.Nonempty ∧ (∀ word ∈ words d, ∃ n, IsName word n) ∧
    ∀ n, n ∈ D ↔ ∃ word ∈ words d, IsName word n

section Pieces

variable {p q : Char → Bool} {s : List Char} {c : Char}

private theorem pieces_nil (p : Char → Bool) : pieces p [] = [] := rfl

private theorem pieces_cons_of_pos (hc : p c = true) (s : List Char) :
    pieces p (c :: s) = pieces p s := by
  simp [pieces, List.splitOnP_cons_eq_if_modifyHead, hc]

private theorem splitOnP_or (p q : Char → Bool) (s : List Char) :
    s.splitOnP (fun c => p c || q c) = (s.splitOnP p).flatMap fun part => part.splitOnP q := by
  induction s with
  | nil => rfl
  | cons c s ih =>
    obtain ⟨part, rest, hs⟩ := List.exists_cons_of_ne_nil (List.splitOnP_ne_nil p s)
    rw [hs, List.flatMap_cons] at ih
    by_cases hp : p c = true
    · simp [List.splitOnP_cons_eq_if_modifyHead, hp, ih, hs]
    · by_cases hq : q c = true
      · simp [List.splitOnP_cons_eq_if_modifyHead, hp, hq, ih, hs]
      · obtain ⟨first, others, hpart⟩ := List.exists_cons_of_ne_nil (List.splitOnP_ne_nil q part)
        simp [List.splitOnP_cons_eq_if_modifyHead, hp, hq, ih, hs, hpart]

private theorem flatMap_pieces_filter (q : Char → Bool) (l : List (List Char)) :
    (l.filter (· ≠ [])).flatMap (pieces q) = l.flatMap (pieces q) := by
  induction l with
  | nil => rfl
  | cons part rest ih =>
    by_cases hpart : part = []
    · rw [List.filter_cons_of_neg (by simpa using hpart), ih, List.flatMap_cons, hpart, pieces_nil,
        List.nil_append]
    · rw [List.filter_cons_of_pos (by simpa using hpart), List.flatMap_cons, ih, List.flatMap_cons]

/-- Splitting at more characters splits the pieces further. -/
theorem pieces_or (p q : Char → Bool) (s : List Char) :
    pieces (fun c => p c || q c) s = (pieces p s).flatMap (pieces q) := by
  rw [pieces, splitOnP_or, List.filter_flatMap]
  exact (flatMap_pieces_filter q _).symm

private theorem neg_of_mem_splitOnP {part : List Char} (h : part ∈ s.splitOnP p) :
    ∀ c ∈ part, p c = false := by
  induction s generalizing part with
  | nil => simp_all
  | cons x s ih =>
    obtain ⟨first, rest, hs⟩ := List.exists_cons_of_ne_nil (List.splitOnP_ne_nil p s)
    rw [List.splitOnP_cons_eq_if_modifyHead] at h
    split_ifs at h with hx
    · rcases List.mem_cons.mp h with rfl | h
      · exact fun c hc => absurd hc List.not_mem_nil
      · exact ih h
    · rw [hs] at h ih
      rcases List.mem_cons.mp h with rfl | h
      · exact List.forall_mem_cons.mpr ⟨by simpa using hx, ih List.mem_cons_self⟩
      · exact ih (List.mem_cons_of_mem _ h)

private theorem head?_splitOnP (p : Char → Bool) (s : List Char) :
    (s.splitOnP p).head? = some (s.takeWhile fun c => !p c) := by
  induction s with
  | nil => rfl
  | cons c s ih =>
    obtain ⟨first, rest, hs⟩ := List.exists_cons_of_ne_nil (List.splitOnP_ne_nil p s)
    rw [hs, List.head?_cons, Option.some_inj] at ih
    by_cases hc : p c = true <;> simp [List.splitOnP_cons_eq_if_modifyHead, hc, hs, ih]

private theorem pieces_dropWhile (p : Char → Bool) (s : List Char) :
    pieces p (s.dropWhile p) = pieces p s := by
  induction s with
  | nil => rfl
  | cons c s ih =>
    by_cases hc : p c = true
    · rw [List.dropWhile_cons_of_pos hc, ih, pieces_cons_of_pos hc]
    · rw [List.dropWhile_cons_of_neg hc]

/-- The first piece of a text begins it, when the text does not begin with a separator. -/
theorem head?_pieces (hc : p c = false) (s : List Char) :
    (pieces p (c :: s)).head? = some (c :: s.takeWhile fun d => !p d) := by
  obtain ⟨first, rest, hs⟩ := List.exists_cons_of_ne_nil (List.splitOnP_ne_nil p s)
  have hfirst := head?_splitOnP p s
  rw [hs, List.head?_cons, Option.some_inj] at hfirst
  simp [pieces, List.splitOnP_cons_eq_if_modifyHead, hc, hs, hfirst]

private theorem pieces_congr (h : ∀ c ∈ s, p c = q c) : pieces p s = pieces q s := by
  suffices hsplit : s.splitOnP p = s.splitOnP q by rw [pieces, hsplit, pieces]
  induction s with
  | nil => rfl
  | cons c s ih =>
    obtain ⟨hc, hs⟩ := List.forall_mem_cons.mp h
    rw [List.splitOnP_cons_eq_if_modifyHead, List.splitOnP_cons_eq_if_modifyHead, hc, ih hs]

end Pieces

/-- The words of a text are those of its parts. -/
theorem words_eq (d : List Char) : words d = (parts d).flatMap words := by
  have hsep : (fun c => decide (c = ',') || isSpace c) =
      fun c => (decide (c = ',') || decide (c = ' ')) || (decide (c = ',') || isSpace c) := by
    funext c
    by_cases hc : c = ' '
    · subst hc; rfl
    · simp [hc]
  calc words d = pieces _ d := by rw [words, hsep]
    _ = (parts d).flatMap words := pieces_or _ _ d

private theorem not_comma_of_mem_parts {d part : List Char} (h : part ∈ parts d) :
    ∀ c ∈ part, c ≠ ',' := by
  intro c hc
  have hneg := neg_of_mem_splitOnP (List.mem_of_mem_filter h) c hc
  simp only [Bool.or_eq_false_iff, decide_eq_false_iff_not] at hneg
  exact hneg.1

/-- What is left of a part begins with its first word. -/
theorem head?_words {part : List Char} (hpart : ∀ c ∈ part, c ≠ ',') (hne : trim part ≠ []) :
    ∃ word rest, (words part).head? = some word ∧ trim part = word ++ rest := by
  have hwords : words part = pieces isSpace (part.dropWhile isSpace) := by
    rw [pieces_dropWhile]
    exact pieces_congr fun c hc => by simp [hpart c hc]
  rw [trim] at hne ⊢
  cases hdrop : part.dropWhile isSpace with
  | nil => exact absurd (by rw [hdrop, List.rdropWhile_nil]) hne
  | cons c s =>
    have hc : isSpace c = false := by
      simpa [hdrop] using List.head_dropWhile_not isSpace (l := part) (by simp [hdrop])
    rw [hdrop] at hwords
    -- the first word ends with a character that is not trimmed
    obtain ⟨front, last, hword⟩ : ∃ front last, c :: s.takeWhile (fun d => !isSpace d) = front ++
      [last] :=
      ⟨_, _, (List.dropLast_append_getLast (List.cons_ne_nil _ _)).symm⟩
    have hlast : isSpace last = false := by
      have hmem : last ∈ c :: s.takeWhile fun d => !isSpace d := by simp [hword]
      rcases List.mem_cons.mp hmem with rfl | hmem
      · exact hc
      · simpa using List.mem_takeWhile_imp hmem
    have hs : c :: s = front ++ last :: s.dropWhile fun d => !isSpace d :=
      calc c :: s = (c :: s.takeWhile fun d => !isSpace d) ++ s.dropWhile fun d => !isSpace d := by
            rw [List.cons_append, List.takeWhile_append_dropWhile]
        _ = front ++ last :: s.dropWhile fun d =>
          !isSpace d := by rw [hword, List.append_assoc]; rfl
    refine ⟨front ++ [last], (s.dropWhile fun d => !isSpace d).rdropWhile isSpace, ?_, ?_⟩
    · rw [hwords, head?_pieces hc, hword]
    · rw [hs, rdropWhile_append_of_neg hlast, List.append_assoc]
      rfl

private theorem lookup_name : ∀ n : Weekday, dayNames.lookup ((fullName n).take 3) =
    some n := by decide

private theorem length_fullName : ∀ n : Weekday, 3 ≤ (fullName n).length := by decide

/-- The day of a part is the day of its first word, when that is a name. -/
theorem dayOf_eq {part word : List Char} (hpart : ∀ c ∈ part, c ≠ ',') (hne : trim part ≠ [])
    (hword : (words part).head? = some word) {n : Weekday} (hn : IsName word n) :
      dayOf part = some n := by
  obtain ⟨word', rest, hword', htrim⟩ := head?_words hpart hne
  obtain rfl : word = word' := Option.some_inj.mp (hword.symm.trans hword')
  have hlen : 3 ≤ word.length := by
    rcases hn with rfl | rfl
    · exact length_fullName n
    · simpa using length_fullName n
  have htake : word.take 3 = (fullName n).take 3 := by rcases hn with rfl | rfl <;> simp
  rw [dayOf, htrim, List.take_append_of_le_length hlen, htake, lookup_name]

/-! ### The loop over the parts -/

private theorem parseList_ok {days D : Finset Weekday} {l : List (List Char)}
    (h : parseList days l = .ok D) :
    (∀ part ∈ l, ∃ n, dayOf part = some n) ∧ ∀ n, n ∈ D ↔ n ∈ days ∨
      ∃ part ∈ l, dayOf part = some n := by
  induction l generalizing days with
  | nil => cases h; simp
  | cons part rest ih =>
    rw [parseList] at h
    cases hday : dayOf part with
    | none => rw [hday] at h; exact absurd h nofun
    | some wd =>
      rw [hday] at h
      obtain ⟨hall, hmem⟩ := ih h
      refine ⟨List.forall_mem_cons.mpr ⟨⟨wd, hday⟩, hall⟩, fun n => ?_⟩
      rw [hmem, Finset.mem_insert, List.exists_mem_cons_iff, hday, Option.some_inj,
        eq_comm (a := n)]
      tauto

/-- What is read of a window whose days are a list. -/
theorem parseWindow_list {s : String} {w : Window} {d : List Char} (h : parseWindow s = .ok w)
    (hd : dayList s = some d) : ∃ D, w.days = some D ∧ parseList ∅ (parts d) = .ok D := by
  rw [dayList] at hd
  split_ifs at hd with hany
  have hfalse : w.any = false := by
    simp only [parseWindow, hany, Bool.false_eq_true, if_false] at h
    split at h
    · exact absurd h nofun
    · split at h
      · exact absurd h nofun
      · split at h
        · exact absurd h nofun
        · cases h; rfl
  obtain ⟨-, m, hm, hdays, -⟩ := parseWindow_eq h hfalse
  simp only [hm] at hd
  split_ifs at hd with hspecial
  obtain rfl := Option.some_inj.mp hd
  push Not at hspecial
  rw [parseDays, if_neg hspecial.1, if_neg hspecial.2.1, if_neg hspecial.2.2] at hdays
  cases hlist : parseList ∅ (parts (lower (trim m.days))) with
  | error e => rw [hlist] at hdays; exact absurd hdays nofun
  | ok D =>
    rw [hlist] at hdays
    exact ⟨D, (Except.ok.inj hdays).symm, rfl⟩

private theorem mem_words {d word : List Char} :
    word ∈ words d ↔ ∃ part ∈ parts d, word ∈ words part := by
  rw [words_eq, List.mem_flatMap]

private theorem trim_ne_nil {part : List Char} {n : Weekday} (h : dayOf part = some n) :
    trim part ≠ [] := by
  intro hnil
  rw [dayOf, hnil] at h
  cases h

/-- Which lists of days mean what they say: there is a day, every word is a name, and whatever day
is named is named by the first word of some part. -/
theorem says_iff {s : String} {w : Window} {d : List Char} (h : parseWindow s = .ok w)
    (hd : dayList s = some d) :
    Says d w.days ↔ parts d ≠ [] ∧ (∀ part ∈ parts d, ∀ word ∈ words part, ∃ n, IsName word n) ∧
      ∀ part ∈ parts d, ∀ word ∈ words part, ∀ n, IsName word n →
        ∃ part' ∈ parts d, ∃ first, (words part').head? = some first ∧ IsName first n := by
  obtain ⟨D, hD, hlist⟩ := parseWindow_list h hd
  obtain ⟨hall, hmem⟩ := parseList_ok hlist
  have hday : ∀ part ∈ parts d, ∀ first n, (words part).head? = some first → IsName first n →
      dayOf part = some n := by
    intro part hpart first n hfirst hn
    obtain ⟨m, hm⟩ := hall part hpart
    exact dayOf_eq (not_comma_of_mem_parts hpart) (trim_ne_nil hm) hfirst hn
  constructor
  · rintro ⟨D', hD', ⟨n, hn⟩, hnames, hiff⟩
    obtain rfl : D = D' := Option.some_inj.mp (hD.symm.trans hD')
    refine ⟨?_, fun part hpart word hword => hnames word (mem_words.mpr ⟨part, hpart, hword⟩), ?_⟩
    · obtain ⟨part, hpart, -⟩ : ∃ part ∈ parts d, dayOf part =
        some n := by simpa using (hmem n).mp hn
      exact List.ne_nil_of_mem hpart
    · intro part hpart word hword n hn
      have hin : n ∈ D := (hiff n).mpr ⟨word, mem_words.mpr ⟨part, hpart, hword⟩, hn⟩
      obtain ⟨part', hpart', hn'⟩ : ∃ part' ∈ parts d, dayOf part' = some n := by
        simpa using (hmem n).mp hin
      obtain ⟨first, rest, hfirst, -⟩ :=
        head?_words (not_comma_of_mem_parts hpart') (trim_ne_nil hn')
      obtain ⟨m, hm⟩ := hnames first (mem_words.mpr ⟨part', hpart', List.mem_of_head? hfirst⟩)
      obtain rfl : m = n :=
        Option.some_inj.mp ((hday part' hpart' first m hfirst hm).symm.trans hn')
      exact ⟨part', hpart', first, hfirst, hm⟩
  · rintro ⟨hne, hnames, hfirsts⟩
    refine ⟨D, hD, ?_, ?_, fun n => ?_⟩
    · obtain ⟨part, hpart⟩ := List.exists_mem_of_ne_nil _ hne
      obtain ⟨n, hn⟩ := hall part hpart
      exact ⟨n, (hmem n).mpr (Or.inr ⟨part, hpart, hn⟩)⟩
    · intro word hword
      obtain ⟨part, hpart, hword⟩ := mem_words.mp hword
      exact hnames part hpart word hword
    · constructor
      · intro hn
        obtain ⟨part, hpart, hn⟩ : ∃ part ∈ parts d, dayOf part =
          some n := by simpa using (hmem n).mp hn
        obtain ⟨first, rest, hfirst, -⟩ :=
          head?_words (not_comma_of_mem_parts hpart) (trim_ne_nil hn)
        have hword : first ∈ words part := List.mem_of_head? hfirst
        obtain ⟨m, hm⟩ := hnames part hpart first hword
        obtain rfl : m = n := Option.some_inj.mp ((hday part hpart first m hfirst hm).symm.trans hn)
        exact ⟨first, mem_words.mpr ⟨part, hpart, hword⟩, hm⟩
      · rintro ⟨word, hword, hn⟩
        obtain ⟨part, hpart, hword⟩ := mem_words.mp hword
        obtain ⟨part', hpart', first, hfirst, hn'⟩ := hfirsts part hpart word hword n hn
        exact (hmem n).mpr (Or.inr ⟨part', hpart', hday part' hpart' first n hfirst hn'⟩)

/-- Saturday and Sunday, one of them abbreviated. -/
theorem says_of_two : parseWindow "Sat, sunday 23:00–01:00" = .ok ⟨false, some {0, 6}, 1380, 60⟩ ∧
    Says "sat, sunday".toList (some {0, 6}) := by
  have hparse : parseWindow "Sat, sunday 23:00–01:00" = .ok ⟨false, some {0, 6}, 1380, 60⟩ := by
    decide +kernel
  exact ⟨hparse, (says_iff hparse (d := "sat, sunday".toList) (by decide +kernel)).mpr (by
    decide +kernel)⟩

/-- A range of days is read as its first day. -/
theorem range_taken : ¬ ∀ s w d, parseWindow s = .ok w → dayList s = some d → Says d w.days := by
  intro h
  obtain ⟨D, hD, -, hnames, -⟩ :=
    h "Mon-Fri 02:00–03:00" ⟨false, some {1}, 120, 180⟩ "mon-fri".toList
    (by decide +kernel) (by decide +kernel)
  have hnone : ∀ n, ¬ IsName "mon-fri".toList n := by decide +kernel
  obtain ⟨n, hn⟩ := hnames "mon-fri".toList (by decide +kernel)
  exact hnone n hn

end Dockhand.System.Windows
