import Mathlib.Data.Fintype.Basic
import Mathlib.Order.Bounds.Basic
import Dockhand.Data.Recurring
import Dockhand.System.Window

/-!
# The times of an update window

`contains` tells whether a window is open, and `next` when it opens. The window of a day is the
interval from its start to its end, and the two functions keep to it in every zone of a fixed offset
as long as both ends are within the day and none of their digits are 08 or 09: `keeps_iff`. A
leading zero makes a number octal, so that a window from 08:00 opens at midnight, and of a window
that ends at 24:30 the last half hour is left out.
-/

namespace Dockhand.System.Windows

open Data Go

/-! ### The clock of a zone -/

/-- Nanoseconds of the clock of a zone, from the first of January 1970 on, which was a Thursday. -/
abbrev Time := ℤ

/-- The nanoseconds of a minute. -/
def minute : ℤ := 60 * 10 ^ 9

/-- The calendar day of a time. -/
def dayNumber (t : Time) : ℤ := t / (1440 * minute)

/-- `t.Hour()*60 + t.Minute()` -/
def minutes (t : Time) : ℤ := t / minute % 1440

/-- The weekday of a calendar day. -/
def weekday (d : ℤ) : Weekday := ⟨((d + 4) % 7).toNat, by omega⟩

/-- The day before, `(day+6)%7`. -/
def before (n : Weekday) : Weekday := n + 6

/-! ### `contains` and `next` -/

namespace Window

variable (w : Window)

/-- `dayOK`: the window can begin on this day. -/
def dayOK (n : Weekday) : Bool :=
  match w.days with
  | none => true
  | some D => n ∈ D

/-- `contains` reports whether a time falls inside the window. -/
def contains (t : Time) : Bool :=
  if w.any then true
  else
    let mins := minutes t
    let day := weekday (dayNumber t)
    if w.start < w.stop then w.dayOK day && w.start ≤ mins && mins < w.stop
    -- the part after midnight belongs to the window of the previous day
    else if w.start ≤ mins then w.dayOK day
    else mins < w.stop && w.dayOK (before day)

/-- When the window of a calendar day opens. -/
def opening (d : ℤ) : Time := d * (1440 * minute) + w.start * minute

/-- `next` returns when the window next opens at or after a time, `none` for the zero time. -/
def next (t : Time) : Option Time :=
  if w.contains t then some t
  else
    ((List.range 9).find? fun i : ℕ => w.dayOK (weekday (dayNumber t + i)) && t <
      w.opening (dayNumber t + i)).map
      fun i : ℕ => w.opening (dayNumber t + i)

end Window

/-! ### What they are for -/

section Spec

variable (w : Window) (start stop : ℕ)

/-- Where the interval of a day ends, which is on the next day when `stop` is not behind `start`. -/
def endOf : ℕ := if stop ≤ start then stop + 1440 else stop

/-- The time is in the interval of a day of the window. -/
def Open (t : Time) : Prop :=
  ∃ d, w.dayOK (weekday d) = true ∧ d * (1440 * minute) + start * minute ≤ t ∧
    t < d * (1440 * minute) + endOf start stop * minute

/-- The window is open in its intervals, and opens next at a time that is in one of them, otherwise
at the first later minute from which on it is open. -/
def Keeps : Prop :=
  ∀ t, (w.contains t = true ↔ Open w start stop t) ∧ (w.contains t = true → w.next t = some t) ∧
    (w.contains t = false → (∃ n, w.dayOK n = true) →
      ∃ m, w.next t = some m ∧ IsLeast {m | t < m ∧ minute ∣ m ∧ w.contains m = true} m)

end Spec

/-- The digits that a window is written with. Any time has none. -/
def digits (s : String) : Option Submatch :=
  if isAnyTime (trim s.toList) then none else windowRe (trim s.toList)

/-- Start and end of a window as they are written. Any time is the whole of every day. -/
def written (s : String) : ℕ × ℕ :=
  match digits s with
  | none => (0, 0)
  | some m =>
    (ofDigits 10 m.h₁ * 60 + ofDigits 10 m.m₁, ofDigits 10 m.h₂ * 60 + ofDigits 10 m.m₂)

/-! ### What the digits say -/

/-- Digits that a leading zero makes octal, and which are no octal number. -/
def Octal (g : List Char) : Prop := g = ['0', '8'] ∨ g = ['0', '9']

instance : DecidablePred Octal := fun _ => inferInstanceAs (Decidable (_ ∨ _))

/-- No hour and no minute is written as 08 or 09. -/
def Plain (s : String) : Prop := ∀ m ∈ digits s, ∀ g ∈ [m.h₁, m.m₁, m.h₂, m.m₂], ¬ Octal g

instance : DecidablePred Plain := fun s => inferInstanceAs (Decidable (∀ m ∈ digits s, _))

/-- Both ends are written as times of the day, up to 24:00, and there is something between them. -/
def Within (s : String) : Prop :=
  (written s).1 ≤ 1440 ∧ (written s).2 ≤ 1440 ∧ written s ≠ (1440, 0)

instance : DecidablePred Within := fun _ => inferInstanceAs (Decidable (_ ∧ _))

/-- The window is written to be always open, and its digits do not make it another: it ends when it
starts, with 08 or 09 in both hours or in none, or it ends a day or more after its start, of which
the minute is 00, 08 or 09. -/
def Always (s : String) : Prop :=
  ∃ m ∈ digits s, ((written s).1 = (written s).2 ∧ (Octal m.h₁ ↔ Octal m.h₂)) ∨
    ((written s).1 + 1440 ≤ (written s).2 ∧ (ofDigits 10 m.m₁ = 0 ∨ Octal m.m₁))

/-! ### Days -/

private theorem weekday_add_seven (d : ℤ) : weekday (d + 7) = weekday d := by
  simp only [weekday, Fin.mk.injEq]
  omega

private theorem before_weekday (d : ℤ) : before (weekday d) = weekday (d - 1) := by
  simp only [before, weekday, Fin.ext_iff, Fin.val_add]
  omega

/-- Every weekday comes within the next seven days. -/
theorem exists_weekday (d : ℤ) (n : Weekday) : ∃ i : ℕ, 1 ≤ i ∧ i ≤ 7 ∧ weekday (d + i) = n := by
  refine ⟨((n.val - d - 5) % 7).toNat + 1, by omega, by omega, ?_⟩
  simp only [weekday, Fin.ext_iff]
  omega

section Days

variable (w : Window)

/-- The calendar days on which the window opens. -/
def Window.openDays : Set ℤ := {d | w.dayOK (weekday d) = true}

private theorem openDays_periodic (d : ℤ) : d + 7 ∈ w.openDays ↔ d ∈ w.openDays := by
  simp only [Window.openDays, Set.mem_ofPred_eq, weekday_add_seven]

private theorem openDays_eq_univ : w.openDays = Set.univ ↔ ∀ n, w.dayOK n = true := by
  constructor
  · intro h n
    obtain ⟨i, -, -, hi⟩ := exists_weekday 0 n
    have hmem : 0 + (i : ℤ) ∈ w.openDays := h ▸ Set.mem_univ _
    rwa [Window.openDays, Set.mem_ofPred_eq, hi] at hmem
  · exact fun h => Set.eq_univ_of_forall fun d => h _

/-! ### Minutes -/

private theorem minute_pos : (0 : ℤ) < minute := by decide

private theorem dayNumber_eq (t : Time) : dayNumber t = t / minute / 1440 := by
  rw [dayNumber, mul_comm, Int.ediv_ediv_of_nonneg minute_pos.le]

private theorem le_iff_le_ediv (t n : ℤ) : n * minute ≤ t ↔ n ≤ t / minute :=
  (Int.le_ediv_iff_mul_le minute_pos).symm

private theorem lt_iff_ediv_lt (t n : ℤ) : t < n * minute ↔ t / minute < n :=
  (Int.ediv_lt_iff_lt_mul minute_pos).symm

/-- A window is open in recurring intervals of minutes. -/
theorem open_iff (start stop : ℕ) (t : Time) :
    Open w start stop t ↔ t / minute ∈ Recurring 1440 w.openDays start (endOf start stop) := by
  have hle : ∀ d (n : ℕ), d * (1440 * minute) + n * minute = (1440 * d + n) * minute :=
    fun d n => by ring
  simp only [Open, hle, le_iff_le_ediv, lt_iff_ediv_lt]
  rfl

/-- The start of the window within a day. -/
def cutStart : ℕ := min w.start 1440

/-- The end of the window without what of it is behind the end of a day. -/
def cutEnd : ℕ := if w.start < w.stop then min w.stop 1440 else min w.stop 1440 + 1440

/-- So it is for `contains`, which cuts off what is behind the end of a day. -/
theorem contains_iff (hany : w.any = false) (t : Time) :
    w.contains t = true ↔ t / minute ∈ Recurring 1440 w.openDays (cutStart w) (cutEnd w) := by
  have hr : minutes t < 1440 := Int.emod_lt_of_pos _ (by decide)
  have hr' : 0 ≤ minutes t := Int.emod_nonneg _ (by decide)
  have hend : cutEnd w ≤ 2880 := by rw [cutEnd]; split_ifs <;> omega
  rw [Recurring.mem_iff_of_le (by decide) (by omega) (by omega), ← dayNumber_eq,
    show t / minute % 1440 = minutes t from rfl]
  simp only [Window.openDays, Set.mem_ofPred_eq, Window.contains, hany, Bool.false_eq_true,
    if_false, before_weekday, cutStart, cutEnd]
  split_ifs with hlt hle
  · rw [Bool.and_eq_true, Bool.and_eq_true, decide_eq_true_eq, decide_eq_true_eq]
    constructor
    · rintro ⟨⟨hday, hle⟩, hlt'⟩
      exact Or.inl ⟨hday, by omega, by omega⟩
    · rintro (⟨hday, hle, hlt'⟩ | ⟨-, -, hlt'⟩)
      · exact ⟨⟨hday, by omega⟩, by omega⟩
      · omega
  · constructor
    · exact fun hday => Or.inl ⟨hday, by omega, by omega⟩
    · rintro (⟨hday, -⟩ | ⟨-, -, hlt'⟩)
      · exact hday
      · omega
  · rw [Bool.and_eq_true, decide_eq_true_eq]
    constructor
    · rintro ⟨hlt', hday⟩
      exact Or.inr ⟨hday, by omega, by omega⟩
    · rintro (⟨-, hle', -⟩ | ⟨hday, -, hlt'⟩)
      · omega
      · exact ⟨by omega, hday⟩

end Days

/-! ### Windows within a day -/

section Within

variable {w : Window} {t : Time}

/-- Both ends are within the day, and there is something between them. -/
def Window.Proper (w : Window) : Prop :=
  w.start ≤ 1440 ∧ w.stop ≤ 1440 ∧ ¬ (w.start = 1440 ∧ w.stop = 0)

private theorem Window.Proper.lt_endOf (h : w.Proper) : w.start < endOf w.start w.stop := by
  obtain ⟨hs, he, hne⟩ := h
  rw [endOf]
  split_ifs <;> omega

private theorem contains_iff_open (hany : w.any = false) (h : w.Proper) :
    w.contains t = true ↔ Open w w.start w.stop t := by
  obtain ⟨hs, he, hne⟩ := h
  have hstart : cutStart w = w.start := by rw [cutStart]; omega
  have hend : cutEnd w = endOf w.start w.stop := by
    rw [cutEnd, endOf]
    split_ifs <;> omega
  rw [contains_iff w hany, open_iff, hstart, hend]

private theorem opening_le_iff (d e : ℤ) : w.opening d ≤ w.opening e ↔ d ≤ e := by
  have hpos : (0 : ℤ) < 1440 * minute := by decide
  rw [Window.opening, Window.opening, add_le_add_iff_right, mul_le_mul_iff_left₀ hpos]

theorem dayNumber_le (t : Time) : dayNumber t * (1440 * minute) ≤ t := Int.ediv_mul_le t (by decide)

theorem lt_dayNumber (t : Time) : t < (dayNumber t + 1) * (1440 * minute) :=
  Int.lt_ediv_add_one_mul_self t (by decide)

/-- A time before an opening is on the day of the opening or before it. -/
theorem dayNumber_le_of_lt (hs : w.start ≤ 1440) {d : ℤ} (h : t < w.opening d) :
    dayNumber t ≤ d := by
  have hday := dayNumber_le t
  have hstart : (w.start : ℤ) * minute ≤ 1440 * minute := by
    have hpos := minute_pos
    have hs' : (w.start : ℤ) ≤ 1440 := by omega
    nlinarith
  rw [Window.opening] at h
  have hpos : (0 : ℤ) < 1440 * minute := by decide
  have hlt : dayNumber t * (1440 * minute) < (d + 1) * (1440 * minute) := by linarith
  exact Int.lt_add_one_iff.mp (lt_of_mul_lt_mul_right hlt hpos.le)

/-- A window that opens on some day opens within the days that `next` looks at. -/
theorem exists_opening (hday : ∃ n, w.dayOK n = true) (t : Time) :
    ∃ i ∈ List.range 9, (w.dayOK (weekday (dayNumber t + (i : ℕ))) &&
      decide (t < w.opening (dayNumber t + (i : ℕ)))) = true := by
  obtain ⟨n, hn⟩ := hday
  obtain ⟨i, hi, hi', hw⟩ := exists_weekday (dayNumber t) n
  refine ⟨i, List.mem_range.mpr (by omega), Bool.and_eq_true_iff.mpr ⟨hw ▸ hn, decide_eq_true ?_⟩⟩
  have hpos := minute_pos
  have hstart : 0 ≤ (w.start : ℤ) * minute := mul_nonneg (Int.natCast_nonneg _) hpos.le
  have hle : (dayNumber t + 1) * (1440 * minute) ≤ (dayNumber t + i) * (1440 * minute) :=
    mul_le_mul_of_nonneg_right (by omega) (by decide)
  rw [Window.opening]
  linarith [lt_dayNumber t]

/-- Outside of the window, `next` is the first later minute from which on it is open. -/
theorem next_isLeast (hany : w.any = false) (h : w.Proper) (hday : ∃ n, w.dayOK n = true)
    (ht : w.contains t = false) :
    ∃ m, w.next t = some m ∧ IsLeast {m | t < m ∧ minute ∣ m ∧ w.contains m = true} m := by
  obtain ⟨i, hi⟩ := Option.isSome_iff_exists.mp (List.find?_isSome.mpr (exists_opening hday t))
  obtain ⟨hopen, -, hfirst⟩ := List.find?_range_eq_some.mp hi
  rw [Bool.and_eq_true, decide_eq_true_eq] at hopen
  refine ⟨w.opening (dayNumber t + i), ?_, ⟨hopen.2, ?_, ?_⟩, ?_⟩
  · simp only [Window.next, ht, Bool.false_eq_true, if_false, hi, Option.map_some]
  · exact ⟨(dayNumber t + i) * 1440 + w.start, by rw [Window.opening]; ring⟩
  · have hlt : (w.start : ℤ) * minute < endOf w.start w.stop * minute :=
      mul_lt_mul_of_pos_right (by exact_mod_cast h.lt_endOf) minute_pos
    exact (contains_iff_open hany h).mpr ⟨_, hopen.1, le_rfl, by rw [Window.opening]; linarith⟩
  · rintro m ⟨htm, -, hm⟩
    obtain ⟨d, hd, hle, hlt⟩ := (contains_iff_open hany h).mp hm
    -- the interval that `m` is in opens after `t`, since `t` is not in it
    have hafter : t < w.opening d := by
      by_contra hnot
      have hin : w.contains t = true :=
        (contains_iff_open hany h).mpr ⟨d, hd, not_lt.mp hnot, htm.trans hlt⟩
      exact absurd hin (by simp [ht])
    obtain ⟨j, rfl⟩ := Int.le.dest (dayNumber_le_of_lt h.1 hafter)
    have hij : i ≤ j := by
      by_contra hji
      have hneg := hfirst j (not_le.mp hji)
      simp [hd, hafter] at hneg
    exact ((opening_le_iff _ _).mpr (by omega)).trans hle

end Within

/-! ### Numbers as they are written and as they are read -/

/-- A group of `windowRe` that stands for a number. -/
def IsGroup (g : List Char) : Prop := (g.length = 1 ∨ g.length = 2) ∧ ∀ c ∈ g, c.isDigit = true

private theorem clock_groups {s h m rest : List Char} (hc : clock s = some (h, m, rest)) :
    IsGroup h ∧ IsGroup m ∧ m.length = 2 := by
  simp only [clock] at hc
  split at hc
  · split_ifs at hc with hif
    cases hc
    refine ⟨⟨hif.1, fun c hc => List.mem_takeWhile_imp hc⟩, ⟨Or.inr rfl, ?_⟩, rfl⟩
    simpa using hif.2
  · exact absurd hc nofun

/-- The groups of a window: hours of one or two digits, minutes of two. -/
structure Groups (m : Submatch) : Prop where
  h₁ : IsGroup m.h₁
  m₁ : IsGroup m.m₁ ∧ m.m₁.length = 2
  h₂ : IsGroup m.h₂
  m₂ : IsGroup m.m₂ ∧ m.m₂.length = 2

private theorem windowRe_groups {t : List Char} {m : Submatch} (h : windowRe t = some m) :
    Groups m := by
  simp only [windowRe] at h
  split_ifs at h
  split at h
  · rename_i hclock
    split at h
    · split_ifs at h
      split at h
      · rename_i hclock'
        split_ifs at h
        cases h
        obtain ⟨gh₁, gm₁⟩ := clock_groups hclock
        obtain ⟨gh₂, gm₂⟩ := clock_groups hclock'
        exact ⟨gh₁, gm₁, gh₂, gm₂⟩
      · exact absurd h nofun
    · exact absurd h nofun
  · exact absurd h nofun

private theorem mem_of_isDigit {c : Char} (h : c.isDigit = true) : c ∈ "0123456789".toList := by
  have hc : c = Char.ofNat c.toNat := (Char.ofNat_toNat c).symm
  obtain ⟨hlow, hhigh⟩ := bounds_of_isDigit h
  rw [hc]
  generalize c.toNat = n at hlow hhigh
  obtain rfl | rfl | rfl | rfl | rfl | rfl | rfl | rfl | rfl | rfl : n = 48 ∨ n = 49 ∨ n = 50 ∨
    n = 51 ∨ n = 52 ∨ n = 53 ∨ n = 54 ∨ n = 55 ∨ n = 56 ∨ n = 57 := by omega
  all_goals decide

/-- What holds of all pairs of digits holds of the groups with two. -/
private theorem of_two_digits {P : List Char → Prop} [DecidablePred P] {g : List Char}
    (hg : IsGroup g)
    (hlen : g.length = 2)
    (h : ("0123456789".toList.all fun a => "0123456789".toList.all fun b => P [a, b]) = true) :
    P g := by
  obtain ⟨a, b, rfl⟩ := List.length_eq_two.mp hlen
  simp only [List.all_eq_true, decide_eq_true_eq] at h
  exact h a (mem_of_isDigit (hg.2 a (by simp))) b (mem_of_isDigit (hg.2 b (by simp)))

/-- A number is read as it is written or, where it is 08 or 09, as zero. -/
theorem sscan_cases {g : List Char} (h : IsGroup g) :
    (¬ Octal g ∧ sscan g = ofDigits 10 g) ∨
      (Octal g ∧ sscan g = 0 ∧ 8 ≤ ofDigits 10 g ∧ ofDigits 10 g ≤ 9) := by
  have hone : ("0123456789".toList.all fun a => sscan [a] = ofDigits 10 [a]) = true := by decide
  simp only [List.all_eq_true, decide_eq_true_eq] at hone
  rcases h.1 with hlen | hlen
  · obtain ⟨a, rfl⟩ := List.length_eq_one_iff.mp hlen
    refine Or.inl ⟨?_, hone a (mem_of_isDigit (h.2 a List.mem_cons_self))⟩
    simp [Octal]
  · exact of_two_digits (P := fun g => (¬ Octal g ∧ sscan g = ofDigits 10 g) ∨
      (Octal g ∧ sscan g = 0 ∧ 8 ≤ ofDigits 10 g ∧ ofDigits 10 g ≤ 9)) h hlen (by decide +kernel)

/-- Of two digits 08 and 09 are those that stand for eight and nine. -/
theorem octal_iff {g : List Char} (h : IsGroup g) (hlen : g.length = 2) :
    Octal g ↔ ofDigits 10 g = 8 ∨ ofDigits 10 g = 9 :=
  of_two_digits (P := fun g => Octal g ↔ ofDigits 10 g = 8 ∨ ofDigits 10 g = 9) h hlen
    (by decide +kernel)

/-- What is read of a window that has digits, which its hours and minutes bound. -/
structure Reads (s : String) (w : Window) (m : Submatch) : Prop where
  digits : digits s = some m
  groups : Groups m
  h₁ : ofDigits 10 m.h₁ ≤ 24
  m₁ : ofDigits 10 m.m₁ ≤ 59
  h₂ : ofDigits 10 m.h₂ ≤ 24
  m₂ : ofDigits 10 m.m₂ ≤ 59
  start : w.start = sscan m.h₁ * 60 + sscan m.m₁
  stop : w.stop = sscan m.h₂ * 60 + sscan m.m₂

private theorem exists_reads {s : String} {w : Window} (h : parseWindow s = .ok w)
    (hany : w.any = false) :
    ∃ m, Reads s w m := by
  obtain ⟨hne, m, hm, -, h₁, h₂, m₁, m₂, hstart, hstop⟩ := parseWindow_eq h hany
  have hgroups := windowRe_groups hm
  have hbound {g : List Char} {n : ℕ} (hg : IsGroup g) (hn : 9 ≤ n) (hread : sscan g ≤ n) :
      ofDigits 10 g ≤ n := by
    rcases sscan_cases hg with ⟨-, heq⟩ | ⟨-, -, -, hle⟩ <;> omega
  exact ⟨m, by simp only [Windows.digits, hne, hm, Bool.false_eq_true, if_false], hgroups,
    hbound hgroups.h₁ (by decide) h₁, hbound hgroups.m₁.1 (by decide) m₁,
    hbound hgroups.h₂ (by decide) h₂, hbound hgroups.m₂.1 (by decide) m₂, hstart, hstop⟩

namespace Reads

variable {s : String} {w : Window} {m : Submatch}

private theorem written_eq (h : Reads s w m) : written s =
    (ofDigits 10 m.h₁ * 60 + ofDigits 10 m.m₁, ofDigits 10 m.h₂ * 60 + ofDigits 10 m.m₂) := by
  rw [written, h.digits]

/-- What is read is not more than what is written, and not much less. -/
theorem le (h : Reads s w m) :
    (w.start ≤ (written s).1 ∧ (written s).1 ≤ w.start + 549 ∧ (written s).1 ≤ 1499) ∧
      w.stop ≤ (written s).2 ∧ (written s).2 ≤ w.stop + 549 ∧ (written s).2 ≤ 1499 := by
  have hend {g g' : List Char} (hg : IsGroup g) (hg' : IsGroup g') (hh : ofDigits 10 g ≤ 24)
      (hm : ofDigits 10 g' ≤ 59) :
      sscan g * 60 + sscan g' ≤ ofDigits 10 g * 60 + ofDigits 10 g' ∧
        ofDigits 10 g * 60 + ofDigits 10 g' ≤ sscan g * 60 + sscan g' + 549 ∧
          ofDigits 10 g * 60 + ofDigits 10 g' ≤ 1499 := by
    have hread := sscan_cases hg
    have hread' := sscan_cases hg'
    omega
  rw [h.written_eq, h.start, h.stop]
  exact ⟨hend h.groups.h₁ h.groups.m₁.1 h.h₁ h.m₁, hend h.groups.h₂ h.groups.m₂.1 h.h₂ h.m₂⟩

/-- The times are read as they are written exactly when no hour or minute is 08 or 09. -/
theorem plain_iff (h : Reads s w m) :
    Plain s ↔ w.start = (written s).1 ∧ w.stop = (written s).2 := by
  have hend {g g' : List Char} (hg : IsGroup g) (hg' : IsGroup g') :
      sscan g * 60 + sscan g' = ofDigits 10 g * 60 + ofDigits 10 g' ↔ ¬ Octal g ∧ ¬ Octal g' := by
    rcases sscan_cases hg with ⟨hplain, heq⟩ | ⟨hoctal, hzero, hlow, -⟩ <;>
      rcases sscan_cases hg' with ⟨hplain', heq'⟩ | ⟨hoctal', hzero', hlow', -⟩
    · exact iff_of_true (by rw [heq, heq']) ⟨hplain, hplain'⟩
    · exact iff_of_false (by omega) fun hboth => hboth.2 hoctal'
    · exact iff_of_false (by omega) fun hboth => hboth.1 hoctal
    · exact iff_of_false (by omega) fun hboth => hboth.1 hoctal
  rw [h.start, h.stop, h.written_eq, hend h.groups.h₁ h.groups.m₁.1,
    hend h.groups.h₂ h.groups.m₂.1, Plain, h.digits]
  simp [and_assoc]

/-- The digits tell whether a window that is written to be always open is read as one. -/
theorem always_iff (h : Reads s w m) :
    Always s ↔
      ((written s).1 = (written s).2 ∨ (written s).1 + 1440 ≤ (written s).2) ∧
        (w.start = w.stop ∨ 1440 ≤ w.stop ∧ (w.start = 0 ∨ w.stop < w.start)) := by
  have eh₁ := sscan_cases h.groups.h₁
  have eh₂ := sscan_cases h.groups.h₂
  have em₁ := sscan_cases h.groups.m₁.1
  have em₂ := sscan_cases h.groups.m₂.1
  -- the minutes are two digits, so that their values tell which they are
  rw [octal_iff h.groups.m₁.1 h.groups.m₁.2] at em₁
  rw [octal_iff h.groups.m₂.1 h.groups.m₂.2] at em₂
  have bounds := And.intro (And.intro h.h₁ h.m₁) (And.intro h.h₂ h.m₂)
  rw [Always, h.digits, h.start, h.stop, h.written_eq]
  simp only [Option.mem_def, Option.some.injEq, exists_eq_left',
    octal_iff h.groups.m₁.1 h.groups.m₁.2]
  rcases eh₁ with ⟨hplain, heq⟩ | ⟨hoctal, hzero, hlow, hhigh⟩ <;>
    rcases eh₂ with ⟨hplain', heq'⟩ | ⟨hoctal', hzero', hlow', hhigh'⟩
  · simp only [hplain, hplain', iff_self, and_true]
    omega
  · simp only [hplain, hoctal', false_iff, not_true_eq_false, and_false, false_or]
    omega
  · simp only [hoctal, hplain', iff_false, not_true_eq_false, and_false, false_or]
    omega
  · simp only [hoctal, hoctal', iff_self, and_true]
    omega

end Reads

private theorem parseWindow_any {s : String} {w : Window} (h : parseWindow s = .ok w)
    (hany : w.any = true) :
    w = ⟨true, none, 0, 0⟩ ∧ digits s = none := by
  simp only [parseWindow] at h
  split at h
  · rename_i hs
    cases h
    simp [digits, hs]
  · split at h
    · cases h
    · split at h
      · cases h
      · split at h
        · cases h
        · cases h
          cases hany

/-! ### When the window keeps to what is written -/

section Main

variable {w : Window} {start stop : ℕ}

/-- One interval of a day reaches the next. -/
theorem add_le_endOf : start + 1440 ≤ endOf start stop ↔ start = stop ∨ start + 1440 ≤ stop := by
  rw [endOf]
  split_ifs <;> omega

private theorem cutStart_add_le_cutEnd : cutStart w + 1440 ≤ cutEnd w ↔
    w.start = w.stop ∨ 1440 ≤ w.stop ∧ (w.start = 0 ∨ w.stop < w.start) := by
  rw [cutStart, cutEnd]
  split_ifs <;> omega

/-- What has the same ends modulo a day, and is read as at most what is written, is read as it is
written. -/
theorem within_of_modEq (hs : w.start ≤ start ∧ start ≤ w.start + 549 ∧ start ≤ 1499)
    (he : w.stop ≤ stop ∧ stop ≤ w.stop + 549 ∧ stop ≤ 1499)
    (hstart : (start : ℤ) ≡ cutStart w [ZMOD 1440])
      (hstop : (endOf start stop : ℤ) ≡ cutEnd w [ZMOD 1440]) :
    w.start = start ∧ w.stop = stop ∧ start ≤ 1440 ∧ stop ≤ 1440 := by
  unfold Int.ModEq at hstart hstop
  rw [cutStart] at hstart
  have hs' : w.start = start ∧ start ≤ 1440 := by omega
  rw [endOf, cutEnd] at hstop
  split_ifs at hstop <;> omega

/-- Up to the end of a day a window keeps to its intervals. -/
theorem keeps_of_within (hany : w.any = false) (h : w.Proper) : Keeps w w.start w.stop := by
  intro t
  refine ⟨contains_iff_open hany h, fun ht => by simp [Window.next, ht], fun ht hday => ?_⟩
  exact next_isLeast hany h hday ht

/-- A window that is always open, and is read as one. -/
theorem keeps_of_always (hany : w.any = false) (hday : ∀ n, w.dayOK n = true)
    (hstop : stop ≤ 1499) (h : start = stop ∨ start + 1440 ≤ stop)
    (hread : w.start = w.stop ∨ 1440 ≤ w.stop ∧ (w.start = 0 ∨ w.stop < w.start)) :
      Keeps w start stop := by
  have hlen : (endOf start stop : ℤ) < start + 2 * 1440 := by
    rw [endOf]
    split_ifs <;> omega
  have hlen' : (cutEnd w : ℤ) < cutStart w + 2 * 1440 := by
    rw [cutStart, cutEnd]
    split_ifs <;> omega
  have hdays := (openDays_eq_univ w).mpr hday
  have hopen : ∀ t, Open w start stop t := by
    intro t
    rw [open_iff, (Recurring.eq_univ_iff (by decide) hlen).mpr
      ⟨hdays, by exact_mod_cast add_le_endOf.mpr h⟩]
    exact Set.mem_univ _
  have hcontains : ∀ t, w.contains t = true := by
    intro t
    rw [contains_iff w hany, (Recurring.eq_univ_iff (by decide) hlen').mpr
      ⟨hdays, by exact_mod_cast cutStart_add_le_cutEnd.mpr hread⟩]
    exact Set.mem_univ _
  intro t
  refine ⟨iff_of_true (hcontains t) (hopen t), fun ht => by simp [Window.next, ht], fun ht => ?_⟩
  exact absurd (hcontains t) (by simp [ht])

/-- A window without a day is never open. -/
theorem keeps_of_never (hany : w.any = false) (hday : ∀ n, w.dayOK n = false) :
    Keeps w start stop := by
  have hno : ∀ t, w.contains t = false := by
    intro t
    rw [Bool.eq_false_iff, Ne, contains_iff w hany]
    rintro ⟨d, hd, -⟩
    exact absurd hd (by simp [Window.openDays, hday])
  intro t
  refine ⟨iff_of_false (by simp [hno t]) ?_, fun ht => by simp [Window.next, ht], ?_⟩
  · rintro ⟨d, hd, -⟩
    simp [hday] at hd
  · rintro - ⟨n, hn⟩
    simp [hday] at hn

/-- A window keeps to its written times when it has no day at all, when both ends are read as they
are written and stand within the day, with something between them, or when it is always open. -/
private theorem keeps_iff_read (hany : w.any = false)
    (hs : w.start ≤ start ∧ start ≤ w.start + 549 ∧ start ≤ 1499)
    (he : w.stop ≤ stop ∧ stop ≤ w.stop + 549 ∧ stop ≤ 1499) :
    Keeps w start stop ↔
      (∀ n, w.dayOK n = false) ∨ (w.start = start ∧ w.stop = stop ∧ w.Proper) ∨
      (∀ n, w.dayOK n = true) ∧ (start = stop ∨ start + 1440 ≤ stop) ∧
        (w.start = w.stop ∨ 1440 ≤ w.stop ∧ (w.start = 0 ∨ w.stop < w.start)) := by
  constructor
  · intro hkeeps
    by_cases hday : ∃ n, w.dayOK n = true
    swap
    · exact Or.inl (by simpa using hday)
    right
    have heq : Recurring 1440 w.openDays start (endOf start stop) =
        Recurring 1440 w.openDays (cutStart w) (cutEnd w) := by
      ext x
      have hx : x * minute / minute = x := Int.mul_ediv_cancel x minute_pos.ne'
      have hiff := (hkeeps (x * minute)).1
      rw [contains_iff w hany, open_iff, hx] at hiff
      exact hiff.symm
    have hne : (Recurring 1440 w.openDays (start : ℤ) (endOf start stop)).Nonempty := by
      cases hc : w.contains 0 with
      | true =>
        exact ⟨_, (open_iff _ _ _ _).mp ((hkeeps 0).1.mp hc)⟩
      | false =>
        obtain ⟨m, -, ⟨-, -, hm⟩, -⟩ := (hkeeps 0).2.2 hc hday
        exact ⟨_, (open_iff _ _ _ _).mp ((hkeeps m).1.mp hm)⟩
    have hlen : (endOf start stop : ℤ) < start + 2 * 1440 := by
      rw [endOf]
      split_ifs <;> omega
    have hlen' : (cutEnd w : ℤ) < cutStart w + 2 * 1440 := by
      rw [cutStart, cutEnd]
      split_ifs <;> omega
    by_cases hall : Recurring 1440 w.openDays (start : ℤ) (endOf start stop) = Set.univ
    · right
      obtain ⟨hdays, halways⟩ := (Recurring.eq_univ_iff (by decide) hlen).mp hall
      obtain ⟨-, hread⟩ := (Recurring.eq_univ_iff (by decide) hlen').mp (heq ▸ hall)
      exact ⟨(openDays_eq_univ w).mp hdays, add_le_endOf.mp (by exact_mod_cast halways),
        cutStart_add_le_cutEnd.mp (by exact_mod_cast hread)⟩
    · left
      obtain ⟨hstart, hstop⟩ :=
        Recurring.modEq (by decide) (by decide) (openDays_periodic w) hne hall heq
      obtain ⟨rfl, rfl, hs, he'⟩ := within_of_modEq hs he hstart hstop
      refine ⟨rfl, rfl, hs, he', fun hempty => ?_⟩
      obtain ⟨x, d, -, hle, hlt⟩ := hne
      have hend : endOf w.start w.stop = w.start := by rw [endOf]; split_ifs <;> omega
      rw [hend] at hlt
      exact absurd (hle.trans_lt hlt) (lt_irrefl _)
  · rintro (hday | ⟨rfl, rfl, hwithin⟩ | ⟨hday, halways, hread⟩)
    · exact keeps_of_never hany hday
    · exact keeps_of_within hany hwithin
    · exact keeps_of_always hany hday he.2.2 halways hread

end Main

/-- Any time is the whole of every day. -/
theorem keeps_any : Keeps ⟨true, none, 0, 0⟩ 0 0 := by
  intro t
  refine ⟨iff_of_true rfl ⟨dayNumber t, rfl, ?_, ?_⟩, fun _ => rfl, fun ht => by cases ht⟩
  · simpa using dayNumber_le t
  · simpa [endOf, add_mul] using lt_dayNumber t

/-- A window keeps to what is written when it has no day at all, when both ends are written without
08 and 09 and stand within the day, with something between them, or when it is always open. -/
theorem keeps_iff {s : String} {w : Window} (h : parseWindow s = .ok w) :
    Keeps w (written s).1 (written s).2 ↔
      (∀ n, w.dayOK n = false) ∨ (Plain s ∧ Within s) ∨ (∀ n, w.dayOK n = true) ∧ Always s := by
  cases hany : w.any with
  | true =>
    obtain ⟨rfl, hdigits⟩ := parseWindow_any h hany
    have hwritten : written s = (0, 0) := by rw [written, hdigits]
    rw [hwritten]
    refine iff_of_true keeps_any (Or.inr (Or.inl ⟨?_, ?_⟩))
    · simp [Plain, hdigits]
    · simp [Within, hwritten]
  | false =>
    obtain ⟨m, hreads⟩ := exists_reads h hany
    have hproper (hstart : w.start = (written s).1) (hstop : w.stop = (written s).2) :
        w.Proper ↔ Within s := by
      rw [Window.Proper, Within, hstart, hstop, Ne, Prod.ext_iff]
    rw [keeps_iff_read hany hreads.le.1 hreads.le.2, hreads.always_iff, hreads.plain_iff, and_assoc]
    refine or_congr_right (or_congr_left ?_)
    exact and_congr_right fun hstart => and_congr_right fun hstop => hproper hstart hstop

/-- From Sunday three o'clock to five. -/
theorem keeps_sunday : parseWindow "Sun 03:00–05:00" = .ok ⟨false, some {0}, 180, 300⟩ ∧
    Keeps ⟨false, some {0}, 180, 300⟩ 180 300 := by
  have hparse : parseWindow "Sun 03:00–05:00" = .ok ⟨false, some {0}, 180, 300⟩ := by decide +kernel
  have hwritten : written "Sun 03:00–05:00" = (180, 300) := by decide +kernel
  refine ⟨hparse, ?_⟩
  have hkeeps := keeps_iff hparse
  rw [hwritten] at hkeeps
  exact hkeeps.mpr (Or.inr (Or.inl ⟨by decide +kernel, by decide +kernel⟩))

/-- A window from eight to nine is open for the whole day. -/
theorem eight_midnight : ¬ ∀ s w, parseWindow s = .ok w → Keeps w (written s).1 (written s).2 := by
  intro h
  have hwritten : written "Sun 08:00–09:00" = (480, 540) := by decide +kernel
  have hkeeps := h "Sun 08:00–09:00" ⟨false, some {0}, 0, 0⟩ (by decide +kernel)
  rw [hwritten] at hkeeps
  -- noon of the first Sunday of 1970
  obtain ⟨d, -, hle, hlt⟩ := (hkeeps (3 * (1440 * minute) + 720 * minute)).1.mp (by decide +kernel)
  have hle' : d * (1440 * minute) + 480 * minute ≤ 3 * (1440 * minute) + 720 * minute := hle
  have hlt' : 3 * (1440 * minute) + 720 * minute < d * (1440 * minute) + 540 * minute := hlt
  rw [minute] at hle' hlt'
  have hbefore : d < 4 := by linarith
  have hafter : 3 < d := by linarith
  omega

end Dockhand.System.Windows
