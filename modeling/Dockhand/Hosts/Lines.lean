import Mathlib.Data.List.Basic
import Mathlib.Data.List.Chain
import Mathlib.Data.List.TakeWhile

/-!
# The lines of a command's output

`ExecStream` reads what a command writes with a `bufio.Scanner` that cuts at CR, LF and CRLF. The
scanner cuts what it has before it reads on, so a CRLF is one line end only when both bytes are
there at once. A line that fills the buffer ends the reading. `lines_iff` says that nothing else
goes wrong.
-/

namespace Dockhand.Hosts

/-- The carriage return. -/
def CR : UInt8 := 13

/-- The line feed. -/
def LF : UInt8 := 10

/-- The bytes that end a line, each for itself. -/
def isEnd (b : UInt8) : Bool := b = CR || b = LF

/-- The lines of an output, from behind `cur` on; `cr` when the last byte was a CR, to which an LF
belongs. -/
def linesFrom : Bool → List UInt8 → List UInt8 → List (List UInt8)
  | _, cur, [] => if cur = [] then [] else [cur]
  | cr, cur, b :: s =>
    if cr && b = LF then linesFrom false [] s
    else if isEnd b then cur :: linesFrom (b = CR) [] s
    else linesFrom false (cur ++ [b]) s

/-- The output cut at CR, LF and CRLF. -/
def lines (out : List UInt8) : List (List UInt8) := linesFrom false [] out

/-! ### The scanner -/

/-- `scanLinesCR` splits on LF or CR: how far to advance, and the line. -/
def scanLinesCR (data : List UInt8) (atEOF : Bool) : ℕ × Option (List UInt8) :=
  if atEOF ∧ data = [] then (0, none)
  else
    match data.findIdx? isEnd with
    | some i =>
      let j := i + 1
      let j := if data[i]? = some CR ∧ data[j]? = some LF then j + 1 else j
      (j, some (data.take i))
    | none => if atEOF then (data.length, some data) else (0, none)

private theorem findIdx?_isEnd {data : List UInt8} {i : ℕ} (h : data.findIdx? isEnd = some i) :
    ∃ a b t, data = a ++ b :: t ∧ a.length = i ∧ (∀ c ∈ a, isEnd c = false) ∧ isEnd b = true := by
  obtain ⟨hi, hend, hbefore⟩ := List.findIdx?_eq_some_iff_getElem.mp h
  refine ⟨data.take i, data[i], data.drop (i + 1), ?_, List.length_take_of_le hi.le, fun c hc => ?_,
    hend⟩
  · rw [← List.drop_eq_getElem_cons hi, List.take_append_drop]
  · obtain ⟨k, hk, rfl⟩ := List.getElem_of_mem hc
    rw [List.length_take_of_le hi.le] at hk
    rw [List.getElem_take]
    simpa using hbefore k hk

/-- A line that is cut off, and how far the scanner advances. -/
inductive Cut (atEOF : Bool) (data : List UInt8) : ℕ → List UInt8 → Prop
  | crlf (line t : List UInt8) (hline : ∀ c ∈ line, isEnd c = false)
      (hdata : data = line ++ CR :: LF :: t) : Cut atEOF data (line.length + 2) line
  | one (line : List UInt8) (b : UInt8) (t : List UInt8) (hline : ∀ c ∈ line, isEnd c = false)
      (hb : isEnd b = true) (hlf : ¬ (b = CR ∧ t.head? = some LF))
      (hdata : data = line ++ b :: t) : Cut atEOF data (line.length + 1) line
  | eof (heof : atEOF = true) (hne : data ≠ []) (hdata : ∀ c ∈ data, isEnd c = false) :
      Cut atEOF data data.length data

theorem cut_of_scanLinesCR {data line : List UInt8} {atEOF : Bool} {n : ℕ}
    (h : scanLinesCR data atEOF = (n, some line)) : Cut atEOF data n line := by
  rw [scanLinesCR] at h
  by_cases hempty : atEOF = true ∧ data = []
  · rw [if_pos hempty] at h
    cases h
  · rw [if_neg hempty] at h
    cases hfind : data.findIdx? isEnd with
    | some i =>
      obtain ⟨a, b, t, rfl, rfl, hline, hend⟩ := findIdx?_isEnd hfind
      have hat : (a ++ b :: t)[a.length]? = some b := by simp
      have hnext : (a ++ b :: t)[a.length + 1]? = t.head? := by
        rw [List.getElem?_append_right (Nat.le_succ _), Nat.succ_sub (le_refl _), Nat.sub_self,
          List.getElem?_cons_succ, List.head?_eq_getElem?]
      have htake : (a ++ b :: t).take a.length = a := by simp
      simp only [hfind, hat, hnext, htake, Option.some_inj, Prod.mk.injEq] at h
      obtain ⟨rfl, rfl⟩ := h
      split_ifs with hcrlf
      · obtain ⟨rfl, hhead⟩ := hcrlf
        obtain ⟨u, rfl⟩ := List.head?_eq_some_iff.mp hhead
        exact .crlf a u hline rfl
      · exact .one a b t hline hend hcrlf rfl
    | none =>
      simp only [hfind] at h
      split_ifs at h with heof
      · simp only [Prod.mk.injEq, Option.some_inj] at h
        obtain ⟨rfl, rfl⟩ := h
        refine .eof heof (fun hnil => hempty ⟨heof, hnil⟩) fun c hc => ?_
        simpa using List.findIdx?_eq_none_iff.mp hfind c hc
      · cases h

private theorem scanLinesCR_none {data : List UInt8} {atEOF : Bool} {n : ℕ}
    (h : scanLinesCR data atEOF = (n, none)) :
    (∀ c ∈ data, isEnd c = false) ∧ (atEOF = true → data = []) := by
  rw [scanLinesCR] at h
  by_cases hempty : atEOF = true ∧ data = []
  · simp [hempty.2]
  · rw [if_neg hempty] at h
    cases hfind : data.findIdx? isEnd with
    | some i =>
      simp [hfind] at h
    | none =>
      refine ⟨fun c hc => ?_, fun heof => ?_⟩
      · simpa using List.findIdx?_eq_none_iff.mp hfind c hc
      · simp [hfind, heof] at h

private theorem Cut.drop_lt {data line : List UInt8} {atEOF : Bool} {n : ℕ}
    (h : Cut atEOF data n line) :
    (data.drop n).length < data.length := by
  rw [List.length_drop]
  have hpos : 0 < n ∧ 0 < data.length := by
    cases h with
    | crlf line t hline hdata => exact ⟨Nat.succ_pos _, List.length_pos_iff.mpr (by simp [hdata])⟩
    | one line b t hline hb hlf hdata =>
      exact ⟨Nat.succ_pos _, List.length_pos_iff.mpr (by simp [hdata])⟩
    | eof heof hne hdata => exact ⟨List.length_pos_iff.mpr hne, List.length_pos_iff.mpr hne⟩
  omega

/-- The lines that are there, and what the scanner keeps. -/
def drain (atEOF : Bool) (data : List UInt8) : List (List UInt8) × List UInt8 :=
  match _h : scanLinesCR data atEOF with
  | (_, none) => ([], data)
  | (n, some line) =>
    let r := drain atEOF (data.drop n)
    (line :: r.1, r.2)
termination_by data.length
decreasing_by
  exact (cut_of_scanLinesCR _h).drop_lt

/-- The most bytes that the scanner keeps. -/
def maxLine : ℕ := 1024 * 1024

/-- The lines that `ExecStream` passes on, from the bytes that the scanner keeps and the reads that
are still to come. A full buffer is an error, after which the output is discarded. -/
def scan : List UInt8 → List (List UInt8) → List (List UInt8)
  | data, [] => if data.length ≥ maxLine then [] else (drain true data).1
  | data, r :: rs =>
    if data.length ≥ maxLine then []
    else
      let d := drain false (data ++ r)
      d.1 ++ scan d.2 rs

/-- Every read fits into the buffer. -/
def Fits : List UInt8 → List (List UInt8) → Prop
  | _, [] => True
  | data, r :: rs => (data ++ r).length ≤ maxLine ∧ Fits (drain false (data ++ r)).2 rs

/-! ### What the scanner leaves for the next read -/

section

variable {data line s : List UInt8} {b : UInt8} {atEOF : Bool}

private theorem isEnd_CR : isEnd CR = true := rfl

private theorem isEnd_LF : isEnd LF = true := rfl

private theorem linesFrom_append (h : ∀ c ∈ line, isEnd c = false) (cur s : List UInt8) :
    linesFrom false cur (line ++ s) = linesFrom false (cur ++ line) s := by
  induction line generalizing cur with
  | nil => rw [List.nil_append, List.append_nil]
  | cons c line ih =>
    obtain ⟨hc, hline⟩ := List.forall_mem_cons.mp h
    rw [List.cons_append, linesFrom, Bool.false_and, if_neg Bool.false_ne_true, hc,
      if_neg Bool.false_ne_true, ih hline, List.append_assoc, List.singleton_append]

private theorem linesFrom_end (hb : isEnd b = true) (cur s : List UInt8) :
    linesFrom false cur (b :: s) = cur :: linesFrom (b = CR) [] s := by
  rw [linesFrom, Bool.false_and, if_neg Bool.false_ne_true, if_pos hb]

/-- An LF behind a CR belongs to it. -/
theorem linesFrom_LF (cur s : List UInt8) : linesFrom true cur (LF :: s) = linesFrom false
    [] s := by
  rw [linesFrom, if_pos (by decide)]

private theorem linesFrom_of_head {cr : Bool} (h : ¬ (cr = true ∧ s.head? = some LF))
    (cur : List UInt8) :
    linesFrom cr cur s = linesFrom false cur s := by
  cases s with
  | nil => rw [linesFrom, linesFrom]
  | cons c s =>
    have hskip : (cr && c = LF) = false := by
      simpa using h
    rw [linesFrom, linesFrom, hskip, Bool.false_and]

/-- The last byte is a CR. -/
def endsCR (data : List UInt8) : Bool := data.getLast? = some CR

private theorem endsCR_append (h : s ≠ []) (data : List UInt8) : endsCR (data ++ s) = endsCR s := by
  rw [endsCR, endsCR, List.getLast?_append_of_ne_nil _ h]

private theorem endsCR_of_forall (h : ∀ c ∈ data, isEnd c = false) : endsCR data = false := by
  rw [endsCR, decide_eq_false_iff_not]
  intro hlast
  have hmem := h CR (List.mem_of_getLast? hlast)
  cases hmem

/-- What stands behind a line that was cut off. -/
theorem Cut.linesFrom_eq {n : ℕ} (h : Cut false data n line) (s : List UInt8) :
    linesFrom false [] (data ++ s) =
      line :: linesFrom (endsCR data && data.drop n = []) [] (data.drop n ++ s) := by
  cases h with
  | crlf line t hline hdata =>
    have hdrop : data.drop (line.length + 2) = t := by simp [hdata]
    have hflag : (endsCR data && t = []) = false := by
      cases t with
      | nil => simp [hdata, endsCR, CR, LF]
      | cons c t => simp
    rw [hdrop, hflag, hdata, List.append_assoc, linesFrom_append hline, List.cons_append,
      List.cons_append, linesFrom_end isEnd_CR, decide_eq_true rfl, linesFrom_LF, List.nil_append]
  | one line b t hline hb hlf hdata =>
    have hdrop : data.drop (line.length + 1) = t := by simp [hdata]
    rw [hdrop, hdata, List.append_assoc, linesFrom_append hline, List.cons_append,
      linesFrom_end hb, List.nil_append]
    cases t with
    | nil => simp [endsCR]
    | cons c t =>
      rw [linesFrom_of_head (by simpa using hlf)]
      simp
  | eof heof => cases heof

private theorem drain_of_none {n : ℕ} (h : scanLinesCR data atEOF = (n, none)) :
    drain atEOF data = ([], data) := by
  rw [drain, h]

private theorem drain_of_some {n : ℕ} (h : scanLinesCR data atEOF = (n, some line)) :
    drain atEOF data =
      (line :: (drain atEOF (data.drop n)).1, (drain atEOF (data.drop n)).2) := by
  rw [drain, h]

private theorem drain_nil (atEOF : Bool) : drain atEOF [] = ([], []) := by
  cases atEOF <;> exact drain_of_none rfl

/-- Only at the end of the output does a line take up all the bytes. -/
theorem Cut.length_le {n : ℕ} (h : Cut atEOF data n line) :
    line.length + (!atEOF).toNat ≤ data.length := by
  have hle := (!atEOF).toNat_le
  cases h with
  | crlf line t hline hdata =>
    rw [hdata, List.length_append, List.length_cons]
    omega
  | one line b t hline hb hlf hdata =>
    rw [hdata, List.length_append, List.length_cons]
    omega
  | eof heof => simp [heof]

private theorem length_le_of_mem_drain (data : List UInt8) :
    ∀ l ∈ (drain atEOF data).1, l.length + (!atEOF).toNat ≤ data.length := by
  cases hscan : scanLinesCR data atEOF with
  | mk n line? =>
    cases line? with
    | none =>
      rw [drain_of_none hscan]
      exact fun l hl => by cases hl
    | some line =>
      have hcut := cut_of_scanLinesCR hscan
      have hlen := length_le_of_mem_drain (data.drop n)
      rw [drain_of_some hscan]
      intro l hl
      rcases List.mem_cons.mp hl with rfl | hl
      · exact hcut.length_le
      · exact (hlen l hl).trans hcut.drop_lt.le
termination_by data.length
decreasing_by
  exact hcut.drop_lt

/-- **One read.** The lines of an output are those the scanner passes on and those of the rest,
which begins behind a CR when the bytes so far end in one. -/
theorem linesFrom_drain (data s : List UInt8) :
    linesFrom false [] (data ++ s) =
      (drain false data).1 ++ linesFrom (endsCR data) (drain false data).2 s ∧
    (∀ c ∈ (drain false data).2, isEnd c = false) ∧
    (endsCR data = true → (drain false data).2 = []) := by
  cases hscan : scanLinesCR data false with
  | mk n line? =>
    cases line? with
    | none =>
      obtain ⟨hfree, -⟩ := scanLinesCR_none hscan
      rw [drain_of_none hscan, linesFrom_append hfree, endsCR_of_forall hfree]
      exact ⟨by simp, hfree, by simp⟩
    | some line =>
      have hcut := cut_of_scanLinesCR hscan
      obtain ⟨hlines, hfree, hnil⟩ := linesFrom_drain (data.drop n) s
      rw [drain_of_some hscan, hcut.linesFrom_eq]
      by_cases hrest : data.drop n = []
      · rw [hrest, drain_nil]
        exact ⟨by simp, by simp, by simp⟩
      · have hends : endsCR data = endsCR (data.drop n) := by
          conv_lhs => rw [← List.take_append_drop n data]
          exact endsCR_append hrest _
        rw [decide_eq_false hrest, Bool.and_false, hlines, hends]
        exact ⟨rfl, hfree, hnil⟩
termination_by data.length
decreasing_by
  exact hcut.drop_lt

end

/-! ### Whole outputs -/

/-- The read ends with the CR of a CRLF whose LF is in the next read. -/
def CutsCRLF (r r' : List UInt8) : Prop := r.getLast? = some CR ∧ r'.head? = some LF

instance (r r' : List UInt8) : Decidable (CutsCRLF r r') := inferInstanceAs (Decidable (_ ∧ _))

/-- How many line ends are cut. -/
def cuts : List (List UInt8) → ℕ
  | r :: r' :: rs => (if CutsCRLF r r' then 1 else 0) + cuts (r' :: rs)
  | _ => 0

private theorem cuts_eq_zero_iff {reads : List (List UInt8)} :
    cuts reads = 0 ↔ reads.IsChain fun r r' => ¬ CutsCRLF r r' := by
  induction reads with
  | nil => simp [cuts]
  | cons r rs ih =>
    cases rs with
    | nil => simp [cuts]
    | cons r' rs =>
      rw [cuts, Nat.add_eq_zero_iff, ih, List.isChain_cons_cons]
      simp

section

variable {data : List UInt8} {reads : List (List UInt8)}

/-- What the scanner keeps begins the next line. -/
theorem exists_prefix_of_linesFrom {cur : List UInt8} (h : cur ≠ []) (s : List UInt8) :
    ∃ l ∈ linesFrom false cur s, cur <+: l := by
  induction s generalizing cur with
  | nil =>
    exact ⟨cur, by rw [linesFrom, if_neg h]; exact List.mem_singleton_self cur, List.prefix_rfl⟩
  | cons b s ih =>
    rw [linesFrom, Bool.false_and, if_neg Bool.false_ne_true]
    split_ifs with hb
    · exact ⟨cur, List.mem_cons_self, List.prefix_rfl⟩
    · obtain ⟨l, hl, hcur⟩ := ih (List.append_ne_nil_of_right_ne_nil cur (List.cons_ne_nil b []))
      exact ⟨l, hl, (List.prefix_append cur [b]).trans hcur⟩

private theorem length_lt_of_short {s : List UInt8}
    (hshort : ∀ l ∈ linesFrom false data s, l.length < maxLine) : data.length < maxLine := by
  by_cases hdata : data = []
  · subst hdata
    decide
  · obtain ⟨l, hl, hprefix⟩ := exists_prefix_of_linesFrom hdata s
    exact hprefix.length_le.trans_lt (hshort l hl)

/-- At the end of the output the rest is the last line. -/
theorem drain_eof (hdata : ∀ c ∈ data, isEnd c = false) :
    (drain true data).1 = linesFrom false data [] := by
  by_cases hempty : data = []
  · rw [hempty, drain_nil]
    rfl
  · have hscan : scanLinesCR data true = (data.length, some data) := by
      have hfind : data.findIdx? isEnd = none := List.findIdx?_eq_none_iff.mpr hdata
      simp [scanLinesCR, hempty, hfind]
    rw [drain_of_some hscan, linesFrom, if_neg hempty, List.drop_length, drain_nil]

/-- The lines that the scanner passes on are shorter than its buffer. -/
theorem length_lt_of_mem_scan (hfits : Fits data reads) :
    ∀ l ∈ scan data reads, l.length < maxLine := by
  induction reads generalizing data with
  | nil =>
    intro l hl
    rw [scan] at hl
    split_ifs at hl with hfull
    · cases hl
    · exact (length_le_of_mem_drain data l hl).trans_lt (not_le.mp hfull)
  | cons r rs ih =>
    intro l hl
    rw [scan] at hl
    split_ifs at hl with hfull
    · cases hl
    · rcases List.mem_append.mp hl with hl | hl
      · exact (length_le_of_mem_drain (data ++ r) l hl).trans hfits.1
      · exact ih hfits.2 l hl

/-- **The scanner on short lines.** Each line end that is cut adds one line. -/
theorem scan_of_short (hdata : ∀ c ∈ data, isEnd c = false) (hne : ∀ r ∈ reads, r ≠ [])
    (hshort : ∀ l ∈ linesFrom false data reads.flatten, l.length < maxLine) :
    (scan data reads).length = (linesFrom false data reads.flatten).length + cuts reads ∧
      (cuts reads = 0 → scan data reads = linesFrom false data reads.flatten) := by
  have hroom : ¬ maxLine ≤ data.length := not_le.mpr (length_lt_of_short hshort)
  induction reads generalizing data with
  | nil =>
    rw [scan, if_neg hroom, drain_eof hdata]
    exact ⟨rfl, fun _ => rfl⟩
  | cons r rs ih =>
    obtain ⟨hr, hrs⟩ := List.forall_mem_cons.mp hne
    obtain ⟨hlines, hfree, hnil⟩ := linesFrom_drain (data ++ r) rs.flatten
    have hall : linesFrom false data (r :: rs).flatten =
        linesFrom false [] (data ++ r ++ rs.flatten) := by
      rw [List.flatten_cons, List.append_assoc, linesFrom_append hdata, List.nil_append]
    rw [hall, hlines, endsCR_append hr] at hshort ⊢
    rw [endsCR_append hr] at hnil
    rw [scan, if_neg hroom]
    generalize drain false (data ++ r) = d at hshort hfree hnil ⊢
    dsimp only
    by_cases hcut : ∃ r' rs', rs = r' :: rs' ∧ CutsCRLF r r'
    · -- the LF ends an empty line of its own
      obtain ⟨r', rs', rfl, hboth⟩ := hcut
      obtain ⟨t, rfl⟩ := List.head?_eq_some_iff.mp hboth.2
      have hends : endsCR r = true := decide_eq_true hboth.1
      have hempty : linesFrom false [] ((LF :: t) :: rs').flatten =
          [] :: linesFrom false [] (t ++ rs'.flatten) := by
        rw [List.flatten_cons, List.cons_append, linesFrom_end isEnd_LF]
        rfl
      have hrest : ∀ l ∈ linesFrom false [] ((LF :: t) :: rs').flatten, l.length < maxLine := by
        rw [hends, List.flatten_cons, List.cons_append, linesFrom_LF] at hshort
        rw [hempty]
        intro l hl
        rcases List.mem_cons.mp hl with rfl | hl
        · decide
        · exact hshort l (List.mem_append_right _ hl)
      obtain ⟨hlen, -⟩ := ih (by simp) hrs hrest (by decide)
      rw [hempty, List.length_cons] at hlen
      rw [hends, hnil hends, List.flatten_cons, List.cons_append, linesFrom_LF, cuts, if_pos hboth,
        List.length_append, List.length_append, hlen]
      exact ⟨by omega, fun hzero => by omega⟩
    · have hhead : ¬ (endsCR r = true ∧ rs.flatten.head? = some LF) := by
        rintro ⟨hends, hhead⟩
        cases rs with
        | nil => cases hhead
        | cons r' rs =>
          obtain ⟨c, t, rfl⟩ := List.exists_cons_of_ne_nil (hrs r' List.mem_cons_self)
          exact hcut ⟨_, rs, rfl, of_decide_eq_true hends, hhead⟩
      have hcuts : cuts (r :: rs) = cuts rs := by
        cases rs with
        | nil => rfl
        | cons r' rs =>
          rw [cuts, if_neg fun h => hcut ⟨r', rs, rfl, h⟩, Nat.zero_add]
      rw [linesFrom_of_head hhead] at hshort ⊢
      have hrest : ∀ l ∈ linesFrom false d.2 rs.flatten, l.length < maxLine :=
        fun l hl => hshort l (List.mem_append_right _ hl)
      obtain ⟨hlen, heq⟩ := ih hfree hrs hrest (not_le.mpr (length_lt_of_short hrest))
      rw [hcuts, List.length_append, List.length_append, hlen, Nat.add_assoc]
      exact ⟨rfl, fun hzero => by rw [heq hzero]⟩

/-- **Streamed lines.** Whatever the reads, the lines passed on are those of the output exactly when
no read cuts a CRLF and no line fills the buffer. -/
theorem lines_iff (hne : ∀ r ∈ reads, r ≠ []) (hfits : Fits [] reads) :
    scan [] reads = lines reads.flatten ↔
      (reads.IsChain fun r r' => ¬ CutsCRLF r r') ∧
        ∀ l ∈ lines reads.flatten, l.length < maxLine := by
  constructor
  · intro heq
    have hshort : ∀ l ∈ lines reads.flatten, l.length < maxLine :=
      heq ▸ length_lt_of_mem_scan hfits
    obtain ⟨hlen, -⟩ := scan_of_short (by simp) hne hshort
    rw [heq, lines] at hlen
    exact ⟨cuts_eq_zero_iff.mp (by omega), hshort⟩
  · rintro ⟨hchain, hshort⟩
    exact (scan_of_short (by simp) hne hshort).2 (cuts_eq_zero_iff.mpr hchain)

end

/-! ### Two outputs in two reads -/

namespace Example

/-- A line in two parts, which ends with CRLF. -/
def together : List (List UInt8) := [[97], [98, CR, LF]]

/-- A line whose CRLF is cut. -/
def apart : List (List UInt8) := [[97, CR], [LF]]

private theorem fits_together : Fits [] together := by
  have hdrain : drain false [97] = ([], [97]) := drain_of_none rfl
  refine ⟨by decide, ?_, trivial⟩
  rw [List.nil_append, hdrain]
  decide

private theorem fits_apart : Fits [] apart := by
  have hdrain : (drain false [97, CR]).2 = [] := (linesFrom_drain [97, CR] []).2.2 rfl
  refine ⟨by decide, ?_, trivial⟩
  rw [List.nil_append, hdrain]
  decide

end Example

/-- A stream whose line ends are each read in one piece. -/
theorem lines_iff_together :
    scan [] Example.together = lines Example.together.flatten ↔
      (Example.together.IsChain fun r r' => ¬ CutsCRLF r r') ∧
        ∀ l ∈ lines Example.together.flatten, l.length < maxLine :=
  lines_iff (by decide) Example.fits_together

/-- The LF is passed on as a line of its own. -/
theorem scan_apart_ne :
    (∀ r ∈ Example.apart, r ≠ []) ∧ Fits [] Example.apart ∧
      (∀ l ∈ lines Example.apart.flatten, l.length ≤ maxLine) ∧
      scan [] Example.apart ≠ lines Example.apart.flatten := by
  have hshort : ∀ l ∈ linesFrom false [] Example.apart.flatten, l.length < maxLine := by decide
  refine ⟨by decide, Example.fits_apart, fun l hl => (hshort l hl).le, fun heq => ?_⟩
  obtain ⟨hlen, -⟩ := scan_of_short (by simp) (by decide) hshort
  rw [heq] at hlen
  exact absurd hlen (by decide)

end Dockhand.Hosts
