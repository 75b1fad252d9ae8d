import Dockhand.Go.Words
import Dockhand.Uptime.Paused

/-!
# Expected statuses

What `ParseExpect` accepts are ranges of HTTP statuses (`of_parseExpect`), which can be written
down and read again (`parseExpect_specOf`). `Update` checks what it stores, so that a check never
finds a list that does not parse (`parses_of_run`).
-/

namespace Dockhand.Uptime

open Go Transition

/-- A range of statuses that a list may ask for. -/
def IsRange (r : ℤ × ℤ) : Prop := 100 ≤ r.1 ∧ r.1 ≤ r.2 ∧ r.2 ≤ 599

/-- A range as it is written. -/
def partOf (r : ℤ × ℤ) : String :=
  if r.1 = r.2 then r.1.toNat.repr else r.1.toNat.repr ++ "-" ++ r.2.toNat.repr

/-- A list of ranges as it is written. -/
def specOf (rs : List (ℤ × ℤ)) : String := ",".intercalate (rs.map partOf)

variable {r : ℤ × ℤ} {rs : List (ℤ × ℤ)} {c : Char}

private theorem isRange_of_parsePart {part : String} (h : parsePart part = .ok r) : IsRange r := by
  rw [parsePart] at h
  dsimp only at h
  split at h
  next a b ha hb =>
    split_ifs at h with hout
    obtain rfl := Except.ok.inj h
    simp only [not_or] at hout
    exact ⟨by omega, by omega, by omega⟩
  next => cases h

private theorem forall_isRange_of_mapM {parts : List String} (h : parts.mapM parsePart = .ok rs) :
    ∀ r ∈ rs, IsRange r := by
  induction parts generalizing rs with
  | nil =>
    obtain rfl := Except.ok.inj h
    simp
  | cons part parts ih =>
    rw [List.mapM_cons] at h
    cases hpart : parsePart part with
    | error e => simp [hpart, bind, Except.bind] at h
    | ok r =>
      cases hparts : parts.mapM parsePart with
      | error e => simp [hpart, hparts, bind, Except.bind] at h
      | ok rs' =>
        simp only [hpart, hparts, bind, Except.bind, pure, Except.pure, Except.ok.injEq] at h
        obtain rfl := h
        exact List.forall_mem_cons.mpr ⟨isRange_of_parsePart hpart, ih hparts⟩

theorem of_parseExpect {spec : String} (h : parseExpect spec = .ok rs) :
    rs ≠ [] ∧ ∀ r ∈ rs, IsRange r := by
  rw [parseExpect] at h
  generalize (if trimSpace spec = "" then "200-399" else trimSpace spec) = spec' at h
  generalize hparts : ((splitChar spec' ',').map trimSpace).filter (· ≠ "") = parts at h
  cases hrs : parts.mapM parsePart with
  | error e => simp [hrs, bind, Except.bind] at h
  | ok rs' =>
    simp only [hrs, bind, Except.bind] at h
    split_ifs at h with hempty
    obtain rfl := Except.ok.inj h
    exact ⟨hempty, forall_isRange_of_mapM hrs⟩

private theorem parseExpect_trimSpace (spec : String) :
    parseExpect (trimSpace spec) = parseExpect spec := by
  rw [parseExpect, parseExpect, trimSpace_trimSpace]

/-! ### Reading what is written -/

private theorem mem_partOf (hc : c ∈ (partOf r).toList) : c.isDigit = true ∨ c = '-' := by
  rw [partOf] at hc
  split_ifs at hc
  · exact .inl (isDigit_of_mem_repr hc)
  · simp only [String.toList_append, List.mem_append] at hc
    rcases hc with (hc | hc) | hc
    · exact .inl (isDigit_of_mem_repr hc)
    · exact .inr (by simpa using hc)
    · exact .inl (isDigit_of_mem_repr hc)

private theorem not_isSpace_of_mem_partOf (hc : c ∈ (partOf r).toList) : isSpace c = false := by
  rcases mem_partOf hc with hc | rfl
  · exact not_isSpace_of_isDigit hc
  · decide

private theorem comma_not_mem_partOf : ',' ∉ (partOf r).toList := by
  intro hc
  rcases mem_partOf hc with hc | hc
  · exact absurd hc (by decide)
  · exact absurd hc (by decide)

private theorem atoi_toNat {a : ℤ} (hlow : 100 ≤ a) (hhigh : a ≤ 599) :
    atoi a.toNat.repr = some a := by
  rw [atoi_repr (by omega), Int.toNat_of_nonneg (by omega)]

private theorem cutChar_of_not_mem {s : String} (h : c ∉ s.toList) : cutChar s c = (s, "") := by
  have hall : ∀ x ∈ s.toList, decide (x ≠ c) = true := fun x hx =>
    decide_eq_true fun hxc : x = c => h (hxc ▸ hx)
  rw [cutChar, List.takeWhile_eq_self_iff.mpr hall, List.dropWhile_eq_nil_iff.mpr hall]
  simp

private theorem parsePart_partOf (h : IsRange r) : parsePart (partOf r) = .ok r := by
  obtain ⟨a, b⟩ := r
  obtain ⟨hlow, hle, hhigh⟩ := h
  dsimp only at hlow hle hhigh
  have hin : ¬ (a < 100 ∨ b > 599 ∨ a > b) := by omega
  have hdash : '-' ∉ a.toNat.repr.toList := not_mem_repr (by decide)
  by_cases hab : a = b
  · subst hab
    have hpart : partOf (a, a) = a.toNat.repr := if_pos rfl
    rw [parsePart, hpart, cutChar_of_not_mem hdash]
    simp only [hdash, if_false, trimSpace_repr, atoi_toNat hlow hhigh, if_neg hin]
  · have hpart : partOf (a, b) = a.toNat.repr ++ "-" ++ b.toNat.repr := if_neg hab
    have hmem : '-' ∈ (a.toNat.repr ++ "-" ++ b.toNat.repr).toList := by simp
    rw [parsePart, hpart, cutChar_append (by decide) hdash]
    simp only [hmem, if_true, trimSpace_repr, atoi_toNat hlow (hle.trans hhigh),
      atoi_toNat (hlow.trans hle) hhigh, if_neg hin]

private theorem mapM_partOf (h : ∀ r ∈ rs, IsRange r) :
    (rs.map partOf).mapM parsePart = .ok rs := by
  induction rs with
  | nil => rfl
  | cons r rs ih =>
    obtain ⟨hr, hrs⟩ := List.forall_mem_cons.mp h
    rw [List.map_cons, List.mapM_cons, parsePart_partOf hr, ih hrs]
    rfl

private theorem partOf_ne_empty : partOf r ≠ "" := by
  rw [partOf]
  split_ifs <;> simp [String.ext_iff]

private theorem trimSpace_partOf : trimSpace (partOf r) = partOf r :=
  trimSpace_of_forall fun _ => not_isSpace_of_mem_partOf

/-- **Expected statuses.** What is accepted are ranges between 100 and 599, one at least, which are
read again from their written form. -/
theorem parseExpect_specOf {spec : String} (h : parseExpect spec = .ok rs) :
    rs ≠ [] ∧ (∀ r ∈ rs, IsRange r) ∧ parseExpect (specOf rs) = .ok rs := by
  obtain ⟨hne, hrange⟩ := of_parseExpect h
  refine ⟨hne, hrange, ?_⟩
  have hparts : rs.map partOf ≠ [] := by simpa using hne
  have hsplit : splitChar (specOf rs) ',' = rs.map partOf :=
    splitChar_intercalate (by decide)
      (List.forall_mem_map.mpr fun _ _ => comma_not_mem_partOf) hparts
  have hdark : trimSpace (specOf rs) = specOf rs := by
    refine trimSpace_of_forall fun c hc => ?_
    by_contra hspace
    refine not_mem_intercalate (fun hcomma => hspace ?_) (fun l hl hmem => hspace ?_) hc
    · obtain rfl : c = ',' := by simpa using hcomma
      decide
    · obtain ⟨r, -, rfl⟩ := List.mem_map.mp hl
      exact not_isSpace_of_mem_partOf hmem
  have hempty : specOf rs ≠ "" := by
    intro hspec
    have hone : [""] = rs.map partOf := by rw [← hsplit, hspec]; decide
    obtain ⟨r, -, hr⟩ := List.mem_map.mp (hone ▸ List.mem_singleton_self "")
    exact partOf_ne_empty hr
  have hkept : ((rs.map partOf).map trimSpace).filter (· ≠ "") = rs.map partOf := by
    have hmap : (rs.map partOf).map trimSpace = rs.map partOf := by
      rw [List.map_map]
      exact List.map_congr_left fun _ _ => trimSpace_partOf
    rw [hmap]
    exact List.filter_eq_self.mpr (List.forall_mem_map.mpr fun _ _ => by
      simpa using partOf_ne_empty)
  rw [parseExpect, hdark, if_neg hempty, hsplit, hkept, mapM_partOf hrange]
  exact if_neg hne

/-- A code, a range, and an empty part behind the last comma. -/
theorem parseExpect_specOf_list :
    parseExpect "200, 301-302," = .ok [(200, 200), (301, 302)] ∧
      (∀ r ∈ [((200 : ℤ), (200 : ℤ)), (301, 302)], IsRange r) ∧
      parseExpect (specOf [(200, 200), (301, 302)]) = .ok [(200, 200), (301, 302)] :=
  have hparse : parseExpect "200, 301-302," = .ok [(200, 200), (301, 302)] := by decide +kernel
  ⟨hparse, (parseExpect_specOf hparse).2⟩

/-! ### Stored expectations -/

/-- A check can read what the row of an HTTP monitor expects. -/
def Monitor.Parses (m : Monitor) : Prop := m.type = .http → ∃ rs, parseExpect m.expect = .ok rs

private theorem parses_of_apply {p : Patch} {m m' : Monitor} (hm : m.Parses)
    (h : p.apply m = .ok m') :
    m'.Parses := by
  rw [Patch.apply] at h
  cases hexpect : p.newExpect m with
  | error e => simp [hexpect, Except.map] at h
  | ok new =>
    rw [hexpect] at h
    obtain rfl := Except.ok.inj h
    intro htype
    rw [Patch.newExpect] at hexpect
    split at hexpect
    next e he =>
      cases hrs : parseExpect e with
      | error err => simp [hrs, Except.map] at hexpect
      | ok rs =>
        rw [hrs] at hexpect
        obtain rfl := Except.ok.inj hexpect
        exact ⟨rs, (parseExpect_trimSpace e).trans hrs⟩
    next =>
      obtain rfl := Except.ok.inj hexpect
      exact hm htype

private theorem type_of_apply {p : Patch} {m m' : Monitor} (h : p.apply m = .ok m') :
    m'.type = m.type := by
  rw [Patch.apply] at h
  cases hexpect : p.newExpect m with
  | error e => simp [hexpect, Except.map] at h
  | ok new =>
    rw [hexpect] at h
    obtain rfl := Except.ok.inj h
    rfl

namespace Service

variable {s s' t : Service} {e : Event} {es : List Event}

/-- The rows that checks and calls of `Update` work with parse, and are of the monitor's type. -/
structure ParseInv (s : Service) : Prop where
  row : s.monitor.Parses
  waiting : ∀ m ∈ s.waiting, m.Parses
  checking : ∀ m, s.running = some (.checking m) → m.Parses
  writing : ∀ m, .writing m ∈ s.updates → m.Parses ∧ m.type = s.monitor.type

namespace ParseInv

private theorem of_idle (hidle : s.Idle) (h : s.monitor.Parses) : s.ParseInv where
  row := h
  waiting := by simp [hidle.waiting]
  checking := by simp [hidle.running]
  writing := by simp [hidle.updates]

/-- Nothing but the running check changes, and it is past its request. -/
theorem running (h : s.ParseInv) {c : Option Check} (hc : ∀ m, c ≠ some (.checking m)) :
    ParseInv { s with running := c } :=
  ⟨h.row, h.waiting, fun m hm => absurd hm (hc m), h.writing⟩

theorem checkOne {m : Monitor} (h : s.ParseInv) (hm : m.Parses) : (s.checkOne m).ParseInv := by
  rw [Service.checkOne]
  split_ifs
  · exact h
  · exact h.running (by simp)
  · exact ⟨h.row, h.waiting, fun m' hm' => by simp_all, h.writing⟩

/-- A check leaves what the row expects. -/
theorem advance {c : Check} (h : s.ParseInv) (hs : s.advance c = some s') : s'.ParseInv := by
  cases c with
  | checking m => cases hs
  | looking m r =>
    obtain rfl := Option.some.inj hs
    refine h.running fun m' => ?_
    split_ifs
    · rw [notify]
      split_ifs <;> simp
    · simp
  | opening m r =>
    obtain rfl := Option.some.inj hs
    refine ⟨h.row, h.waiting, fun m' hm' => ?_, h.writing⟩
    rw [notify] at hm'
    split_ifs at hm' <;> simp at hm'
  | marking m r =>
    obtain rfl := Option.some.inj hs
    refine ⟨h.row, h.waiting, fun m' hm' => ?_, h.writing⟩
    dsimp only at hm'
    split_ifs at hm' <;> simp at hm'
  | _ =>
    obtain rfl := Option.some.inj hs
    exact ⟨h.row, h.waiting, by simp, h.writing⟩

theorem callStep {i : ℕ} {u : UpdateCall} (h : s.ParseInv) (hi : s.updates[i]? = some u) :
    (s.callStep i u).ParseInv := by
  have hrest : ∀ v ∈ s.updates.eraseIdx i, v ∈ s.updates := fun v => List.mem_of_mem_eraseIdx
  cases u with
  | writing m =>
    obtain ⟨hm, htype⟩ := h.writing m (List.mem_of_getElem? hi)
    -- the row keeps its type, which is that of the copy
    have hrow : (s.store m).monitor.Parses := fun hhttp => hm (htype.trans hhttp)
    rw [Service.callStep]
    split_ifs
    · exact ⟨hrow, h.waiting, h.checking, fun m' hm' => h.writing m' (hrest _ hm')⟩
    · exact ⟨hrow, h.waiting, h.checking, fun m' hm' => h.writing m'
        (hrest _ (((mem_pool_set hi).mp hm').resolve_left (by simp)))⟩
  | closing =>
    exact ⟨h.row, h.waiting, h.checking, fun m' hm' => h.writing m'
      (hrest _ (((mem_pool_set hi).mp hm').resolve_left (by simp)))⟩
  | resolving => exact ⟨h.row, h.waiting, h.checking, fun m' hm' => h.writing m' (hrest _ hm')⟩

theorem step (h : s.ParseInv) (hs : s.step e = some s') : s'.ParseInv := by
  have hgrown : ∀ m ∈ s.waiting ++ [s.monitor], m.Parses := by
    simpa using fun m hm => hm.elim (h.waiting m) fun heq => heq ▸ h.row
  cases e with
  | checkAll =>
    obtain ⟨-, hs⟩ := Option.ite_none_right_eq_some.mp hs
    obtain rfl := Option.some.inj hs
    exact ⟨h.row, hgrown, h.checking, h.writing⟩
  | checkNow =>
    obtain rfl := Option.some.inj hs
    exact ⟨h.row, hgrown, h.checking, h.writing⟩
  | start i =>
    obtain ⟨m, hi, rfl⟩ := Option.map_eq_some_iff.mp hs
    have hleft : ParseInv { s with waiting := s.waiting.eraseIdx i } :=
      ⟨h.row, fun m' hm' => h.waiting m' (List.mem_of_mem_eraseIdx hm'), h.checking, h.writing⟩
    exact hleft.checkOne (h.waiting m (List.mem_of_getElem? hi))
  | cancelled =>
    obtain ⟨m, -, rfl⟩ := step_cancelled hs
    exact h.running (by simp)
  | checked r =>
    obtain ⟨m, -, rfl⟩ := step_checked hs
    exact h.running (by simp)
  | next =>
    obtain ⟨c, -, hs⟩ := Option.bind_eq_some_iff.mp hs
    exact h.advance hs
  | update p =>
    obtain rfl | ⟨m, happly, rfl⟩ := step_update hs
    · exact h
    · refine ⟨h.row, h.waiting, h.checking, fun m' hm' => ?_⟩
      rcases List.mem_append.mp hm' with hm' | hm'
      · exact h.writing m' hm'
      · obtain rfl := UpdateCall.writing.inj (List.mem_singleton.mp hm')
        exact ⟨parses_of_apply h.row happly, type_of_apply happly⟩
  | write i =>
    obtain ⟨u, hi, rfl⟩ := Option.map_eq_some_iff.mp hs
    exact h.callStep hi

end ParseInv

/-- **Stored expectations parse**, in every run: when a check of an HTTP monitor sends its request,
it can read which statuses are expected. -/
theorem parses_of_run (hidle : s.Idle) (h : s.monitor.Parses)
    (hrun : exec Service.step s es = some t) :
    t.monitor.Parses ∧ ∀ m, t.running = some (.checking m) → m.Parses :=
  have hinv := exec_invariant (fun _ _ _ => ParseInv.step) (ParseInv.of_idle hidle h) hrun
  ⟨hinv.row, hinv.checking⟩

/-- The expectation is changed, and the next check starts with the new one. -/
theorem parses_of_run_changed : ∃ t,
    exec Service.step Example.web [.update { expect := some " 200, 301-302 " }, .write 0, .checkNow,
      .start 0] = some t ∧
      t.monitor.Parses ∧ ∀ m, t.running = some (.checking m) → m.Parses := by
  have hruns : (exec Service.step Example.web
      [.update { expect := some " 200, 301-302 " }, .write 0, .checkNow, .start 0]).isSome := by
    decide +kernel
  obtain ⟨t, ht⟩ := Option.isSome_iff_exists.mp hruns
  exact ⟨t, ht, parses_of_run Example.web_idle (fun _ => ⟨[(200, 399)], by decide +kernel⟩) ht⟩

end Service

end Dockhand.Uptime
