import Dockhand.Go.Strings

/-!
# Paths

The functions of the `path` package over the components of a path. A path without `..` is cleaned by
leaving out its empty components and dots (`pathClean_of_isAbs`, `pathClean_of_not_isAbs`), and what
is joined to it stands below it (`pathJoin_below`).
-/

namespace Go

/-- `path.IsAbs`. -/
def isAbs (p : String) : Bool := hasPrefix p "/"

/-- `path.Join` of two elements. -/
def pathJoin (a b : String) : String :=
  if a = "" ∧ b = "" then "" else pathClean (if a = "" then b else a ++ "/" ++ b)

/-- `path.Dir`. -/
def pathDir (p : String) : String :=
  match cutLast p '/' with
  | none => "."
  | some (dir, _) => pathClean (dir ++ "/")

/-- `path.Base`. -/
def pathBase (p : String) : String :=
  if p = "" then "."
  else
    let p := trimRight p "/"
    let base := match cutLast p '/' with
      | none => p
      | some (_, base) => base
    if base = "" then "/" else base

/-- The components of a path that are neither empty nor a dot. -/
def pathNames (p : String) : List String := (splitChar p '/').filter fun c => c ≠ "" ∧ c ≠ "."

/-- No component leads up. -/
def NoUp (p : String) : Prop := ".." ∉ splitChar p '/'

/-- A component of a clean path. -/
def IsName (c : String) : Prop := c ≠ "" ∧ c ≠ "." ∧ c ≠ ".." ∧ '/' ∉ c.toList

variable {p a b : String} {ns ms : List String}

theorem noUp_of_not_contains (h : contains p ".." = false) : NoUp p := fun hmem => by
  rw [contains_of_mem_splitChar hmem] at h
  cases h

theorem not_mem_of_mem_splitOn {c : Char} {s l : List Char} (h : l ∈ s.splitOn c) :
    c ∉ l := by
  induction s generalizing l with
  | nil =>
    rw [List.splitOn_nil, List.mem_singleton] at h
    exact h ▸ List.not_mem_nil
  | cons x s ih =>
    rw [List.splitOn_cons_eq_if_modifyHead] at h
    split_ifs at h with hx
    · rcases List.mem_cons.mp h with rfl | h
      · exact List.not_mem_nil
      · exact ih h
    · cases hsplit : s.splitOn c with
      | nil => exact absurd hsplit (List.splitOn_ne_nil c s)
      | cons g gs =>
        rw [hsplit] at h ih
        rcases List.mem_cons.mp h with rfl | h
        · exact List.not_mem_cons_of_ne_of_not_mem (Ne.symm (by simpa using hx))
            (ih List.mem_cons_self)
        · exact ih (List.mem_cons_of_mem _ h)

/-- A part of a string does not contain the separator. -/
theorem not_mem_of_mem_splitChar {c : Char} {s l : String} (h : l ∈ splitChar s c) :
    c ∉ l.toList := by
  obtain ⟨xs, hxs, rfl⟩ := List.mem_map.mp h
  rw [String.toList_ofList]
  exact not_mem_of_mem_splitOn hxs

theorem isName_of_mem (hup : NoUp p) {c : String} (h : c ∈ pathNames p) : IsName c := by
  obtain ⟨hmem, hc⟩ := List.mem_filter.mp h
  simp only [decide_eq_true_eq] at hc
  refine ⟨hc.1, hc.2, ?_, not_mem_of_mem_splitChar hmem⟩
  rintro rfl
  exact hup hmem

/-- Without `..` a component is kept or left out. -/
theorem foldl_cleanStep (rooted : Bool) {cs : List String} (h : ".." ∉ cs) (kept : List String) :
    cs.foldl (cleanStep rooted) kept = (cs.filter fun c => c ≠ "" ∧ c ≠ ".").reverse ++ kept := by
  induction cs generalizing kept with
  | nil => rfl
  | cons c cs ih =>
    obtain ⟨hc, hcs⟩ := List.ne_and_not_mem_of_not_mem_cons h
    rw [List.foldl_cons, ih hcs]
    by_cases hkeep : c ≠ "" ∧ c ≠ "."
    · have hstep : cleanStep rooted kept c = c :: kept := by
        simp [cleanStep, hkeep.1, hkeep.2, hc.symm]
      rw [hstep, List.filter_cons_of_pos (by simpa using hkeep), List.reverse_cons,
        List.append_assoc, List.singleton_append]
    · have hstep : cleanStep rooted kept c = kept := by
        have hdrop : c = "" ∨ c = "." := by tauto
        rcases hdrop with rfl | rfl <;> rfl
      rw [hstep, List.filter_cons_of_neg (by simpa using hkeep)]

theorem pathClean_of_isAbs (habs : isAbs p = true) (hup : NoUp p) :
    pathClean p = "/" ++ "/".intercalate (pathNames p) := by
  simp only [pathClean, foldl_cleanStep _ hup, List.append_nil, List.reverse_reverse]
  exact if_pos habs

theorem pathClean_of_not_isAbs (habs : isAbs p = false) (hup : NoUp p) :
    pathClean p = if pathNames p = [] then "." else "/".intercalate (pathNames p) := by
  simp only [pathClean, foldl_cleanStep _ hup, List.append_nil, List.reverse_reverse]
  exact if_neg (by simpa [isAbs] using habs)

private theorem splitChar_slash (a b : String) :
    splitChar (a ++ "/" ++ b) '/' = splitChar a '/' ++ splitChar b '/' := by
  have hsplit : (a ++ "/" ++ b).toList = a.toList ++ '/' :: b.toList := by simp
  rw [splitChar, hsplit, List.splitOn_append_cons_self, List.map_append, splitChar, splitChar]

theorem pathNames_slash (a b : String) : pathNames (a ++ "/" ++ b) = pathNames a ++
    pathNames b := by
  rw [pathNames, splitChar_slash, List.filter_append, pathNames, pathNames]

private theorem noUp_slash : NoUp (a ++ "/" ++ b) ↔ NoUp a ∧ NoUp b := by
  rw [NoUp, splitChar_slash, List.mem_append, not_or, NoUp, NoUp]

theorem isAbs_append (h : isAbs a = true) (b : String) : isAbs (a ++ b) = true := by
  rw [isAbs, hasPrefix, List.isPrefixOf_iff_prefix] at h ⊢
  rw [String.toList_append]
  exact h.trans (List.prefix_append _ _)

@[simp] theorem isAbs_slash (a : String) : isAbs ("/" ++ a) = true := by
  simp [isAbs, hasPrefix]

/-- The components of a path that was put together from them. -/
theorem splitChar_intercalate_slash (h : ∀ c ∈ ns, IsName c) (hne : ns ≠ []) :
    splitChar ("/" ++ "/".intercalate ns) '/' = "" :: ns := by
  have hsep : splitChar ("" ++ "/" ++ "/".intercalate ns) '/' = _ := splitChar_slash _ _
  rw [String.empty_append, splitChar_intercalate (by simp) (fun c hc => (h c hc).2.2.2) hne] at hsep
  rw [hsep]
  rfl

theorem pathNames_intercalate (h : ∀ c ∈ ns, IsName c) :
    pathNames ("/" ++ "/".intercalate ns) = ns := by
  cases ns with
  | nil => decide +kernel
  | cons n ns =>
    rw [pathNames, splitChar_intercalate_slash h (List.cons_ne_nil _ _),
      List.filter_cons_of_neg (by simp), List.filter_eq_self]
    intro c hc
    simp [(h c hc).1, (h c hc).2.1]

private theorem noUp_intercalate (h : ∀ c ∈ ns, IsName c) : NoUp ("/" ++ "/".intercalate ns) := by
  cases ns with
  | nil =>
    unfold NoUp
    decide +kernel
  | cons n ns =>
    rw [NoUp, splitChar_intercalate_slash h (List.cons_ne_nil _ _), List.mem_cons, not_or]
    exact ⟨by simp, fun hmem => (h _ hmem).2.2.1 rfl⟩

/-- **What is joined stands below.** -/
theorem pathJoin_below (hns : ∀ c ∈ ns, IsName c) (hb : NoUp b) :
    pathJoin ("/" ++ "/".intercalate ns) b = "/" ++ "/".intercalate (ns ++ pathNames b) := by
  have hne : "/" ++ "/".intercalate ns ≠ "" := by simp
  have habs : isAbs ("/" ++ "/".intercalate ns ++ "/" ++ b) = true :=
    isAbs_append (isAbs_append (isAbs_slash _) _) _
  rw [pathJoin, if_neg fun h => hne h.1, if_neg hne,
    pathClean_of_isAbs habs (noUp_slash.mpr ⟨noUp_intercalate hns, hb⟩), pathNames_slash,
    pathNames_intercalate hns]

/-- A rooted path keeps names only. -/
theorem isName_of_mem_foldl {cs kept : List String} (hcs : ∀ c ∈ cs, '/' ∉ c.toList)
    (hkept : ∀ c ∈ kept, IsName c) : ∀ c ∈ cs.foldl (cleanStep true) kept, IsName c := by
  induction cs generalizing kept with
  | nil => exact hkept
  | cons d cs ih =>
    refine ih (fun c hc => hcs c (List.mem_cons_of_mem _ hc)) ?_
    intro c hc
    simp only [cleanStep, if_true] at hc
    split_ifs at hc with hskip hup
    · exact hkept c hc
    · split at hc
      · cases hc
      · exact absurd rfl (hkept ".." List.mem_cons_self).2.2.1
      · exact hkept c (List.mem_cons_of_mem _ hc)
    · rcases List.mem_cons.mp hc with rfl | hc
      · exact ⟨fun h => hskip (Or.inl h), fun h => hskip (Or.inr h), hup, hcs c List.mem_cons_self⟩
      · exact hkept c hc

/-- A clean rooted path by its names, also one that was led up. -/
theorem exists_names_of_isAbs (habs : isAbs p = true) :
    ∃ ns, (∀ c ∈ ns, IsName c) ∧ pathClean p = "/" ++ "/".intercalate ns := by
  refine ⟨((splitChar p '/').foldl (cleanStep true) []).reverse, fun c hc => ?_, ?_⟩
  · exact isName_of_mem_foldl (fun c hc => not_mem_of_mem_splitChar hc) (by simp) c
      (List.mem_reverse.mp hc)
  · have hrooted : hasPrefix p "/" = true := habs
    simp only [pathClean, hrooted, if_true]

theorem pathClean_idem (habs : isAbs p = true) : pathClean (pathClean p) = pathClean p := by
  obtain ⟨ns, hns, hclean⟩ := exists_names_of_isAbs habs
  rw [hclean, pathClean_of_isAbs (isAbs_slash _) (noUp_intercalate hns), pathNames_intercalate hns]

theorem isAbs_pathClean (habs : isAbs p = true) : isAbs (pathClean p) = true := by
  obtain ⟨ns, -, hclean⟩ := exists_names_of_isAbs habs
  rw [hclean]
  exact isAbs_slash _

end Go
