import Dockhand.Go.Strings

/-!
# The files of a deploy and their listing

A git deploy extracts the archive of a commit into the stack directory. The names of the files
come back as text: `tar -v` lists what it extracts, `archiveFiles` reads the listing, and the
manifest `.dockhand-files` keeps the names for the next deploy. Some tars print the listing on
standard output and some on standard error, so `archiveFiles` reads both, and with them the warnings
of a tar that succeeds: after a line that is not of the top-level folder it reads nothing at all.

`archiveFiles_print` says that the names survive the listing, and `splitChar_manifestOf` that they
survive the manifest, when tar warns of nothing, prints them as they are, and they do not begin or
end with a space (`Plain`). A name in the manifest is the path it stands for (`pathClean_str`).
-/

namespace Dockhand.GitDeploy

open Go

/-- The path of a file of a repository. -/
structure Path where
  components : List String
  nonempty : components ≠ []
  valid : ∀ c ∈ components, c ≠ "" ∧ c ≠ "." ∧ c ≠ ".." ∧ '/' ∉ c.toList

/-- The path as it is written. -/
def Path.str (p : Path) : String := "/".intercalate p.components

/-- A member of an archive. -/
structure Entry where
  path : Path
  isDir : Bool := false

/-- An archive with the single top-level folder of a GitHub archive. `manifest` is the content of
its own `.dockhand-files`, if it has one. -/
structure Archive where
  top : String
  top_valid : top ≠ "" ∧ ∀ c ∈ top.toList, isSpace c = false ∧ c ≠ '/'
  entries : List Entry
  manifest : String := ""

theorem top_valid_of_all {top : String} (hne : top ≠ "")
    (hall : top.toList.all (fun c => !isSpace c && c != '/') = true) :
    top ≠ "" ∧ ∀ c ∈ top.toList, isSpace c = false ∧ c ≠ '/' :=
  ⟨hne, by simpa using hall⟩

/-- The paths of the files. -/
def Archive.files (a : Archive) : List String :=
  (a.entries.filter (!·.isDir)).map fun e => e.path.str

/-- How the host's tar lists a member: the form in which it prints a path, and whether it marks a
line with `x`. A tar that marks the lines prints them on standard error. -/
structure Tar where
  shown : String → String
  marks : Bool := false

/-- The mark in front of a line, with its space. -/
def Tar.mark (t : Tar) : String := if t.marks then "x " else ""

/-- The lines that tar prints. -/
def Tar.lines (t : Tar) (a : Archive) : List String :=
  ("" :: a.entries.map fun e => t.shown e.path.str ++ if e.isDir then "/" else "").map fun m =>
    t.mark ++ (a.top ++ "/" ++ m)

/-- The listing that tar prints. -/
def Tar.output (t : Tar) (a : Archive) : String := "\n".intercalate (t.lines a ++ [""])

/-- Standard output and standard error of a tar that succeeds, with the warnings it prints. -/
def Tar.print (t : Tar) (a : Archive) (warnings : String) : String × String :=
  if t.marks then ("", t.output a ++ warnings) else (t.output a, warnings)

/-! ### Reading the listing -/

/-- The file in a stack's directory that lists what the last deploy extracted. -/
def manifestFile : String := ".dockhand-files"

/-- One line of the listing, with the top-level folder and the files so far. -/
def readLine (st : String × List String) (l : String) : Option (String × List String) :=
  let l := trimSpace (trimPrefix (trimSpace l) "x ")
  if l = "" then some st
  else
    let (head, rel) := cutChar l '/'
    if st.1 ≠ "" ∧ head ≠ st.1 then none
    else if hasSuffix l "/" ∨ rel = "" ∨ hasPrefix rel "/" ∨
      contains rel ".." then some (head, st.2)
    else some (head, st.2 ++ [rel])

/-- `archiveFiles`: the files of the listing below their top-level folder, and none if a line does
not belong to that folder. -/
def archiveFiles (out : String) : List String :=
  match (splitChar out '\n').foldlM readLine ("", []) with
  | some st => st.2
  | none => []

/-! ### Paths -/

section Path

variable (p : Path)

private theorem splitChar_str : splitChar p.str '/' = p.components :=
  splitChar_intercalate (by simp) (fun c hc => (p.valid c hc).2.2.2) p.nonempty

theorem Path.str_ne_empty : p.str ≠ "" := by
  intro h
  have hsplit := splitChar_str p
  rw [h] at hsplit
  have hmem : "" ∈ p.components := by
    rw [← hsplit]
    decide
  exact (p.valid "" hmem).1 rfl

theorem hasPrefix_str : hasPrefix p.str "/" = false := by
  by_contra h
  have hmem := empty_mem_splitChar_of_prefix (c := '/') (by simp) (Bool.not_eq_false _ ▸ h)
  rw [splitChar_str] at hmem
  exact (p.valid "" hmem).1 rfl

private theorem hasSuffix_str : hasSuffix p.str "/" = false := by
  by_contra h
  have hmem := empty_mem_splitChar_of_suffix (c := '/') (by simp) (Bool.not_eq_false _ ▸ h)
  rw [splitChar_str] at hmem
  exact (p.valid "" hmem).1 rfl

/-- A path of a repository is clean. -/
theorem pathClean_str : pathClean p.str = p.str := by
  have hkeep : ∀ (cs kept : List String), (∀ c ∈ cs, c ∈ p.components) →
      cs.foldl (cleanStep false) kept = cs.reverse ++ kept := by
    intro cs
    induction cs with
    | nil => exact fun kept _ => rfl
    | cons c cs ih =>
      intro kept h
      obtain ⟨h₁, h₂, h₃, -⟩ := p.valid c (h c List.mem_cons_self)
      have hstep : cleanStep false kept c = c :: kept := by simp [cleanStep, h₁, h₂, h₃]
      rw [List.foldl_cons, hstep, ih _ fun x hx => h x (List.mem_cons_of_mem _ hx),
        List.reverse_cons, List.append_assoc, List.singleton_append]
  rw [pathClean]
  simp only [hasPrefix_str, splitChar_str, hkeep p.components [] fun _ h => h, List.append_nil,
    List.reverse_reverse, Bool.false_eq_true, if_false, if_neg p.nonempty]
  rfl

end Path

/-! ### The names survive the listing -/

/-- The name of a file survives the listing and the manifest. -/
structure Plain (t : Tar) (p : Path) : Prop where
  shown : t.shown p.str = p.str
  trimmed : trimSpace p.str = p.str
  noParent : contains p.str ".." = false
  notManifest : p.str ≠ manifestFile

/-- The listing of the archive can be read back. -/
def Readable (t : Tar) (a : Archive) : Prop :=
  ∀ e ∈ a.entries, '\n' ∉ (t.shown e.path.str).toList ∧ (e.isDir = false → Plain t e.path)

instance (t : Tar) (p : Path) : Decidable (Plain t p) :=
  decidable_of_iff (t.shown p.str = p.str ∧ trimSpace p.str = p.str ∧
      contains p.str ".." = false ∧ p.str ≠ manifestFile)
    ⟨fun ⟨h₁, h₂, h₃, h₄⟩ => ⟨h₁, h₂, h₃, h₄⟩, fun ⟨h₁, h₂, h₃, h₄⟩ => ⟨h₁, h₂, h₃, h₄⟩⟩

instance (t : Tar) (a : Archive) : Decidable (Readable t a) :=
  inferInstanceAs (Decidable (∀ e ∈ a.entries, _ ∧ (_ → _)))

section Listing

variable {t : Tar} {a : Archive}

private theorem startsDark_top (m : String) : StartsDark (a.top ++ "/" ++ m) := by
  obtain ⟨hne, hall⟩ := a.top_valid
  rw [String.append_assoc]
  refine StartsDark.append ?_ _
  cases h : a.top.toList with
  | nil => exact absurd (String.toList_eq_nil_iff.mp h) hne
  | cons c r => exact ⟨c, r, h, (hall c (h ▸ List.mem_cons_self)).1⟩

/-- An unmarked line is not taken for a marked one. -/
theorem hasPrefix_mark (m : String) : hasPrefix (a.top ++ "/" ++ m) "x " = false := by
  obtain ⟨hne, hall⟩ := a.top_valid
  have hlist : (a.top ++ "/" ++ m).toList = a.top.toList ++ '/' :: m.toList := by simp
  rw [hasPrefix, hlist]
  cases h : a.top.toList with
  | nil => exact absurd (String.toList_eq_nil_iff.mp h) hne
  | cons c r =>
    cases r with
    | nil => simp [List.isPrefixOf]
    | cons c' r =>
      have hc' : c' ≠ ' ' := fun hsp => by
        have hspace := (hall c' (h ▸ by simp)).1
        rw [hsp] at hspace
        revert hspace
        decide
      simp [List.isPrefixOf, hc'.symm]

/-- What `archiveFiles` makes of a line before it looks at it. -/
theorem trim_line {m : String} (h : EndsDark (a.top ++ "/" ++ m)) :
    trimSpace (trimPrefix (trimSpace (t.mark ++ (a.top ++ "/" ++ m))) "x ") =
      a.top ++ "/" ++ m := by
  have hself : trimSpace (a.top ++ "/" ++ m) = a.top ++ "/" ++ m :=
    trimSpace_eq_self (startsDark_top m) h
  rw [Tar.mark]
  split_ifs
  · have hx : StartsDark ("x " ++ (a.top ++ "/" ++ m)) :=
      StartsDark.append ⟨'x', [' '], by simp, by decide⟩ _
    rw [trimSpace_eq_self hx (h.append _), trimPrefix_append, hself]
  · rw [String.empty_append, hself, trimPrefix, if_neg (by simp [hasPrefix_mark]), hself]

/-- One line of the listing. -/
theorem readLine_line {st : String × List String} {m : String}
    (hst : st.1 = "" ∨ st.1 = a.top) (h : EndsDark (a.top ++ "/" ++ m)) :
    readLine st (t.mark ++ (a.top ++ "/" ++ m)) =
      if hasSuffix (a.top ++ "/" ++ m) "/" ∨ m = "" ∨ hasPrefix m "/" ∨ contains m ".." then
        some (a.top, st.2)
      else some (a.top, st.2 ++ [m]) := by
  obtain ⟨hne, hall⟩ := a.top_valid
  have hcut : cutChar (a.top ++ "/" ++ m) '/' = (a.top, m) :=
    cutChar_append (by simp) fun hmem => (hall _ hmem).2 rfl
  have hline : a.top ++ "/" ++ m ≠ "" := by simp [hne]
  rw [readLine, trim_line h]
  simp only [if_neg hline, hcut]
  rw [if_neg fun hk => hst.elim hk.1 fun heq => hk.2 heq.symm]

/-- What tar prints of a member after the top-level folder. -/
def Tar.member (t : Tar) (e : Entry) : String :=
  t.shown e.path.str ++ if e.isDir then "/" else ""

/-- The line of a directory adds no file, the line of a plain file adds it. -/
theorem readLine_member {st : String × List String} {e : Entry}
    (hst : st.1 = "" ∨ st.1 = a.top) (he : e.isDir = false → Plain t e.path) :
    readLine st (t.mark ++ (a.top ++ "/" ++ t.member e)) =
      some (a.top, st.2 ++ if e.isDir then [] else [e.path.str]) := by
  cases hdir : e.isDir with
  | true =>
    have hslash : ∃ r, (a.top ++ "/" ++ t.member e).toList = r ++ ['/'] :=
      ⟨(a.top ++ "/" ++ t.shown e.path.str).toList, by simp [Tar.member, hdir]⟩
    obtain ⟨r, hr⟩ := hslash
    have hsuffix : hasSuffix (a.top ++ "/" ++ t.member e) "/" = true := by
      rw [hasSuffix, List.isSuffixOf_iff_suffix, hr]
      exact List.suffix_append r ['/']
    rw [readLine_line hst ⟨r, '/', hr, by decide⟩, if_pos (.inl hsuffix)]
    simp
  | false =>
    obtain ⟨hshown, htrim, hparent, -⟩ := he hdir
    have hmember : t.member e = e.path.str := by simp [Tar.member, hdir, hshown]
    have hdark : EndsDark e.path.str := (dark_of_trimSpace htrim e.path.str_ne_empty).2
    obtain ⟨r, c, hr, -⟩ := id hdark
    -- the line ends like the path, which does not end with a slash
    have hsuffix : ¬ hasSuffix (a.top ++ "/" ++ e.path.str) "/" = true := by
      intro h
      have hpath := hasSuffix_str e.path
      simp only [hasSuffix, String.toList_append, hr, ← List.append_assoc] at h hpath
      rw [List.isSuffixOf_iff_suffix] at h
      obtain ⟨r', hr'⟩ := h
      obtain rfl : '/' = c := by simpa using (List.append_inj' hr' rfl).2
      exact Bool.false_ne_true
        (hpath.symm.trans (List.isSuffixOf_iff_suffix.mpr (List.suffix_append r ['/'])))
    rw [hmember, readLine_line hst (hdark.append _), if_neg]
    · simp
    · rintro (h | h | h | h)
      · exact hsuffix h
      · exact e.path.str_ne_empty h
      · simp [hasPrefix_str] at h
      · simp [hparent] at h

private theorem foldlM_readLine {es : List Entry} (st : String × List String)
    (hst : st.1 = "" ∨ st.1 = a.top)
    (hes : ∀ e ∈ es, e.isDir = false → Plain t e.path) :
    ∃ top, (es.map fun e => t.mark ++ (a.top ++ "/" ++ t.member e)).foldlM readLine st =
      some (top, st.2 ++ (es.filter (!·.isDir)).map fun e => e.path.str) := by
  induction es generalizing st with
  | nil => exact ⟨st.1, by simp⟩
  | cons e es ih =>
    obtain ⟨top, htop⟩ := ih (a.top, st.2 ++ if e.isDir then [] else [e.path.str]) (.inr rfl)
      fun e' he' => hes e' (List.mem_cons_of_mem _ he')
    refine ⟨top, ?_⟩
    rw [List.map_cons, List.foldlM_cons, readLine_member hst (hes e List.mem_cons_self)]
    refine htop.trans ?_
    cases h : e.isDir <;> simp [h]

/-- The lines of the listing. -/
theorem splitChar_output (h : Readable t a) : splitChar (t.output a) '\n' = t.lines a ++ [""] := by
  have hmark : '\n' ∉ t.mark.toList := by
    rw [Tar.mark]
    split_ifs <;> decide
  have htop : '\n' ∉ a.top.toList := fun hmem => by
    have hspace := (a.top_valid.2 _ hmem).1
    revert hspace
    decide
  have hmember : ∀ e ∈ a.entries, '\n' ∉ (t.member e).toList := fun e he hmem => by
    rw [Tar.member, String.toList_append, List.mem_append] at hmem
    rcases hmem with hmem | hmem
    · exact (h e he).1 hmem
    · split_ifs at hmem <;> simp at hmem
  refine splitChar_intercalate (by simp) (fun l hl => ?_) (by simp)
  simp only [Tar.lines, List.map_cons, List.map_map, List.mem_append, List.mem_cons, List.mem_map,
    List.not_mem_nil, or_false, Function.comp_apply] at hl
  rcases hl with (rfl | ⟨e, he, rfl⟩) | rfl
  · simp [hmark, htop]
  · have hline := hmember e he
    rw [Tar.member] at hline
    simp only [String.toList_append, List.mem_append] at hline ⊢
    simp [hmark, htop, hline]
  · simp

/-- Reading the lines gives the files. -/
theorem foldlM_lines (h : Readable t a) :
    ∃ top, (t.lines a).foldlM readLine ("", []) = some (top, a.files) := by
  have hlines : t.lines a = (t.mark ++ (a.top ++ "/" ++ "")) ::
      a.entries.map fun e => t.mark ++ (a.top ++ "/" ++ t.member e) := by
    simp [Tar.lines, Tar.member]
  have hroot : readLine ("", []) (t.mark ++ (a.top ++ "/" ++ "")) = some (a.top, []) := by
    have hdark : EndsDark (a.top ++ "/" ++ "") :=
      ⟨a.top.toList, '/', by simp, by decide⟩
    rw [readLine_line (.inl rfl) hdark, if_pos (.inr (.inl rfl))]
  obtain ⟨top, htop⟩ := foldlM_readLine (t := t) (a := a) (a.top, []) (.inr rfl)
    fun e he => (h e he).2
  refine ⟨top, ?_⟩
  rw [hlines, List.foldlM_cons, hroot]
  exact htop

/-- Blank lines are passed over. -/
private theorem foldlM_readLine_blank {ls : List String} (h : ∀ l ∈ ls, trimSpace l = "")
    (st : String × List String) : ls.foldlM readLine st = some st := by
  induction ls with
  | nil => rfl
  | cons l ls ih =>
    obtain ⟨hl, hls⟩ := List.forall_mem_cons.mp h
    have hstep : readLine st l = some st := by
      rw [readLine, hl]
      rfl
    rw [List.foldlM_cons, hstep]
    exact ih hls

/-- A text that begins with the listing and is blank otherwise. -/
private theorem archiveFiles_of_lines {out : String} (before after : List String)
    (h : Readable t a) (hout : splitChar out '\n' = before ++ t.lines a ++ after)
    (hbefore : ∀ l ∈ before, trimSpace l = "") (hafter : ∀ l ∈ after, trimSpace l = "") :
    archiveFiles out = a.files := by
  obtain ⟨top, htop⟩ := foldlM_lines h
  rw [archiveFiles, hout, List.foldlM_append, List.foldlM_append, foldlM_readLine_blank hbefore]
  simp only [Option.bind_eq_bind, Option.bind_some, htop, foldlM_readLine_blank hafter]

/-- **Reading the listing back**, of a tar that prints no warning. -/
theorem archiveFiles_print {warnings : String} (h : Readable t a)
    (hquiet : trimSpace warnings = "") :
    archiveFiles ((t.print a warnings).1 ++ "\n" ++ (t.print a warnings).2) = a.files := by
  have hblank : ∀ l ∈ splitChar warnings '\n', trimSpace l = "" := fun l hl =>
    trimSpace_of_mem_splitChar hquiet hl
  have hend : ∀ l ∈ "" :: splitChar warnings '\n', trimSpace l = "" :=
    List.forall_mem_cons.mpr ⟨rfl, hblank⟩
  rw [Tar.print]
  split_ifs
  · -- the listing comes after an empty standard output
    refine archiveFiles_of_lines [""] _ h ?_ (by simp [trimSpace]) hblank
    have hout : t.output a = "\n".intercalate (t.lines a) ++ "\n" := by
      rw [Tar.output, String.intercalate_append_of_ne_nil (by simp [Tar.lines]) (by simp),
        String.intercalate_singleton, String.append_empty]
    have hlines : splitChar ("\n".intercalate (t.lines a)) '\n' = t.lines a := by
      have hsplit := splitChar_output h
      have hempty : "\n".intercalate (t.lines a) ++ "\n" =
          "\n".intercalate (t.lines a) ++ "\n" ++ "" := String.append_empty.symm
      rw [hout, hempty, splitChar_append rfl (by simp)] at hsplit
      exact List.append_cancel_right hsplit
    rw [splitChar_append_append rfl, hout, splitChar_append_append rfl, hlines]
    rfl
  · refine archiveFiles_of_lines [] _ h ?_ (by simp) hend
    rw [splitChar_append_append rfl, splitChar_output h]
    simp

end Listing

/-! ### The manifest -/

/-- The manifest that records these files: `strings.Join(now, "\n") + "\n"`. -/
def manifestOf (now : List String) : String := "\n".intercalate now ++ "\n"

/-- The files that the manifest records and the archive no longer contains, without the names
that are never removed. -/
def gone (manifest : String) (now : List String) : List String :=
  ((splitChar manifest '\n').map trimSpace).filter fun f =>
    ¬ (f = "" ∨ f ∈ now ∨ f = ".env" ∨ f = manifestFile ∨ hasPrefix f "/" ∨ contains f "..")

theorem mem_gone_iff {manifest f : String} {now : List String} :
    f ∈ gone manifest now ↔ f ∈ gone manifest [] ∧ f ∉ now := by
  simp only [gone, List.mem_filter, decide_eq_true_eq, List.not_mem_nil, false_or]
  tauto

/-- **Reading the manifest back.** -/
theorem splitChar_manifestOf {now : List String} (hne : now ≠ [])
    (h : ∀ f ∈ now, '\n' ∉ f.toList) : splitChar (manifestOf now) '\n' = now ++ [""] := by
  have hout : manifestOf now = "\n".intercalate (now ++ [""]) := by
    rw [manifestOf, String.intercalate_append_of_ne_nil hne (by simp),
      String.intercalate_singleton, String.append_empty]
  rw [hout]
  refine splitChar_intercalate (by simp) (fun l hl => ?_) (by simp)
  rcases List.mem_append.mp hl with hl | hl
  · exact h l hl
  · simp [List.mem_singleton.mp hl]

end Dockhand.GitDeploy
