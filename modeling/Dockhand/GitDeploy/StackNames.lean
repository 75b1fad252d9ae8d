import Dockhand.GitDeploy.Preflight

/-!
# The compose project of a repository

A deploy without a path goes to the directory that `StackName` derives from the repository, and its
project takes the name that `StackName` derives from the directory. The name is cut to 63 bytes
after its ends have been trimmed, so a `-` or `_` can be left at its end, which the second
derivation trims: `stable_iff`.
-/

namespace Dockhand.Stacks

/-- `ValidName`: the text matches `^[a-z0-9][a-z0-9_-]{0,62}$`. -/
def validName (n : String) : Bool :=
  match n.toList with
  | c :: cs =>
    (c.isLower || c.isDigit) && cs.length ≤ 62 &&
      cs.all fun c => c.isLower || c.isDigit || c = '_' || c = '-'
  | [] => false

end Dockhand.Stacks

namespace Dockhand.GitDeploy.Preflight

open Go Stacks

/-! ### A name before it is cut -/

/-- What `StackName` cuts to 63 bytes. -/
def uncut (s : String) : String :=
  let n := trim (String.ofList
    (replaceNonName (toLower (pathBase (trimRight s "/"))).toList)) "-_"
  if n = "" then "app" else n

private theorem stackName_eq (s : String) : stackName s = String.ofList
    ((uncut s).toList.take 63) := rfl

/-- The characters that are trimmed. -/
def isDash (c : Char) : Bool := c = '-' || c = '_'

private theorem toList_trim_dash (s : String) :
    (trim s "-_").toList = (s.toList.dropWhile isDash).rdropWhile isDash := by
  have hdash : (fun c => decide (c ∈ "-_".toList)) = isDash := by
    funext c
    simp [isDash, Bool.decide_or]
  unfold trim trimRight
  rw [hdash, String.toList_ofList, String.toList_ofList]

/-- A name of name characters that begins and ends with a letter or a digit. -/
structure Trimmed (n : List Char) : Prop where
  nonempty : n ≠ []
  chars : ∀ c ∈ n, isNameChar c = true
  first : ∀ h : n ≠ [], isDash (n.head h) = false
  last : ∀ h : n ≠ [], isDash (n.getLast h) = false

private theorem uncut_cases (s : String) :
    uncut s = "app" ∨ ∃ l, (∀ c ∈ l.toList, isNameChar c = true) ∧ trim l "-_" ≠ "" ∧
      uncut s = trim l "-_" := by
  unfold uncut
  dsimp only
  generalize hl : String.ofList (replaceNonName (toLower (pathBase (trimRight s "/"))).toList) = l
  by_cases hempty : trim l "-_" = ""
  · rw [if_pos hempty]
    exact .inl rfl
  · rw [if_neg hempty]
    refine .inr ⟨l, fun c hc => ?_, hempty, rfl⟩
    rw [← hl, String.toList_ofList] at hc
    exact isNameChar_of_mem_replaceNonName c hc

private theorem trimmed_uncut (s : String) : Trimmed (uncut s).toList := by
  rcases uncut_cases s with heq | ⟨l, hchars, hempty, heq⟩
  · rw [heq]
    refine ⟨by decide, List.all_eq_true.mp (by decide), ?_, ?_⟩
    · intro h
      rfl
    · intro h
      rfl
  · rw [heq]
    have hne : (trim l "-_").toList ≠ [] := fun h => hempty (String.toList_eq_nil_iff.mp h)
    refine ⟨hne, fun c hc => hchars c (mem_of_mem_trim hc), fun h => ?_, fun h => ?_⟩
    · simp only [toList_trim_dash] at h ⊢
      rw [(List.rdropWhile_prefix isDash _).head h]
      simpa using List.head_dropWhile_not isDash _
    · simp only [toList_trim_dash] at h ⊢
      simpa using List.rdropWhile_last_not isDash _ h

/-! ### Deriving a name again -/

private theorem not_mem_of_isNameChar {n : String} {c : Char}
    (hn : ∀ c ∈ n.toList, isNameChar c = true)
    (hc : isNameChar c = false) : c ∉ n.toList := fun h => by
  rw [hn c h] at hc
  cases hc

/-- What has no slash is its own base. -/
theorem pathBase_of_not_mem {n : String} (hne : n ≠ "") (h : '/' ∉ n.toList) :
    pathBase (trimRight n "/") = n := by
  have htrim : trimRight n "/" = n := by
    rw [trimRight, List.rdropWhile_eq_self_iff.mpr, String.ofList_toList]
    intro hl hlast
    have hslash : n.toList.getLast hl = '/' := by simpa using hlast
    exact h (hslash ▸ List.getLast_mem hl)
  simp only [pathBase, htrim, cutLast_of_not_mem h, if_neg hne]

/-- What follows the last slash is the base. -/
theorem pathBase_slash {a n : String} (hne : n ≠ "") (h : '/' ∉ n.toList) :
    pathBase (trimRight (a ++ "/" ++ n) "/") = n := by
  have htrim : trimRight (a ++ "/" ++ n) "/" = a ++ "/" ++ n := by
    rw [trimRight, List.rdropWhile_eq_self_iff.mpr, String.ofList_toList]
    intro hl hlast
    have hnil : n.toList ≠ [] := fun hnil => hne (String.toList_eq_nil_iff.mp hnil)
    have hslash : n.toList.getLast hnil = '/' := by
      rw [← List.getLast_append_of_ne_nil (l := (a ++ "/").toList) (by simp) hnil]
      simpa using hlast
    exact h (hslash ▸ List.getLast_mem hnil)
  have hwhole : a ++ "/" ++ n ≠ "" := fun h => by simpa using congrArg String.toList h
  have hcut : cutLast (a ++ "/" ++ n) '/' = some (a, n) := cutLast_append (by decide) h
  simp only [pathBase, htrim, hcut, if_neg hne, if_neg hwhole]

private theorem lowerChar_of_isNameChar {c : Char} (h : isNameChar c = true) : lowerChar c = c := by
  have hcapital : ¬ (65 ≤ c.toNat ∧ c.toNat ≤ 90) := by
    rintro ⟨hlow, hhigh⟩
    simp only [isNameChar, Bool.or_eq_true, decide_eq_true_eq] at h
    rcases h with ((h | h) | rfl) | rfl
    · have := bounds_of_isLower h
      omega
    · have := bounds_of_isDigit h
      omega
    · exact absurd hhigh (by decide)
    · exact absurd hlow (by decide)
  have hdotted : c ≠ '\u0130' := fun heq => absurd (heq ▸ h) (by decide)
  have hkelvin : c ≠ '\u212a' := fun heq => absurd (heq ▸ h) (by decide)
  rw [lowerChar, if_neg hdotted, if_neg hkelvin, toLower_of_not_capital hcapital]

private theorem replaceNonName_of_forall {cs : List Char} (h : ∀ c ∈ cs, isNameChar c = true) :
    replaceNonName cs = cs := by
  induction cs with
  | nil => rfl
  | cons c cs ih =>
    rw [replaceNonName, if_pos (h c List.mem_cons_self),
      ih fun d hd => h d (List.mem_cons_of_mem _ hd)]

/-- A name is derived from itself, but for what it ends with. -/
theorem uncut_of_name {n : String} (hne : n ≠ "") (hchars : ∀ c ∈ n.toList, isNameChar c = true)
    (hfirst : ∀ h : n.toList ≠ [], isDash (n.toList.head h) = false) :
    (uncut n).toList = n.toList.rdropWhile isDash := by
  have hnil : n.toList ≠ [] := fun h => hne (String.toList_eq_nil_iff.mp h)
  have hlower : toLower n = n := by
    rw [toLower, List.map_congr_left fun c hc => lowerChar_of_isNameChar (hchars c hc),
      List.map_id', String.ofList_toList]
  have hdrop : n.toList.dropWhile isDash = n.toList := by
    rw [List.dropWhile_eq_self_iff]
    intro hlen
    simpa [List.head_eq_getElem] using hfirst hnil
  have htrim : (trim n "-_").toList = n.toList.rdropWhile isDash := by
    rw [toList_trim_dash, hdrop]
  have hkept : trim n "-_" ≠ "" := fun h => by
    rw [h, eq_comm] at htrim
    have hall := List.rdropWhile_eq_nil_iff.mp htrim _ (List.head_mem hnil)
    rw [hfirst hnil] at hall
    cases hall
  rw [uncut, pathBase_of_not_mem hne (not_mem_of_isNameChar hchars (by decide)), hlower,
    replaceNonName_of_forall hchars, String.ofList_toList]
  simp only [if_neg hkept, htrim]

/-! ### The name that a deploy takes -/

section

variable {s : String}

private theorem toList_stackName (s : String) :
    (stackName s).toList = (uncut s).toList.take 63 := by
  rw [stackName_eq, String.toList_ofList]

private theorem toList_stackName_ne_nil (s : String) : (stackName s).toList ≠ [] :=
  fun h => stackName_ne_empty s (String.toList_eq_nil_iff.mp h)

/-- A name begins with a letter or a digit. -/
theorem head_stackName (h : (stackName s).toList ≠ []) :
    isDash ((stackName s).toList.head h) = false := by
  simp only [toList_stackName] at h ⊢
  rw [(List.take_prefix 63 _).head h]
  exact (trimmed_uncut s).first _

private theorem validName_stackName (s : String) : validName (stackName s) = true := by
  have hchars := isNameChar_of_mem_stackName (s := s)
  have hhead := head_stackName (toList_stackName_ne_nil s)
  have hlen : (stackName s).toList.length ≤ 63 := by
    rw [toList_stackName]
    exact List.length_take_le 63 _
  rw [validName]
  cases hn : (stackName s).toList with
  | nil => exact absurd hn (toList_stackName_ne_nil s)
  | cons c cs =>
    simp only [hn, List.head_cons, List.length_cons] at hhead hlen hchars
    have hc := hchars c List.mem_cons_self
    simp only [isDash, isNameChar, Bool.or_eq_false_iff, decide_eq_false_iff_not, Bool.or_eq_true,
      decide_eq_true_eq] at hhead hc
    simp only [Bool.and_eq_true, Bool.or_eq_true, decide_eq_true_eq, List.all_eq_true]
    refine ⟨⟨?_, Nat.le_of_succ_le_succ hlen⟩, fun d hd => ?_⟩
    · exact (hc.resolve_right hhead.1).resolve_right hhead.2
    · simpa [isNameChar] using hchars d (List.mem_cons_of_mem _ hd)

/-- A name derived again loses the dashes at its end. -/
theorem stackName_stackName (s : String) :
    stackName (stackName s) = String.ofList ((stackName s).toList.rdropWhile isDash) := by
  have hlen : ((stackName s).toList.rdropWhile isDash).length ≤ 63 := by
    refine (List.rdropWhile_prefix isDash _).length_le.trans ?_
    rw [toList_stackName]
    exact List.length_take_le 63 _
  rw [stackName_eq (stackName s),
    uncut_of_name (stackName_ne_empty s) isNameChar_of_mem_stackName head_stackName,
    List.take_of_length_le hlen]

/-- The cut leaves no dash at the end of the name. -/
def CutsClean (s : String) : Prop := ∀ c ∈ (uncut s).toList[62]?, isDash c = false

instance (s : String) : Decidable (CutsClean s) :=
  inferInstanceAs (Decidable (∀ c ∈ (uncut s).toList[62]?, _))

private theorem cutsClean_iff (s : String) :
    CutsClean s ↔ ∀ c ∈ (stackName s).toList.getLast?, isDash c = false := by
  rw [CutsClean, toList_stackName, List.getLast?_take, if_neg (by decide)]
  cases (uncut s).toList[62]? with
  | some c => exact Iff.rfl
  | none =>
    refine iff_of_true (by simp) fun c hc => ?_
    rw [Option.none_or] at hc
    obtain ⟨h, hlast⟩ := List.mem_getLast?_eq_getLast hc
    rw [hlast]
    exact (trimmed_uncut s).last h

private theorem stackName_idem_iff (s : String) : stackName (stackName s) = stackName s ↔
    CutsClean s := by
  have hlist : stackName (stackName s) = stackName s ↔
      (stackName s).toList.rdropWhile isDash = (stackName s).toList := by
    rw [stackName_stackName, ← String.toList_inj, String.toList_ofList]
  rw [hlist, List.rdropWhile_eq_self_iff, cutsClean_iff]
  constructor
  · intro h c hc
    obtain ⟨hne, hlast⟩ := List.mem_getLast?_eq_getLast hc
    rw [hlast]
    exact Bool.eq_false_iff.mpr (h hne)
  · intro h hne
    exact Bool.eq_false_iff.mp (h _ (List.getLast?_eq_some_getLast hne))

/-- What the name of a directory is depends on its last component. -/
theorem stackName_slash {a n : String} (h : IsName n) :
    stackName (a ++ "/" ++ n) = stackName n := by
  unfold stackName
  rw [pathBase_slash h.1 h.2.2.2, pathBase_of_not_mem h.1 h.2.2.2]

end

/-- A rooted path by its last component. -/
theorem exists_slash_eq (ns : List String) (n : String) :
    ∃ a, "/" ++ "/".intercalate (ns ++ [n]) = a ++ "/" ++ n := by
  cases ns with
  | nil => exact ⟨"", by simp⟩
  | cons m ns =>
    refine ⟨"/" ++ "/".intercalate (m :: ns), ?_⟩
    rw [String.intercalate_append_of_ne_nil (List.cons_ne_nil _ _) (List.cons_ne_nil _ _),
      String.intercalate_singleton]
    simp only [String.append_assoc]

/-- What is asked of the names that are derived from a repository or a directory. -/
structure Stable (s : String) : Prop where
  valid : validName (stackName s) = true
  again : stackName (stackName s) = stackName s
  deploys : ∀ (stacksDir defaultBranch : String) (lookup : Except BadRequest Unit)
    (input : DeployInput) (p : DeployParams), trimSpace input.name = s → trimSpace input.path = "" →
    prepare stacksDir lookup defaultBranch input = .ok p → p.name = stackName s

section

variable {stacksDir defaultBranch : String} {lookup : Except BadRequest Unit} {input : DeployInput}
  {p : DeployParams}

/-- The default directory of a deploy ends with the name that is derived from the repository. -/
theorem prepare_default (h : prepare stacksDir lookup defaultBranch input = .ok p)
    (hpath : trimSpace input.path = "") : p.name =
      stackName (stackName (trimSpace input.name)) := by
  obtain ⟨habs, hup, -, hclean⟩ := preparePath_ok_iff.mp (prepare_ok h).1
  rw [wantedPath, if_pos hpath] at habs hup hclean
  obtain ⟨a, ha⟩ := exists_slash_eq (pathNames stacksDir)
    (stackName (trimSpace input.name))
  rw [prepare_name h, hclean, pathClean_of_isAbs habs (noUp_of_not_contains hup), pathNames_slash,
    pathNames_of_isName (isName_stackName _), ha, stackName_slash (isName_stackName _)]

end

/-- **Names of stacks.** They are valid, derived from themselves and those of the deploys exactly
when the 63rd byte of the name before it is cut is neither `-` nor `_`. -/
theorem stable_iff (s : String) : Stable s ↔ CutsClean s := by
  refine ⟨fun h => (stackName_idem_iff s).mp h.again, fun h => ?_⟩
  have hagain := (stackName_idem_iff s).mpr h
  refine ⟨validName_stackName s, hagain, ?_⟩
  intro stacksDir defaultBranch lookup input p hname hpath hprepare
  rw [prepare_default hprepare hpath, hname, hagain]

/-- A repository whose name is cut after a `-`. -/
theorem not_stable_long : ¬ Stable (String.ofList (List.replicate 62 'a' ++ ['-', 'b'])) := by
  intro h
  have hclean := (stackName_idem_iff _).mp h.again
  have hlist : (String.ofList (List.replicate 62 'a' ++ ['-', 'b'])).toList =
      List.replicate 62 'a' ++ ['-', 'b'] := String.toList_ofList
  have huncut : (uncut (String.ofList (List.replicate 62 'a' ++ ['-', 'b']))).toList =
      List.replicate 62 'a' ++ ['-', 'b'] := by
    rw [uncut_of_name, hlist]
    · decide
    · intro hempty
      rw [hempty] at hlist
      cases hlist
    · rw [hlist]
      exact List.all_eq_true.mp (by decide)
    · intro hne
      simp only [hlist]
      rfl
  have hdash := hclean '-' (by rw [huncut]; rfl)
  cases hdash

end Dockhand.GitDeploy.Preflight
