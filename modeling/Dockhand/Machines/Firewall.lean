import Dockhand.Go.Words
import Dockhand.Machines.Facts

/-!
# Whether inbound traffic is filtered

The `firewall` section holds what ufw, firewalld, nft and iptables say of a machine, and
`firewallActive` searches its lines for words. The lines are given here as the tools print them, so
what a line says, `FirewallLine.Filters`, can be told from what it contains.

A status line of ufw contains `active` also when it says `inactive`, and a rule counts also when
it accepts. So `firewallActive` reads exactly the sections right that show a filter
(`detects_iff`): any other one turns active with the line that says ufw is off.
-/

namespace Dockhand.Machines

open Go

/-! ### The lines of a section -/

/-- A line that `sections` keeps as it is. -/
structure KeptLine (l : String) : Prop where
  newline : '\n' ∉ l.toList
  unended : trimRight l "\r" = l
  dark : ∃ c ∈ l.toList, isSpace c = false
  marker : hasPrefix l "@@" = false

/-- A line without a space at its end. -/
structure CleanLine (l : String) : Prop where
  newline : '\n' ∉ l.toList
  endsDark : EndsDark l
  marker : hasPrefix l "@@" = false

/-- What the script prints for one section. -/
def printed (name : Word) (ls : List String) : String :=
  "\n".intercalate (("@@" ++ name.text) :: ls)

theorem trimRight_of_endsDark {s : String} (h : EndsDark s) : trimRight s "\r" = s := by
  obtain ⟨r, c, hs, hc⟩ := h
  have hne : c ≠ '\r' := fun heq => by
    rw [heq] at hc
    cases hc
  rw [trimRight, hs, List.rdropWhile_concat_neg _ _ _ (by simpa using hne), ← hs,
    String.ofList_toList]

private theorem sectionStep_marker (name : Word) (st : String × Dict String (List String)) :
    sectionStep st ("@@" ++ name.text) = (name.text, st.2) := by
  rw [sectionStep, trimRight_of_endsDark (name.endsDark.append _), if_pos (hasPrefix_append _ _),
    trimPrefix_append, trimSpace_eq_self name.startsDark name.endsDark]

theorem CleanLine.kept {l : String} (h : CleanLine l) : KeptLine l := by
  obtain ⟨r, c, hl, hc⟩ := h.endsDark
  exact ⟨h.newline, trimRight_of_endsDark h.endsDark, ⟨c, by simp [hl], hc⟩, h.marker⟩

private theorem sectionStep_kept {l cur : String} (h : KeptLine l) (hcur : cur ≠ "")
    (res : Dict String (List String)) :
    sectionStep (cur, res) l = (cur, res.set cur ((res.get? cur).getD [] ++ [l])) := by
  have hspace : trimSpace l ≠ "" := fun hempty => by
    obtain ⟨c, hl, hc⟩ := h.dark
    have hlist := congrArg String.toList hempty
    rw [toList_trimSpace] at hlist
    have hall := List.rdropWhile_eq_nil_iff.mp hlist
    have hsplit : l.toList.takeWhile isSpace ++ l.toList.dropWhile isSpace = l.toList :=
      List.takeWhile_append_dropWhile
    rcases List.mem_append.mp (hsplit ▸ hl) with hl | hl
    · rw [List.mem_takeWhile_imp hl] at hc
      cases hc
    · rw [hall c hl] at hc
      cases hc
  rw [sectionStep, h.unended, if_neg (by simp [h.marker]), if_pos (by simp [hcur, hspace])]

/-- The section is read back. -/
theorem linesOf_printed (name : Word) (hname : '\n' ∉ name.text.toList) {ls : List String}
    (hls : ∀ l ∈ ls, KeptLine l) : linesOf (printed name ls) name.text = ls := by
  have hstep : ∀ (ls : List String) (res : Dict String (List String)), (∀ l ∈ ls, KeptLine l) →
      (((ls.foldl sectionStep (name.text, res)).2.get? name.text).getD [] =
        (res.get? name.text).getD [] ++ ls) := by
    intro ls
    induction ls with
    | nil => simp
    | cons l ls ih =>
      intro res h
      rw [List.foldl_cons, sectionStep_kept (h l List.mem_cons_self) name.nonempty,
        ih _ fun l' hl' => h l' (List.mem_cons_of_mem _ hl')]
      simp
  have hlines : ∀ l ∈ ("@@" ++ name.text) :: ls, '\n' ∉ l.toList := by
    intro l hl
    rcases List.mem_cons.mp hl with rfl | hl
    · simpa using hname
    · exact (hls l hl).newline
  rw [linesOf, sections, printed, splitChar_intercalate rfl hlines (List.cons_ne_nil _ _),
    List.foldl_cons, sectionStep_marker, hstep ls ∅ hls]
  rfl

/-! ### What the tools say -/

/-- What `firewall-cmd --state` prints. -/
inductive FirewalldState
  | running | notRunning | failed

/-- What `firewall-cmd --state` prints. -/
def FirewalldState.text : FirewalldState → String
  | running => "running"
  | notRunning => "not running"
  | failed => "failed"

/-- What a policy does with a packet. -/
inductive Verdict
  | accept | drop | reject

/-- The words of `iptables` for a policy. -/
def Verdict.text : Verdict → String
  | accept => "ACCEPT"
  | drop => "DROP"
  | reject => "REJECT"

/-- A line of the `firewall` section: the status of ufw, the state of firewalld, an input hook of
nft, whose priority may be a sum such as `filter + 10`, and the policy and the rules of the `INPUT`
chain of iptables. -/
inductive FirewallLine
  | ufw (active : Bool)
  | firewalld (state : FirewalldState)
  | nft (type : Word) (priority : List Word)
  | policy (verdict : Verdict)
  | rule (args : List Word)

namespace FirewallLine

/-- The line as its tool prints it. -/
def text : FirewallLine → String
  | ufw active => if active then "Status: active" else "Status: inactive"
  | firewalld state => state.text
  | nft type priority =>
    "\t\ttype " ++ type.text ++ " hook input " ++ phrase "priority" priority ++ "; policy drop;"
  | policy verdict => "-P INPUT " ++ verdict.text
  | rule args => phrase "-A INPUT" args

/-- The rule names a chain or an interface of Docker. -/
def ofDocker (l : FirewallLine) : Bool :=
  contains l.text "DOCKER" || contains l.text "docker0" || contains l.text "br-"

/-- The line says that inbound traffic is filtered. A rule says so unless it is Docker's own or
does nothing but accept. -/
def Filters : FirewallLine → Prop
  | ufw active => active = true
  | firewalld state => state = .running
  | nft .. => True
  | policy verdict => verdict ≠ .accept
  | rule args => (rule args).ofDocker = false ∧ ¬ ["-j", "ACCEPT"] <:+ args.map Word.text

/-- A rule with the words that an input hook of nft is told by, in a comment say. -/
def likeHook (l : FirewallLine) : Bool :=
  contains (toLower l.text) "hook input" && contains (toLower l.text) "policy drop"

/-- The line does not say so, but is counted. -/
def Misleads : FirewallLine → Prop
  | ufw active => active = false
  | rule args =>
    ¬ (rule args).Filters ∧ ((rule args).ofDocker = false ∨ (rule args).likeHook = true)
  | _ => False

end FirewallLine

/-- The section of the output has these lines. -/
def Shows (out : String) (ls : List FirewallLine) : Prop :=
  linesOf out "firewall" = ls.map FirewallLine.text

/-- What is asked of `firewallActive` on a section. -/
structure Detects (ls : List FirewallLine) : Prop where
  sound : ∀ out, Shows out ls → (firewallActive out).1 = true → ∃ l ∈ ls, l.Filters
  order : ∀ out out' ls', Shows out ls → Shows out' ls' → ls'.Perm ls →
    (firewallActive out').1 = (firewallActive out).1
  inactive : ∀ out out' a b, ls = a ++ b → Shows out ls → Shows out' (a ++ .ufw false :: b) →
    (firewallActive out').1 = (firewallActive out).1
  check : ∀ out, Shows out ls → (firewallCheck out).status = .ok → ∃ l ∈ ls, l.Filters

/-! ### What is counted -/

/-- The line makes the firewall active. -/
def counts (l : String) : Bool := (firewallStep (false, false) l).1

private theorem firewallStep_fst (st : Bool × Bool) (l : String) :
    (firewallStep st l).1 = (st.1 || counts l) := by
  obtain ⟨active, ufw⟩ := st
  simp only [counts, firewallStep]
  generalize trimSpace l = t
  generalize toLower t = low
  split_ifs <;> simp [Bool.or_assoc]

theorem firewallActive_fst (out : String) :
    (firewallActive out).1 = (linesOf out "firewall").any counts := by
  have hfold : ∀ (ls : List String) (st : Bool × Bool),
      (ls.foldl firewallStep st).1 = (st.1 || ls.any counts) := by
    intro ls
    induction ls with
    | nil => simp
    | cons l ls ih =>
      intro st
      rw [List.foldl_cons, ih, firewallStep_fst, List.any_cons, Bool.or_assoc]
  rw [firewallActive, hfold, Bool.false_or]

theorem firewallCheck_ok_iff (out : String) :
    (firewallCheck out).status = .ok ↔ (firewallActive out).1 = true := by
  simp only [firewallCheck, statusOf]
  cases (firewallActive out).1 with
  | true => simp
  | false => cases (firewallActive out).2 <;> simp

namespace FirewallLine

private theorem trimSpace_nft (type : Word) (priority : List Word) :
    trimSpace (nft type priority).text =
      "type " ++ type.text ++ " hook input " ++ phrase "priority" priority ++ "; policy drop;" := by
  have hpad : (nft type priority).text = "\t\t" ++
      ("type " ++ type.text ++ " hook input " ++ phrase "priority" priority ++
        "; policy drop;") := by
    simp only [text, ← String.append_assoc]
    rfl
  rw [hpad, trimSpace_append (by decide)]
  refine trimSpace_eq_self ?_ (EndsDark.append
    ⟨"; policy drop".toList, ';', by decide, by decide⟩ _)
  simp only [String.append_assoc]
  exact StartsDark.append ⟨'t', "ype ".toList, by decide, by decide⟩ _

private theorem counts_nft (type : Word) (priority : List Word) :
    counts (nft type priority).text = true := by
  have hlow : toLower (trimSpace (nft type priority).text) =
      "type " ++ toLower type.text ++ " " ++ "hook input" ++
        (" " ++ toLower (phrase "priority" priority) ++ "; " ++ "policy drop" ++ ";") := by
    rw [trimSpace_nft]
    simp only [toLower_append, String.append_assoc]
    congr 1
  have hhook := contains_append ("type " ++ toLower type.text ++ " ") "hook input"
    (" " ++ toLower (phrase "priority" priority) ++ "; " ++ "policy drop" ++ ";")
  have hdrop := contains_append_left ("type " ++ toLower type.text ++ " " ++ "hook input")
    (contains_append (" " ++ toLower (phrase "priority" priority) ++ "; ") "policy drop" ";")
  have hstatus : hasPrefix (toLower (trimSpace (nft type priority).text)) "status:" = false := by
    rw [hlow]
    simp [hasPrefix]
    rfl
  rw [← hlow] at hhook hdrop
  simp only [counts, firewallStep, hstatus, hhook, hdrop, Bool.false_eq_true, if_false,
    Bool.and_true, if_true, ite_self]

private theorem trimSpace_rule (args : List Word) :
    trimSpace (rule args).text = (rule args).text := by
  obtain ⟨t, ht⟩ := exists_phrase_eq "-A INPUT" args
  refine trimSpace_eq_self ?_ (endsDark_phrase ⟨"-A INPU".toList, 'T', by decide, by decide⟩ args)
  rw [text, ht]
  exact StartsDark.append ⟨'-', "A INPUT".toList, by decide, by decide⟩ t

private theorem counts_rule (args : List Word) :
    counts (rule args).text = ((rule args).likeHook || !(rule args).ofDocker) := by
  obtain ⟨t, ht⟩ := exists_phrase_eq "-A INPUT" args
  have hlow : toLower (rule args).text = "-a input" ++ toLower t := by
    rw [text, ht, toLower_append]
    rfl
  have hstatus : hasPrefix (toLower (rule args).text) "status:" = false := by
    rw [hlow]
    simp [hasPrefix]
    rfl
  have hrunning : toLower (rule args).text ≠ "running" := by
    rw [hlow]
    intro h
    simpa using congrArg String.toList h
  have hpolicy : hasPrefix (rule args).text "-P INPUT" = false := by
    rw [text, ht]
    simp [hasPrefix]
    rfl
  have hrule : hasPrefix (rule args).text "-A INPUT" = true := by
    rw [text, ht]
    exact hasPrefix_append _ _
  simp only [counts, firewallStep, trimSpace_rule, hstatus, hrunning, hpolicy, hrule, if_true,
    Bool.false_eq_true, if_false]
  rw [likeHook, ofDocker]
  generalize (contains (toLower (rule args).text) "hook input" &&
    contains (toLower (rule args).text) "policy drop") = hook
  generalize contains (rule args).text "DOCKER" = chain
  generalize contains (rule args).text "docker0" = docker0
  generalize contains (rule args).text "br-" = bridge
  cases hook <;> cases chain <;> cases docker0 <;> cases bridge <;> rfl

private theorem counts_text_iff (l : FirewallLine) : counts l.text = true ↔ l.Filters ∨
    l.Misleads := by
  cases l with
  | ufw active => cases active <;> simp [Filters, Misleads] <;> decide
  | firewalld state => cases state <;> simp [Filters, Misleads] <;> decide
  | nft type priority => simp [Filters, counts_nft]
  | policy verdict => cases verdict <;> simp [Filters, Misleads] <;> decide
  | rule args =>
    rw [counts_rule, Bool.or_eq_true, Bool.not_eq_true', Misleads, Filters]
    generalize (rule args).ofDocker = ofDocker
    generalize (rule args).likeHook = likeHook
    generalize (["-j", "ACCEPT"] <:+ args.map Word.text) = accepts
    tauto

private theorem clean_of_getLast {l : String} {c : Char} (hnewline : '\n' ∉ l.toList)
    (hlast : l.toList.getLast? = some c) (hc : isSpace c = false)
      (hmarker : hasPrefix l "@@" = false) :
    CleanLine l := by
  obtain ⟨r, hr⟩ := List.getLast?_eq_some_iff.mp hlast
  exact ⟨hnewline, ⟨r, c, hr, hc⟩, hmarker⟩

private theorem clean_text (l : FirewallLine) : CleanLine l.text := by
  cases l with
  | ufw active =>
    cases active with
    | true => exact clean_of_getLast (c := 'e') (by decide) (by decide) (by decide) (by decide)
    | false => exact clean_of_getLast (c := 'e') (by decide) (by decide) (by decide) (by decide)
  | firewalld state =>
    cases state with
    | running => exact clean_of_getLast (c := 'g') (by decide) (by decide) (by decide) (by decide)
    | notRunning =>
      exact clean_of_getLast (c := 'g') (by decide) (by decide) (by decide) (by decide)
    | failed => exact clean_of_getLast (c := 'd') (by decide) (by decide) (by decide) (by decide)
  | nft type priority =>
    have hword : ∀ w : Word, '\n' ∉ w.text.toList := fun w h =>
      absurd (w.dark _ h) (by decide)
    refine ⟨?_, EndsDark.append ⟨"; policy drop".toList, ';', by decide, by decide⟩ _, ?_⟩
    · have hpriority : '\n' ∉ (phrase "priority" priority).toList :=
        not_mem_phrase (by decide) (by decide) (by decide) priority
      simp [text, hword, hpriority]
    · simp [text, hasPrefix]
      rfl
  | policy verdict =>
    cases verdict with
    | accept => exact clean_of_getLast (c := 'T') (by decide) (by decide) (by decide) (by decide)
    | drop => exact clean_of_getLast (c := 'P') (by decide) (by decide) (by decide) (by decide)
    | reject => exact clean_of_getLast (c := 'T') (by decide) (by decide) (by decide) (by decide)
  | rule args =>
    obtain ⟨t, ht⟩ := exists_phrase_eq "-A INPUT" args
    refine ⟨not_mem_phrase (by decide) (by decide) (by decide) args,
      endsDark_phrase ⟨"-A INPU".toList, 'T', by decide, by decide⟩ args, ?_⟩
    rw [text, ht]
    simp [hasPrefix]
    rfl

end FirewallLine

/-! ### Exactly the sections that are read right -/

section

variable {ls : List FirewallLine} {out : String}

private theorem Shows.active_iff (h : Shows out ls) :
    (firewallActive out).1 = true ↔ ∃ l ∈ ls, l.Filters ∨ l.Misleads := by
  rw [firewallActive_fst, h, List.any_map, List.any_eq_true]
  simp only [Function.comp_apply, FirewallLine.counts_text_iff]

/-- Every section can be printed. -/
theorem exists_shows (ls : List FirewallLine) : ∃ out, Shows out ls := by
  refine ⟨_, linesOf_printed ⟨"firewall", by decide, List.all_iff_forall_prop.mp (by decide)⟩ (by
    decide) ?_⟩
  intro l hl
  obtain ⟨f, -, rfl⟩ := List.mem_map.mp hl
  exact f.clean_text.kept

/-- A line that says ufw is off turns the firewall on. -/
theorem Shows.active_of_inactive {a b : List FirewallLine} (h : Shows out (a ++ .ufw false :: b)) :
    (firewallActive out).1 = true :=
  h.active_iff.mpr ⟨.ufw false, by simp, .inr rfl⟩

private theorem detects_of_filters (h : ∃ l ∈ ls, l.Filters) : Detects ls := by
  obtain ⟨l, hl, hfilters⟩ := h
  refine ⟨fun _ _ _ => ⟨l, hl, hfilters⟩, ?_, ?_, fun _ _ _ => ⟨l, hl, hfilters⟩⟩
  · intro out out' ls' hout hout' hperm
    rw [Bool.eq_iff_iff, hout.active_iff, hout'.active_iff]
    simp only [hperm.mem_iff]
  · intro out out' a b _ hout hout'
    rw [hout'.active_of_inactive, hout.active_iff.mpr ⟨l, hl, .inl hfilters⟩]

/-- **Firewall detection.** `firewallActive` reads a section right exactly when a line of it shows
a filter; and it takes no machine without a filter for a filtered one exactly when the section shows
a filter or has no line that misleads. -/
theorem detects_iff (ls : List FirewallLine) :
    (Detects ls ↔ ∃ l ∈ ls, l.Filters) ∧
      ((∀ out, Shows out ls → (firewallActive out).1 = true → ∃ l ∈ ls, l.Filters) ↔
        (∃ l ∈ ls, l.Filters) ∨ ∀ l ∈ ls, ¬ l.Misleads) := by
  obtain ⟨out, hout⟩ := exists_shows ls
  refine ⟨⟨fun h => ?_, detects_of_filters⟩, fun h => ?_, ?_⟩
  · obtain ⟨out', hout'⟩ := exists_shows ([] ++ .ufw false :: ls)
    have hsame := h.inactive out out' [] ls rfl hout hout'
    exact h.sound out hout (hsame ▸ hout'.active_of_inactive)
  · by_contra hneither
    push Not at hneither
    obtain ⟨hnone, l, hl, hmisleads⟩ := hneither
    obtain ⟨l', hl', hfilters⟩ := h out hout (hout.active_iff.mpr ⟨l, hl, .inr hmisleads⟩)
    exact hnone l' hl' hfilters
  · rintro hor out hout hactive
    obtain ⟨l, hl, hfilters | hmisleads⟩ := hout.active_iff.mp hactive
    · exact ⟨l, hl, hfilters⟩
    · exact hor.resolve_right fun hnone => hnone l hl hmisleads

/-- ufw says that it is inactive, and nothing else filters. -/
theorem not_detects_inactive : ¬ Detects [.ufw false] := by
  intro h
  obtain ⟨out, hout⟩ := exists_shows [.ufw false]
  obtain ⟨l, hl, hfilters⟩ := h.sound out hout (hout.active_of_inactive (a := []) (b := []))
  obtain rfl := List.mem_singleton.mp hl
  cases hfilters

end

end Dockhand.Machines
