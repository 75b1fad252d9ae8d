import Dockhand.Machines.Fixes

/-!
# Fixes that lock Dockhand out

Three fixes close a way into a machine: one turns passwords off, one turns them off for root, and
one turns on a firewall that admits port 22. Each is safe for a host that Dockhand reaches another
way (`keepsLogin_iff`). The checks know of the first case only, and neither request reads what they
offer: both choose a command by the id of the check (`Fleet.not_safe`). A request is safe exactly
when all that it fixes is offered and leaves Dockhand its way in: `Fleet.safe_iff_allowed`.
-/

namespace Dockhand.Machines

open Go Hosts

/-! ### Ways into a machine -/

/-- What `PermitRootLogin` allows. -/
inductive RootLogin
  | yes | prohibitPassword | no
  deriving DecidableEq

/-- What sshd and the firewall of a machine let in. -/
structure Access where
  passwords : Bool
  root : RootLogin
  admitted : ℤ → Bool

namespace Access

/-- What a command leaves. -/
def after (a : Access) (cmd : String) : Access :=
  if cmd = sshPasswordFix then { a with passwords := false }
  else if cmd = sshRootFix then { a with root := .prohibitPassword }
  else if cmd = firewallFix then { a with admitted := fun port => port = 22 }
  else a

/-- Dockhand can log in with what is stored of the host. The local one it reaches through its own
socket. -/
def admits (a : Access) (r : Record) : Prop :=
  r.method = "local" ∨
    a.admitted r.port = true ∧ (r.method = "password" → a.passwords = true) ∧
      (r.user = "root" → a.root ≠ .no ∧ (r.method = "password" → a.root = .yes))

end Access

/-- **The command leaves Dockhand its way in**: it does not turn passwords off where Dockhand has
one, nor for root where it is root with one, nor does it turn on the firewall where Dockhand uses
another port. -/
structure KeepsLogin (r : Record) (cmd : String) : Prop where
  passwords : cmd = sshPasswordFix → r.method ≠ "password"
  root : cmd = sshRootFix → ¬ (r.method = "password" ∧ r.user = "root")
  firewall : cmd = firewallFix → r.method = "local" ∨ r.port = 22

/-! ### The property and the condition -/

/-- The facts offer a fix for the check. -/
def Machine.offers (m : Machine) (id : String) : Bool :=
  m.checks.any fun c => c.id = id && c.fix ≠ ""

/-- A command that keeps the login, for a check that has a fix to offer. -/
def Run.Safe (x : Run) : Prop :=
  KeepsLogin x.host.record x.cmd ∧ x.machine.offers x.rule = true

/-- What a check has found that can be fixed, if the host was logged into by `method`. -/
def Row.fixable : Row → String → Bool
  | .failed, _ => false
  | .collected out method, id =>
    let apt : Bool := first (linesOf out "pkgmgr") = "apt"
    if id = "ssh-password" then
      (sshdValues out).get? "passwordauthentication" ≠ some "no" && method ≠ "password"
    else if id = "ssh-root" then
      !rootRestricted (((sshdValues out).get? "permitrootlogin").getD "")
    else if id = "firewall" then !(firewallActive out).1 && (firewallActive out).2
    else if id = "auto-updates" then !unattendedOn out && apt
    else if id = "security-updates" then !decide ((parse out).security = 0) && apt
    else if id = "reboot" then first (linesOf out "reboot") = "yes"
    else if id = "fail2ban" then !fail2banOn out && apt
    else false

/-- The fix of the check leaves the host its way in. -/
def spares (r : Record) (id : String) : Bool :=
  if id = "ssh-password" then r.method ≠ "password"
  else if id = "ssh-root" then !(r.method = "password" && r.user = "root")
  else if id = "firewall" then r.method = "local" || r.port = 22
  else true

/-- The id names a command that is run as it is. -/
def direct (id : String) : Bool := (fixCommand id {}).1 ≠ "" && id ≠ "security-updates"

/-- A fix that is run as it is finds something to fix and leaves the host its way in. -/
def Host.MayFix (h : Host) (id : String) : Prop :=
  direct id = true → ∀ row ∈ h.row.toOption, row.fixable id = true ∧ spares h.record id = true

instance (h : Host) (id : String) : Decidable (h.MayFix id) := inferInstanceAs (Decidable (_ → _))

/-- **The condition on a request**: the check that is fixed, or each failing rule of the baseline on
each of its machines that is up, may be fixed there. -/
def Fleet.Allowed (s : Fleet) : Request → Prop
  | .fix hostID checkID => ∀ h ∈ s.get hostID, h.MayFix checkID
  | .applyBaseline id =>
    ∀ b ∈ s.baseline id, ∀ hid ∈ b.hostIDs, ∀ h ∈ s.host hid,
      h.record.status ≠ .offline → h.record.status ≠ .pending →
        ∀ rule ∈ b.rules, h.fails rule = true → h.MayFix rule

instance (s : Fleet) : (r : Request) → Decidable (s.Allowed r)
  | .fix .. => inferInstanceAs (Decidable (∀ h ∈ _, _))
  | .applyBaseline _ => inferInstanceAs (Decidable (∀ b ∈ _, ∀ hid ∈ _, ∀ h ∈ _, _))

/-! ### Commands -/

variable {r : Record} {id cmd : String} {m : Machine} {out method : String}

private theorem sshRootFix_ne : sshRootFix ≠ sshPasswordFix := by decide +kernel

private theorem firewallFix_ne : firewallFix ≠ sshPasswordFix ∧ firewallFix ≠ sshRootFix := by
  decide +kernel

namespace Access

@[simp] theorem after_sshPasswordFix (a : Access) :
    a.after sshPasswordFix = { a with passwords := false } := if_pos rfl

@[simp] theorem after_sshRootFix (a : Access) :
    a.after sshRootFix = { a with root := .prohibitPassword } := by
  rw [after, if_neg sshRootFix_ne, if_pos rfl]

@[simp] theorem after_firewallFix (a : Access) :
    a.after firewallFix = { a with admitted := fun port => port = 22 } := by
  rw [after, if_neg firewallFix_ne.1, if_neg firewallFix_ne.2, if_pos rfl]

/-- Everything is open. -/
def wide : Access := ⟨true, .yes, fun _ => true⟩

private theorem admits_wide (r : Record) : wide.admits r :=
  .inr ⟨rfl, fun _ => rfl, fun _ => ⟨by decide, fun _ => rfl⟩⟩

end Access

/-- **What the three nevers are for**: they say that a command takes the login from no machine that
had it. -/
theorem keepsLogin_iff :
    KeepsLogin r cmd ↔ ∀ a : Access, a.admits r → (a.after cmd).admits r := by
  constructor
  · rintro hkeeps a (hlocal | ⟨hport, hpassword, hroot⟩)
    · exact .inl hlocal
    · unfold Access.after
      split_ifs with hcmd hcmd hcmd
      · exact .inr ⟨hport, fun h => absurd h (hkeeps.passwords hcmd), hroot⟩
      · exact .inr ⟨hport, hpassword, fun huser =>
          ⟨(by decide : RootLogin.prohibitPassword ≠ .no),
            fun h => absurd ⟨h, huser⟩ (hkeeps.root hcmd)⟩⟩
      · exact (hkeeps.firewall hcmd).imp_right fun h22 => ⟨decide_eq_true h22, hpassword, hroot⟩
      · exact .inr ⟨hport, hpassword, hroot⟩
  · intro hall
    -- a machine that lets everybody in shows what the command takes away
    have hwide := hall Access.wide (Access.admits_wide r)
    refine ⟨?_, ?_, ?_⟩
    · rintro rfl hmethod
      rw [Access.after_sshPasswordFix] at hwide
      simp [Access.admits, hmethod] at hwide
    · rintro rfl ⟨hmethod, huser⟩
      rw [Access.after_sshRootFix] at hwide
      simp [Access.admits, hmethod, huser] at hwide
    · rintro rfl
      rw [Access.after_firewallFix] at hwide
      exact hwide.imp_right fun h => of_decide_eq_true h.1

private theorem head?_writeSshd (lines file : String) :
    (writeSshd lines file).toList.head? = some 'm' := by
  unfold writeSshd
  simp

/-- No upgrade is one of the three commands: it begins with another letter. -/
theorem keepsLogin_installCommand (names : List String) : KeepsLogin r (installCommand names) := by
  have hhead : (installCommand names).toList.head? = some 'D' := by
    unfold installCommand
    simp
  have hssh (lines file : String) : installCommand names ≠ writeSshd lines file := fun h => by
    rw [h, head?_writeSshd] at hhead
    exact absurd hhead (by decide)
  have hfirewall : installCommand names ≠ firewallFix := fun h => by
    rw [h, firewallFix] at hhead
    simp at hhead
  exact ⟨fun h => absurd h (hssh _ _), fun h => absurd h (hssh _ _), fun h => absurd h hfirewall⟩

private theorem fixCommand_eq_sshPasswordFix :
    (fixCommand id m).1 = sshPasswordFix ↔ id = "ssh-password" := by
  unfold fixCommand
  split_ifs with h
  · simp [h]
  all_goals exact iff_of_false (by decide +kernel) h

private theorem fixCommand_eq_sshRootFix : (fixCommand id m).1 = sshRootFix ↔ id = "ssh-root" := by
  unfold fixCommand
  split_ifs with hother h
  · exact iff_of_false (by decide +kernel) (by rw [hother]; decide)
  · simp [h]
  all_goals exact iff_of_false (by decide +kernel) h

private theorem fixCommand_eq_firewallFix : (fixCommand id m).1 = firewallFix ↔
    id = "firewall" := by
  unfold fixCommand
  split_ifs with hother hother h
  · exact iff_of_false (by decide +kernel) (by rw [hother]; decide)
  · exact iff_of_false (by decide +kernel) (by rw [hother]; decide)
  · simp [h]
  all_goals exact iff_of_false (by decide +kernel) h

private theorem spares_iff :
    spares r id = true ↔ (id = "ssh-password" → r.method ≠ "password") ∧
      (id = "ssh-root" → ¬ (r.method = "password" ∧ r.user = "root")) ∧
        (id = "firewall" → r.method = "local" ∨ r.port = 22) := by
  unfold spares
  split_ifs <;> simp_all [or_iff_not_imp_left]

/-- **The command of a fix leaves Dockhand its way in** exactly on the hosts that it spares. -/
theorem keepsLogin_fixCommand : KeepsLogin r (fixCommand id m).1 ↔ spares r id = true := by
  rw [spares_iff, ← fixCommand_eq_sshPasswordFix, ← fixCommand_eq_sshRootFix,
    ← fixCommand_eq_firewallFix]
  exact ⟨fun h => ⟨h.passwords, h.root, h.firewall⟩, fun h => ⟨h.1, h.2.1, h.2.2⟩⟩

/-! ### The checks -/

theorem filter_id {cs : List Check} {c : Check} (hnodup : (cs.map Check.id).Nodup) (hc : c ∈ cs) :
    cs.filter (fun c' => c'.id = c.id) = [c] := by
  induction cs with
  | nil => cases hc
  | cons c' cs ih =>
    obtain ⟨hfresh, hrest⟩ := List.nodup_cons.mp hnodup
    rcases List.mem_cons.mp hc with rfl | hc
    · have hnone : cs.filter (fun c' => c'.id = c.id) = [] :=
        List.filter_eq_nil_iff.mpr fun c' hc' heq =>
          hfresh (List.mem_map.mpr ⟨c', hc', of_decide_eq_true heq⟩)
      rw [List.filter_cons_of_pos (by simp), hnone]
    · have hne : c'.id ≠ c.id := fun heq => hfresh (heq ▸ List.mem_map_of_mem hc)
      rw [List.filter_cons_of_neg (by simpa using hne), ih hrest hc]

/-- **Each check has an id of its own.** -/
theorem filter_checks {c : Check} (hc : c ∈ checks out m method) :
    (checks out m method).filter (fun c' => c'.id = c.id) = [c] :=
  filter_id (by decide : ["ssh-password", "ssh-root", "firewall", "auto-updates",
    "security-updates", "reboot", "fail2ban", "exposed-ports"].Nodup) hc

private theorem offers_of_mem {c : Check} (hc : c ∈ checks out (parse out) method) :
    (collect out method).offers c.id = decide (c.fix ≠ "") := by
  have hoffers : (collect out method).offers c.id =
      ((checks out (parse out) method).filter fun c' => c'.id = c.id).any fun c' => c'.fix ≠ "" :=
    (List.any_filter ..).symm
  rw [hoffers, filter_checks hc]
  simp

private theorem decide_ite_ne {p : Bool} {fix : String} (hfix : fix ≠ "") :
    decide ((if p then "" else fix) ≠ "") = !p := by
  cases p <;> simp [hfix]

private theorem not_or_ne {p : Bool} {o o' : String} : (!(p || o ≠ o')) = (!p && o = o') := by
  rw [Bool.eq_iff_iff]
  simp

private theorem fix_sshPasswordCheck :
    decide ((sshPasswordCheck out method).fix ≠ "") =
      (decide ((sshdValues out).get? "passwordauthentication" ≠ some "no") &&
        decide (method ≠ "password")) := by
  rw [sshPasswordCheck, decide_ite_ne (by decide)]
  simp

private theorem fix_sshRootCheck :
    decide ((sshRootCheck out).fix ≠ "") =
      !rootRestricted (((sshdValues out).get? "permitrootlogin").getD "") := by
  rw [sshRootCheck, decide_ite_ne (by decide)]

private theorem fix_firewallCheck :
    decide ((firewallCheck out).fix ≠ "") =
      (!(firewallActive out).1 && (firewallActive out).2) := by
  rw [firewallCheck, decide_ite_ne (by decide), Bool.not_or, Bool.not_not]

private theorem fix_autoUpdatesCheck :
    decide ((autoUpdatesCheck out m).fix ≠ "") = (!unattendedOn out && m.pkgManager = "apt") := by
  rw [autoUpdatesCheck, decide_ite_ne (by decide), not_or_ne]

private theorem fix_securityUpdatesCheck :
    decide ((securityUpdatesCheck m).fix ≠ "") =
      (!decide (m.security = 0) && m.pkgManager = "apt") := by
  rw [securityUpdatesCheck, decide_ite_ne (by decide), not_or_ne]

private theorem fix_rebootCheck : decide ((rebootCheck m).fix ≠ "") = m.reboot := by
  rw [rebootCheck]
  cases m.reboot <;> rfl

private theorem fix_fail2banCheck :
    decide ((fail2banCheck out m).fix ≠ "") = (!fail2banOn out && m.pkgManager = "apt") := by
  rw [fail2banCheck, decide_ite_ne (by decide), not_or_ne]

/-- **What the checks offer.** -/
theorem offers_machine (row : Row) (id : String) : row.machine.offers id = row.fixable id := by
  cases row with
  | failed => rfl
  | collected out method =>
    have hmem {c : Check} (hc : c ∈ checks out (parse out) method) :=
      offers_of_mem hc
    simp only [Row.fixable, Row.machine]
    split_ifs with hpassword hroot hfirewall hauto hsecurity hreboot hfail2ban
    · subst hpassword
      exact (hmem (.head _)).trans fix_sshPasswordCheck
    · subst hroot
      exact (hmem (.tail _ (.head _))).trans fix_sshRootCheck
    · subst hfirewall
      exact (hmem (.tail _ (.tail _ (.head _)))).trans fix_firewallCheck
    · subst hauto
      exact (hmem (.tail _ (.tail _ (.tail _ (.head _))))).trans fix_autoUpdatesCheck
    · subst hsecurity
      exact (hmem (.tail _ (.tail _ (.tail _ (.tail _ (.head _)))))).trans fix_securityUpdatesCheck
    · subst hreboot
      exact (hmem (.tail _ (.tail _ (.tail _ (.tail _ (.tail _ (.head _))))))).trans
        fix_rebootCheck
    · subst hfail2ban
      exact (hmem (.tail _ (.tail _ (.tail _ (.tail _ (.tail _ (.tail _ (.head _)))))))).trans
        fix_fail2banCheck
    · -- the last check has no fix, and no check has another id
      refine List.any_eq_false.mpr fun c hc => ?_
      have hc : c ∈ checks out (parse out) method := hc
      simp only [checks, List.mem_cons, List.not_mem_nil, or_false] at hc
      rcases hc with rfl | rfl | rfl | rfl | rfl | rfl | rfl | rfl
      · simp [show (sshPasswordCheck out method).id ≠ id from Ne.symm hpassword]
      · simp [show (sshRootCheck out).id ≠ id from Ne.symm hroot]
      · simp [show (firewallCheck out).id ≠ id from Ne.symm hfirewall]
      · simp [show (autoUpdatesCheck out (parse out)).id ≠ id from Ne.symm hauto]
      · simp [show (securityUpdatesCheck (parse out)).id ≠ id from Ne.symm hsecurity]
      · simp [show (rebootCheck (parse out)).id ≠ id from Ne.symm hreboot]
      · simp [show (fail2banCheck out (parse out)).id ≠ id from Ne.symm hfail2ban]
      · simp [show (exposedPortsCheck (parse out)).fix = "" from rfl]

/-- The cell of a rule is the status of its check. -/
theorem cell_of_mem {c : Check} {h : Host} (hstored : h.stored = some (.collected out method))
    (hc : c ∈ checks out (parse out) method) : h.cell c.id = c.status := by
  have hlisted : h.listed.checks = checks out (parse out) method := by
    simp [Host.listed, hstored, Row.machine, collect]
  rw [Host.cell, hlisted, filter_checks hc]
  rfl

/-! ### One command -/

section Runs

variable {s : Fleet} {x : Run} {h : Host} {row : Row}

private theorem direct_iff : direct id = true ↔ (fixCommand id m).1 ≠ "" ∧
    id ≠ "security-updates" := by
  rw [direct, Bool.and_eq_true, decide_eq_true_iff, decide_eq_true_iff]
  rfl

private theorem mayFix_iff (hrow : h.row = .ok row) :
    h.MayFix id ↔ (direct id = true → row.fixable id = true ∧ spares h.record id = true) := by
  rw [Host.MayFix, hrow]
  simp [Except.toOption]

/-- A fix that is run as it is. -/
theorem safe_fixCommand :
    Run.Safe ⟨h, row.machine, id, (fixCommand id m).1⟩ ↔
      row.fixable id = true ∧ spares h.record id = true := by
  rw [Run.Safe, keepsLogin_fixCommand, offers_machine, and_comm]

private theorem securityNames_eq_nil_iff : m.securityNames = [] ↔ m.security = 0 := by
  simp [Machine.securityNames, Machine.security]

private theorem fixable_securityUpdates :
    (Row.collected out method).fixable "security-updates" = true ↔
      (collect out method).securityNames ≠ [] ∧ (collect out method).pkgManager = "apt" := by
  rw [ne_eq, securityNames_eq_nil_iff]
  show (!decide ((parse out).security = 0) && decide ((parse out).pkgManager = "apt")) = true ↔ _
  rw [Bool.and_eq_true, Bool.not_eq_true', decide_eq_false_iff_not, decide_eq_true_iff]
  rfl

/-- An upgrade of the security updates, where there are some. -/
theorem safe_installCommand {names : List String}
    (hfix : row.fixable "security-updates" = true) :
    Run.Safe ⟨h, row.machine, "security-updates", installCommand names⟩ :=
  ⟨keepsLogin_installCommand names, (offers_machine row _).trans hfix⟩

/-- `Install` upgrades nothing but security updates that there are. -/
theorem install_securityOnly (hinstall : install row.machine [] true = .ok cmd) :
    row.fixable "security-updates" = true ∧ ∃ names, cmd = installCommand names := by
  unfold install at hinstall
  simp only [if_true] at hinstall
  split_ifs at hinstall with hapt hnames
  obtain rfl := Except.ok.inj hinstall
  refine ⟨?_, _, rfl⟩
  cases row with
  | failed => simp [Row.machine] at hapt
  | collected out method =>
    exact fixable_securityUpdates.mpr
      ⟨fun hnil => hnames (List.isEmpty_iff.mpr hnil), not_not.mp hapt⟩

/-- A check that fails is decided, and does not hold. -/
theorem of_statusOf {ok unknown warn : Bool}
    (h : statusOf ok unknown warn = .bad ∨ statusOf ok unknown warn = .warn) :
    ok = false ∧ unknown = false := by
  cases ok <;> cases unknown <;> cases warn <;> simp_all [statusOf]

/-- A failing rule of the security updates has some to install. -/
theorem fixable_of_fails (hstored : h.stored = some (.collected out method))
    (hfails : h.fails "security-updates" = true) :
    (Row.collected out method).fixable "security-updates" = true := by
  have hmem : securityUpdatesCheck (parse out) ∈ checks out (parse out) method :=
    .tail _ (.tail _ (.tail _ (.tail _ (.head _))))
  have hcell : h.cell "security-updates" = (securityUpdatesCheck (parse out)).status :=
    cell_of_mem hstored hmem
  rw [Host.fails, hcell, Bool.or_eq_true, decide_eq_true_iff, decide_eq_true_iff] at hfails
  obtain ⟨hsome, hapt⟩ := of_statusOf hfails
  rw [← offers_machine]
  refine (offers_of_mem hmem).trans (fix_securityUpdatesCheck.trans ?_)
  simpa [hsome] using hapt

/-- A host without collected facts fails no rule. -/
theorem exists_of_fails (hfails : h.fails id = true) :
    ∃ out method, h.stored = some (.collected out method) := by
  have hblank (hlisted : h.listed.checks = []) : False := by
    simp [Host.fails, Host.cell, hlisted] at hfails
  rcases hstored : h.stored with _ | row
  · exact (hblank (by simp [Host.listed, hstored])).elim
  · cases row with
    | failed => exact (hblank (by simp [Host.listed, hstored, Row.machine])).elim
    | collected out method => exact ⟨out, method, rfl⟩

/-! ### The runs of a request -/

private theorem mem_runs_fix {hostID : String} : x ∈ s.runs (.fix hostID id) ↔
    s.fix hostID id = .ok x := by
  rw [Fleet.runs]
  cases s.fix hostID id <;> simp [Except.toOption, eq_comm]

/-- **`Fix`.** -/
theorem safe_fix_iff {hostID : String} :
    (∀ x ∈ s.runs (.fix hostID id), x.Safe) ↔ ∀ h ∈ s.get hostID, h.MayFix id := by
  simp only [mem_runs_fix, Fleet.fix]
  cases hhost : s.get hostID with
  | none => simp
  | some h =>
    simp only [Option.mem_some_iff, forall_eq']
    cases hrow : h.row with
    | error err => simp [Host.MayFix, hrow, Except.toOption]
    | ok row =>
      rw [mayFix_iff hrow]
      dsimp only
      by_cases hsecurity : id = "security-updates"
      · -- `Fix` hands these to `Install`, which looks at the facts itself
        subst hsecurity
        refine iff_of_true ?_ fun hdirect => absurd hdirect (by decide)
        cases hinstall : install row.machine [] true with
        | error err => simp [Except.map]
        | ok cmd =>
          obtain ⟨hfix, names, rfl⟩ := install_securityOnly hinstall
          simpa [Except.map] using safe_installCommand hfix
      · by_cases hcmd : (fixCommand id row.machine).1 = ""
        · simp [hsecurity, hcmd, direct_iff (m := row.machine)]
        · simp [hsecurity, hcmd, direct_iff (m := row.machine), safe_fixCommand]

/-- What a task of `ApplyBaseline` runs. -/
theorem mem_runs_applyBaseline {id : String} :
    x ∈ s.runs (.applyBaseline id) ↔
      ∃ b ∈ s.baseline id, ∃ t ∈ s.tasks b, Fleet.runTask t = some x := by
  rw [Fleet.runs, Fleet.applyBaseline]
  cases s.baseline id with
  | none => simp [Except.toOption]
  | some b =>
    dsimp only
    split_ifs with hnone
    · simp [Except.toOption, List.isEmpty_iff.mp hnone]
    · simp [Except.toOption]

private theorem mem_tasks {b : Baseline} {t : Host × String} :
    t ∈ s.tasks b ↔
      ∃ hid ∈ b.hostIDs, t.1 ∈ s.host hid ∧ t.2 ∈ Fleet.rulesToFix t.1 b := by
  simp only [Fleet.tasks, List.mem_flatMap, List.mem_filterMap, List.mem_map, Option.mem_def]
  constructor
  · rintro ⟨h, ⟨hid, hhid, hhost⟩, rule, hrule, rfl⟩
    exact ⟨hid, hhid, hhost, hrule⟩
  · rintro ⟨hid, hhid, hhost, hrule⟩
    exact ⟨t.1, ⟨hid, hhid, hhost⟩, t.2, hrule, rfl⟩

private theorem mem_rulesToFix {b : Baseline} {rule : String} :
    rule ∈ Fleet.rulesToFix h b ↔
      h.record.status ≠ .offline ∧ h.record.status ≠ .pending ∧ rule ∈ b.rules ∧
        h.fails rule = true ∧ (direct rule = true ∨ rule = "security-updates") := by
  have hcommand : (fixCommand rule {}).1 ≠ "" ∨ rule = "security-updates" ↔
      direct rule = true ∨ rule = "security-updates" := by
    rw [direct_iff (m := {})]
    tauto
  rw [Fleet.rulesToFix, ← hcommand]
  split_ifs with hdown
  · simp only [Bool.or_eq_true, decide_eq_true_eq] at hdown
    rcases hdown with hdown | hdown <;> simp [hdown]
  · simp only [Bool.or_eq_true, decide_eq_true_eq, not_or] at hdown
    simp [hdown]

/-- **A task** runs a safe command if its rule may be fixed. -/
theorem safe_runTask_iff {rule : String} (hfails : h.fails rule = true)
    (hrule : direct rule = true ∨ rule = "security-updates") :
    (∀ x, Fleet.runTask (h, rule) = some x → x.Safe) ↔ h.MayFix rule := by
  obtain ⟨out, method, hstored⟩ := exists_of_fails hfails
  have hrow : h.row = .ok (.collected out method) := by rw [Host.row, hstored]
  rw [mayFix_iff hrow]
  simp only [Fleet.runTask, hrow]
  rcases hrule with hdirect | rfl
  · obtain ⟨hcmd, hsecurity⟩ := (direct_iff (m := (Row.collected out method).machine)).mp hdirect
    simp [hdirect, hsecurity, hcmd, safe_fixCommand]
  · -- the security updates are there, as their check fails
    refine iff_of_true (fun x hx => ?_) fun hdirect => absurd hdirect (by decide)
    have hfix := fixable_of_fails hstored hfails
    have hnames : ¬ (Row.collected out method).machine.securityNames.isEmpty = true :=
      fun hempty => (fixable_securityUpdates.mp hfix).1 (List.isEmpty_iff.mp hempty)
    rw [if_pos rfl, if_neg hnames] at hx
    split_ifs at hx
    obtain rfl := Option.some.inj hx
    exact safe_installCommand hfix

/-- **`ApplyBaseline`.** -/
theorem safe_applyBaseline_iff {id : String} :
    (∀ x ∈ s.runs (.applyBaseline id), x.Safe) ↔ s.Allowed (.applyBaseline id) := by
  constructor
  · intro hsafe b hb hid hhid h hh honline hknown rule hrule hfails hdirect
    have htask : (h, rule) ∈ s.tasks b := mem_tasks.mpr
      ⟨hid, hhid, hh, mem_rulesToFix.mpr ⟨honline, hknown, hrule, hfails, .inl hdirect⟩⟩
    exact (safe_runTask_iff hfails (.inl hdirect)).mp (fun x hx =>
      hsafe x (mem_runs_applyBaseline.mpr ⟨b, hb, _, htask, hx⟩)) hdirect
  · intro hallowed x hx
    obtain ⟨b, hb, ⟨h, rule⟩, htask, hrun⟩ := mem_runs_applyBaseline.mp hx
    obtain ⟨hid, hhid, hh, hrule⟩ := mem_tasks.mp htask
    obtain ⟨honline, hknown, hmem, hfails, hcommand⟩ := mem_rulesToFix.mp hrule
    have hmay : h.MayFix rule := hallowed b hb hid hhid h hh honline hknown rule hmem hfails
    exact (safe_runTask_iff hfails hcommand).mpr hmay x hrun

end Runs

/-- **Exactly the allowed requests are safe**: every command that such a request runs leaves
Dockhand its way in, and is for a check that has a fix to offer. -/
theorem Fleet.safe_iff_allowed (s : Fleet) (req : Request) :
    (∀ x ∈ s.runs req, x.Safe) ↔ s.Allowed req := by
  cases req with
  | fix hostID checkID => exact safe_fix_iff
  | applyBaseline id => exact safe_applyBaseline_iff

/-! ### Machines that lock Dockhand out -/

namespace Example

/-- Dockhand is root here, with a password. -/
def passwordHost : Host where
  id := "1"
  record := { name := "nas", address := "nas", method := "password", status := .online }
  stored := some (.collected
    "@@sshd\npasswordauthentication yes\npermitrootlogin yes\n" "password")
  output := .error "unreachable"

/-- Dockhand comes in with its key, on another port than 22. -/
def portHost : Host where
  id := "2"
  record := { name := "pi", address := "pi", port := 2222, user := "pi", status := .online }
  stored := some (.collected "@@pkgmgr\nnone\n" "key")
  output := .error "unreachable"

/-- Two hosts, each in a baseline of its own. -/
def fleet : Fleet where
  hosts := [passwordHost, portHost]
  baselines := [⟨"b", ["ssh-root", "fail2ban"], ["1"]⟩, ⟨"c", ["fail2ban"], ["2"]⟩]

end Example

/-- Passwords are turned off where Dockhand has one, and for root where it is root with one; the
firewall is turned on where Dockhand uses another port; and fail2ban is installed with apt on a
machine that has none. -/
theorem Fleet.not_safe :
    ¬ (∀ x ∈ Example.fleet.runs (.fix "1" "ssh-password"), x.Safe) ∧
      ¬ (∀ x ∈ Example.fleet.runs (.applyBaseline "b"), x.Safe) ∧
        ¬ (∀ x ∈ Example.fleet.runs (.fix "2" "firewall"), x.Safe) ∧
          ¬ (∀ x ∈ Example.fleet.runs (.applyBaseline "c"), x.Safe) := by
  rw [safe_fix_iff, safe_applyBaseline_iff, safe_fix_iff, safe_applyBaseline_iff]
  refine ⟨?_, ?_, ?_, ?_⟩ <;> decide +kernel

end Dockhand.Machines
