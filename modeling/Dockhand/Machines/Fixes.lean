import Dockhand.Hosts.Store
import Dockhand.Machines.Facts
import Mathlib.Data.List.Dedup

/-!
# Fixing machines

The command of each fix, and the two requests that run them: `Fix` for one check of one machine,
and `ApplyBaseline` for every failing rule on every machine of a baseline. Both choose the command
by the id of the check, and read the facts that are stored. Facts and records do not change while a
request runs, and no host has the id of another one as its name.
-/

namespace Dockhand.Machines

open Go Hosts

/-! ### Commands -/

/-- `shQuote` puts a text into single quotes; a quote inside is closed, written out and opened
again. -/
def shQuote (s : String) : String :=
  let escaped := s.toList.flatMap fun c => if c = '\x27' then "'\"'\"'".toList else [c]
  "'" ++ String.ofList escaped ++ "'"

/-- Reloads sshd, under whichever name it runs. -/
def reloadSshd : String :=
  "(systemctl reload ssh 2>/dev/null || systemctl reload sshd 2>/dev/null || service ssh reload)"

/-- Writes a file of sshd's configuration and reloads sshd. -/
def writeSshd (lines file : String) : String :=
  "mkdir -p /etc/ssh/sshd_config.d && " ++ ("printf '# written by Dockhand\\n" ++ lines ++
    "' > /etc/ssh/sshd_config.d/" ++ file ++ " && " ++ reloadSshd)

/-- The command that switches password logins off, in a file that `sshd` reads before the others. -/
def sshPasswordFix : String :=
  writeSshd "PasswordAuthentication no\\nKbdInteractiveAuthentication no\\n" "99-dockhand.conf"

/-- The command that leaves root the login by a key. -/
def sshRootFix : String :=
  writeSshd "PermitRootLogin prohibit-password\\n" "98-dockhand-root.conf"

/-- The command that switches `ufw` on, with the login allowed first. -/
def firewallFix : String := "ufw allow OpenSSH && ufw --force enable && ufw status"

/-- The command that installs unattended upgrades and switches them on. -/
def autoUpdatesFix : String :=
  "DEBIAN_FRONTEND=noninteractive apt-get install -y unattended-upgrades && " ++
    "printf 'APT::Periodic::Update-Package-Lists \"1\";\\n" ++
      "APT::Periodic::Unattended-Upgrade \"1\";\\n' > /etc/apt/apt.conf.d/20auto-upgrades && " ++
        "systemctl enable --now unattended-upgrades"

/-- The command that installs the updates that come from a security pocket. -/
def securityUpdatesFix : String :=
  "apt-get update && DEBIAN_FRONTEND=noninteractive apt-get -y -o " ++
    "Dpkg::Options::=--force-confold upgrade $(apt-get -s -o Debug::NoLocking=true dist-upgrade " ++
      "| awk '/^Inst/ && (/-security/ || /esm-(apps|infra)/) \x7bprint $2\x7d' | tr '\\n' ' ')"

/-- The command that installs `fail2ban` and starts it. -/
def fail2banFix : String :=
  "DEBIAN_FRONTEND=noninteractive apt-get install -y fail2ban && systemctl enable --now fail2ban"

/-- The command that restarts the machine when the connection has had time to close. -/
def rebootFix : String := "(sleep 1; systemctl reboot || reboot) >/dev/null 2>&1 &"

/-- The command of a check's fix, and whether it needs sudo. The machine is not looked at. -/
def fixCommand (id : String) (_m : Machine) : String × Bool :=
  if id = "ssh-password" then (sshPasswordFix, true)
  else if id = "ssh-root" then (sshRootFix, true)
  else if id = "firewall" then (firewallFix, true)
  else if id = "auto-updates" then (autoUpdatesFix, true)
  else if id = "security-updates" then (securityUpdatesFix, true)
  else if id = "fail2ban" then (fail2banFix, true)
  else if id = "reboot" then (rebootFix, true)
  else ("", false)

/-- The command that upgrades packages. -/
def installCommand (names : List String) : String :=
  "DEBIAN_FRONTEND=noninteractive apt-get install -y --only-upgrade -o " ++
    "Dpkg::Options::=--force-confold " ++ " ".intercalate (names.map shQuote)

/-- The names of the security updates. -/
def Machine.securityNames (m : Machine) : List String :=
  (m.packages.filter (·.security)).map (·.name)

/-- `Install`: the named packages, all of them if none is named, or the security updates. -/
def install (m : Machine) (pkgs : List String) (securityOnly : Bool) : Except String String :=
  if m.pkgManager ≠ "apt" then
    .error ("Dockhand can only install updates on apt-based machines (Debian, Ubuntu, " ++
      "Raspberry Pi OS)")
  else
    let all := m.packages.map (·.name)
    match if securityOnly then none else pkgs.find? fun p => !all.contains p with
    | some p => .error (p ++ " isn't in the list of pending updates — run apt update first")
    | none =>
      let names :=
        if securityOnly then m.securityNames else if pkgs.isEmpty then all else pkgs
      if names.isEmpty then .error "nothing to install" else .ok (installCommand names)

/-! ### Machines and baselines -/

/-- A row of `machine_facts`: what was collected from the output of the script, when the host was
logged into by `method`, or only the error of a collection. -/
inductive Row
  | failed
  | collected (out method : String)

/-- The facts of a row; those that could not be collected count as none. -/
def Row.machine : Row → Machine
  | .failed => {}
  | .collected out method => collect out method

/-- A host, its row if it has one, and what the script would print now. -/
structure Host where
  id : String
  record : Record
  stored : Option Row
  output : Except String String

/-- `Get`, which collects when there is no row. -/
def Host.row (h : Host) : Except String Row :=
  match h.stored with
  | some row => .ok row
  | none => h.output.map (.collected · h.record.method)

/-- The facts that `List` has of a host. -/
def Host.listed (h : Host) : Machine := (h.stored.map Row.machine).getD {}

/-- The cell of a rule in the row of a host: the status of the check of that id. -/
def Host.cell (h : Host) (rule : String) : CheckStatus :=
  ((h.listed.checks.filter (·.id = rule)).getLast?.map (·.status)).getD .unknown

/-- The rule fails. -/
def Host.fails (h : Host) (rule : String) : Bool := h.cell rule = .bad || h.cell rule = .warn

/-- A baseline: rules, and the hosts that they are asked of. -/
structure Baseline where
  id : String
  rules : List String
  hostIDs : List String

/-- The hosts and the baselines of an installation. -/
structure Fleet where
  hosts : List Host
  baselines : List Baseline

/-- A command that a request runs on a machine, for a rule and with the facts that it has read. -/
structure Run where
  host : Host
  machine : Machine
  rule : String
  cmd : String

namespace Fleet

/-- The host of an id. -/
def host (s : Fleet) (hostID : String) : Option Host := s.hosts.find? (·.id = hostID)

/-- `Get` of the host store. -/
def get (s : Fleet) (idOrName : String) : Option Host :=
  s.hosts.find? fun h => h.id = idOrName || h.record.name = idOrName

/-- The baseline of an id. -/
def baseline (s : Fleet) (id : String) : Option Baseline := s.baselines.find? (·.id = id)

/-- `Fix`: the command that its job runs. -/
def fix (s : Fleet) (hostID checkID : String) : Except String Run :=
  match s.get hostID with
  | none => .error "host not found"
  | some h =>
    match h.row with
    | .error err => .error err
    | .ok row =>
      if checkID = "security-updates" then
        (install row.machine [] true).map fun cmd => ⟨h, row.machine, checkID, cmd⟩
      else
        let (cmd, _) := fixCommand checkID row.machine
        if cmd = "" then .error "Dockhand can't fix that check automatically"
        else .ok ⟨h, row.machine, checkID, cmd⟩

/-- The rules that a baseline fixes on a host: of its cells, in some order, those that fail and have
a command. -/
def rulesToFix (h : Host) (b : Baseline) : List String :=
  if h.record.status = .offline || h.record.status = .pending then []
  else
    b.rules.dedup.filter fun rule =>
      h.fails rule && ((fixCommand rule {}).1 ≠ "" || rule = "security-updates")

/-- The tasks of `ApplyBaseline`, up to their order. -/
def tasks (s : Fleet) (b : Baseline) : List (Host × String) :=
  (b.hostIDs.filterMap s.host).flatMap fun h => (rulesToFix h b).map (h, ·)

/-- A task: the command that it runs, if any. -/
def runTask (t : Host × String) : Option Run :=
  match t.1.row with
  | .error _ => none
  | .ok row =>
    let m := row.machine
    let cmd :=
      if t.2 = "security-updates" then
        if m.securityNames.isEmpty then "" else installCommand m.securityNames
      else (fixCommand t.2 m).1
    if cmd = "" then none else some ⟨t.1, m, t.2, cmd⟩

/-- `ApplyBaseline`: the commands that its job runs, whether or not the ones before fail. -/
def applyBaseline (s : Fleet) (id : String) : Except String (List Run) :=
  match s.baseline id with
  | none => .error "not found"
  | some b =>
    if (s.tasks b).isEmpty then
      .error "nothing to fix — every machine already matches this baseline"
    else .ok ((s.tasks b).filterMap runTask)

end Fleet

/-- What a user asks for: one fix on a host, or all fixes of a baseline. -/
inductive Request
  | fix (hostID checkID : String)
  | applyBaseline (id : String)

/-- The commands that a request runs. -/
def Fleet.runs (s : Fleet) : Request → List Run
  | .fix hostID checkID => (s.fix hostID checkID).toOption.toList
  | .applyBaseline id => ((s.applyBaseline id).toOption).getD []

end Dockhand.Machines
