import Dockhand.Go.Dict
import Dockhand.Go.Strconv
import Dockhand.Go.Strings

/-!
# The facts of a machine

A machine prints its facts with one script, whose output is cut into sections. `parse` reads what
the fixes and the checks need of it, and `checks` judges it: each hardening check has a status, and
a `fix` that is empty when Dockhand has none to offer.
-/

namespace Dockhand.Machines

open Go

/-! ### The sections of the output -/

/-- A line of the output, with the name of the section it is in. -/
def sectionStep (st : String × Dict String (List String)) (line : String) :
    String × Dict String (List String) :=
  let (cur, res) := st
  let l := trimRight line "\r"
  if hasPrefix l "@@" then (trimSpace (trimPrefix l "@@"), res)
  else if cur ≠ "" && trimSpace l ≠ "" then (cur, res.set cur ((res.get? cur).getD [] ++ [l]))
  else (cur, res)

/-- `sections` splits what the script prints at its marks, and keeps the lines under the name of the
mark before them. -/
def sections (out : String) : Dict String (List String) :=
  ((splitChar out '\n').foldl sectionStep ("", ∅)).2

/-- The lines of a section. -/
def linesOf (out name : String) : List String := ((sections out).get? name).getD []

/-- The first line without the spaces around it, empty where there is none. -/
def first (lines : List String) : String := (lines.head?.map trimSpace).getD ""

/-! ### What the facts are -/

/-- A pending update. -/
structure Package where
  name : String
  security : Bool

/-- A listening socket; `isPublic` when it is not bound to a loopback address. -/
structure Port where
  port : ℤ
  address : String
  process : String
  isPublic : Bool

/-- The results of a check; an unknown one says that the facts do not tell. -/
inductive CheckStatus
  | ok | bad | warn | unknown
  deriving DecidableEq

/-- A hardening check. -/
structure Check where
  id : String
  group : String
  title : String
  sub : String
  status : CheckStatus
  fix : String := ""
  fixNote : String := ""
  fixRisky : Bool := false

/-- The facts of a machine, as far as a check or a fix reads them. -/
structure Machine where
  pkgManager : String := ""
  reboot : Bool := false
  packages : List Package := []
  ports : List Port := []
  checks : List Check := []

/-- The number of security updates. -/
def Machine.security (m : Machine) : ℕ := m.packages.countP (·.security)

/-- A line of `apt-get -s dist-upgrade`, such as
`Inst libc6 [2.35-0ubuntu3.6] (2.35-0ubuntu3.8 Ubuntu:22.04/jammy-security [amd64])`. -/
def parsePackage (l : String) : Option Package :=
  match fields l with
  | _ :: name :: f :: fs =>
    let rest := " ".intercalate (f :: fs)
    let rest :=
      match cut rest "]" with
      | some (cur, after) => if hasPrefix cur "[" then trimSpace after else rest
      | none => rest
    let low := toLower (trimSuffix (trimSpace (trimPrefix rest "(")) ")")
    some {
      name
      security := contains low "-security" || contains low "security]" || contains low "esm-apps" ||
        contains low "esm-infra" }
  | _ => none

/-- The process of a line of `ss`, or of `netstat`. -/
def processOf (l : String) (f : List String) : String :=
  let process :=
    match cut l "users:((\"" with
    | some (_, rest) =>
      match cut rest "\"" with
      | some (name, _) => name
      | none => ""
    | none =>
      if f.length ≥ 7 then ((cut (f.getLastD "") "/").map Prod.snd).getD "" else ""
  trimSuffix (trimSpace process) ":"

/-- A line of `ss -Hltnp`, such as
`LISTEN 0 4096 0.0.0.0:22 0.0.0.0:* users:(("sshd",pid=812,fd=3))`, or of `netstat`. -/
def parsePort (l : String) : Option Port :=
  let f := fields l
  if f.length < 4 then none
  else
    (cutLast (f.getD 3 "") ':').bind fun (addr, digits) =>
      (atoi digits).map fun port =>
        let host := trim addr "[]"
        { port
          address := host
          process := processOf l f
          isPublic := !(host = "127.0.0.1" || host = "::1" || hasPrefix host "127.") }

/-- The ports, without a second one of the same port and process. -/
def parsePorts (lines : List String) : List Port :=
  (lines.filterMap parsePort).foldl
    (fun ports p =>
      if ports.any fun q => q.port = p.port && q.process = p.process then ports else ports ++ [p])
    []

/-- The facts in the output; the checks come later. -/
def parse (out : String) : Machine where
  pkgManager := first (linesOf out "pkgmgr")
  reboot := first (linesOf out "reboot") = "yes"
  packages := (linesOf out "upgradable").filterMap parsePackage
  ports := parsePorts (linesOf out "ports")

/-! ### What the checks look at -/

/-- A setting of sshd; the first line that names it wins. -/
def sshdStep (vals : Dict String String) (l : String) : Dict String String :=
  match fields (replaceChar (trimPrefix (trimSpace (trimSuffix l ";")) "#") '=' ' ') with
  | k :: v :: _ =>
    if (vals.get? (toLower k)).isSome then vals else vals.set (toLower k) (toLower v)
  | _ => vals

/-- What `sshd -T` reports, by the lowered name of the option. -/
def sshdValues (out : String) : Dict String String := (linesOf out "sshd").foldl sshdStep ∅

/-- A line of the firewall section: whether a firewall is active and whether ufw is installed. -/
def firewallStep (st : Bool × Bool) (l : String) : Bool × Bool :=
  let (active, ufw) := st
  let t := trimSpace l
  let low := toLower t
  if hasPrefix low "status:" then (active || contains low "active", true)
  else if low = "running" then (true, ufw)
  else if contains low "hook input" && contains low "policy drop" then (true, ufw)
  else if hasPrefix t "-P INPUT" then (active || contains t "DROP" || contains t "REJECT", ufw)
  else if hasPrefix t "-A INPUT" then
    if !contains t "DOCKER" && !contains t "docker0" && !contains t "br-" then (true, ufw)
    else (active, ufw)
  else (active, ufw)

/-- `firewallActive`: whether inbound traffic is filtered, and whether `ufw` is the tool that says
so. -/
def firewallActive (out : String) : Bool × Bool :=
  (linesOf out "firewall").foldl firewallStep (false, false)

/-- Both lines are there: a timer that is enabled, and the setting that lets the upgrades run. -/
def unattendedOn (out : String) : Bool :=
  let lines := (linesOf out "unattended").map trimSpace
  (lines.any fun t => t = "enabled" || t = "static") &&
    lines.any fun t => contains t "Unattended-Upgrade" && contains t "\"1\""

/-- The service reports that it is active. -/
def fail2banOn (out : String) : Bool := first (linesOf out "fail2ban") = "active"

/-- Root may not log in, or not with a password. -/
def rootRestricted (root : String) : Bool :=
  root = "no" || root = "prohibit-password" || root = "without-password" ||
    root = "forced-commands-only"

/-! ### The checks -/

/-- The status of a check that holds or not, or that cannot be decided. -/
def statusOf (ok unknown warn : Bool) : CheckStatus :=
  if unknown then .unknown else if ok then .ok else if warn then .warn else .bad

/-- The check of password logins; a host that Dockhand itself reaches by a password offers no fix.
-/
def sshPasswordCheck (out hostMethod : String) : Check :=
  let pw := (sshdValues out).get? "passwordauthentication"
  let pwOff := pw = some "no"
  { id := "ssh-password"
    group := "ssh"
    title := "SSH password login disabled"
    sub :=
      if hostMethod = "password" && !pwOff then
        "Passwords are accepted — Dockhand connects to this host with a password, so turning it " ++
          "off would lock Dockhand out"
      else if pw.isNone then "Couldn't read the SSH server's config"
      else if pwOff then "Keys only"
      else "Passwords are accepted — keys only is safer"
    status := statusOf pwOff pw.isNone false
    fix := if pwOff || hostMethod = "password" then "" else "ssh-password"
    fixNote :=
      "Writes PasswordAuthentication no to /etc/ssh/sshd_config.d/99-dockhand.conf and reloads " ++
        "sshd. Make sure your key works first — you could lock yourself out."
    fixRisky := true }

/-- The check of the login as root, which keys alone may be left open to. -/
def sshRootCheck (out : String) : Check :=
  let root := (sshdValues out).get? "permitrootlogin"
  let rootOK := rootRestricted (root.getD "")
  { id := "ssh-root"
    group := "ssh"
    title := "Root SSH login restricted"
    sub :=
      if root.isNone then "Couldn't read the SSH server's config"
      else if rootOK then "PermitRootLogin " ++ root.getD ""
      else "Root can log in with a password"
    status := statusOf rootOK root.isNone false
    fix := if rootOK then "" else "ssh-root"
    fixNote := "Sets PermitRootLogin prohibit-password (keys still work) and reloads sshd."
    fixRisky := true }

/-- The check of the firewall, with the fix where `ufw` is there to be switched on. -/
def firewallCheck (out : String) : Check :=
  let (fwActive, ufw) := firewallActive out
  { id := "firewall"
    group := "network"
    title := "Firewall active"
    sub :=
      if fwActive then "Filtering inbound traffic"
      else "No firewall rules found (Docker's own rules don't count)"
    status := statusOf fwActive false (!fwActive && !ufw)
    fix := if fwActive || !ufw then "" else "firewall"
    fixNote :=
      "Runs ufw allow OpenSSH, then ufw --force enable. Anything else you expose must be " ++
        "allowed separately."
    fixRisky := true }

/-- The check of unattended upgrades, which only machines with `apt` can have. -/
def autoUpdatesCheck (out : String) (m : Machine) : Check :=
  let auto := unattendedOn out
  { id := "auto-updates"
    group := "updates"
    title := "Automatic security updates"
    sub :=
      if m.pkgManager ≠ "apt" then "Only available on apt machines"
      else if auto then "unattended-upgrades is on"
      else "Security patches are not installed automatically"
    status := statusOf auto (m.pkgManager ≠ "apt") false
    fix := if auto || m.pkgManager ≠ "apt" then "" else "auto-updates"
    fixNote := "Installs unattended-upgrades and enables daily security updates." }

/-- The check of pending security updates, which counts the packages of the list. -/
def securityUpdatesCheck (m : Machine) : Check where
  id := "security-updates"
  group := "updates"
  title := "No pending security updates"
  sub :=
    if m.pkgManager ≠ "apt" then "Only available on apt machines"
    else if m.security = 0 then "Up to date"
    else toString m.security ++ " security update(s) waiting"
  status := statusOf (m.security = 0) (m.pkgManager ≠ "apt") false
  fix := if m.security = 0 || m.pkgManager ≠ "apt" then "" else "security-updates"
  fixNote := "Installs the pending security updates now."

/-- The check whether the machine waits for a reboot. -/
def rebootCheck (m : Machine) : Check where
  id := "reboot"
  group := "updates"
  title := "No reboot pending"
  sub :=
    if m.reboot then "A reboot is needed to finish an update"
    else "Running the latest kernel and libraries"
  status := statusOf (!m.reboot) false m.reboot
  fix := if m.reboot then "reboot" else ""
  fixNote := "Reboots the machine. Its containers restart with it."
  fixRisky := true

/-- The check of `fail2ban`. -/
def fail2banCheck (out : String) (m : Machine) : Check :=
  let f2b := fail2banOn out
  { id := "fail2ban"
    group := "ssh"
    title := "Brute-force protection"
    sub := if f2b then "fail2ban is running" else "fail2ban isn't running"
    status := statusOf f2b false (!f2b)
    fix := if f2b || m.pkgManager ≠ "apt" then "" else "fail2ban"
    fixNote := "Installs and starts fail2ban with its default SSH jail." }

/-- The check of the ports that are bound to addresses of the network, by their number. -/
def exposedPortsCheck (m : Machine) : Check :=
  let pubKeys := m.ports.countP (·.isPublic)
  { id := "exposed-ports"
    group := "network"
    title := "Exposed services reviewed"
    sub :=
      if m.ports.isEmpty then "Couldn't read the listening ports"
      else toString pubKeys ++ " port(s) listening on all interfaces"
    status := statusOf (pubKeys ≤ 3) m.ports.isEmpty (pubKeys > 3) }

/-- The checks of a machine; `hostMethod` is how Dockhand logs in. -/
def checks (out : String) (m : Machine) (hostMethod : String) : List Check :=
  [sshPasswordCheck out hostMethod, sshRootCheck out, firewallCheck out, autoUpdatesCheck out m,
    securityUpdatesCheck m, rebootCheck m, fail2banCheck out m, exposedPortsCheck m]

/-- What `Collect` makes of the output of the script. -/
def collect (out hostMethod : String) : Machine :=
  { parse out with checks := checks out (parse out) hostMethod }

end Dockhand.Machines
