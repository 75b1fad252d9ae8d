import Mathlib.Data.String.Basic
import Dockhand.Machines.Fixes

/-!
# The impact of updates

Before updates are installed, `patchImpact` says what they will disturb. Package names carry most of
the answer: the longest prefix that a table knows, or else a running unit of that name. The preview
and the installation choose the packages each in its own way, and the severity is made from two of
the effects only. `rehearses_iff` says for which requests the preview is right.
-/

namespace Dockhand.Machines

open Go

/-! ### Effects -/

/-- What an update disturbs, from a restart of all containers down to nothing. -/
inductive Kind where
  | docker | reboot | services | ssh | none
  deriving DecidableEq

/-- `effect`: what the update of a package does to the machine, and the words for it. -/
structure Effect where
  kind : Kind
  detail : String
  deriving DecidableEq

/-- `rules` maps a package name to what installing it disturbs. -/
def effectRules : List (String × Effect) :=
  [("linux-image", ⟨.reboot, "new kernel — takes effect after a reboot"⟩),
    ("linux-headers", ⟨.none, "kernel headers — nothing restarts"⟩),
    ("linux-modules", ⟨.reboot, "kernel modules — takes effect after a reboot"⟩),
    ("linux-generic", ⟨.reboot, "new kernel — takes effect after a reboot"⟩),
    ("linux-firmware", ⟨.reboot, "firmware — takes effect after a reboot"⟩),
    ("docker-ce-cli", ⟨.none, "the docker command only — containers keep running"⟩),
    ("docker-compose-plugin", ⟨.none, "compose plugin — containers keep running"⟩),
    ("docker-buildx-plugin", ⟨.none, "buildx plugin — containers keep running"⟩),
    ("docker-ce", ⟨.docker, "restarts the Docker daemon"⟩),
    ("docker.io", ⟨.docker, "restarts the Docker daemon"⟩),
    ("containerd", ⟨.docker, "restarts containerd under Docker"⟩),
    ("runc", ⟨.docker, "container runtime — Docker restarts"⟩),
    ("systemd", ⟨.reboot, "init system — a reboot is the safe way to finish"⟩),
    ("libc6", ⟨.services, "core C library — most services restart"⟩),
    ("libssl", ⟨.services, "TLS library — services using it restart"⟩),
    ("openssl", ⟨.services, "TLS library — services using it restart"⟩),
    ("zlib1g", ⟨.services, "compression library — services using it restart"⟩),
    ("openssh-server", ⟨.ssh, "restarts sshd (open sessions survive)"⟩),
    ("dbus", ⟨.reboot, "system bus — a reboot is the safe way to finish"⟩)]

section Classify

variable (units : String → Bool)

/-- `serviceFor` guesses the unit a package manages, when the machine runs one by that name. -/
def serviceFor (pkg : String) : String :=
  let base := ["-server", "-core", "-common", "-bin", "-data"].foldl trimSuffix pkg
  (([pkg, base, (cutChar base '-').1].find? fun cand => cand ≠ "" && units cand)).getD ""

/-- The longest prefix of the table wins. -/
def classify (pkg : String) : Effect × String :=
  let (best, bestLen) := effectRules.foldl
    (fun (best, bestLen) (p, effect) =>
      if hasPrefix pkg p && bestLen < p.length then (effect, p.length) else (best, bestLen))
    (⟨.none, ""⟩, 0)
  if 0 < bestLen then (best, "")
  else
    let svc := serviceFor units pkg
    if svc ≠ "" then (⟨.services, "restarts " ++ svc⟩, svc)
    else (⟨.none, "no service restart expected"⟩, "")

end Classify

/-! ### The preview -/

/-- A unit of the machine, and the state in which `systemd` has it. -/
structure Service where
  name : String
  active : String

/-- A machine as the preview reads it. -/
structure Patched where
  name : String
  facts : Machine
  services : List Service
  pending : List String

/-- A request: the names of packages, none of them for all, and whether security updates alone
count. -/
structure Selection where
  names : List String
  securityOnly : Bool

/-- A unit of this name is running. -/
def Patched.units (t : Patched) (name : String) : Bool :=
  t.services.any fun sv => sv.active = "running" && sv.name = name

/-- The packages that the loop of `PatchImpact` does not pass over. -/
def counted (t : Patched) (r : Selection) : List Package :=
  t.facts.packages.filter fun p =>
    (r.names = [] || r.names.contains p.name) && (!r.securityOnly || p.security)

/-- `PatchPackage`: a line of the rehearsal. -/
structure PatchPackage where
  name : String
  effect : Kind
  detail : String
  service : String

/-- How a finding is shown. -/
inductive Severity where
  | info | warn | crit
  deriving DecidableEq

/-- What the loop collects. -/
structure Found where
  packages : ℕ := 0
  security : ℕ := 0
  docker : Bool := false
  reboot : Bool := false
  services : List String := []
  details : List PatchPackage := []

/-- The body of the loop. -/
def foundStep (units : String → Bool) (f : Found) (p : Package) : Found :=
  let (e, svc) := classify units p.name
  { packages := f.packages + 1
    security := if p.security then f.security + 1 else f.security
    docker := f.docker || e.kind = .docker
    reboot := f.reboot || e.kind = .reboot
    services :=
      if e.kind = .services && svc ≠ "" && !f.services.contains svc then f.services ++
        [svc] else f.services
    details :=
      if e.kind ≠ .none then f.details ++ [⟨p.name, e.kind, e.detail, svc⟩] else f.details }

/-- What the loop over the packages of the selection finds. -/
def found (t : Patched) (r : Selection) : Found := (counted t r).foldl (foundStep t.units) {}

/-- The order in which the packages are listed, the gravest effect first. -/
def rank : Kind → ℕ
  | .docker => 0
  | .reboot => 1
  | .services => 2
  | .ssh => 3
  | .none => 4

/-- `PatchImpact`; a container stands for an item of the host's blast radius. -/
structure Impact (ι : Type) where
  packages : ℕ
  security : ℕ
  docker : Bool
  reboot : Bool
  services : List String
  pending : List String
  containers : List ι
  details : List PatchPackage
  severity : Severity

/-- `plural`: the ending of a noun for so many things. -/
def plural (n : ℕ) : String := if n = 1 then "" else "s"

section Preview

variable {ι : Type}

/-- `PatchImpact` predicts what installing packages would restart. The blast radius of the host, if
it is known, says which containers stop. -/
def patchImpact (stops : Option (List ι)) (t : Patched) (r : Selection) : Impact ι :=
  let f := found t r
  let services := f.services.mergeSort (· ≤ ·)
  let reboot := f.reboot || t.facts.reboot
  { packages := f.packages
    security := f.security
    docker := f.docker
    reboot := reboot
    services := services
    pending := t.pending
    containers := if f.docker then stops.getD [] else []
    details := f.details.mergeSort fun a b =>
      rank a.effect < rank b.effect || (rank a.effect = rank b.effect && a.name ≤ b.name)
    severity := if f.docker then .crit else if reboot || !services.isEmpty then .warn else .info }

/-- The parts of the summary behind the number of updates. -/
def summaryParts (p : Impact ι) : List String :=
  (if p.docker then
    ["Docker restarts — " ++ toString p.containers.length ++ " container" ++
      plural p.containers.length ++
      " stop briefly"] else []) ++
  (if p.services.isEmpty then [] else ["restarts " ++ ", ".intercalate p.services]) ++
  (if p.reboot then ["a reboot is needed to finish"] else [])

/-- `patchSummary` -/
def patchSummary (p : Impact ι) (host : String) : String :=
  if p.packages = 0 then "Nothing selected."
  else
    let updates := toString p.packages ++ " update" ++ plural p.packages ++ " on " ++ host
    if summaryParts p = [] then updates ++ " — nothing should restart."
    else " · ".intercalate (updates :: summaryParts p) ++ "."

end Preview

/-! ### The installation -/

/-- The packages that `Install` upgrades. -/
def installNames (m : Machine) (r : Selection) : Except String (List String) :=
  if m.pkgManager ≠ "apt" then
    .error ("Dockhand can only install updates on apt-based machines (Debian, Ubuntu, " ++
      "Raspberry Pi OS)")
  else
    let all := m.packages.map (·.name)
    match if r.securityOnly then none else r.names.find? fun p => !all.contains p with
    | some p => .error (p ++ " isn't in the list of pending updates — run apt update first")
    | none =>
      let names :=
        if r.securityOnly then m.securityNames else if r.names.isEmpty then all else r.names
      if names.isEmpty then .error "nothing to install" else .ok names

theorem install_eq (m : Machine) (r : Selection) :
    install m r.names r.securityOnly = (installNames m r).map installCommand := by
  rw [install, installNames]
  split
  · rfl
  · dsimp only
    generalize (if r.securityOnly = true then none
      else r.names.find? fun p => !(m.packages.map (·.name)).contains p) = invalid
    cases invalid with
    | some p => rfl
    | none =>
      dsimp only
      generalize (if r.securityOnly = true then m.securityNames
        else if r.names.isEmpty = true then m.packages.map (·.name) else r.names) = names
      split <;> rfl

/-! ### What the preview is for -/

/-- The effect of a package on a machine. -/
def kindOf (t : Patched) (p : Package) : Kind := (classify t.units p.name).1.kind

/-- The unit that a package restarts, if any. -/
def unitOf (t : Patched) (p : Package) : String := (classify t.units p.name).2

/-- The severities in their order. -/
def Severity.level : Severity → ℕ
  | .info => 0
  | .warn => 1
  | .crit => 2

/-- The summary says that nothing should restart. -/
def saysNothing {ι : Type} (p : Impact ι) (host : String) : Prop :=
  patchSummary p host =
    toString p.packages ++ " update" ++ plural p.packages ++ " on " ++ host ++
      " — nothing should restart."

/-- The preview of a request whose installation upgrades the packages of some names. -/
structure Previews {ι : Type} (stops : Option (List ι)) (t : Patched) (r : Selection)
    (names : List String) :
    Prop where
  /-- It counts the packages that are upgraded. -/
  counts : (patchImpact stops t r).packages = (counted t r).length ∧
    ∀ name, name ∈ (counted t r).map (·.name) ↔ name ∈ names
  /-- It keeps quiet only when nothing restarts. -/
  quiet : (patchImpact stops t r).severity = .info ∨ saysNothing (patchImpact stops t r) t.name →
    (∀ p ∈ counted t r, kindOf t p = .none) ∧ t.facts.reboot = false
  /-- A request for more packages has no less of an impact. -/
  grows : ∀ r', counted t r ⊆ counted t r' →
    (∀ svc ∈ (patchImpact stops t r).services, svc ∈ (patchImpact stops t r').services) ∧
    ((patchImpact stops t r).docker = true → (patchImpact stops t r').docker = true) ∧
    ((patchImpact stops t r).reboot = true → (patchImpact stops t r').reboot = true) ∧
    (patchImpact stops t r).severity.level ≤ (patchImpact stops t r').severity.level

/-! ### What the loop finds -/

section Found

variable (t : Patched)

private theorem foundStep_spec (f : Found) (p : Package) :
    (foundStep t.units f p).packages = f.packages + 1 ∧
    ((foundStep t.units f p).docker = true ↔ f.docker = true ∨ kindOf t p = .docker) ∧
    ((foundStep t.units f p).reboot = true ↔ f.reboot = true ∨ kindOf t p = .reboot) ∧
    ∀ svc, svc ∈ (foundStep t.units f p).services ↔
      svc ∈ f.services ∨ (kindOf t p = .services ∧ unitOf t p = svc ∧ svc ≠ "") := by
  rcases hclass : classify t.units p.name with ⟨e, unit⟩
  simp only [foundStep, kindOf, unitOf, hclass]
  refine ⟨trivial, by simp, by simp, fun svc => ?_⟩
  split_ifs with hadd
  · simp only [Bool.and_eq_true, decide_eq_true_eq] at hadd
    rw [List.mem_append, List.mem_singleton]
    constructor
    · rintro (h | rfl)
      · exact Or.inl h
      · exact Or.inr ⟨hadd.1.1, rfl, hadd.1.2⟩
    · rintro (h | ⟨-, rfl, -⟩)
      · exact Or.inl h
      · exact Or.inr rfl
  · refine ⟨Or.inl, ?_⟩
    rintro (h | ⟨hkind, rfl, hne⟩)
    · exact h
    · by_contra hmem
      exact hadd (by simp [hkind, hne, hmem])

private theorem foldl_foundStep (l : List Package) (f : Found) :
    (l.foldl (foundStep t.units) f).packages = f.packages + l.length ∧
    ((l.foldl (foundStep t.units) f).docker = true ↔ f.docker = true ∨
      ∃ p ∈ l, kindOf t p = .docker) ∧
    ((l.foldl (foundStep t.units) f).reboot = true ↔ f.reboot = true ∨
      ∃ p ∈ l, kindOf t p = .reboot) ∧
    ∀ svc, svc ∈ (l.foldl (foundStep t.units) f).services ↔
      svc ∈ f.services ∨ ∃ p ∈ l, kindOf t p = .services ∧ unitOf t p = svc ∧ svc ≠ "" := by
  induction l generalizing f with
  | nil => simp
  | cons p l ih =>
    obtain ⟨hpackages, hdocker, hreboot, hservices⟩ := ih (foundStep t.units f p)
    have hstep := foundStep_spec t f p
    refine ⟨?_, ?_, ?_, fun svc => ?_⟩
    · rw [List.foldl_cons, hpackages, hstep.1, List.length_cons]
      omega
    · rw [List.foldl_cons, hdocker, hstep.2.1, List.exists_mem_cons_iff, or_assoc]
    · rw [List.foldl_cons, hreboot, hstep.2.2.1, List.exists_mem_cons_iff, or_assoc]
    · rw [List.foldl_cons, hservices, hstep.2.2.2, List.exists_mem_cons_iff, or_assoc]

end Found

section Preview

variable {ι : Type} (stops : Option (List ι)) (t : Patched) (r : Selection)

private theorem packages_eq : (patchImpact stops t r).packages = (counted t r).length := by
  have h := (foldl_foundStep t (counted t r) {}).1
  rwa [Nat.zero_add] at h

private theorem docker_iff : (patchImpact stops t r).docker = true ↔
    ∃ p ∈ counted t r, kindOf t p = .docker := by
  have h := (foldl_foundStep t (counted t r) {}).2.1
  have hdocker : (patchImpact stops t r).docker = (found t r).docker := rfl
  rw [hdocker, found, h]
  simp

private theorem reboot_iff : (patchImpact stops t r).reboot = true ↔
    (∃ p ∈ counted t r, kindOf t p = .reboot) ∨ t.facts.reboot = true := by
  have h := (foldl_foundStep t (counted t r) {}).2.2.1
  rw [patchImpact, Bool.or_eq_true, found, h]
  simp

private theorem mem_services {svc : String} : svc ∈ (patchImpact stops t r).services ↔
    ∃ p ∈ counted t r, kindOf t p = .services ∧ unitOf t p = svc ∧ svc ≠ "" := by
  have h := (foldl_foundStep t (counted t r) {}).2.2.2 svc
  rw [patchImpact, List.mem_mergeSort, found, h]
  simp

private theorem severity_eq : (patchImpact stops t r).severity =
    if (patchImpact stops t r).docker then .crit
    else if (patchImpact stops t r).reboot || !(patchImpact stops t r).services.isEmpty then .warn
    else .info := rfl

/-- The package restarts Docker or a unit, or needs a reboot. -/
def Loud (p : Package) : Prop :=
  kindOf t p = .docker ∨ kindOf t p = .reboot ∨ (kindOf t p = .services ∧ unitOf t p ≠ "")

private theorem severity_info_iff : (patchImpact stops t r).severity = .info ↔
    (∀ p ∈ counted t r, ¬ Loud t p) ∧ t.facts.reboot = false := by
  have hservices : (patchImpact stops t r).services = [] ↔
      ∀ p ∈ counted t r, ¬ (kindOf t p = .services ∧ unitOf t p ≠ "") := by
    rw [List.eq_nil_iff_forall_not_mem]
    simp only [mem_services]
    constructor
    · exact fun h p hp hunit => h (unitOf t p) ⟨p, hp, hunit.1, rfl, hunit.2⟩
    · rintro h svc ⟨p, hp, hkind, rfl, hne⟩
      exact h p hp ⟨hkind, hne⟩
  have hreboot := reboot_iff stops t r
  rw [severity_eq]
  split_ifs with hdocker hwarn
  · obtain ⟨p, hp, hkind⟩ := (docker_iff stops t r).mp hdocker
    exact iff_of_false (by decide) fun h => h.1 p hp (Or.inl hkind)
  · refine iff_of_false (by decide) fun h => ?_
    rw [Bool.or_eq_true, hreboot] at hwarn
    rcases hwarn with (⟨p, hp, hkind⟩ | hpending) | hunit
    · exact h.1 p hp (Or.inr (Or.inl hkind))
    · exact absurd (h.2.symm.trans hpending) (by decide)
    · have hempty := hservices.mpr fun p hp hunit' => h.1 p hp (Or.inr (Or.inr hunit'))
      simp [hempty] at hunit
  · rw [Bool.or_eq_true, hreboot] at hwarn
    push Not at hwarn
    have hempty : (patchImpact stops t r).services = [] := by simpa using hwarn.2
    refine iff_of_true rfl ⟨fun p hp => ?_, by simpa using hwarn.1.2⟩
    rintro (hkind | hkind | hunit)
    · exact hdocker ((docker_iff stops t r).mpr ⟨p, hp, hkind⟩)
    · exact hwarn.1.1 p hp hkind
    · exact hservices.mp hempty p hp hunit

/-- The summary keeps quiet only when the severity does. -/
theorem info_of_saysNothing (h : saysNothing (patchImpact stops t r) t.name) :
    (patchImpact stops t r).severity = .info := by
  have hparts : summaryParts (patchImpact stops t r) = [] := by
    by_contra hne
    rw [saysNothing, patchSummary] at h
    split_ifs at h with hpackages
    · rw [hpackages] at h
      have hhead := congrArg (fun s => s.toList.head?) h
      simp at hhead
    · obtain ⟨part, rest, hparts⟩ := List.exists_cons_of_ne_nil hne
      have hlist := congrArg String.toList h
      rw [hparts] at hlist
      simp only [String.toList_append, String.toList_intercalate, List.map_cons,
        List.intercalate_cons_cons, List.append_assoc, List.append_cancel_left_eq] at hlist
      simp at hlist
  rw [summaryParts, List.append_eq_nil_iff, List.append_eq_nil_iff] at hparts
  obtain ⟨⟨hdocker, hservices⟩, hreboot⟩ := hparts
  rw [severity_eq]
  split_ifs at hdocker hservices hreboot with hd hs hr
  simp [hd, hs, hr]

/-- More packages have no less of an impact. -/
theorem impact_mono {r r' : Selection} (h : counted t r ⊆ counted t r') :
    (∀ svc ∈ (patchImpact stops t r).services, svc ∈ (patchImpact stops t r').services) ∧
    ((patchImpact stops t r).docker = true → (patchImpact stops t r').docker = true) ∧
    ((patchImpact stops t r).reboot = true → (patchImpact stops t r').reboot = true) ∧
    (patchImpact stops t r).severity.level ≤ (patchImpact stops t r').severity.level := by
  have hservices : ∀ svc ∈ (patchImpact stops t r).services,
      svc ∈ (patchImpact stops t r').services := by
    intro svc hsvc
    obtain ⟨p, hp, hunit⟩ := (mem_services stops t r).mp hsvc
    exact (mem_services stops t r').mpr ⟨p, h hp, hunit⟩
  have hdocker : (patchImpact stops t r).docker = true → (patchImpact stops t r').docker =
      true := by
    rw [docker_iff, docker_iff]
    rintro ⟨p, hp, hkind⟩
    exact ⟨p, h hp, hkind⟩
  have hreboot : (patchImpact stops t r).reboot = true → (patchImpact stops t r').reboot =
      true := by
    rw [reboot_iff, reboot_iff]
    rintro (⟨p, hp, hkind⟩ | hpending)
    · exact Or.inl ⟨p, h hp, hkind⟩
    · exact Or.inr hpending
  have hwarn : ((patchImpact stops t r).reboot || !(patchImpact stops t r).services.isEmpty) =
    true →
      ((patchImpact stops t r').reboot || !(patchImpact stops t r').services.isEmpty) = true := by
    rw [Bool.or_eq_true, Bool.or_eq_true]
    refine Or.imp hreboot fun hunit => ?_
    obtain ⟨svc, hsvc⟩ :=
      List.exists_mem_of_ne_nil (patchImpact stops t r).services (by simpa using hunit)
    simpa using List.ne_nil_of_mem (hservices svc hsvc)
  have hlevel : ∀ d d' w w' : Bool, (d = true → d' = true) → (w = true → w' = true) →
      (if d then Severity.crit else if w then .warn else .info).level ≤
        (if d' then Severity.crit else if w' then .warn else .info).level := by decide
  exact ⟨hservices, hdocker, hreboot, hlevel _ _ _ _ hdocker hwarn⟩

end Preview

/-! ### When the preview is right -/

section Main

variable {t : Patched} {r : Selection} {names : List String}

private theorem installNames_ok (h : installNames t.facts r = .ok names) :
    (r.securityOnly = true → names = t.facts.securityNames) ∧
    (r.securityOnly = false → r.names = [] → names = t.facts.packages.map (·.name)) ∧
    (r.securityOnly = false → r.names ≠ [] → names = r.names ∧
      ∀ p ∈ r.names, p ∈ t.facts.packages.map (·.name)) := by
  rw [installNames] at h
  split at h
  · exact absurd h nofun
  · dsimp only at h
    generalize hchosen : (if r.securityOnly = true then t.facts.securityNames
      else if r.names.isEmpty = true then t.facts.packages.map (·.name) else r.names) = chosen at h
    split at h
    · exact absurd h nofun
    · rename_i hfind
      split at h
      · exact absurd h nofun
      · obtain rfl := Except.ok.inj h
        rw [← hchosen]
        refine ⟨fun hsec => if_pos hsec, fun hsec hnil => by simp [hsec, hnil], fun hsec hne => ?_⟩
        refine ⟨by simp [hsec, hne], fun p hp => ?_⟩
        rw [if_neg (by simp [hsec])] at hfind
        simpa using List.find?_eq_none.mp hfind p hp

/-- The preview counts what is installed unless names are given that security updates leave aside.
-/
theorem counts_iff (h : installNames t.facts r = .ok names) :
    (∀ name, name ∈ (counted t r).map (·.name) ↔ name ∈ names) ↔
      (r.securityOnly = true → r.names ≠ [] →
        ∀ p ∈ t.facts.packages, p.security = true → p.name ∈ r.names) := by
  obtain ⟨hsec, hall, hnamed⟩ := installNames_ok h
  have hmem : ∀ name, name ∈ (counted t r).map (·.name) ↔ ∃ p ∈ t.facts.packages,
      (r.names = [] ∨ p.name ∈ r.names) ∧ (r.securityOnly = true → p.security = true) ∧
        p.name = name := by
    intro name
    rw [List.mem_map]
    constructor
    · rintro ⟨p, hp, rfl⟩
      obtain ⟨hp, hkeep⟩ := List.mem_filter.mp hp
      simp only [Bool.and_eq_true, Bool.or_eq_true, decide_eq_true_eq, List.contains_iff_mem,
        Bool.not_eq_true'] at hkeep
      refine ⟨p, hp, hkeep.1, fun hs => ?_, rfl⟩
      exact hkeep.2.resolve_left (by simp [hs])
    · rintro ⟨p, hp, hname, hsecurity, rfl⟩
      refine ⟨p, List.mem_filter.mpr ⟨hp, ?_⟩, rfl⟩
      simp only [Bool.and_eq_true, Bool.or_eq_true, decide_eq_true_eq, List.contains_iff_mem,
        Bool.not_eq_true']
      refine ⟨hname, ?_⟩
      cases hs : r.securityOnly with
      | false => exact Or.inl rfl
      | true => exact Or.inr (hsecurity hs)
  simp only [hmem]
  cases hs : r.securityOnly with
  | false =>
    refine iff_of_true (fun name => ?_) (fun h => absurd h Bool.false_ne_true)
    by_cases hnil : r.names = []
    · rw [hall hs hnil, List.mem_map]
      simp [hnil]
    · obtain ⟨rfl, hvalid⟩ := hnamed hs hnil
      constructor
      · rintro ⟨p, -, hname, -, rfl⟩
        exact hname.resolve_left hnil
      · intro hname
        obtain ⟨p, hp, rfl⟩ := List.mem_map.mp (hvalid name hname)
        exact ⟨p, hp, Or.inr hname, fun h => absurd h Bool.false_ne_true, rfl⟩
  | true =>
    rw [hsec hs]
    have hsecurity : ∀ name, name ∈ t.facts.securityNames ↔
        ∃ p ∈ t.facts.packages, p.security = true ∧ p.name = name := fun name => by
      rw [Machine.securityNames, List.mem_map]
      simp only [List.mem_filter, and_assoc]
    simp only [hsecurity, true_imp_iff]
    constructor
    · intro hiff hne p hp hpsec
      obtain ⟨q, -, hname, -, hq⟩ := (hiff p.name).mpr ⟨p, hp, hpsec, rfl⟩
      exact hq ▸ hname.resolve_left hne
    · intro hnames name
      constructor
      · rintro ⟨p, hp, -, hpsec, rfl⟩
        exact ⟨p, hp, hpsec, rfl⟩
      · rintro ⟨p, hp, hpsec, rfl⟩
        refine ⟨p, hp, ?_, hpsec, rfl⟩
        by_cases hnil : r.names = []
        · exact Or.inl hnil
        · exact Or.inr (hnames hnil p hp hpsec)

/-- **Preview and installation.** The preview of a request that is taken is right when, for security
updates, no names are given or all security updates are among them, and when a package that restarts
sshd, or services that cannot be named, comes with one that restarts Docker or a unit or needs a
reboot, or with a reboot that is pending. -/
theorem rehearses_iff {ι : Type} (stops : Option (List ι))
    (h : installNames t.facts r = .ok names) :
    Previews stops t r names ↔
      (r.securityOnly = true → r.names ≠ [] →
        ∀ p ∈ t.facts.packages, p.security = true → p.name ∈ r.names) ∧
        ((∀ p ∈ counted t r, ¬ Loud t p) → t.facts.reboot = false →
          ∀ p ∈ counted t r, kindOf t p = .none) := by
  constructor
  · intro hp
    refine ⟨(counts_iff h).mp hp.counts.2, fun hloud hreboot => ?_⟩
    exact (hp.quiet (Or.inl ((severity_info_iff stops t r).mpr ⟨hloud, hreboot⟩))).1
  · rintro ⟨hnames, hquiet⟩
    refine ⟨⟨packages_eq stops t r, (counts_iff h).mpr hnames⟩, fun hsays => ?_,
      fun r' hr' => impact_mono stops t hr'⟩
    have hinfo := hsays.elim id (info_of_saysNothing stops t r)
    obtain ⟨hloud, hreboot⟩ := (severity_info_iff stops t r).mp hinfo
    exact ⟨hquiet hloud hreboot, hreboot⟩

end Main

/-- A machine with an update of nginx, which it runs. -/
def nginxHost : Patched :=
  ⟨"web", { pkgManager := "apt", packages := [⟨"nginx", false⟩] }, [⟨"nginx", "running"⟩], []⟩

/-- One package is picked, and it is a service that runs. -/
theorem previews_nginx : installNames nginxHost.facts ⟨["nginx"], false⟩ = .ok ["nginx"] ∧
    Previews (none : Option (List String)) nginxHost ⟨["nginx"], false⟩ ["nginx"] := by
  have hok : installNames nginxHost.facts ⟨["nginx"], false⟩ = .ok ["nginx"] := by decide +kernel
  refine ⟨hok, (rehearses_iff none hok).mpr ⟨fun h => absurd h Bool.false_ne_true, fun h => ?_⟩⟩
  have hcounted : counted nginxHost ⟨["nginx"], false⟩ = [⟨"nginx", false⟩] := rfl
  refine absurd (h ⟨"nginx", false⟩ (by simp [hcounted])) (not_not.mpr (Or.inr (Or.inr ?_)))
  decide +kernel

/-- The preview of an update of sshd says that nothing should restart. -/
theorem sshd_quiet : ¬ ∀ (t : Patched) (r : Selection) (names : List String),
    installNames t.facts r = .ok names → Previews (none : Option (List String)) t r names := by
  intro h
  let t : Patched :=
    ⟨"web", { pkgManager := "apt", packages := [⟨"openssh-server", true⟩] }, [], []⟩
  have hp := h t ⟨[], false⟩ ["openssh-server"] (by decide +kernel)
  have hnone :=
    (hp.quiet (Or.inl (by decide +kernel))).1 ⟨"openssh-server", true⟩ List.mem_cons_self
  revert hnone
  decide +kernel

end Dockhand.Machines
