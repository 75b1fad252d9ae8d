import Dockhand.DeployCheck.Ports
import Dockhand.Data.Probing
import Dockhand.Go.Dict

/-!
# Conflicts with what a host reports

`conflictIssues` of `deploycheck/check.go`, with the suggestions it makes, and what a deploy form
does with them (`applyFix` of `ImageFlow.tsx`). The ports of a Compose file are a parameter: they
come out of a YAML parser.

Ports of other containers are compared with their protocol, those of the container that is replaced
without it, and a suggestion avoids only the former.
-/

namespace Dockhand.DeployCheck

open Go

/-! ### Names and ports to suggest -/

/-- `dockerNameRe`. -/
def validDockerName (s : String) : Bool :=
  match s.toList with
  | [] => false
  | c :: cs => c.isAlphanum && cs.all fun c => c.isAlphanum || c ∈ ['_', '.', '-']

/-- The name with a number. -/
def numbered (base : String) (i : ℕ) : String := base ++ "-" ++ i.repr

/-- The loop of `NextFreeName` from `i` on, cut off after `fuel` rounds. -/
def nextFreeNameFrom (base : String) (taken : List String) : ℕ → ℕ → String
  | 0, i => numbered base i
  | fuel + 1, i =>
    if numbered base i ∈ taken then nextFreeNameFrom base taken fuel (i + 1) else numbered base i

/-- `NextFreeName`. A round for each name that is taken is enough. -/
def nextFreeName (base : String) (taken : List String) : String :=
  nextFreeNameFrom base taken taken.length 2

/-- `NextFreePort`. -/
def nextFreePort (n : ℕ) (taken : Finset ℕ) : ℕ :=
  ((List.range' (n + 1) (65535 - n)).find? (· ∉ taken)).getD 0

/-! ### Issues -/

/-- How an issue counts: a critical one stops the deploy, a warning does not. -/
inductive Severity where
  | crit | warn
  deriving DecidableEq

/-- One host port is replaced by another. -/
structure PortPatch where
  fromPort : String
  toPort : String
  deriving DecidableEq

/-- The form values that a fix applies; a name that is empty stays. -/
structure DeployPatch where
  name : String := ""
  ports : List PortPatch := []
  deriving DecidableEq

/-- `DeployFix`: a button of an issue, and the form values that it applies. -/
structure DeployFix where
  label : String
  patch : DeployPatch
  deriving DecidableEq

/-- `DeployIssue`: what a check found about a field of the form, with the fix that it offers. -/
structure DeployIssue where
  field : String
  severity : Severity
  text : String
  fix : Option DeployFix := none
  deriving DecidableEq

/-! ### Forms and hosts -/

/-- What is deployed. -/
inductive Kind where
  | git | image | compose
  deriving DecidableEq

/-- `DeployCheckInput`: the values of the form that the preflight looks at. -/
structure DeployCheckInput where
  kind : Kind
  name : String
  path : String := ""
  ports : List PortPair := []
  env : List (String × String) := []
  composeFile : String := ""

/-- The part of a container that the checks need. -/
structure CtrInfo where
  name : String
  stack : String := ""
  workDir : String := ""
  ports : List HostPort := []

/-- What stands at the path. -/
inductive PathKind where
  | absent | empty | nonempty | file
  deriving DecidableEq

/-- What was learned from the host. What is not known is empty: with no containers and no stacks no
name is taken. -/
structure HostFacts where
  containers : List CtrInfo := []
  stackPaths : Dict String String := ∅
  listening : Finset ℕ := ∅
  pathKind : PathKind := .absent
  pathKnown : Bool := false

/-! ### Requested ports -/

section

variable (lower : String → String) (composeHostPorts : String → Dict String String → List HostPort)

/-- The ports whose port and protocol come for the first time, after those in `seen`. -/
def firsts : List (ℕ × String) → List HostPort → List HostPort
  | _, [] => []
  | seen, p :: ps => if p.key ∈ seen then firsts seen ps else p :: firsts (p.key :: seen) ps

/-- `requestedPorts`. -/
def requestedPorts (i : DeployCheckInput) : List HostPort :=
  let all := formHostPorts lower i.ports
  let all :=
    if i.kind ≠ .image ∧ trimSpace i.composeFile ≠ "" then
      all ++ composeHostPorts i.composeFile
        (i.env.foldl (fun env kv => env.set (trimSpace kv.1) kv.2) ∅)
    else all
  firsts [] all

end

/-! ### Conflicts -/

/-- `sameDeploy`: the container belongs to what is deployed. -/
def sameDeploy (i : DeployCheckInput) (c : CtrInfo) : Bool :=
  if i.kind = .image then c.name = i.name else c.stack = i.name

/-- The names that are taken for a kind of deployment. -/
def takenNames (kind : Kind) (f : HostFacts) : List String :=
  if kind = .image then f.containers.map CtrInfo.name
  else f.stackPaths.entries.map Prod.fst ++ (f.containers.map CtrInfo.stack).filter (· ≠ "")

/-- The name part of `conflictIssues`. -/
def nameConflict (i : DeployCheckInput) (hostName : String) (f : HostFacts) : List DeployIssue :=
  if i.name ≠ "" ∧ validDockerName i.name ∧ i.name ∈ takenNames i.kind f then
    let n := nextFreeName i.name (takenNames i.kind f)
    let fix : DeployFix := { label := "Rename to " ++ n, patch := { name := n } }
    if i.kind = .image then
      [{ field := "Name", severity := .crit,
         text := "a container named " ++ i.name ++ " already exists on " ++ hostName, fix := fix }]
    else
      [{ field := "Name", severity := .warn,
         text := "a stack named " ++ i.name ++ " already exists on " ++ hostName ++
           " — it will be updated in place", fix := fix }]
  else []

section

variable (own : CtrInfo → Bool) (hostName : String) (f : HostFacts)

/-- The ports that containers of other deployments publish. -/
def othersPorts : List HostPort := (f.containers.filter (!own ·)).flatMap CtrInfo.ports

/-- The ports that the containers of the deployment publish, whatever the protocol. -/
def ownPorts : List ℕ := ((f.containers.filter own).flatMap CtrInfo.ports).map HostPort.port

/-- `owner`: the first container of another deployment that publishes a port. -/
def owner (key : ℕ × String) : Option String :=
  ((f.containers.filter (!own ·)).find? fun c => c.ports.any (·.key = key)).map CtrInfo.name

/-- What is said about a port, nothing when there is no conflict. -/
def conflictText (p : HostPort) : String :=
  match owner own f p.key with
  | some c => "already used by " ++ c ++ " on " ++ hostName
  | none =>
    if p.proto = "tcp" ∧ p.port ∈ f.listening ∧ p.port ∉ ownPorts own f then "in use on the host"
      else ""

/-- The ports that a suggestion avoids. -/
def takenPorts (req : List HostPort) : Finset ℕ :=
  ((othersPorts own f).map HostPort.port).toFinset ∪ f.listening ∪ (req.map HostPort.port).toFinset

/-- The issue about a port. -/
def portIssue (p : HostPort) (fix : Option DeployFix) : DeployIssue :=
  { field := "Port " ++ p.port.repr, severity := .crit, text := conflictText own hostName f p
    fix := fix }

/-- The fix that puts one port in the place of another. -/
def portFix (p : HostPort) (free : ℕ) : DeployFix :=
  { label := "Use " ++ free.repr, patch := { ports := [⟨p.port.repr, free.repr⟩] } }

/-- The loop over the requested ports: the issues, each with the port it is about. -/
def portIssues : Finset ℕ → List HostPort → List (HostPort × DeployIssue)
  | _, [] => []
  | taken, p :: req =>
    if conflictText own hostName f p = "" then portIssues taken req
    else if p.range then (p, portIssue own hostName f p none) :: portIssues taken req
    else
      let free := nextFreePort p.port taken
      if free > 0 then
        (p, portIssue own hostName f p (portFix p free)) :: portIssues (insert free taken) req
      else (p, portIssue own hostName f p none) :: portIssues taken req

/-- The port part of `conflictIssues`. -/
def portConflicts (req : List HostPort) : List (HostPort × DeployIssue) :=
  portIssues own hostName f (takenPorts own f req) req

end

/-- `isOwnDir`. -/
def isOwnDir (name dir : String) (f : HostFacts) : Bool :=
  (match f.stackPaths.get? name with
    | some p => pathClean p = dir
    | none => false) ||
    f.containers.any fun c => c.stack = name && c.workDir ≠ "" && pathClean c.workDir = dir

/-- The path part of `conflictIssues`. -/
def pathConflict (i : DeployCheckInput) (f : HostFacts) : List DeployIssue :=
  if f.pathKnown ∧ i.kind ≠ .image ∧ i.path ≠ "" then
    let dir := pathClean i.path
    match f.pathKind with
    | .file =>
      [{ field := "Path", severity := .crit, text := dir ++ " exists and is not a directory" }]
    | .nonempty =>
      if isOwnDir i.name dir f then []
      else [{ field := "Path", severity := .warn,
              text := "directory exists and is not empty — files will be overwritten" }]
    | .absent | .empty => []
  else []

section

variable (lower : String → String) (composeHostPorts : String → Dict String String → List HostPort)
  (hostName : String) (f : HostFacts)

/-- `conflictIssues`. -/
def conflictIssues (i : DeployCheckInput) : List DeployIssue :=
  nameConflict i hostName f ++
    (portConflicts (sameDeploy i) hostName f (requestedPorts lower composeHostPorts i)).map
      Prod.snd ++
    pathConflict i f

end

/-! ### Taking the suggestions -/

/-- The white space of `String.prototype.trim`. -/
def isJsSpace (c : Char) : Bool :=
  c ∈ ['\t', '\n', '\x0b', '\x0c', '\r', ' ', '\u00a0', '\u1680', '\u2028', '\u2029', '\u202f',
    '\u205f', '\u3000', '\ufeff'] || ('\u2000' ≤ c && c ≤ '\u200a')

/-- `String.prototype.trim`. -/
def jsTrim (s : String) : String :=
  String.ofList ((s.toList.dropWhile isJsSpace).rdropWhile isJsSpace)

/-- A row after the port patches of a fix. -/
def patchRow (ports : List PortPatch) (r : PortPair) : PortPair :=
  match ports.find? fun x => x.fromPort = jsTrim r.host with
  | some m => { r with host := m.toPort }
  | none => r

/-- `applyFix` of the form. -/
def applyFix (i : DeployCheckInput) (fix : DeployFix) : DeployCheckInput :=
  { i with
    name := if fix.patch.name ≠ "" then fix.patch.name else i.name
    ports := i.ports.map (patchRow fix.patch.ports) }

/-- Every fix that the issues offer, one after another. -/
def applyFixes (i : DeployCheckInput) (issues : List DeployIssue) : DeployCheckInput :=
  (issues.filterMap DeployIssue.fix).foldl applyFix i

end Dockhand.DeployCheck
