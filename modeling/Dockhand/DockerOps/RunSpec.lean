import Dockhand.Data.ShellWords
import Dockhand.DeployCheck.Conflicts
import Dockhand.DockerOps.Config
import Dockhand.Stacks.Row

/-!
# Running a container

`BuildRunSpec` makes of a run request what Docker is given to create the container, and
`DockerRunCommand` renders it as a `docker run` line for the preview. Ports are read and taken apart
by the `nat` package.
-/

namespace Dockhand.DockerOps

open Go
open Dockhand.DeployCheck (PortPair validDockerName)
open Dockhand.Stacks (shq)

/-- A port, or the ports from `a` to `b`. -/
def rangeText (a b : ℕ) : String := if a = b then a.repr else a.repr ++ "-" ++ b.repr

/-- What is called of `nat`: `NewPort` with a protocol and a port or a range of ports, and the parts
of the port it makes. -/
structure PortPackage where
  newPort : String → String → Option String
  port : String → String
  proto : String → String
  int : String → ℤ
  port_newPort : ∀ proto' s p, newPort proto' s = some p →
    ∃ a b, a ≤ b ∧ b ≤ 65535 ∧ port p = rangeText a b
  /-- The protocol is `tcp` where none is given. -/
  proto_newPort : ∀ proto' s p, newPort proto' s = some p → proto p ≠ ""

/-- An entry of `Volumes`: the two sides of a row of the form. -/
structure VolumePair where
  src : String
  dst : String

/-- `RunContainerInput`. -/
structure RunContainerInput where
  image : String
  name : String := ""
  restart : String := ""
  ports : List PortPair := []
  volumes : List VolumePair := []
  /-- Names and values. -/
  env : List (String × String) := []
  network : String := ""
  traefik : Bool := false

/-- What `BuildRunSpec` refuses. -/
inductive BadRequest where
  /-- `image is required` -/
  | imageRequired
  /-- `invalid container name %q` -/
  | invalidName (name : String)
  /-- `restart must be no, always, unless-stopped or on-failure` -/
  | invalidRestart
  /-- `invalid container port %q` -/
  | invalidPort (container : String)
  /-- `volume target %q must be an absolute path` -/
  | relativeTarget (dst : String)
  /-- `a container name is required for traefik labels` -/
  | nameRequired

/-- `RunSpec`. The networking configuration is always empty. -/
structure RunSpec where
  name : String
  config : Config
  hostConfig : HostConfig

/-! ### The request -/

section

variable (nat : PortPackage)

/-- The exposed ports and their bindings. -/
structure PortMaps where
  exposed : Dict String Unit := ∅
  bindings : Dict String (List PortBinding) := ∅

/-- The port that a row exposes: `none` for a row without one, and an error where it cannot be read.
-/
def exposedPort (container : String) : Except BadRequest (Option String) :=
  let cp := trimSpace container
  if cp = "" then .ok none
  else
    let (cp, proto) := (cut cp "/").getD (cp, "tcp")
    match nat.newPort proto cp with
    | none => .error (.invalidPort container)
    | some port => .ok (some port)

/-- The address and the port that a host field asks for. -/
def hostBinding (host : String) : PortBinding :=
  let hp := trimSpace host
  match cutLast hp ':' with
  | some (hostIP, hp) => ⟨hostIP, hp⟩
  | none => ⟨"", hp⟩

/-- The loop over the port rows. -/
def portStep (m : PortMaps) (p : PortPair) : Except BadRequest PortMaps := do
  match ← exposedPort nat p.container with
  | none => return m
  | some port =>
    let exposed := m.exposed.set port ()
    let b := hostBinding p.host
    if b.hostPort ≠ "" then
      return ⟨exposed, m.bindings.set port ((m.bindings.get? port).getD [] ++ [b])⟩
    else return ⟨exposed, m.bindings⟩

/-- The loop over the volumes. -/
def bindStep (binds : List String) (v : VolumePair) : Except BadRequest (List String) :=
  let src := trimSpace v.src
  let dst := trimSpace v.dst
  if src = "" ∨ dst = "" then .ok binds
  else if ¬ hasPrefix dst "/" then .error (.relativeTarget dst)
  else .ok (binds ++ [src ++ ":" ++ dst])

/-- The variables of a container. -/
def envOf (env : List (String × String)) : List String :=
  env.filterMap fun kv => let k := trimSpace kv.1; if k ≠ "" then some (k ++ "=" ++ kv.2) else none

/-- The network mode: the default one has no name. -/
def networkModeOf (network : String) : String :=
  let netName := trimSpace network
  if netName ≠ "" ∧ netName ≠ "bridge" ∧ netName ≠ "default" then netName else ""

/-- `BuildRunSpec`. -/
def buildRunSpec (i : RunContainerInput) (domain : String) : Except BadRequest RunSpec := do
  let image := trimSpace i.image
  let name := trimSpace i.name
  if image = "" then throw .imageRequired
  if name ≠ "" ∧ ¬ validDockerName name then throw (.invalidName name)
  let restart ←
    if i.restart = "" ∨ i.restart = "no" then pure ""
    else if i.restart ∈ ["always", "unless-stopped", "on-failure"] then pure i.restart
    else throw .invalidRestart
  let ports ← i.ports.foldlM (portStep nat) {}
  let binds ← i.volumes.foldlM bindStep []
  let labels : Dict String String := (∅ : Dict String String).set "dockhand.managed" "true"
  let labels ←
    if i.traefik then
      if name = "" then throw .nameRequired
      else
        pure ((labels.set "traefik.enable" "true").set ("traefik.http.routers." ++ name ++ ".rule")
          ("Host(`" ++ name ++ "." ++ domain ++ "`)"))
    else pure labels
  return {
    name := name
    config :=
      { image := image, labels := labels, exposedPorts := ports.exposed, env := envOf i.env }
    hostConfig :=
      { restartPolicy := { name := restart }, portBindings := ports.bindings, binds := binds
        networkMode := networkModeOf i.network } }

/-! ### The command -/

/-- `shellArg` quotes a word only where the shell would take it for something else. -/
def shellArg (s : String) : String :=
  if s = "" then "''"
  else if s.toList.all fun c => c.isAlphanum || c ∈ "-_./:=@,+%".toList then s
  else shq s

/-- The order of the ports: by number, then by protocol. -/
def sortPorts (ports : List String) : List String :=
  ports.mergeSort fun a b =>
    if nat.int a ≠ nat.int b then nat.int a < nat.int b else nat.proto a ≤ nat.proto b

/-- The container side of a port. -/
def containerSide (p : String) : String :=
  if nat.proto p ≠ "tcp" then nat.port p ++ "/" ++ nat.proto p else nat.port p

/-- The host side of a binding. -/
def hostSide (b : PortBinding) : String :=
  if b.hostIP ≠ "" then b.hostIP ++ ":" ++ b.hostPort else b.hostPort

/-- The bindings of a port. -/
def HostConfig.bindingsOf (hc : HostConfig) (p : String) : List PortBinding :=
  (hc.portBindings.get? p).getD []

/-- The flags of a port. -/
def portFlags (hc : HostConfig) (p : String) : List (String × String) :=
  if hc.bindingsOf p = [] then [("--expose", containerSide nat p)]
  else (hc.bindingsOf p).map fun b => ("-p", hostSide b ++ ":" ++ containerSide nat p)

/-- The flags of the command, each with its value. `ports` are the exposed ports in the order in
which a loop over the map visits them. -/
def runFlags (spec : RunSpec) (ports : List String) : List (String × String) :=
  let hc := spec.hostConfig
  (if spec.name ≠ "" then [("--name", spec.name)] else []) ++
  (if hc.restartPolicy.name ≠ "" ∧ hc.restartPolicy.name ≠ "no" then
    [("--restart", hc.restartPolicy.name)]
  else []) ++
  (if hc.networkMode ≠ "" then [("--network", hc.networkMode)] else []) ++
  (sortPorts nat ports).flatMap (portFlags nat hc) ++
  hc.binds.map (("-v", ·)) ++
  spec.config.env.map (("-e", ·)) ++
  spec.config.labels.entries.map fun e => ("--label", e.1 ++ "=" ++ e.2)

/-- The words of the command: the flags with their values, and the image behind them. -/
def runArgs (spec : RunSpec) (ports : List String) : List String :=
  ["docker", "run", "-d"] ++ (runFlags nat spec ports).flatMap (fun f => [f.1, f.2]) ++
    [spec.config.image]

/-- `DockerRunCommand`. -/
def dockerRunCommand (spec : RunSpec) (ports : List String) : String :=
  " ".intercalate ((runArgs nat spec ports).map shellArg)

end

end Dockhand.DockerOps
