import Dockhand.Go.Dict
import Dockhand.Go.Strings

/-!
# The create request of a recreated container

`Recreate` replaces a container by a copy. From what `docker inspect` reports it computes the
request that creates the copy: the container configuration without the values that came from
the old image, the host configuration with the requested restart policy, and the networks, the
first of them in the request and the rest to be connected afterwards.

* `dropImageDefaults` is the part of the pull branch that compares the configuration with the
  old image's, field by field.
* `configFor` and `hostConfigFor` are the configuration and the host configuration that
  `Recreate` submits.
* `pickNetworks` chooses the network of the create request in one walk over the endpoints.
  `pickNetworks_perm` says that the chosen one and the rest are the old container's networks.

The options that `Recreate` copies without reading them are not part of the records here.
-/

namespace Dockhand.DockerOps

open Go

/-! ### What `docker inspect` reports -/

/-- `container.HealthConfig`, with durations in nanoseconds. -/
structure HealthConfig where
  test : List String := []
  interval : ℤ := 0
  timeout : ℤ := 0
  startPeriod : ℤ := 0
  startInterval : ℤ := 0
  retries : ℤ := 0
  deriving DecidableEq

/-- `container.Config`. -/
structure Config where
  hostname : String := ""
  user : String := ""
  exposedPorts : Dict String Unit := ∅
  env : List String := []
  cmd : List String := []
  healthcheck : Option HealthConfig := none
  image : String := ""
  volumes : Dict String Unit := ∅
  workingDir : String := ""
  entrypoint : List String := []
  labels : Dict String String := ∅
  deriving DecidableEq

/-- The configuration of an image. -/
structure ImageConfig where
  user : String := ""
  exposedPorts : Dict String Unit := ∅
  env : List String := []
  cmd : List String := []
  healthcheck : Option HealthConfig := none
  volumes : Dict String Unit := ∅
  workingDir : String := ""
  entrypoint : List String := []
  labels : Dict String String := ∅
  deriving DecidableEq

/-- `container.RestartPolicy`. -/
structure RestartPolicy where
  name : String := ""
  maximumRetryCount : ℤ := 0
  deriving DecidableEq

/-- `nat.PortBinding`. -/
structure PortBinding where
  hostIP : String
  hostPort : String
  deriving DecidableEq

/-- `mount.Mount`. -/
structure Mount where
  type : String
  source : String := ""
  target : String
  readOnly : Bool := false
  deriving DecidableEq

/-- `container.HostConfig`. -/
structure HostConfig where
  binds : List String := []
  networkMode : String := "default"
  portBindings : Dict String (List PortBinding) := ∅
  restartPolicy : RestartPolicy := {}
  autoRemove : Bool := false
  volumesFrom : List String := []
  mounts : List Mount := []
  deriving DecidableEq

/-- `network.EndpointIPAMConfig`. -/
structure EndpointIPAMConfig where
  ipv4Address : String := ""
  ipv6Address : String := ""
  linkLocalIPs : List String := []
  deriving DecidableEq

/-- `network.EndpointSettings`. -/
structure EndpointSettings where
  ipamConfig : Option EndpointIPAMConfig := none
  links : List String := []
  aliases : List String := []
  driverOpts : Dict String String := ∅
  deriving DecidableEq

/-- The networks a container is attached to, in the order in which a `range` loop visits them.
Docker names every network. -/
structure Networks extends GoMap String EndpointSettings where
  named : ∀ n ∈ entries.map fun e => e.1, n ≠ ""

instance : EmptyCollection Networks :=
  ⟨⟨⟨[], List.nodup_nil⟩, fun _ h => (List.not_mem_nil h).elim⟩⟩

/-- The names of the networks. -/
def Networks.names (n : Networks) : List String := n.entries.map fun e => e.1

/-- `container.MountPoint`, a mount of an existing container. -/
structure MountPoint where
  type : String
  name : String := ""
  source : String := ""
  destination : String
  rw : Bool := true
  deriving DecidableEq

/-- `container.InspectResponse`. -/
structure InspectResponse where
  id : String
  name : String
  image : String := ""
  running : Bool
  config : Config
  hostConfig : HostConfig
  mounts : List MountPoint := []
  networkSettings : Option Networks := none

/-- `RecreateOpts`. -/
structure RecreateOpts where
  image : String := ""
  env : Option (List String) := none
  restartPolicy : String := ""
  pull : Bool := false
  deriving DecidableEq

/-- The options with which `UpdateContainer` calls `Recreate`. -/
def updateOpts : RecreateOpts := { pull := true }

/-! ### The configuration -/

/-- `subtract`: the entries of a list that are not among those to be removed. -/
def subtract (xs remove : List String) : List String := xs.filter (· ∉ remove)

/-- `equalStrings`, the comparison of two string slices element by element. -/
def equalStrings (a b : List String) : Bool :=
  a.length == b.length && (a.zip b).all fun p => p.1 == p.2

theorem equalStrings_iff {a b : List String} : equalStrings a b = true ↔ a = b := by
  rw [equalStrings]
  induction a generalizing b with
  | nil => cases b <;> simp
  | cons x a ih =>
    cases b with
    | nil => simp
    | cons y b =>
      rw [List.cons.injEq, ← ih]
      simp only [List.length_cons, List.zip_cons_cons, List.all_cons, Bool.and_eq_true, beq_iff_eq,
        Nat.add_right_cancel_iff]
      tauto

/-- `if equalStrings(x, y) { x = nil }`. -/
def dropEqual (x y : List String) : List String := if equalStrings x y then [] else x

theorem dropEqual_eq (x y : List String) : dropEqual x y = if x = y then [] else x :=
  if_congr equalStrings_iff rfl rfl

/-- Drop the labels that have the image's value. -/
def dropLabels (labels image : Dict String String) : Dict String String :=
  image.entries.foldl (fun m e => if (m.get? e.1).getD "" = e.2 then m.del e.1 else m) labels

/-- Drop the image's ports, unless they are bound. -/
def dropPorts (bindings : Dict String (List PortBinding)) (ports image : Dict String Unit) :
    Dict String Unit :=
  image.entries.foldl (fun m e => if (bindings.get? e.1).isSome then m else m.del e.1) ports

/-- Drop the image's volumes. -/
def dropVolumes (volumes image : Dict String Unit) : Dict String Unit :=
  image.entries.foldl (fun m e => m.del e.1) volumes

/-- Drop a healthcheck with the image's test. -/
def dropHealthcheck : Option HealthConfig → Option HealthConfig → Option HealthConfig
  | some h, some o => if equalStrings h.test o.test then none else some h
  | h, _ => h

/-- Drop the values that came from the old image. -/
def dropImageDefaults (hc : HostConfig) (cfg : Config) (oldImg : ImageConfig) : Config where
  hostname := cfg.hostname
  user := if cfg.user = oldImg.user then "" else cfg.user
  exposedPorts := dropPorts hc.portBindings cfg.exposedPorts oldImg.exposedPorts
  env := subtract cfg.env oldImg.env
  cmd := dropEqual cfg.cmd oldImg.cmd
  healthcheck := dropHealthcheck cfg.healthcheck oldImg.healthcheck
  image := cfg.image
  volumes := dropVolumes cfg.volumes oldImg.volumes
  workingDir := if cfg.workingDir = oldImg.workingDir then "" else cfg.workingDir
  entrypoint := dropEqual cfg.entrypoint oldImg.entrypoint
  labels := dropLabels cfg.labels oldImg.labels

/-- `id[:12]`, the default hostname and network alias of a container. -/
def shortID (id : String) : String := String.ofList (id.toList.take 12)

/-- Clear a hostname defaulted to the container's identifier. -/
def clearHostname (id hostname : String) : String :=
  if 12 ≤ id.length ∧ hostname = shortID id then "" else hostname

/-- The image reference of the copy. -/
def imageFor (ins : InspectResponse) (opts : RecreateOpts) : String :=
  if opts.image = "" then ins.config.image else opts.image

/-- The configuration that `Recreate` submits. `oldImg` is what inspecting the old image after
the pull answered, `none` when that failed or the image has no configuration. -/
def configFor (ins : InspectResponse) (opts : RecreateOpts) (oldImg : Option ImageConfig) :
    Config :=
  let cfg := { ins.config with image := imageFor ins opts }
  let cfg := match opts.pull, oldImg with
    | true, some img => dropImageDefaults ins.hostConfig cfg img
    | _, _ => cfg
  { cfg with
    env := opts.env.getD cfg.env
    hostname := clearHostname ins.id cfg.hostname }

/-- The host configuration that `Recreate` submits. -/
def hostConfigFor (ins : InspectResponse) (opts : RecreateOpts) : HostConfig :=
  if opts.restartPolicy = "" then ins.hostConfig
  else { ins.hostConfig with
    restartPolicy := ⟨opts.restartPolicy, if opts.restartPolicy = "on-failure" then 5 else 0⟩ }

/-! ### The networks -/

/-- `filterAliases` leaves out the alias that Docker gives a container itself, its short id. -/
def filterAliases (a : List String) (id : String) : List String :=
  a.filter fun x => ¬ (12 ≤ id.length ∧ x = shortID id)

/-- The endpoints of the copy. -/
def endpointsFor (ins : InspectResponse) : List (String × EndpointSettings) :=
  match ins.networkSettings with
  | none => []
  | some n => n.entries.map fun e => (e.1, { e.2 with aliases := filterAliases e.2.aliases ins.id })

/-- Whether a container in this network mode may get a network at create time. -/
def picksNetwork (mode : String) : Bool :=
  ¬ hasPrefix mode "container:" ∧ mode ≠ "host" ∧ mode ≠ "none"

/-- One turn of the loop over the endpoints, with `firstNet` and `extra`. -/
def pickNetwork (mode : String) (p : String × List String) (n : String) : String × List String :=
  let firstNet := if p.1 = "" ∧ picksNetwork mode then n else p.1
  (firstNet, if n ≠ firstNet then p.2 ++ [n] else p.2)

/-- `firstNet` and `extra` after the loop. -/
def pickNetworks (mode : String) (names : List String) : String × List String :=
  names.foldl (pickNetwork mode) (if mode ∈ names then mode else "", [])

/-- The loop with a network chosen. -/
theorem foldl_pickNetwork {mode f : String} (hf : f ≠ "") (ex names : List String) :
    names.foldl (pickNetwork mode) (f, ex) = (f, ex ++ names.filter (· ≠ f)) := by
  induction names generalizing ex with
  | nil => simp
  | cons n names ih =>
    have hstep : pickNetwork mode (f, ex) n = (f, if n ≠ f then ex ++ [n] else ex) := by
      rw [pickNetwork, if_neg fun h => hf h.1]
    rw [List.foldl_cons, hstep, ih]
    by_cases hn : n = f <;> simp [hn]

/-- The loop in a mode that picks none. -/
theorem foldl_pickNetwork_none {mode : String} (hmode : picksNetwork mode = false)
    (ex : List String) {names : List String} (hnames : ∀ n ∈ names, n ≠ "") :
    names.foldl (pickNetwork mode) ("", ex) = ("", ex ++ names) := by
  induction names generalizing ex with
  | nil => simp
  | cons n names ih =>
    have hstep : pickNetwork mode ("", ex) n = ("", ex ++ [n]) := by
      have hn : n ≠ "" := hnames n List.mem_cons_self
      simp [pickNetwork, hmode, hn]
    rw [List.foldl_cons, hstep, ih _ fun m hm => hnames m (List.mem_cons_of_mem _ hm),
      List.append_assoc, List.singleton_append]

/-- With no network chosen there was none to choose, or the mode picks none. -/
theorem pickNetworks_eq_empty {mode : String} {names : List String}
    (hnames : ∀ n ∈ names, n ≠ "") (h : (pickNetworks mode names).1 = "") :
    mode ∉ names ∧ (names = [] ∨ picksNetwork mode = false) := by
  rw [pickNetworks] at h
  by_cases hmem : mode ∈ names
  · rw [if_pos hmem, foldl_pickNetwork (hnames mode hmem)] at h
    exact absurd h (hnames mode hmem)
  · refine ⟨hmem, ?_⟩
    rw [if_neg hmem] at h
    cases names with
    | nil => exact .inl rfl
    | cons n names =>
      by_contra hnot
      have hpick : picksNetwork mode = true := by simpa using hnot
      have hn : n ≠ "" := hnames n List.mem_cons_self
      have hstep : pickNetwork mode ("", []) n = (n, []) := by simp [pickNetwork, hpick]
      rw [List.foldl_cons, hstep, foldl_pickNetwork hn] at h
      exact hn h

/-- The network of the create request, if there is one. -/
def firstNets (firstNet : String) : List String := if firstNet = "" then [] else [firstNet]

/-- **No network is lost and none is doubled.** -/
theorem pickNetworks_perm (mode : String) {names : List String} (hnodup : names.Nodup)
    (hnames : ∀ n ∈ names, n ≠ "") :
    (firstNets (pickNetworks mode names).1 ++ (pickNetworks mode names).2).Perm names := by
  have hchosen : ∀ {f : String} {l : List String}, f ≠ "" → f ∈ l → l.Nodup →
      (firstNets f ++ l.filter (· ≠ f)).Perm l := fun {f l} hf hmem hl => by
    rw [firstNets, if_neg hf, List.singleton_append]
    have hfilter : l.filter (· ≠ f) = l.erase f := by
      rw [hl.erase_eq_filter]
      exact List.filter_congr fun n _ => by simp [bne, beq_eq_decide]
    rw [hfilter]
    exact (List.perm_cons_erase hmem).symm
  rw [pickNetworks]
  by_cases hmem : mode ∈ names
  · rw [if_pos hmem, foldl_pickNetwork (hnames mode hmem), List.nil_append]
    exact hchosen (hnames mode hmem) hmem hnodup
  · rw [if_neg hmem]
    by_cases hmode : picksNetwork mode = true
    · cases names with
      | nil => rfl
      | cons n names =>
        have hn : n ≠ "" := hnames n List.mem_cons_self
        have hstep : pickNetwork mode ("", []) n = (n, []) := by simp [pickNetwork, hmode]
        have hrest : (n :: names).filter (· ≠ n) = names.filter (· ≠ n) := by simp
        rw [List.foldl_cons, hstep, foldl_pickNetwork hn, List.nil_append, ← hrest]
        exact hchosen hn List.mem_cons_self hnodup
    · rw [foldl_pickNetwork_none (by simpa using hmode) [] hnames]
      rfl

/-! ### The request -/

/-- The create request: the arguments of `ContainerCreate`. -/
structure CreateRequest where
  name : String
  config : Config
  hostConfig : HostConfig
  endpointsConfig : List (String × EndpointSettings)

/-- The networks that the create request names. -/
def CreateRequest.networks (req : CreateRequest) : List String :=
  req.endpointsConfig.map fun e => e.1

/-- What `Recreate` asks for: the create request, and the networks to connect after it. -/
def requestFor (ins : InspectResponse) (opts : RecreateOpts) (oldImg : Option ImageConfig) :
    CreateRequest × List (String × EndpointSettings) :=
  let endpoints := endpointsFor ins
  let endpoint := fun n => (n, (endpoints.lookup n).getD {})
  let picked := pickNetworks ins.hostConfig.networkMode (endpoints.map fun e => e.1)
  (⟨trimPrefix ins.name "/", configFor ins opts oldImg, hostConfigFor ins opts,
      (firstNets picked.1).map endpoint⟩, picked.2.map endpoint)

/-- The names of the networks of the old container. -/
def networksOf (ins : InspectResponse) : List String :=
  ins.networkSettings.elim [] Networks.names

theorem endpointsFor_names (ins : InspectResponse) :
    (endpointsFor ins).map (fun e => e.1) = networksOf ins := by
  rw [endpointsFor, networksOf]
  cases ins.networkSettings with
  | none => rfl
  | some n => simp [Networks.names, Function.comp_def]

theorem networksOf_nodup (ins : InspectResponse) : (networksOf ins).Nodup := by
  rw [networksOf]
  cases ins.networkSettings with
  | none => exact List.nodup_nil
  | some n => exact n.nodup

theorem networksOf_ne_empty (ins : InspectResponse) : ∀ n ∈ networksOf ins, n ≠ "" := by
  rw [networksOf]
  cases ins.networkSettings with
  | none => exact fun _ h => (List.not_mem_nil h).elim
  | some n => exact n.named

/-- The request and the connections name each network of the old container once. -/
theorem requestFor_networks (ins : InspectResponse) (opts : RecreateOpts)
    (oldImg : Option ImageConfig) :
    ((requestFor ins opts oldImg).1.networks ++
      (requestFor ins opts oldImg).2.map fun e => e.1).Perm (networksOf ins) := by
  have hperm := pickNetworks_perm ins.hostConfig.networkMode (networksOf_nodup ins)
    (networksOf_ne_empty ins)
  simpa [requestFor, CreateRequest.networks, endpointsFor_names, Function.comp_def] using hperm

end Dockhand.DockerOps
