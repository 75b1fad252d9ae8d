import Dockhand.DockerOps.Rollback
import Mathlib.Data.List.Nodup

/-!
# The storage and the networks of the copy

`Recreate` copies `HostConfig` and never reads `ins.Mounts`. So the copy gets the mounts that
the host configuration declares, and it does not get the volumes that Docker made up for a
container: an anonymous volume is replaced by a fresh one. `recreate_keeps_iff` says that the
copy keeps the storage and the networks of the old container if and only if the host
configuration declares all of its mounts. `declared_iff_covered` says what that means for a
container as Docker creates it: each of its declared volumes is covered by another mount.

The networks are always kept: the copy is attached to each network of the old container once,
by the create request or by a connection (`copy_networks`).
-/

namespace Dockhand.DockerOps

open Go Daemon

/-! ### Mounts -/

/-- What is mounted at a destination: a host path or the name of a volume, and whether it can be
written. -/
structure Binding where
  source : String
  destination : String
  rw : Bool
  deriving DecidableEq

/-- A mount of an existing container. -/
def MountPoint.binding (m : MountPoint) : Binding :=
  ⟨if m.type = "volume" then m.name else m.source, m.destination, m.rw⟩

/-- A host path is cleaned; the name of a volume is kept. -/
def bindSource (s : String) : String := if hasPrefix s "/" then pathClean s else s

/-- Docker's reading of an entry `source:destination[:options]` of `Binds`. An entry with a
destination alone asks for an anonymous volume. -/
def parseBind (b : String) : Option Binding :=
  match splitChar b ':' with
  | [source, destination] => some ⟨bindSource source, pathClean destination, true⟩
  | [source, destination, mode] =>
    some ⟨bindSource source, pathClean destination, "ro" ∉ splitChar mode ','⟩
  | _ => none

/-- What is bound for an entry of `Mounts`, which has the fields apart. -/
def Mount.binding (m : Mount) : Binding :=
  ⟨bindSource m.source, pathClean m.target, !m.readOnly⟩

/-- What a create request with this host configuration binds. `inherited` gives the mounts of the
container that an entry of `VolumesFrom` names. -/
def bindings (inherited : String → List Binding) (hc : HostConfig) : List Binding :=
  hc.binds.filterMap parseBind ++ hc.mounts.map Mount.binding ++ hc.volumesFrom.flatMap inherited

/-- The host configuration declares every mount of the container. -/
def Declared (inherited : String → List Binding) (ins : InspectResponse) : Prop :=
  ∀ m ∈ ins.mounts, m.binding ∈ bindings inherited ins.hostConfig

variable {inherited : String → List Binding} {ins : InspectResponse} {opts : RecreateOpts}

/-- The options of `Recreate` do not change what the host configuration binds. -/
theorem bindings_hostConfigFor :
    bindings inherited (hostConfigFor ins opts) = bindings inherited ins.hostConfig := by
  rw [hostConfigFor]
  split_ifs <;> rfl

/-- The mounts that Docker gives to a container: what the host configuration binds, and an
anonymous volume for each declared volume path that nothing else is mounted at. -/
def dockerMounts (inherited : String → List Binding) (anonymous : String → String) (cfg : Config)
    (hc : HostConfig) : List Binding :=
  bindings inherited hc ++
    ((cfg.volumes.entries.map fun e => e.1).filter fun v =>
      ∀ b ∈ bindings inherited hc, b.destination ≠ v).map fun v => ⟨anonymous v, v, true⟩

/-- **No anonymous volumes.** In a container as Docker creates it, all mounts are declared if and
only if something else is mounted at each declared volume path. -/
theorem declared_iff_covered {anonymous : String → String}
    (hins : ins.mounts.map MountPoint.binding =
      dockerMounts inherited anonymous ins.config ins.hostConfig) :
    Declared inherited ins ↔ ∀ v ∈ ins.config.volumes.entries.map fun e => e.1,
      ∃ b ∈ bindings inherited ins.hostConfig, b.destination = v := by
  have hall : Declared inherited ins ↔
      ∀ b ∈ dockerMounts inherited anonymous ins.config ins.hostConfig,
        b ∈ bindings inherited ins.hostConfig := by
    rw [← hins]
    exact List.forall_mem_map.symm
  rw [hall, dockerMounts]
  constructor
  · intro h v hv
    by_contra hnot
    have hfree : ∀ b ∈ bindings inherited ins.hostConfig, b.destination ≠ v :=
      fun b hb hbv => hnot ⟨b, hb, hbv⟩
    have hmem := h ⟨anonymous v, v, true⟩ (List.mem_append_right _
      (List.mem_map_of_mem (List.mem_filter.mpr ⟨hv, by simpa using hfree⟩)))
    exact hnot ⟨_, hmem, rfl⟩
  · intro h b hb
    rcases List.mem_append.mp hb with hb | hb
    · exact hb
    · obtain ⟨v, hv, rfl⟩ := List.mem_map.mp hb
      obtain ⟨hv, hfree⟩ := List.mem_filter.mp hv
      obtain ⟨b, hb, hbv⟩ := h v hv
      exact absurd hbv (of_decide_eq_true hfree b hb)

/-! ### The copy -/

section Copy

variable {now : ℤ} {r : Replies} {d : Daemon} {id : String}

/-- A successful `Recreate` ends with the replacement. -/
theorem recreate_ok (h : (recreate now r ins opts d).1 = .ok id) :
    ∃ d₁, recreate now r ins opts d = replaceOld r ins opts d₁ := by
  rw [recreate] at h ⊢
  split at h
  · cases h
  · dsimp only at h ⊢
    split at h
    · cases h
    · split at h
      · cases h
      · exact ⟨_, rfl⟩

/-- The copy has the requested host configuration, and is attached to the network of the create
request and to the connected ones. -/
theorem replaceOld_copy (h : (replaceOld r ins opts d).1 = .ok id) (hfresh : id ≠ ins.id) :
    ∃ copy, (replaceOld r ins opts d).2.get? id = some copy ∧
      copy.hostConfig = hostConfigFor ins opts ∧
      copy.networks = (newContainer (requestFor ins opts r.oldImage).1).networks ++
        (requestFor ins opts r.oldImage).2.map fun e => e.1 := by
  rw [replaceOld] at h ⊢
  cases hcopy : createCopy r (requestFor ins opts r.oldImage).1 d with
  | error e => simp [hcopy] at h
  | ok p =>
    obtain ⟨i, d₁⟩ := p
    simp only [hcopy] at h ⊢
    obtain ⟨-, -, -, hnew⟩ := createCopy_ok hcopy
    obtain ⟨-, c', hc', hsame⟩ := startCopy_spec r ins opts
      ((requestFor ins opts r.oldImage).2.map fun e => e.1) hnew
    split at h
    · cases h
    · next d₂ hd₂ =>
      obtain rfl := Except.ok.inj h
      rw [hd₂] at hc' hsame
      have hcopy' : c' = _ := hsame rfl
      refine ⟨c', ?_, by rw [hcopy']; rfl, by rw [hcopy']⟩
      -- removing the old container does not touch the copy
      simp only
      cases hremove : call r.remove (d₂.remove ins.id) with
      | error e => exact hc'
      | ok d₃ =>
        have hd₃ := call_ok hremove
        rw [remove] at hd₃
        split at hd₃
        · cases hd₃
        · obtain rfl := Except.ok.inj hd₃
          exact (get?_drop.trans (if_neg hfresh)).trans hc'

/-! ### Networks -/

/-- A network mode without a network of the create request is not one of the networks. -/
theorem disjoint_modeNetworks {mode : String} {names : List String}
    (hnames : ∀ n ∈ names, n ≠ "") (h : (pickNetworks mode names).1 = "") :
    (modeNetworks mode).Disjoint names := by
  obtain ⟨hmem, hempty | hmode⟩ := pickNetworks_eq_empty hnames h
  · rw [hempty]
    exact List.disjoint_nil_right _
  · rw [modeNetworks]
    split_ifs with hcontainer hdefault
    · exact List.disjoint_nil_left _
    · -- these modes pick a network
      rcases hdefault with rfl | rfl <;> simp [picksNetwork, hcontainer] at hmode
    · exact List.singleton_disjoint.mpr hmem

/-- **Networks.** The copy is attached to every network of the old container and to no network
twice. -/
theorem copy_networks (oldImg : Option ImageConfig) :
    let req := requestFor ins opts oldImg
    let attached := (newContainer req.1).networks ++ req.2.map fun e => e.1
    (∀ n ∈ networksOf ins, n ∈ attached) ∧ attached.Nodup := by
  intro req attached
  have hperm := requestFor_networks ins opts oldImg
  have hnodup := hperm.nodup_iff.mpr (networksOf_nodup ins)
  by_cases hfirst : req.1.networks = []
  · have hattached : attached =
        modeNetworks req.1.hostConfig.networkMode ++ req.2.map fun e => e.1 := by
      change (if req.1.networks = [] then _ else _) ++ _ = _
      rw [if_pos hfirst]
    rw [hfirst, List.nil_append] at hperm
    have hnone : (pickNetworks ins.hostConfig.networkMode (networksOf ins)).1 = "" := by
      simpa [req, requestFor, CreateRequest.networks, endpointsFor_names, firstNets] using hfirst
    have hmode : req.1.hostConfig.networkMode = ins.hostConfig.networkMode := by
      change (hostConfigFor ins opts).networkMode = _
      rw [hostConfigFor]
      split_ifs <;> rfl
    rw [hattached, hmode]
    refine ⟨fun n hn => List.mem_append_right _ (hperm.mem_iff.mpr hn), ?_⟩
    have hone : (modeNetworks ins.hostConfig.networkMode).Nodup := by
      rw [modeNetworks]
      split_ifs <;> simp
    exact List.nodup_append'.mpr ⟨hone, hperm.nodup_iff.mpr (networksOf_nodup ins),
      fun n hn hn' => disjoint_modeNetworks (networksOf_ne_empty ins) hnone hn
        (hperm.mem_iff.mp hn')⟩
  · have hattached : attached = req.1.networks ++ req.2.map fun e => e.1 := by
      change (if req.1.networks = [] then _ else _) ++ _ = _
      rw [if_neg hfirst]
    rw [hattached]
    exact ⟨fun n hn => hperm.mem_iff.mpr hn, hnodup⟩

/-- The copy `id` keeps the storage and the networks of the inspected container: the request that
created it binds each of the mounts, each network is named once by the request or by a
connection, and the copy is attached to all of them and to none twice. -/
structure Keeps (inherited : String → List Binding) (ins : InspectResponse) (opts : RecreateOpts)
    (oldImg : Option ImageConfig) (id : String) (d' : Daemon) : Prop where
  mounts : ∀ m ∈ ins.mounts,
    m.binding ∈ bindings inherited (requestFor ins opts oldImg).1.hostConfig
  requests : ((requestFor ins opts oldImg).1.networks ++
    (requestFor ins opts oldImg).2.map fun e => e.1).Perm (networksOf ins)
  copy : ∃ copy, d'.get? id = some copy ∧
    copy.hostConfig = (requestFor ins opts oldImg).1.hostConfig ∧
    (∀ n ∈ networksOf ins, n ∈ copy.networks) ∧ copy.networks.Nodup

/-- **A successful `Recreate` keeps the storage and the networks** of the old container if and
only if the host configuration declares every mount. -/
theorem recreate_keeps_iff (hok : (recreate now r ins opts d).1 = .ok id)
    (hfresh : id ≠ ins.id) :
    Keeps inherited ins opts r.oldImage id (recreate now r ins opts d).2 ↔
      Declared inherited ins := by
  have hbindings : bindings inherited (requestFor ins opts r.oldImage).1.hostConfig =
      bindings inherited ins.hostConfig := bindings_hostConfigFor
  constructor
  · intro h m hm
    exact hbindings ▸ h.mounts m hm
  · intro hdeclared
    obtain ⟨d₁, hd₁⟩ := recreate_ok hok
    rw [hd₁] at hok ⊢
    obtain ⟨copy, hcopy, hhc, hnet⟩ := replaceOld_copy hok hfresh
    refine ⟨fun m hm => hbindings ▸ hdeclared m hm, requestFor_networks .., copy, hcopy, hhc, ?_⟩
    rw [hnet]
    exact copy_networks r.oldImage

/-- A web server with a bind mount, a named volume and two networks keeps them. -/
theorem recreate_keeps_webServer :
    let ins : InspectResponse :=
      { id := "0123456789ab", name := "/web", running := true, config := {}
        hostConfig :=
          { binds := ["/srv/www:/usr/share/www:ro", "logs:/var/log"], networkMode := "front" }
        mounts :=
          [{ type := "bind", source := "/srv/www", destination := "/usr/share/www", rw := false },
            { type := "volume", name := "logs", destination := "/var/log" }]
        networkSettings := some ⟨⟨[("back", {}), ("front", {})], by decide⟩, by decide⟩ }
    let c : Container :=
      { name := "web", status := .running, config := ins.config, hostConfig := ins.hostConfig
        networks := ["back", "front"] }
    let d : Daemon := put ∅ "0123456789ab" c (by decide)
    let r : Replies := { create := .ok "ba9876543210" }
    Keeps (fun _ => []) ins updateOpts none "ba9876543210" (recreate 0 r ins updateOpts d).2 := by
  intro ins c d r
  have hok : (recreate 0 r ins updateOpts d).1 = .ok "ba9876543210" := by decide +kernel
  have hdeclared : Declared (fun _ => []) ins := by
    change ∀ m ∈ ins.mounts, _
    decide +kernel
  exact (recreate_keeps_iff hok (by decide)).mpr hdeclared

/-- **A successful `Recreate` can lose an anonymous volume.** The database's data directory is a
volume of the image; the create request does not name the volume the old container has there. -/
theorem recreate_not_keeps :
    ¬ ∀ (inherited : String → List Binding) (now : ℤ) (r : Replies) (ins : InspectResponse)
        (opts : RecreateOpts) (d : Daemon) (c : Container) (id : String), Inspected d ins c →
      (recreate now r ins opts d).1 = .ok id → id ≠ ins.id →
        Keeps inherited ins opts r.oldImage id (recreate now r ins opts d).2 := by
  intro h
  let c : Container :=
    { name := "db", status := .running, networks := ["bridge"], hostConfig := {}
      config := { volumes := Dict.set ∅ "/var/lib/data" () } }
  let d : Daemon := put ∅ "0123456789ab" c (by decide)
  let ins : InspectResponse :=
    { id := "0123456789ab", name := "/db", running := true, config := c.config, hostConfig := {}
      mounts := [{ type := "volume", name := "5f2b7c", destination := "/var/lib/data" }]
      networkSettings := some ⟨⟨[("bridge", {})], by decide⟩, by decide⟩ }
  have hmounts := (h (fun _ => []) 0 { create := .ok "ba9876543210" } ins {} d c "ba9876543210"
    ⟨get?_put.trans (if_pos rfl), by decide, rfl⟩ (by decide +kernel) (by decide)).mounts
  have hmem := hmounts _ List.mem_cons_self
  revert hmem
  decide +kernel

end Copy

end Dockhand.DockerOps
