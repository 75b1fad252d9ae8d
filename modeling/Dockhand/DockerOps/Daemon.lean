import Dockhand.DockerOps.Config

/-!
# The containers of a Docker daemon

The daemon as `Recreate` sees it: its containers by identifier, each with a name, a status, the
configuration it was created with and the networks it is attached to. No two containers share a
name. The calls are partial: each answers an error and changes nothing, or gives the new state.

Stopping a container that was started with `--rm` removes it. A paused container counts as
running, and cannot be started.
-/

namespace Dockhand.DockerOps

open Go

/-- The status of a container. -/
inductive Status where
  | created
  | running
  | paused
  | exited
  deriving DecidableEq

/-- `State.Running` of `docker inspect`. -/
def Status.isRunning : Status → Bool
  | .running | .paused => true
  | .created | .exited => false

/-- What the daemon knows of a container, as far as `Recreate` reads or changes it. -/
structure Container where
  name : String
  status : Status
  config : Config
  hostConfig : HostConfig
  networks : List String

/-- An error of the Docker client. -/
structure DockerError where
  notFound : Bool := false
  message : String
  deriving DecidableEq

/-- `cleanDockerErr` takes off the words in front of what the daemon said. -/
def cleanDockerErr (e : DockerError) : String :=
  trimPrefix e.message "Error response from daemon: "

/-- `wrap(err).Error()`. -/
def wrap (e : DockerError) : String :=
  if e.notFound then "not found: " ++ cleanDockerErr e else cleanDockerErr e

/-- **A Docker daemon.** -/
structure Daemon where
  containers : Dict String Container
  unique : ∀ {i j c c'}, containers.get? i = some c → containers.get? j = some c' →
    c.name = c'.name → i = j

namespace Daemon

variable {d d' : Daemon} {id : String} {c : Container}

instance : EmptyCollection Daemon := ⟨⟨∅, fun hi => by simp at hi⟩⟩

/-- The container with an identifier. -/
def get? (d : Daemon) (id : String) : Option Container := d.containers.get? id

@[ext] theorem ext (h : ∀ i, d.get? i = d'.get? i) : d = d' := by
  cases d with
  | mk m hm =>
    cases d' with
    | mk m' hm' =>
      obtain rfl : m = m' := Dict.ext_get? h
      rfl

/-- No container other than `id` has this name. -/
def NameFree (d : Daemon) (id name : String) : Prop :=
  ∀ e ∈ d.containers.entries, e.2.name = name → e.1 = id

instance (d : Daemon) (id name : String) : Decidable (d.NameFree id name) :=
  inferInstanceAs (Decidable (∀ e ∈ d.containers.entries, _ → _))

theorem nameFree_iff {name : String} :
    d.NameFree id name ↔ ∀ i c, d.get? i = some c → c.name = name → i = id := by
  simp only [NameFree, Prod.forall, get?, Dict.get?_eq_some_iff]

/-- Put a container whose name no other one has. -/
def put (d : Daemon) (id : String) (c : Container) (h : d.NameFree id c.name) : Daemon where
  containers := d.containers.set id c
  unique := fun {i j a b} hi hj hname => by
    rw [nameFree_iff] at h
    rw [Dict.get?_set] at hi hj
    split_ifs at hi hj with h₁ h₂ h₂
    · exact h₁.trans h₂.symm
    · obtain rfl := Option.some.inj hi
      exact h₁.trans (h j b hj hname.symm).symm
    · obtain rfl := Option.some.inj hj
      exact (h i a hi hname).trans h₂.symm
    · exact d.unique hi hj hname

/-- Delete a container. -/
def drop (d : Daemon) (id : String) : Daemon where
  containers := d.containers.del id
  unique := fun {i j a b} hi hj hname => by
    rw [Dict.get?_del] at hi hj
    split_ifs at hi hj
    exact d.unique hi hj hname

@[simp] theorem get?_put {i : String} {h} :
    (d.put id c h).get? i = if i = id then some c else d.get? i := Dict.get?_set ..

@[simp] theorem get?_drop {i : String} :
    (d.drop id).get? i = if i = id then none else d.get? i := Dict.get?_del ..

/-- The name of a container is free for that container. -/
theorem nameFree_self (h : d.get? id = some c) : d.NameFree id c.name :=
  nameFree_iff.mpr fun _ _ hi hname => d.unique hi h hname

/-- Set the status of a container. -/
def setStatus (d : Daemon) (id : String) (c : Container) (s : Status) (h : d.get? id = some c) :
    Daemon :=
  d.put id { c with status := s } (nameFree_self (c := c) h)

/-! ### The calls -/

/-- The daemon's answer about an id that it does not know. -/
def noSuchContainer (id : String) : DockerError :=
  ⟨true, "Error response from daemon: No such container: " ++ id⟩

/-- The daemon's answer to a name that another container has. -/
def nameInUse (name : String) : DockerError :=
  ⟨false, "Error response from daemon: Conflict. The container name \"/" ++ name ++
    "\" is already in use"⟩

/-- `ContainerRename`. -/
def rename (d : Daemon) (id name : String) : Except DockerError Daemon :=
  match d.get? id with
  | none => .error (noSuchContainer id)
  | some c =>
    if h : d.NameFree id name ∧ name ≠ c.name then .ok (d.put id { c with name } h.1)
    else .error (nameInUse name)

/-- `ContainerStop`. -/
def stop (d : Daemon) (id : String) : Except DockerError Daemon :=
  match h : d.get? id with
  | none => .error (noSuchContainer id)
  | some c =>
    if c.status.isRunning then
      if c.hostConfig.autoRemove then .ok (d.drop id) else .ok (d.setStatus id c .exited h)
    else .ok d

/-- The network that a network mode stands for. -/
def modeNetworks (mode : String) : List String :=
  if hasPrefix mode "container:" then []
  else [if mode = "default" ∨ mode = "" then "bridge" else mode]

/-- The container that a request asks for. A request that names no network attaches it to the
one of its network mode. -/
def newContainer (req : CreateRequest) : Container where
  name := req.name
  status := .created
  config := req.config
  hostConfig := req.hostConfig
  networks :=
    if req.networks = [] then modeNetworks req.hostConfig.networkMode else req.networks

/-- `ContainerCreate`, with the new identifier. -/
def create (d : Daemon) (req : CreateRequest) (id : String) : Except DockerError Daemon :=
  if h : d.NameFree id (newContainer req).name ∧ d.get? id = none then
    .ok (d.put id (newContainer req) h.1)
  else .error (nameInUse req.name)

/-- `NetworkConnect`. -/
def connect (d : Daemon) (id network : String) : Except DockerError Daemon :=
  match h : d.get? id with
  | none => .error (noSuchContainer id)
  | some c =>
    if network ∈ c.networks then
      .error ⟨false, "Error response from daemon: endpoint already exists in network " ++ network⟩
    else .ok (d.put id { c with networks := c.networks ++ [network] } (nameFree_self (c := c) h))

/-- `ContainerStart`. -/
def start (d : Daemon) (id : String) : Except DockerError Daemon :=
  match h : d.get? id with
  | none => .error (noSuchContainer id)
  | some c =>
    match c.status with
    | .paused => .error ⟨false, "Error response from daemon: cannot start a paused container"⟩
    | .running => .ok d
    | .created | .exited => .ok (d.setStatus id c .running h)

/-- `ContainerRemove` with `Force`. -/
def remove (d : Daemon) (id : String) : Except DockerError Daemon :=
  match d.get? id with
  | none => .error (noSuchContainer id)
  | some _ => .ok (d.drop id)

/-! ### What a successful call does -/

/-- The two states differ at most at `id`. -/
def EqOff (id : String) (d d' : Daemon) : Prop := ∀ i, i ≠ id → d'.get? i = d.get? i

theorem EqOff.refl : EqOff id d d := fun _ _ => rfl

theorem EqOff.trans {d'' : Daemon} (h : EqOff id d d') (h' : EqOff id d' d'') : EqOff id d d'' :=
  fun i hi => (h' i hi).trans (h i hi)

private theorem eqOff_put {h} : EqOff id d (d.put id c h) := fun i hi => by rw [get?_put, if_neg hi]

private theorem eqOff_drop : EqOff id d (d.drop id) := fun i hi => by rw [get?_drop, if_neg hi]

theorem EqOff.drop_eq (h : EqOff id d d') (hnone : d.get? id = none) : d'.drop id = d := by
  refine Daemon.ext fun i => ?_
  rw [get?_drop]
  split_ifs with hi
  · rw [hi, hnone]
  · exact h i hi

theorem rename_ok {name : String} (h : d.rename id name = .ok d') :
    EqOff id d d' ∧ ∃ c, d.get? id = some c ∧ name ≠ c.name ∧
      d'.get? id = some { c with name } := by
  rw [rename] at h
  cases hc : d.get? id with
  | none => simp [hc] at h
  | some c =>
    simp only [hc] at h
    split_ifs at h with hfree
    obtain rfl := Except.ok.inj h
    exact ⟨eqOff_put, c, rfl, hfree.2, by simp⟩

/-- A container whose new name no other container has is renamed. -/
theorem rename_eq_ok {name : String} (hc : d.get? id = some c) (hfree : d.NameFree id name)
    (hne : name ≠ c.name) :
    ∃ d', d.rename id name = .ok d' ∧ EqOff id d d' ∧ d'.get? id = some { c with name } := by
  refine ⟨d.put id { c with name } hfree, ?_, eqOff_put, by simp⟩
  rw [rename]
  simp only [hc]
  exact dif_pos ⟨hfree, hne⟩

/-- What stopping leaves of a container. -/
def stopped (c : Container) : Option Container :=
  if c.status.isRunning then
    if c.hostConfig.autoRemove then none else some { c with status := .exited }
  else some c

theorem stop_eq_ok (hc : d.get? id = some c) :
    ∃ d', d.stop id = .ok d' ∧ EqOff id d d' ∧ d'.get? id = stopped c := by
  rw [stop, stopped]
  split
  · next hnone => simp [hc] at hnone
  · next c' hc' =>
    obtain rfl := Option.some.inj (hc.symm.trans hc')
    split_ifs
    · exact ⟨_, rfl, eqOff_drop, by simp⟩
    · exact ⟨_, rfl, eqOff_put, by simp [setStatus]⟩
    · exact ⟨_, rfl, EqOff.refl, hc⟩

theorem create_ok {req : CreateRequest} (h : d.create req id = .ok d') :
    d.get? id = none ∧ EqOff id d d' ∧ d'.get? id = some (newContainer req) := by
  rw [create] at h
  split_ifs at h with hfree
  obtain rfl := Except.ok.inj h
  exact ⟨hfree.2, eqOff_put, by simp⟩

theorem connect_ok {network : String} (h : d.connect id network = .ok d') :
    EqOff id d d' ∧ ∃ c, d.get? id = some c ∧
      d'.get? id = some { c with networks := c.networks ++ [network] } := by
  rw [connect] at h
  split at h
  · cases h
  · next c hc =>
    split_ifs at h
    obtain rfl := Except.ok.inj h
    exact ⟨eqOff_put, c, hc, by simp⟩

/-- What starting leaves of a container. -/
def started (c : Container) : Container :=
  match c.status with
  | .created | .exited => { c with status := .running }
  | .running | .paused => c

theorem start_ok (h : d.start id = .ok d') :
    EqOff id d d' ∧ ∃ c, d.get? id = some c ∧ d'.get? id = some (started c) := by
  rw [start] at h
  split at h
  · cases h
  · next c hc =>
    cases hs : c.status with
    | paused => simp [hs] at h
    | running =>
      simp only [hs, Except.ok.injEq] at h
      subst h
      exact ⟨EqOff.refl, c, hc, by simp [started, hs, hc]⟩
    | created | exited =>
      simp only [hs, Except.ok.injEq] at h
      subst h
      exact ⟨eqOff_put, c, hc, by simp [started, hs, setStatus]⟩

/-- A container that is not paused is started. -/
theorem start_eq_ok (hc : d.get? id = some c) (hs : c.status ≠ .paused) :
    ∃ d', d.start id = .ok d' := by
  rw [start]
  split
  · next hnone => simp [hc] at hnone
  · next c' hc' =>
    obtain rfl := Option.some.inj (hc.symm.trans hc')
    cases hs' : c.status with
    | paused => exact absurd hs' hs
    | created | exited | running => exact ⟨_, rfl⟩

theorem remove_eq_ok (hc : d.get? id = some c) : d.remove id = .ok (d.drop id) := by
  rw [remove, hc]

end Daemon

end Dockhand.DockerOps
