import Dockhand.Data.Grouping
import Dockhand.Data.StableSort
import Dockhand.Go.Dict
import Dockhand.Stacks.Compose

/-!
# The stacks of a host

`List` shows the stacks that Dockhand manages and the compose projects that it finds in the labels
of the host's containers. The projects are collected in a map, which is gone through in any order.
`lists_of_order`: the order does not show; every stack is there once, a container that belongs to a
project is shown in its own stack and nowhere else, a service of the compose file without a
container is shown as missing, and what is shown is found again by the operations on a stack.

The time of a deployment is a number.
-/

namespace Dockhand.Stacks.Listing

open Go

/-- `PortMap`: a port of a container, and where it is published. -/
structure PortMap where
  host : ℕ
  container : ℕ
  proto : String
  deriving DecidableEq

/-- What is read of a container of the monitor's cache; `workingDir` and `configFiles` are the
labels of its compose project. -/
structure Container where
  id : String
  name : String
  image : String := ""
  state : String := ""
  health : String := ""
  stack : String := ""
  service : String := ""
  ports : List PortMap := []
  workingDir : String := ""
  configFiles : String := ""
  deriving DecidableEq

/-- `ComposeServiceInfo`, of a compose file that has been read or written. -/
structure ServiceInfo where
  name : String
  image : String
  deriving DecidableEq

/-- `StackService`: a service in the list, running or only written in the compose file. -/
structure StackService where
  name : String
  image : String
  state : String
  containerID : String := ""
  ports : List PortMap := []
  health : String
  deriving DecidableEq

/-- A row of the stacks table of the host. -/
structure Stored extends Row where
  id : String
  sha : String := ""
  autoDeploy : Bool := false
  lastDeployAt : Option ℕ := none
  deriving DecidableEq

/-- `Stack`: an entry of the list; one that Dockhand does not manage has no id. -/
structure Stack where
  id : Option String := none
  name : String
  path : String
  composeFile : String
  status : String
  managed : Bool
  source : String
  repo : String := ""
  branch : String := ""
  sha : String := ""
  autoDeploy : Bool := false
  lastDeployAt : Option ℕ := none
  services : List StackService
  deriving DecidableEq

/-- `shortSHA`. -/
def shortSHA (s : String) : String := String.ofList (s.toList.take 7)

/-- `status`. -/
def status (svcs : List StackService) : String :=
  let running := svcs.countP fun s => s.state = "running"
  if 0 < svcs.length ∧ running = svcs.length then "running"
  else if 0 < running then "partial"
  else "stopped"

/-- The service of a container. -/
def Container.shown (c : Container) : StackService where
  name := if c.service = "" then c.name else c.service
  image := c.image
  state := c.state
  containerID := c.id
  ports := c.ports
  health := c.health

/-- A service without a container. -/
def ServiceInfo.missing (k : ServiceInfo) : StackService where
  name := k.name
  image := k.image
  state := "missing"
  health := "none"

/-- `services_`. -/
def services (known : List ServiceInfo) (ctrs : List Container) : List StackService :=
  let out := (ctrs.mergeSort fun a b => a.name ≤ b.name).map (·.shown)
  out ++ (known.filter fun k => k.name ∉ out.map (·.name)).map (·.missing)

/-- The containers of each project. -/
def byProject (containers : List Container) : Dict String (List Container) :=
  containers.foldl (fun m c =>
    if c.stack ≠ "" then m.set c.stack ((m.get? c.stack).getD [] ++ [c]) else m) ∅

section

variable (rows : List Stored) (containers : List Container)
  (known : Dict String (List ServiceInfo))

/-- The stack of a row. -/
def managed (r : Stored) : Stack :=
  let svcs := services ((known.get? r.name).getD [])
    (((byProject containers).get? r.name).getD [])
  { id := some r.id
    name := r.name
    path := r.path
    composeFile := r.composePath
    status := status svcs
    managed := true
    source := r.source
    repo := r.repo
    branch := r.branch
    sha := shortSHA r.sha
    autoDeploy := r.autoDeploy
    lastDeployAt := r.lastDeployAt
    services := svcs }

/-- The stack of a project, whose first container is `c`. -/
def discovered (name : String) (c : Container) (ctrs : List Container) : Stack :=
  let svcs := services ((known.get? name).getD []) ctrs
  { name
    path := c.workingDir
    composeFile := (splitChar c.configFiles ',').headD ""
    status := status svcs
    managed := false
    source := "discovered"
    services := svcs }

/-- What the loop over the projects adds for one of them. -/
def unseen (e : String × List Container) : Option Stack :=
  if e.1 ∈ rows.map (·.name) then none
  else e.2.head?.map fun c => discovered known e.1 c e.2

/-- `List`, which goes through the projects in the order `order`. -/
def list (order : List (String × List Container)) : List Stack :=
  let out := rows.map (managed containers known) ++ order.filterMap (unseen rows known)
  out.mergeSort fun a b => a.name ≤ b.name

end

/-! ### The status of a stack -/

private theorem status_cases (svcs : List StackService) :
    (status svcs = "running" ↔ svcs ≠ [] ∧ ∀ s ∈ svcs, s.state = "running") ∧
      (status svcs = "stopped" ↔ ∀ s ∈ svcs, s.state ≠ "running") ∧
      (status svcs ≠ "running" → status svcs ≠ "stopped" → status svcs = "partial") := by
  have hall : svcs.countP (fun s => s.state = "running") = svcs.length ↔
      ∀ s ∈ svcs, s.state = "running" := by
    simp [List.countP_eq_length]
  have hnone : 0 < svcs.countP (fun s => s.state = "running") ↔
      ¬ ∀ s ∈ svcs, s.state ≠ "running" := by
    simp [List.countP_pos_iff]
  have hne : 0 < svcs.length ↔ svcs ≠ [] := List.length_pos_iff
  have hstatus : status svcs = if svcs ≠ [] ∧ ∀ s ∈ svcs, s.state = "running" then "running"
      else if ¬ ∀ s ∈ svcs, s.state ≠ "running" then "partial" else "stopped" := by
    simp only [status, hall, hnone, hne]
  rw [hstatus]
  by_cases hrun : svcs ≠ [] ∧ ∀ s ∈ svcs, s.state = "running"
  · obtain ⟨s, hs⟩ := List.exists_mem_of_ne_nil svcs hrun.1
    have hnot : ¬ ∀ s ∈ svcs, s.state ≠ "running" := fun h => h s hs (hrun.2 s hs)
    rw [if_pos hrun]
    exact ⟨iff_of_true rfl hrun, iff_of_false (by decide) hnot, fun h => absurd rfl h⟩
  · rw [if_neg hrun]
    by_cases hstop : ∀ s ∈ svcs, s.state ≠ "running"
    · rw [if_neg (not_not.mpr hstop)]
      exact ⟨iff_of_false (by decide) hrun, iff_of_true rfl hstop, fun _ h => absurd rfl h⟩
    · rw [if_pos hstop]
      exact ⟨iff_of_false (by decide) hrun, iff_of_false (by decide) hstop, fun _ _ => rfl⟩

/-! ### Projects -/

variable {rows : List Stored} {containers : List Container}
  {known : Dict String (List ServiceInfo)} {name : String}

/-- The containers of a project. -/
def projectOf (containers : List Container) (name : String) : List Container :=
  containers.filter fun c => c.stack = name

private theorem get?_byProject (containers : List Container) (name : String) :
    (byProject containers).get? name =
      if name ≠ "" ∧ projectOf containers name ≠ [] then some (projectOf containers name)
      else none := by
  induction containers using List.reverseRecOn with
  | nil => simp [byProject, projectOf]
  | append_singleton cs c ih =>
    rw [byProject, List.foldl_append, ← byProject, projectOf, List.filter_append, ← projectOf]
    by_cases hempty : c.stack = ""
    · rcases eq_or_ne name "" with rfl | hname
      · simp [hempty, ih]
      · simp [hempty, ih, hname.symm]
    · rcases eq_or_ne c.stack name with rfl | hc
      · by_cases hproject : projectOf cs c.stack = [] <;> simp [hempty, ih, hproject]
      · simp [hempty, hc, hc.symm, ih]

private theorem getD_byProject (hname : name ≠ "") :
    ((byProject containers).get? name).getD [] = projectOf containers name := by
  rw [get?_byProject]
  by_cases hproject : projectOf containers name = [] <;> simp [hname, hproject]

private theorem mem_byProject {e : String × List Container} :
    e ∈ (byProject containers).entries ↔
      e.1 ≠ "" ∧ e.2 ≠ [] ∧ e.2 = projectOf containers e.1 := by
  rw [← Dict.get?_eq_some_iff, get?_byProject, Option.ite_none_right_eq_some, Option.some.injEq]
  constructor
  · rintro ⟨⟨hname, hne⟩, heq⟩
    exact ⟨hname, heq ▸ hne, heq.symm⟩
  · rintro ⟨hname, hne, heq⟩
    exact ⟨⟨hname, heq ▸ hne⟩, heq.symm⟩

private theorem mem_keys_byProject : name ∈ (byProject containers).entries.map Prod.fst ↔
    name ≠ "" ∧ ∃ c ∈ containers, c.stack = name := by
  have hproject : projectOf containers name ≠ [] ↔ ∃ c ∈ containers, c.stack = name := by
    simp [projectOf]
  rw [← hproject]
  constructor
  · intro h
    obtain ⟨e, he, rfl⟩ := List.mem_map.mp h
    obtain ⟨hname, hne, heq⟩ := mem_byProject.mp he
    exact ⟨hname, heq ▸ hne⟩
  · rintro ⟨hname, hne⟩
    exact List.mem_map.mpr ⟨(name, projectOf containers name),
      mem_byProject.mpr ⟨hname, hne, rfl⟩, rfl⟩

/-! ### One stack -/

/-- The containers of a stack. -/
def Stack.containerIDs (st : Stack) : List String :=
  (st.services.map (·.containerID)).filter (· ≠ "")

private theorem containerIDs_services {infos : List ServiceInfo} {ctrs : List Container}
    (hids : ∀ c ∈ ctrs, c.id ≠ "") :
    (((services infos ctrs).map (·.containerID)).filter (· ≠ "")).Perm (ctrs.map (·.id)) := by
  have hsorted := List.mergeSort_perm ctrs fun a b => a.name ≤ b.name
  have hmissing : ∀ ks : List ServiceInfo,
      ((ks.map (·.missing)).map (·.containerID)).filter (· ≠ "") = [] := fun ks => by
    simp [ServiceInfo.missing]
  have hshown : ∀ cs : List Container, (cs.map (·.shown)).map (·.containerID) = cs.map (·.id) :=
    fun cs => by simp [Container.shown]
  rw [services, List.map_append, List.filter_append, hmissing, List.append_nil, hshown,
    List.filter_eq_self.mpr]
  · exact hsorted.map _
  · intro id hid
    obtain ⟨c, hc, rfl⟩ := List.mem_map.mp hid
    simpa using hids c (hsorted.mem_iff.mp hc)

/-- A service of the compose file is there, with its containers or as missing. -/
theorem mem_services {infos : List ServiceInfo} {ctrs : List Container} {k : ServiceInfo}
    (hk : k ∈ infos) : ∃ s ∈ services infos ctrs, s.name = k.name := by
  by_cases hseen : k.name ∈
      ((ctrs.mergeSort fun a b => a.name ≤ b.name).map (·.shown)).map (·.name)
  · obtain ⟨s, hs, hname⟩ := List.mem_map.mp hseen
    exact ⟨s, List.mem_append_left _ hs, hname⟩
  · refine ⟨k.missing, List.mem_append_right _ (List.mem_map.mpr ⟨k, ?_, rfl⟩), rfl⟩
    exact List.mem_filter.mpr ⟨hk, decide_eq_true hseen⟩

/-! ### The list -/

/-- A container as the operations on stacks see it. -/
def Container.labelled (c : Container) : Labelled :=
  ⟨c.name, c.stack, c.service, c.workingDir, c.configFiles⟩

/-- What `out` has to be to list the stacks of the rows and of the projects. -/
structure Lists (rows : List Stored) (containers : List Container)
    (known : Dict String (List ServiceInfo)) (out : List Stack) : Prop where
  sorted : out.Pairwise fun a b => a.name < b.name
  mem : ∀ name, name ∈ out.map (·.name) ↔
    name ∈ rows.map (·.name) ∨ name ≠ "" ∧ ∃ c ∈ containers, c.stack = name
  own : ∀ st ∈ out, st.containerIDs.Perm ((projectOf containers st.name).map (·.id))
  all : (out.flatMap (·.containerIDs)).Perm
    ((containers.filter fun c => c.stack ≠ "").map (·.id))
  known : ∀ st ∈ out, ∀ k ∈ (known.get? st.name).getD [], ∃ s ∈ st.services, s.name = k.name
  running : ∀ st ∈ out, st.status = "running" ↔
    st.services ≠ [] ∧ ∀ s ∈ st.services, s.state = "running"
  stopped : ∀ st ∈ out, st.status = "stopped" ↔ ∀ s ∈ st.services, s.state ≠ "running"
  /-- `locate` finds it. -/
  located : ∀ st ∈ out, ∃ r, locate ((rows.find? (·.name = st.name)).map (·.toRow))
      (containers.map (·.labelled)) st.name = some r ∧ st.path = r.path ∧
    st.composeFile = if st.managed then r.composePath else r.composeFile

/-- The list before it is sorted. -/
def unsorted (rows : List Stored) (containers : List Container)
    (known : Dict String (List ServiceInfo)) (order : List (String × List Container)) :
    List Stack :=
  rows.map (managed containers known) ++ order.filterMap (unseen rows known)

section

variable {order : List (String × List Container)} {st : Stack}

private theorem mem_unsorted (horder : order.Perm (byProject containers).entries)
    (hst : st ∈ unsorted rows containers known order) :
    (∃ r ∈ rows, st = managed containers known r) ∨
      ∃ name c, name ∉ rows.map (·.name) ∧ name ≠ "" ∧
        (projectOf containers name).head? = some c ∧
        st = discovered known name c (projectOf containers name) := by
  rcases List.mem_append.mp hst with hst | hst
  · obtain ⟨r, hr, rfl⟩ := List.mem_map.mp hst
    exact .inl ⟨r, hr, rfl⟩
  · obtain ⟨⟨name, ctrs⟩, he, hst⟩ := List.mem_filterMap.mp hst
    obtain ⟨hname, -, heq⟩ := mem_byProject.mp (horder.mem_iff.mp he)
    obtain rfl : ctrs = projectOf containers name := heq
    obtain ⟨hnew, hst⟩ := Option.ite_none_left_eq_some.mp hst
    obtain ⟨c, hc, rfl⟩ := Option.map_eq_some_iff.mp hst
    exact .inr ⟨name, c, hnew, hname, hc, rfl⟩

private theorem names_unsorted (horder : order.Perm (byProject containers).entries) :
    (unsorted rows containers known order).map (·.name) =
      rows.map (·.name) ++ (order.map Prod.fst).filter fun name => name ∉ rows.map (·.name) := by
  have hne : ∀ e ∈ order, e.2 ≠ [] := fun e he => (mem_byProject.mp (horder.mem_iff.mp he)).2.1
  rw [unsorted, List.map_append, List.map_map]
  refine congrArg₂ _ rfl ?_
  -- by induction over any list of projects that have containers
  clear horder
  induction order with
  | nil => rfl
  | cons e order ih =>
    obtain ⟨he, hrest⟩ := List.forall_mem_cons.mp hne
    obtain ⟨c, ctrs, hctrs⟩ := List.exists_cons_of_ne_nil he
    rw [List.map_cons, List.filterMap_cons]
    by_cases hrow : e.1 ∈ rows.map (·.name)
    · rw [unseen, if_pos hrow, List.filter_cons_of_neg (by simpa using hrow)]
      exact ih hrest
    · rw [unseen, if_neg hrow, List.filter_cons_of_pos (by simpa using hrow), hctrs]
      exact congrArg (e.1 :: ·) (ih hrest)

private theorem nodup_unsorted (hrows : (rows.map (·.name)).Nodup)
    (horder : order.Perm (byProject containers).entries) :
    ((unsorted rows containers known order).map (·.name)).Nodup := by
  rw [names_unsorted horder]
  refine hrows.append ?_ fun name hrow hnew => ?_
  · exact ((horder.map Prod.fst).nodup_iff.mpr (byProject containers).sorted.nodup).filter _
  · simpa [hrow] using List.of_mem_filter hnew

private theorem own_of_mem (hnames : ∀ r ∈ rows, r.name ≠ "") (hids : ∀ c ∈ containers, c.id ≠ "")
    (horder : order.Perm (byProject containers).entries)
    (hst : st ∈ unsorted rows containers known order) :
    st.containerIDs.Perm ((projectOf containers st.name).map (·.id)) := by
  have hproject : ∀ name, ∀ c ∈ projectOf containers name, c.id ≠ "" :=
    fun name c hc => hids c (List.mem_filter.mp hc).1
  rcases mem_unsorted horder hst with ⟨r, hr, rfl⟩ | ⟨name, c, -, -, -, rfl⟩
  · rw [Stack.containerIDs, managed, getD_byProject (hnames r hr)]
    exact containerIDs_services (hproject r.name)
  · exact containerIDs_services (hproject name)

private theorem mem_names (horder : order.Perm (byProject containers).entries) (name : String) :
    name ∈ (unsorted rows containers known order).map (·.name) ↔
      name ∈ rows.map (·.name) ∨ name ≠ "" ∧ ∃ c ∈ containers, c.stack = name := by
  rw [names_unsorted horder, List.mem_append, List.mem_filter, (horder.map Prod.fst).mem_iff,
    mem_keys_byProject]
  by_cases hrow : name ∈ rows.map (·.name)
  · simp only [hrow, true_or]
  · simp only [hrow, false_or, not_false_eq_true, decide_true, and_true]

private theorem containerIDs_unsorted (hrows : (rows.map (·.name)).Nodup)
    (hnames : ∀ r ∈ rows, r.name ≠ "") (hids : ∀ c ∈ containers, c.id ≠ "")
    (horder : order.Perm (byProject containers).entries) :
    ((unsorted rows containers known order).flatMap (·.containerIDs)).Perm
      ((containers.filter fun c => c.stack ≠ "").map (·.id)) := by
  -- Each stack has the containers of its project, and the projects divide those with a label.
  have hown := List.Perm.flatMap_left (unsorted rows containers known order)
    (f := (·.containerIDs)) fun st hst => own_of_mem hnames hids horder hst
  have hnodup : ((unsorted rows containers known order).map (·.name)).Nodup :=
    nodup_unsorted hrows horder
  have hgroups : ((((unsorted rows containers known order).map (·.name)).flatMap
      (projectOf containers)).map (·.id)).Perm ((containers.filter fun c =>
        c.stack ∈ (unsorted rows containers known order).map (·.name)).map (·.id)) :=
    (Data.perm_flatMap_filter hnodup containers).map _
  have hfilter : (containers.filter fun c =>
      c.stack ∈ (unsorted rows containers known order).map (·.name)) =
      containers.filter fun c => c.stack ≠ "" := by
    refine List.filter_congr fun c hc => decide_eq_decide.mpr ?_
    rw [mem_names horder]
    constructor
    · rintro (hrow | ⟨hne, -⟩)
      · obtain ⟨r, hr, heq⟩ := List.mem_map.mp hrow
        exact heq ▸ hnames r hr
      · exact hne
    · exact fun hne => .inr ⟨hne, c, hc, rfl⟩
  rw [hfilter] at hgroups
  refine (hown.trans (.of_eq ?_)).trans hgroups
  rw [List.map_flatMap, List.flatMap_map]

private theorem located_of_mem (hrows : (rows.map (·.name)).Nodup)
    (horder : order.Perm (byProject containers).entries)
    (hst : st ∈ unsorted rows containers known order) :
    ∃ r, locate ((rows.find? (·.name = st.name)).map (·.toRow))
      (containers.map (·.labelled)) st.name = some r ∧ st.path = r.path ∧
    st.composeFile = if st.managed then r.composePath else r.composeFile := by
  rcases mem_unsorted horder hst with ⟨r, hr, rfl⟩ | ⟨name, c, hnew, -, hc, rfl⟩
  · have hsome : (rows.find? (·.name = r.name)).isSome = true :=
      List.find?_isSome.mpr ⟨r, hr, decide_eq_true rfl⟩
    obtain ⟨r', hfind⟩ := Option.isSome_iff_exists.mp hsome
    have hname : r'.name = r.name := by simpa using List.find?_some hfind
    obtain rfl := List.inj_on_of_nodup_map hrows (List.mem_of_find?_eq_some hfind) hr hname
    exact ⟨r'.toRow, by rw [managed, hfind]; rfl, rfl, rfl⟩
  · have hnone : rows.find? (·.name = name) = none := by
      rw [List.find?_eq_none]
      intro r hr
      simpa using fun heq => hnew (List.mem_map.mpr ⟨r, hr, heq⟩)
    -- both take the first container of the project
    have hfind : (containers.map (·.labelled)).find? (·.project = name) = some c.labelled := by
      rw [projectOf, List.head?_filter] at hc
      rw [List.find?_map]
      exact congrArg (Option.map _) hc
    rw [discovered, hnone, Option.map_none, locate, hfind]
    exact ⟨_, rfl, rfl, rfl⟩

/-- **The list of stacks.** In whatever order the map of the projects is gone through, the list is
the same, and it lists what it should: each stored stack and each project with containers once, by
name, with its services and its status. -/
theorem lists_of_order (hrows : (rows.map (·.name)).Nodup) (hnames : ∀ r ∈ rows, r.name ≠ "")
    (hids : ∀ c ∈ containers, c.id ≠ "") (horder : order.Perm (byProject containers).entries) :
    list rows containers known order = list rows containers known (byProject containers).entries ∧
      Lists rows containers known (list rows containers known order) := by
  have hnodup : ((unsorted rows containers known order).map (·.name)).Nodup :=
    nodup_unsorted hrows horder
  have hperm : (list rows containers known order).Perm (unsorted rows containers known order) :=
    List.mergeSort_perm _ _
  have hmem : ∀ {st}, st ∈ list rows containers known order ↔
      st ∈ unsorted rows containers known order := hperm.mem_iff
  have hnamed : ∀ name, name ∈ (list rows containers known order).map (·.name) ↔
      name ∈ rows.map (·.name) ∨ name ≠ "" ∧ ∃ c ∈ containers, c.stack = name :=
    fun name => (hperm.map _).mem_iff.trans (mem_names horder name)
  have hof : ∀ st ∈ list rows containers known order, ∃ infos ctrs,
      st.services = services infos ctrs ∧ st.status = status st.services ∧
        infos = (known.get? st.name).getD [] := by
    intro st hst
    rcases mem_unsorted horder (hmem.mp hst) with ⟨r, -, rfl⟩ | ⟨name, c, -, -, -, rfl⟩
    · exact ⟨_, _, rfl, rfl, rfl⟩
    · exact ⟨_, _, rfl, rfl, rfl⟩
  refine ⟨?_, ?_, ?_, ?_, ?_, ?_, ?_, ?_, ?_⟩
  · exact Data.mergeSort_eq_of_perm ((horder.filterMap _).append_left _) hnodup
  · exact Data.pairwise_lt_mergeSort hnodup
  · exact fun name => hnamed name
  · exact fun st hst => own_of_mem hnames hids horder (hmem.mp hst)
  · exact (hperm.flatMap_right _).trans (containerIDs_unsorted hrows hnames hids horder)
  · intro st hst k hk
    obtain ⟨infos, ctrs, hservices, -, rfl⟩ := hof st hst
    rw [hservices]
    exact mem_services hk
  · intro st hst
    obtain ⟨-, -, -, hstatus, -⟩ := hof st hst
    rw [hstatus]
    exact (status_cases st.services).1
  · intro st hst
    obtain ⟨-, -, -, hstatus, -⟩ := hof st hst
    rw [hstatus]
    exact (status_cases st.services).2.1
  · exact fun st hst => located_of_mem hrows horder (hmem.mp hst)

namespace Inventory

/-- A stack that Dockhand manages. -/
def shop : Stored where
  name := "shop"
  path := "/srv/shop"
  composeFile := "c.yml"
  source := "git"
  id := "1"

/-- Two containers of a stack that is managed, one of a project that is not, and one of neither. -/
def cache : List Container :=
  [{ id := "a", name := "shop-web-1", state := "running", stack := "shop", service := "web" },
    { id := "b", name := "blog-1", state := "exited", stack := "blog",
      configFiles := "/srv/b.yml" },
    { id := "c", name := "shop-db-1", state := "running", stack := "shop", service := "db" },
    { id := "d", name := "solo" }]

/-- The services of its compose file, of which only one runs. -/
def files : Dict String (List ServiceInfo) := Dict.set ∅ "shop" [⟨"web", "nginx"⟩, ⟨"mail", "exim"⟩]

end Inventory

open Inventory in
/-- The projects of the cache in the reverse order. -/
theorem lists_of_order_cache :
    list [shop] cache files (byProject cache).entries.reverse =
        list [shop] cache files (byProject cache).entries ∧
      Lists [shop] cache files (list [shop] cache files (byProject cache).entries.reverse) :=
  lists_of_order (by decide) (by decide) (by decide) (List.reverse_perm _)

end

end Dockhand.Stacks.Listing
