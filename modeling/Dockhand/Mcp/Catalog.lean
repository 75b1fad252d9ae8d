import Dockhand.Settings.Schema

/-!
# The catalog of tools and the keys

The tools that Dockhand exposes over MCP, each in a group and marked when it changes something, and
which of them a key may use.
-/

namespace Dockhand.Mcp

open Go

/-! ### Tools -/

/-- The groups of tools that a key can be limited to. -/
inductive Group where
  | host | container | log | stack | image | deploy
  deriving DecidableEq

/-- The words of the settings for the groups. -/
def Group.text : Group → String
  | .host => "Hosts"
  | .container => "Containers"
  | .log => "Logs"
  | .stack => "Stacks"
  | .image => "Images"
  | .deploy => "Deploy"

/-- The tools of the catalogue, in the order in which they are listed. -/
inductive Tool where
  | listHosts | hostStats | rebootHost
  | listContainers | inspectContainer | startContainer | stopContainer | restartContainer
  | removeContainer | updateContainer
  | getLogs | searchLogs
  | listStacks | getCompose | stackAction | pullAndRebuild | updateCompose
  | listImages | pullImage | pruneImages
  | deployFromGithub | runContainer
  deriving DecidableEq

namespace Tool

/-- The name under which a client calls the tool. -/
def name : Tool → String
  | listHosts => "list_hosts"
  | hostStats => "host_stats"
  | rebootHost => "reboot_host"
  | listContainers => "list_containers"
  | inspectContainer => "inspect_container"
  | startContainer => "start_container"
  | stopContainer => "stop_container"
  | restartContainer => "restart_container"
  | removeContainer => "remove_container"
  | updateContainer => "update_container"
  | getLogs => "get_logs"
  | searchLogs => "search_logs"
  | listStacks => "list_stacks"
  | getCompose => "get_compose"
  | stackAction => "stack_action"
  | pullAndRebuild => "pull_and_rebuild"
  | updateCompose => "update_compose"
  | listImages => "list_images"
  | pullImage => "pull_image"
  | pruneImages => "prune_images"
  | deployFromGithub => "deploy_from_github"
  | runContainer => "run_container"

/-- The group of the tool, by which a key is limited. -/
def group : Tool → Group
  | listHosts | hostStats | rebootHost => .host
  | listContainers | inspectContainer | startContainer | stopContainer | restartContainer
  | removeContainer | updateContainer => .container
  | getLogs | searchLogs => .log
  | listStacks | getCompose | stackAction | pullAndRebuild | updateCompose => .stack
  | listImages | pullImage | pruneImages => .image
  | deployFromGithub | runContainer => .deploy

/-- The tool changes something, so that a key for reading cannot call it. -/
def writes : Tool → Bool
  | rebootHost | startContainer | stopContainer | restartContainer | removeContainer
  | updateContainer | stackAction | pullAndRebuild | updateCompose | pullImage | pruneImages
  | deployFromGithub | runContainer => true
  | _ => false

/-- `Catalog`, in display order. -/
def catalog : List Tool :=
  [listHosts, hostStats, rebootHost, listContainers, inspectContainer, startContainer,
    stopContainer, restartContainer, removeContainer, updateContainer, getLogs, searchLogs,
    listStacks, getCompose, stackAction, pullAndRebuild, updateCompose, listImages, pullImage,
    pruneImages, deployFromGithub, runContainer]

private theorem mem_catalog (t : Tool) : t ∈ catalog := by cases t <;> decide

private theorem names_nodup : (catalog.map name).Nodup := by decide +kernel

private theorem name_injective : Function.Injective name := fun t t' h =>
  List.inj_on_of_nodup_map names_nodup (mem_catalog t) (mem_catalog t') h

/-- The tool of a name. -/
def ofName? (s : String) : Option Tool := catalog.find? fun t => t.name = s

theorem ofName?_eq_some {s : String} {t : Tool} : ofName? s = some t ↔ t.name = s := by
  have hname : ∀ {t}, ofName? s = some t → t.name = s := fun h => by
    simpa using List.find?_some h
  refine ⟨hname, fun h => ?_⟩
  cases ht : ofName? s with
  | none => exact absurd (decide_eq_true h) (List.find?_eq_none.mp ht t (mem_catalog t))
  | some t' => exact congrArg some (name_injective ((hname ht).trans h.symm))

end Tool

/-! ### Keys -/

/-- What the provider reads of an API key. -/
structure Key where
  scope : String
  groups : List String := []
  /-- The hosts it is limited to, when there are any. -/
  hostIDs : List String := []
  revoked : Bool := false
  deriving DecidableEq

/-- `allowedByKey`. -/
def allowedByKey (k : Key) (t : Tool) : Bool :=
  if k.scope = "full" then true
  else if k.scope = "custom" then t.group.text ∈ k.groups
  else !t.writes

/-- The tool is not disabled in the settings. -/
def enabled (prefs : Dict String Settings.ToolPref) (t : Tool) : Bool :=
  (prefs.get? t.name).elim true (·.enabled)

/-- `Provider.Tools`, where `k` is the key with the given id, when there is one. -/
def tools (k : Option Key) (prefs : Dict String Settings.ToolPref) : List Tool :=
  match k with
  | none => []
  | some k =>
    if k.revoked then []
    else Tool.catalog.filter fun t => enabled prefs t && allowedByKey k t

theorem mem_tools {k : Option Key} {prefs : Dict String Settings.ToolPref} {t : Tool} :
    t ∈ tools k prefs ↔ ∃ k', k = some k' ∧ k'.revoked = false ∧ enabled prefs t = true ∧
      allowedByKey k' t = true := by
  cases k with
  | none => simp [tools]
  | some k => cases hk : k.revoked <;> simp [tools, hk, Tool.mem_catalog]

end Dockhand.Mcp
