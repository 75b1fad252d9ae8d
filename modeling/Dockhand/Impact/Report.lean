import Dockhand.Impact.Checks
import Mathlib.Data.List.Dedup

/-!
# What breaks when containers stop

The report of `impact.go` on a set of containers that would stop, and the monitors it lists. Strings
are lists of bytes.
-/

namespace Dockhand.Impact

open Go
open Dockhand.Uptime (MonitorType Verdict)

/-! ### The report -/

/-- How much an effect of an action matters. -/
inductive Severity where
  | info | warn | crit
  deriving DecidableEq

/-- The order of `sev` and `sortItems`, the worst first. -/
def Severity.rank : Severity → ℕ
  | .crit => 0
  | .warn => 1
  | .info => 2

/-- `sev`. -/
def sev (worst s : Severity) : Severity := if s.rank < worst.rank then s else worst

/-- `ImpactItem`: one line of the report. -/
structure ImpactItem where
  kind : String
  name : List Char
  detail : List Char
  host : List Char
  severity : Severity
  href : List Char := []
  deriving DecidableEq

/-- What an action is aimed at. -/
inductive Target where
  | host | stack | container
  deriving DecidableEq

/-- `model.Impact`. -/
structure Report where
  target : Target
  name : List Char
  host : List Char
  action : String
  summary : List Char := []
  severity : Severity := .info
  stops : List ImpactItem := []
  stackItems : List ImpactItem := []
  monitors : List ImpactItem := []
  ports : List ImpactItem := []
  depends : List ImpactItem := []
  safe : List (List Char) := []

/-- `live`. -/
def live (c : Container) : Bool :=
  c.state ∈ ["running".toList, "restarting".toList, "paused".toList]

/-- `plural`. -/
def plural (n : ℕ) : List Char := if n = 1 then [] else ['s']

/-- A number as `%d` writes it. -/
def decimal (n : ℤ) : List Char := n.repr.toList

/-- The ports that stop answering. -/
def publishedPorts (stopping : List Container) : List ℤ :=
  ((stopping.filter live).flatMap Container.ports).filter (0 < ·)

section

variable (lower : ToLower)

/-- `sortItems`: the worst first, those alike by name. -/
def sortItems (l : List ImpactItem) : List ImpactItem :=
  l.mergeSort fun a b =>
    if a.severity.rank = b.severity.rank then lower.map a.name ≤ lower.map b.name
    else a.severity.rank < b.severity.rank

/-- `summarize`. -/
def summarize (i : Report) (action : String) : List Char :=
  let verb :=
    match action with
    | "reboot" => "Rebooting"
    | "stop" => "Stopping"
    | "patch" => "Patching"
    | "down" => "Taking down"
    | _ => "This"
  let count := fun (n : ℕ) (what after : String) =>
    decimal n ++ what.toList ++ plural n ++ after.toList
  if i.stops = [] then verb.toList ++ ' ' :: i.name ++ " stops nothing that is running.".toList
  else
    let parts := [count i.stops.length " container" " stop"] ++
      (if i.stackItems.length > 0 then [count i.stackItems.length " stack" ""] else []) ++
      (if i.ports.length > 0 then [count i.ports.length " published port" ""] else []) ++
      (if i.monitors.length > 0 then [count i.monitors.length " uptime check" " will fail"] else [])
    verb.toList ++ ' ' :: i.name ++ ": ".toList ++ ", ".toList.intercalate parts ++ ['.']

/-- The item of a container that stops. -/
def stopItem (rec : Record) (c : Container) : ImpactItem :=
  { kind := "container", name := c.name
    detail := if c.stack ≠ [] then c.stack ++ " · ".toList ++ c.image else c.image
    host := rec.name
    severity := if c.health = "healthy".toList ∨ c.ports ≠ [] then .crit else .warn
    href := "/hosts/".toList ++ rec.id }

/-- The item of a monitor that will fail. -/
def monitorItem (rec : Record) (m : Monitor) : ImpactItem :=
  { kind := "monitor", name := m.name, detail := m.target, host := rec.name, severity := .crit
    href := "/uptime".toList }

/-- The ports that `build` looks for in a monitor: none in particular for a whole host. -/
def watchPorts (target : Target) (stopping : List Container) : Option (List ℤ) :=
  if target = .host then none else some (publishedPorts stopping)

/-- The monitors that the report lists. -/
def reported (rec : Record) (target : Target) (stopping : List Container) (mons : List Monitor) :
    List Monitor :=
  mons.filter fun m => m.enabled && watches lower m rec (watchPorts target stopping)

/-- `Service.build`. The monitors are `none` where they cannot be read. -/
def build (rec : Record) (target : Target) (name : List Char) (action : String)
    (stopping : List Container)
    (mons : Option (List Monitor)) (extra : Report → Report) : Report :=
  let stops := stopping.filter live
  let stackNames := (stops.map Container.stack).filter (· ≠ [])
  let restarts := stops.countP fun c => c.restartPolicy ≠ [] ∧ c.restartPolicy ≠ "no".toList
  -- the local host is reached through the Docker socket
  let addr :=
    if rec.method = "local".toList ∨ "unix://".toList <+: rec.address ∨
      rec.address = [] then rec.name
    else rec.address
  let out := extra
    { target := target, name := name, host := rec.name, action := action
      stops := stops.map (stopItem rec)
      stackItems := stackNames.dedup.map fun s =>
        { kind := "stack", name := s
          detail := decimal (stackNames.count s) ++ " service".toList ++ plural (stackNames.count s)
          host := rec.name, severity := .warn, href :=
            "/hosts/".toList ++ rec.id ++ "?tab=stacks".toList }
      ports := (publishedPorts stopping).dedup.map fun p =>
        { kind := "port", name := addr ++ ':' :: decimal p
          detail := "published port stops answering".toList
          host := rec.name, severity := .warn }
      monitors := (reported lower rec target stopping (mons.getD [])).map (monitorItem rec) }
  let out :=
    { out with
      stops := sortItems lower out.stops
      stackItems := sortItems lower out.stackItems
      monitors := sortItems lower out.monitors
      ports := sortItems lower out.ports
      depends := sortItems lower out.depends }
  let out :=
    { out with
      severity := ((out.stops ++ out.monitors).map ImpactItem.severity).foldl sev out.severity
      safe := out.safe ++
        (if restarts > 0 then
          [decimal restarts ++ " container".toList ++ plural restarts ++
            " come back by themselves (restart policy)".toList]
        else []) ++
        (if out.stops = [] then ["Nothing is running that would stop".toList] else []) }
  { out with summary := summarize out action }

/-- `dependents`: the other containers of the stacks that lose one. -/
def dependents (rec : Record) (all stopping : List Container) : List ImpactItem :=
  let gone := stopping.map Container.id
  let stopped := (stopping.map Container.stack).filter (· ≠ [])
  (all.filter fun c => c.id ∉ gone ∧ live c ∧ c.stack ∈ stopped).map fun c =>
    { kind := "container", name := c.name, detail := "same stack — may depend on it".toList
      host := rec.name
      severity := .info, href := "/hosts/".toList ++ rec.id }

/-- `Service.Host`. -/
def Service.host (rec : Record) (action : String) (all : List Container)
    (mons : Option (List Monitor)) : Report :=
  let action := if action = "" then "reboot" else action
  build lower rec .host rec.name action all mons fun out =>
    if action = "reboot" then
      { out with safe := out.safe ++ ["The host comes back on its own after the reboot".toList] }
    else out

/-- `Service.Stack`. -/
def Service.stack (rec : Record) (name : List Char) (action : String) (all : List Container)
    (mons : Option (List Monitor)) : Report :=
  let mine := all.filter fun c => c.stack = name
  build lower rec .stack name (if action = "" then "down" else action) mine mons fun out =>
    { out with depends := out.depends ++ dependents rec all mine }

/-- `Service.Container`, `none` where there is no such container. -/
def Service.container (rec : Record) (cid : List Char) (action : String) (all : List Container)
    (mons : Option (List Monitor)) : Option Report :=
  let mine := all.filter fun c => c.id = cid ∨ cid <+: c.id ∨ c.name = cid
  mine.head?.map fun c =>
    build lower rec .container c.name (if action = "" then "stop" else action) mine mons fun out =>
      { out with depends := out.depends ++ dependents rec all mine }

end

end Dockhand.Impact
