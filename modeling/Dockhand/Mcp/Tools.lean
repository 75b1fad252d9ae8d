import Dockhand.Mcp.Provider
import Dockhand.Monitor.Updates

/-!
# The tools

`run` is the body of every tool over the `Services` that work on the hosts; `call` checks the key
and asks for a confirmation before it runs a tool, and `toolsCall` is the answer to a message.

The services are parameters. Each works on the data of one host and on what belongs to no host; a
service that starts a job returns the job as it is when the provider stops waiting for it.
-/

namespace Dockhand.Mcp

open Go Transition Monitor.Updates

/-! ### What the services return -/

/-- `model.Host`, as far as the tools show it. -/
structure HostView where
  id : String
  name : String
  address : String
  status : String
  os : String
  kernel : String
  dockerVersion : String
  cpuCores : ℤ
  uptimeSec : ℤ
  cpu : ℚ
  mem : ℚ
  disk : ℚ
  memUsed : ℤ
  memTotal : ℤ
  diskUsed : ℤ
  diskTotal : ℤ
  running : ℤ
  total : ℤ
  updates : ℤ
  lastSeenAt : Json
  lastError : String

/-- A published port of a container. -/
structure PortMap where
  host : ℕ
  container : ℕ
  proto : String

/-- A container as the tools list it. -/
structure ContainerView where
  name : String
  image : String
  state : String
  status : String
  health : String
  stack : String
  ports : List PortMap
  cpu : ℚ
  memUsed : ℤ
  updateAvailable : Bool

/-- A variable of a container; a secret one is shown masked. -/
structure EnvVar where
  k : String
  v : String
  secret : Bool

/-- `model.ContainerDetail`: the fields that the tool changes, and the ones before, between and
behind them. -/
structure Detail where
  before : Obj
  env : List EnvVar
  between : Obj
  history : Json
  events : List Json

/-- A line of a log. -/
structure LogLine where
  t : String
  stream : String
  line : String

/-- The part of a log that is asked for. -/
structure LogOpts where
  tail : String
  since : String

/-- A service of a stack, and its state. -/
structure StackService where
  name : String
  state : String

/-- A stack as the tools list it. -/
structure StackView where
  name : String
  status : String
  source : String
  path : String
  repo : String
  branch : String
  services : List StackService

/-- A compose file, where it lies and what it says. -/
structure ComposeFile where
  path : String
  content : String

/-- An image as the tools list it. -/
structure ImageView where
  repo : String
  tag : String
  shortID : String
  size : ℤ
  createdAt : Json
  containers : ℤ
  dangling : Bool

/-- What removing unused images has done. -/
structure PruneResult where
  count : ℕ
  reclaimed : ℕ

/-- A step of a job. -/
structure JobStep where
  status : String
  label : String
  sub : String

/-- A job as the tools show it, with its steps and its log. -/
structure Job where
  id : String
  title : String
  status : String
  steps : List JobStep
  log : List String

/-- What a redeploy is asked to do besides. -/
structure StackGitUpdate where
  force : Bool
  pullImages : Bool
  noCache : Bool

/-- What a deploy from GitHub is asked for. -/
structure GitDeployInput where
  owner : String
  name : String
  branch : String
  composeFile : String
  path : String

/-- What a new container is asked for. -/
structure RunContainerInput where
  image : String
  name : String
  restart : String
  ports : List (String × String)
  volumes : List (String × String)
  env : List (String × String)

/-- The log of a pull and its error. -/
structure PullLog where
  lines : List String
  err : Option String

/-- The services that the tools call. -/
structure Services (γ δ : Type) where
  hostView : Action γ δ HostView
  reboot : Action γ δ Unit
  containers : Action γ δ (List ContainerView)
  detail : String → Action γ δ Detail
  /-- The container, the action and the actor. -/
  action : String → String → String → Action γ δ ContainerView
  /-- The container, whether it may run, and the actor. -/
  remove : String → Bool → String → Action γ δ Unit
  updateContainer : String → String → Action γ δ Job
  logs : String → LogOpts → Action γ δ (List LogLine)
  stackList : Action γ δ (List StackView)
  getCompose : String → Action γ δ ComposeFile
  /-- The stack, the action and the actor. -/
  stackAction : String → String → String → Action γ δ Job
  pullAndRebuild : String → StackGitUpdate → String → Action γ δ Job
  /-- The stack, the content and the actor. -/
  putCompose : String → String → String → Action γ δ Job
  images : Action γ δ (List ImageView)
  pull : String → Action γ δ PullLog
  /-- What is recorded of a pull of an image by an actor: the log of each host, by its name. -/
  pullJob : String → String → List (String × Except CallError PullLog) → γ → Job
  pruneImages : Action γ δ PruneResult
  /-- The compose files of a repository at a branch. -/
  inspect : String → String → String → γ → Except CallError (List String) × γ
  deploy : GitDeployInput → String → Action γ δ Job
  run : RunContainerInput → String → Action γ δ Job

/-! ### Rows -/

section

variable (F : Fmt)

/-- A host in the answer of `list_hosts`. -/
def hostRow (v : HostView) : Json :=
  .obj [("ID", .str v.id), ("Name", .str v.name), ("Address", .str v.address),
    ("Status", .str v.status), ("OS", .str v.os), ("DockerVersion", .str v.dockerVersion),
    ("Running", .num v.running), ("Total", .num v.total), ("Updates", .num v.updates),
    ("CPU", .num v.cpu), ("Mem", .num v.mem), ("Disk", .num v.disk)]

/-- A host in the answer of `host_stats`, whose keys come sorted since the code builds a map. -/
def statsRow (v : HostView) : Json :=
  .obj (Json.inKeyOrder [("name", .str v.name), ("status", .str v.status), ("cpuPct", .num v.cpu),
    ("cpuCores", .num v.cpuCores), ("memPct", .num v.mem),
    ("memUsed", .str (F.humanBytes v.memUsed)), ("memTotal", .str (F.humanBytes v.memTotal)),
    ("diskPct", .num v.disk), ("diskUsed", .str (F.humanBytes v.diskUsed)),
    ("diskTotal", .str (F.humanBytes v.diskTotal)), ("uptime", .str (F.duration v.uptimeSec)),
    ("containersRunning", .num v.running), ("containersStopped", .num (v.total - v.running : ℤ)),
    ("imageUpdates", .num v.updates), ("os", .str v.os), ("kernel", .str v.kernel),
    ("dockerVersion", .str v.dockerVersion), ("lastSeenAt", v.lastSeenAt),
    ("lastError", .str v.lastError)])

/-- A published port with the port of the host in front, or an exposed one. -/
def portText (p : PortMap) : String :=
  if 0 < p.host then toString p.host ++ ":" ++ toString p.container ++ "/" ++ p.proto
  else toString p.container ++ "/" ++ p.proto

/-- A container in the answer of `list_containers`, with the host that it runs on. -/
def containerRow (host : String) (ct : ContainerView) : Json :=
  .obj ([("Host", .str host), ("Name", .str ct.name), ("Image", .str ct.image),
    ("State", .str ct.state), ("Status", .str ct.status), ("Health", .str ct.health),
    ("Stack", .str ct.stack), ("Ports", .arr (ct.ports.map fun p => .str (portText p))),
    ("CPU", .num ct.cpu), ("Mem", .str (F.humanBytes ct.memUsed))] ++
    if ct.updateAvailable then [("UpdateAvailable", .bool true)] else [])

/-- The details without the secrets, the history and all but the first events. -/
def detailRow (d : Detail) : Json :=
  .obj (d.before ++ [("env", .arr (d.env.map fun e =>
      .obj [("k", .str e.k), ("v", .str (if e.secret then "••••••" else e.v)),
        ("secret", .bool e.secret)]))] ++
    d.between ++ [("history", .obj [("cpu", .arr []), ("mem", .arr []), ("netRx", .arr []),
      ("netTx", .arr [])]), ("events", .arr (d.events.take 15))])

/-- A stack in the answer of `list_stacks`. -/
def stackRow (s : StackView) : Json :=
  .obj [("Name", .str s.name), ("Status", .str s.status), ("Source", .str s.source),
    ("Path", .str s.path), ("Repo", .str s.repo), ("Branch", .str s.branch),
    ("Services", .arr (s.services.map fun sv => .str (sv.name ++ " (" ++ sv.state ++ ")")))]

/-- An image in the answer of `list_images`. -/
def imageRow (im : ImageView) : Json :=
  .obj [("Repo", .str im.repo), ("Tag", .str im.tag), ("ID", .str im.shortID),
    ("Size", .str (F.humanBytes im.size)), ("Created", im.createdAt),
    ("InUse", .bool (0 < im.containers)), ("Dangling", .bool im.dangling)]

/-- `jobSummary`: a job as a text, with its steps and the last lines of its log. -/
def jobSummary (j : Job) : String :=
  j.title ++ ": " ++ j.status ++ " (job " ++ j.id ++ ")\n" ++
    String.join (j.steps.map fun s => "- [" ++ s.status ++ "] " ++ s.label ++ " " ++ s.sub ++
      "\n") ++
    if j.log = [] then ""
    else "Last log lines:\n" ++
      String.join ((j.log.drop (j.log.length - 25)).map fun l => "  " ++ l ++ "\n")

/-- `waitJob`, at the end of the wait. -/
def waitJob (j : Job) : String :=
  if j.status = "running" then
    "Job " ++ j.id ++ " is still running in the background (open Dockhand → Deploy to follow it)."
  else jobSummary j

/-- The lines of a log that the tool shows, and the text for none of them. -/
def logText (search : Bool) (q : String) (lines : List LogLine) : String :=
  let matching := lines.filter fun l => q = "" || contains (F.toLower l.line) q
  let shown := if search then matching.take 300 else matching
  let out := String.join (shown.map fun l => l.t ++ " " ++ l.stream ++ " " ++ l.line ++ "\n")
  let out := if 200000 < out.utf8ByteSize then "… (truncated)\n" ++ F.lastBytes 200000 out else out
  if out = "" then (if search then "No matching lines." else "No log output.") else out

end

/-! ### The bodies of the tools -/

section

variable {γ δ : Type} (F : Fmt) (sv : Services γ δ) (c : CallCtx)

/-- The monitor shows a host by the record it is given. -/
def view (r : Record) : Prog CallError (Session γ δ) HostView := fun s =>
  let out := sv.hostView s.shared (s.data r.id)
  (out.1, s.after .view r.id out.2.1 out.2.2)

/-- The hosts that `list_containers` is called for. -/
def listedHosts : Prog CallError (Session γ δ) (List Record) :=
  if c.str F "host" ≠ "" then do
    let r ← host F c (c.str F "host")
    return [r]
  else allowedHosts c.key

/-- The rows of the containers of a host, none when they cannot be listed. -/
def containerRows (r : Record) : Prog CallError (Session γ δ) (List Json) := do
  match ← Prog.attempt (perform .containers sv.containers r.id) with
  | .error _ => return []
  | .ok ctrs =>
    return (ctrs.filter fun ct => c.boolean "all" || ct.state = "running").map
      (containerRow F r.name)

/-- The tools `get_logs` and `search_logs`. -/
def logs (search : Bool) : Prog CallError (Session γ δ) String := do
  let r ← host F c (c.str F "host")
  let since := c.str F "since"
  let n := c.int F "tail" 200
  let q := F.toLower (c.str F "query")
  if search && q = "" then .throw (.user "query is required")
  else
    let since := if search && since = "" then "24h" else since
    let tail := if search then "20000" else if n < 1 || 5000 < n then "200" else toString n
    let lines ← perform .logs (sv.logs (c.str F "container") ⟨tail, since⟩) r.id
    return logText F search q lines

/-- The tools `start_container`, `stop_container` and `restart_container`. -/
def containerAction (t : Tool) : Prog CallError (Session γ δ) String := do
  let r ← host F c (c.str F "host")
  let action := trimSuffix t.name "_container"
  let ct ← perform .action (sv.action (c.str F "container") action c.actor) r.id
  return ct.name ++ " on " ++ r.name ++ " is now " ++ ct.state ++ " (" ++ ct.status ++ ")."

/-- `hosts.Store.Get`, in a service. -/
def storeGet (id : String) : Prog CallError (Session γ δ) Record :=
  .reads fun s => (s.hosts.get id).elim (.error (.other "host not found")) .ok

/-- `PullJob` and the job that it starts: a host that cannot be reached does not keep the others
from being pulled on. -/
def pullJob (image : String) (ids : List String) : Prog CallError (Session γ δ) Job :=
  let ref := trimSpace image
  if ref = "" then .throw (.badRequest "image is required")
  else if ids = [] then .throw (.badRequest "select at least one host")
  else do
    let ref := normalizeRef ref
    let targets ← Prog.each storeGet ids
    let logs ← Prog.each (fun r : Record => do
      let log ← Prog.attempt (perform .pull (sv.pull ref) r.id)
      return (r.name, log)) targets
    Prog.reads fun s => .ok (sv.pullJob ref c.actor logs s.shared)

/-- `gitdeploy.Service.Inspect`, which asks no host. -/
def inspect (owner repo ref : String) : Prog CallError (Session γ δ) (List String) := fun s =>
  let out := sv.inspect owner repo ref s.shared
  (out.1, { s with shared := out.2 })

/-- The ids of the hosts that `pull_image` is called for. -/
def pullHosts : Prog CallError (Session γ δ) (List String) := do
  let hs ← Prog.each (fun h => host F c h) (c.strs "hosts")
  if hs = [] ∧ c.str F "host" ≠ "" then
    let r ← host F c (c.str F "host")
    return [r.id]
  else return hs.map Record.id

/-- The compose file that `deploy_from_github` deploys. -/
def composeFile (owner repo : String) : Prog CallError (Session γ δ) String :=
  if c.str F "composeFile" = "" then do
    let files ← inspect sv owner repo (c.str F "branch")
    match files with
    | [] => .throw (.user ("no compose file found in " ++ owner ++ "/" ++ repo))
    | cf :: _ => return cf
  else return c.str F "composeFile"

/-- A port "host:container", where the host's may be missing. -/
def portArg (ps : String) : String × String := (cut ps ":").getD ("", ps)

/-- An entry of `volumes` is cut at its first colon. -/
def volumeArg (vs : String) : Except CallError (String × String) :=
  match cut vs ":" with
  | none => .error (.user ("volume " ++ F.quote vs ++ " must be source:target"))
  | some p => .ok p

/-- The variables of a new container, in the order in which the map is gone through. -/
def envArg : List (String × String) :=
  match (c.args.lookup "env").bind Json.asObj? with
  | some env => (F.mapOrder env).map fun e => (e.1, F.sprint e.2)
  | none => []

/-- `Provider.run`. -/
def run : Tool → Prog CallError (Session γ δ) String
  | .listHosts => do
    let list ← allowedHosts c.key
    let rows ← Prog.each (fun r => do return hostRow (← view sv r)) list
    return F.js (.arr rows)
  | .hostStats => do
    let r ← host F c (c.str F "host")
    let v ← view sv r
    return F.js (statsRow F v)
  | .rebootHost => do
    let r ← host F c (c.str F "host")
    perform .reboot sv.reboot r.id
    return "Reboot requested for " ++ r.name ++ "."
  | .listContainers => do
    let hs ← listedHosts F c
    let rows ← Prog.each (containerRows F sv c) hs
    return F.js (.arr rows.flatten)
  | .inspectContainer => do
    let r ← host F c (c.str F "host")
    let d ← perform .detail (sv.detail (c.str F "container")) r.id
    return F.js (detailRow d)
  | .startContainer => containerAction F sv c .startContainer
  | .stopContainer => containerAction F sv c .stopContainer
  | .restartContainer => containerAction F sv c .restartContainer
  | .removeContainer => do
    let r ← host F c (c.str F "host")
    perform .remove (sv.remove (c.str F "container") (c.boolean "force") c.actor) r.id
    return "Removed " ++ c.str F "container" ++ " on " ++ r.name ++ "."
  | .updateContainer => do
    let r ← host F c (c.str F "host")
    let job ← perform .updateContainer (sv.updateContainer (c.str F "container") c.actor) r.id
    return waitJob job
  | .getLogs => logs F sv c false
  | .searchLogs => logs F sv c true
  | .listStacks => do
    let r ← host F c (c.str F "host")
    let list ← perform .stackList sv.stackList r.id
    return F.js (.arr (list.map stackRow))
  | .getCompose => do
    let r ← host F c (c.str F "host")
    let f ← perform .getCompose (sv.getCompose (c.str F "stack")) r.id
    return "# " ++ f.path ++ "\n" ++ f.content
  | .stackAction => do
    let r ← host F c (c.str F "host")
    let job ← perform .stackAction (sv.stackAction (c.str F "stack") (c.str F "action") c.actor)
      r.id
    return waitJob job
  | .pullAndRebuild => do
    let r ← host F c (c.str F "host")
    let how := ⟨c.boolean "force", c.boolean "pull_images", c.boolean "no_cache"⟩
    let job ← perform .pullAndRebuild (sv.pullAndRebuild (c.str F "stack") how c.actor) r.id
    return waitJob job
  | .updateCompose => do
    let r ← host F c (c.str F "host")
    let job ← perform .putCompose (sv.putCompose (c.str F "stack") (c.str F "content") c.actor) r.id
    return waitJob job
  | .listImages => do
    let r ← host F c (c.str F "host")
    let imgs ← perform .images sv.images r.id
    return F.js (.arr (imgs.map (imageRow F)))
  | .pullImage => do
    let ids ← pullHosts F c
    let job ← pullJob sv c (c.str F "image") ids
    return waitJob job
  | .pruneImages => do
    let r ← host F c (c.str F "host")
    let res ← perform .pruneImages sv.pruneImages r.id
    return "Removed " ++ toString res.count ++ " images on " ++ r.name ++ ", reclaimed " ++
      F.humanBytes res.reclaimed ++ "."
  | .deployFromGithub => do
    let r ← host F c (c.str F "host")
    match cut (c.str F "repo") "/" with
    | none => .throw (.user "repo must be \"owner/name\"")
    | some (owner, repo) =>
      if owner = "" ∨ repo = "" then .throw (.user "repo must be \"owner/name\"")
      else do
        let cf ← composeFile F sv c owner repo
        let input := ⟨owner, repo, c.str F "branch", cf, c.str F "path"⟩
        let job ← perform .deploy (sv.deploy input c.actor) r.id
        return waitJob job
  | .runContainer => do
    let r ← host F c (c.str F "host")
    let restart := if c.str F "restart" = "" then "unless-stopped" else c.str F "restart"
    let volumes ← .ofExcept ((c.strs "volumes").mapM (volumeArg F))
    let input := ⟨c.str F "image", c.str F "name", restart, (c.strs "ports").map portArg, volumes,
      envArg F c⟩
    let job ← perform .run (sv.run input c.actor) r.id
    return waitJob job

end

/-! ### Calls -/

/-- `summarize`. -/
def summarize (F : Fmt) (args : Obj) : String :=
  let shown := (Json.inKeyOrder args).filter fun e => e.1 ∉ ["confirm", "content", "env"]
  truncate (" ".intercalate (shown.map fun e => e.1 ++ "=" ++ F.sprint e.2)) 200

/-- `describe`. -/
def describe (F : Fmt) (c : CallCtx) (t : Tool) : String :=
  let h := c.str F "host"
  let ctr := c.str F "container"
  let st := c.str F "stack"
  match t with
  | .rebootHost => "reboot host " ++ h ++ "; every container on it goes down until it is back"
  | .startContainer | .stopContainer | .restartContainer =>
    trimSuffix t.name "_container" ++ " container " ++ ctr ++ " on " ++ h
  | .removeContainer => "permanently remove container " ++ ctr ++ " on " ++ h
  | .updateContainer => "pull the latest image for " ++ ctr ++ " on " ++ h ++ " and recreate it"
  | .stackAction =>
    "run `docker compose " ++ c.str F "action" ++ "` for stack " ++ st ++ " on " ++ h
  | .updateCompose => "overwrite the compose file of stack " ++ st ++ " on " ++ h ++ " and apply it"
  | .pullAndRebuild =>
    if c.boolean "force" then
      "reset stack " ++ st ++ " on " ++ h ++
        " to its latest git commit (discarding local changes) and rebuild it"
    else "pull the latest git commit for stack " ++ st ++ " on " ++ h ++ " and rebuild it"
  | .pullImage => "pull image " ++ c.str F "image"
  | .pruneImages => "delete all unused images on " ++ h
  | .deployFromGithub => "deploy " ++ c.str F "repo" ++ " to " ++ h
  | .runContainer =>
    "start a new container " ++ c.str F "name" ++ " from " ++ c.str F "image" ++ " on " ++ h
  | _ => "run " ++ t.name

/-- The answer to a message. -/
inductive Response where
  | rpcError (code : ℤ) (message : String)
  | result (text : String) (isError : Bool)
  deriving DecidableEq

/-- What a call is answered from: the services, the keys by their ids and the settings of the tools.
-/
structure Provider (γ δ : Type) where
  fmt : Fmt
  services : Services γ δ
  keys : String → Option Key
  prefs : Dict String Settings.ToolPref

namespace Provider

variable {γ δ : Type} (P : Provider γ δ)

/-- What the settings say of a tool; a tool that they do not name is switched off. -/
def pref (t : Tool) : Settings.ToolPref := (P.prefs.get? t.name).getD {}

/-- The context of a call, with the name under which its actions are recorded. -/
def ctx (k : Key) (keyName : String) (args : Obj) : CallCtx := ⟨k, args, "mcp:" ++ keyName⟩

/-- The text of an error. -/
def errorText : CallError → String
  | .other msg => "Error: " ++ msg
  | e => e.msg

/-- The answer to a call by the outcome of its tool. -/
def answer : Except CallError String × Session γ δ → Response × Session γ δ
  | (.ok text, s) => (.result text false, s)
  | (.error e, s) => (.result (errorText e) true, s)

/-- The answer to a call that has to be confirmed first: it says what the call would do. -/
def confirmationRequired (c : CallCtx) (t : Tool) : Response :=
  .result ("Confirmation required. This would " ++ describe P.fmt c t ++ " (" ++
    summarize P.fmt c.args ++ "). Ask the user to confirm, then call " ++ t.name ++
    " again with \"confirm\": true.") true

/-- `Provider.Call`. -/
def call (keyID keyName name : String) (args : Obj) (s : Session γ δ) : Response × Session γ δ :=
  match Tool.ofName? name with
  | none => (.result ("unknown tool " ++ name) true, s)
  | some t =>
    match (P.keys keyID).filter fun k => !k.revoked && allowedByKey k t with
    | none => (.result ("This API key may not use " ++ name ++ ".") true, s)
    | some k =>
      let c := ctx k keyName args
      if t.writes && (P.pref t).confirm && !c.boolean "confirm" then
        (P.confirmationRequired c t, s)
      else
        answer (run P.fmt P.services c t s)

/-- The error of a call that does not say which tool it is for. -/
def missingName : Response := .rpcError (-32602) "invalid params: missing tool name"

/-- The answer to a call of a tool that is not there, or not for this key. -/
def unknownTool (name : String) : Response :=
  .result ("Unknown tool " ++ P.fmt.quote name ++ ", or it is not enabled for this API key.") true

/-- The branch `tools/call` of `dispatch`. -/
def toolsCall (keyID keyName params : String) (s : Session γ δ) : Response × Session γ δ :=
  if params = "" then (missingName, s)
  else
    match P.fmt.decodeParams params with
    | .error e => (.rpcError (-32602) ("invalid params: " ++ e), s)
    | .ok (name, arguments) =>
      if name = "" then (missingName, s)
      else if name ∈ (tools (P.keys keyID) P.prefs).map Tool.name then
        P.call keyID keyName name (arguments.getD []) s
      else
        (P.unknownTool name, s)

end Provider

end Dockhand.Mcp
