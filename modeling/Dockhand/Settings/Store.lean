import Dockhand.Go.Strings
import Dockhand.Settings.Schema
import Mathlib.Logic.Function.Basic

/-!
# The settings store

`Store` caches the settings and persists one JSON row per section. `Store.load` overlays the
stored rows on the defaults; `Store.patch` deep-merges a patch into the cached settings,
validates and normalizes the result and saves the sections that the patch names, one row at a
time; `Store.update` applies a function to the cached settings and saves one section. Each save
writes the value of the row and the time in `updated_at`.

A patch and the sections it names are `GoMap`s, visited in the order of their entries. `validate`
uses the time-zone database and the window parser that the system package installs; both are fields
of `Env`.
-/

namespace Dockhand.Settings

open Go

/-! ### Maps -/

mutual

/-- The value a patched key gets: maps merge, everything else replaces. -/
def mergeValue : Option Json → Json → Json
  | some (.obj bm), .obj pm => .obj (deepMerge bm pm)
  | _, v => v

/-- `deepMerge` overlays `patch` onto `base` recursively. -/
def deepMerge : Obj → Obj → Obj
  | base, [] => base
  | base, (k, v) :: patch => deepMerge (Assoc.set k (mergeValue (base.lookup k) v) base) patch

end

/-- `toMap`: every section as a map. -/
def toMap (s : Settings) (k : Section) : Obj := encodeStruct k.fields (s.sec k)

/-- `fromMap`: decode every section into a zero struct. -/
def fromMap (m : Section → Obj) : Option Settings := do
  let general ← decodeStruct General.fields (m .general) {}
  let uptime ← decodeStruct Uptime.fields (m .uptime) {}
  let github ← decodeStruct GitHub.fields (m .github) {}
  let mcp ← decodeStruct MCP.fields (m .mcp) {}
  let updates ← decodeStruct Updates.fields (m .updates) {}
  let notifications ← decodeStruct Notifications.fields (m .notifications) {}
  let registry ← decodeStruct Registry.fields (m .registry) {}
  return { general, uptime, github, mcp, updates, notifications, registry }

/-! ### Defaults, validation and normalization -/

/-- An MCP tool, for its default preference. -/
structure ToolInfo where
  name : String
  writes : Bool

/-- The default settings. `tools` is the MCP catalog. -/
def defaults (publicURL : String) (tools : List ToolInfo) : Settings where
  general := { publicURL, domain := "home.arpa" }
  uptime := { intervalSec := 60, retries := 2, hostIDs := [], autoMonitor := true, notify := true }
  github := { autoDeploy := true, onlyCompose := true }
  mcp :=
    { transport := "http"
      tools := tools.foldl (fun tp t => tp.set t.name { enabled := true, confirm := t.writes }) ∅ }
  updates :=
    { channel := "stable", window := "Sun 03:00–05:00", backup := true, build := "pull"
      repo := "ollieInstantOffr/app-dockhand"
      composeFile := "/opt/dockhand/docker-compose.yml" }
  notifications :=
    { hostDown := true, containerCrash := true, unhealthy := true, updates := true
      diskSpace := true, deploys := true }
  registry := {}

/-- The defaults the server starts with: new installs serve MCP on the published port. -/
def serverDefaults (publicURL : String) (tools : List ToolInfo) (mcpPort : Int64) : Settings :=
  let d := defaults publicURL tools
  { d with mcp := { d.mcp with port := mcpPort } }

/-- What validation asks of its surroundings: whether a time zone is known, and the error of the
window parser, when one is installed. -/
structure Env where
  loadLocation : String → Bool
  validateWindow : Option (String → Option String)

/-- The registry address without scheme and trailing slash. -/
def trimAddress (address : String) : String :=
  trimSuffix (trimPrefix (trimPrefix (trimSpace address) "https://") "http://") "/"

/-- The public URL without surrounding space and trailing slashes. -/
def trimURL (url : String) : String := trimRight (trimSpace url) "/"

/-- `validate` checks the settings and trims five of their fields. -/
def validate (env : Env) (s : Settings) : Except String Settings :=
  if ¬ (s.uptime.intervalSec = 30 ∨ s.uptime.intervalSec = 60 ∨ s.uptime.intervalSec = 300) then
    .error "uptime.intervalSec must be 30, 60 or 300"
  else if s.uptime.retries < 1 ∨ s.uptime.retries > 3 then
    .error "uptime.retries must be 1–3"
  else if ¬ (s.mcp.transport = "http" ∨ s.mcp.transport = "sse") then
    .error "mcp.transport must be http or sse"
  else if s.mcp.port ≠ 0 ∧ (s.mcp.port < 1024 ∨ s.mcp.port > 65535) then
    .error "mcp.port must be 1024–65535, or 0 to use Dockhand's own port"
  else if ¬ (s.updates.channel = "stable" ∨ s.updates.channel = "beta" ∨
      s.updates.channel = "nightly") then
    .error "updates.channel must be stable, beta or nightly"
  else if ¬ (s.updates.build = "pull" ∨ s.updates.build = "build") then
    .error "updates.build must be pull or build"
  else
    let address := trimAddress s.registry.address
    if containsAny address "/ " then
      .error "registry.address must be a host or host:port, e.g. dockhand.lan:5773"
    else
      let timezone := trimSpace s.updates.timezone
      if timezone ≠ "" ∧ ¬ env.loadLocation timezone then
        .error ("updates.timezone: unknown time zone \"" ++ timezone ++ "\"")
      else
        match env.validateWindow.bind (· s.updates.window) with
        | some msg => .error ("updates.window: " ++ msg)
        | none => .ok
          { s with
            registry := { s.registry with address }
            updates := { s.updates with timezone }
            general := { publicURL := trimURL s.general.publicURL
                         domain := trimSpace s.general.domain } }

/-- The tools of `d` that `t` does not mention are added to it. -/
def fillTools (t d : Dict String ToolPref) : Dict String ToolPref :=
  d.entries.foldl (fun t e => if (t.get? e.1).isSome then t else t.set e.1 e.2) t

/-- `normalize` fills what is missing from the defaults `d`. -/
def normalize (s d : Settings) : Settings :=
  { s with
    mcp := { s.mcp with tools := fillTools s.mcp.tools d.mcp.tools }
    general :=
      { s.general with
        publicURL := if s.general.publicURL = "" then d.general.publicURL else s.general.publicURL }
    updates :=
      { s.updates with
        -- early builds shipped a placeholder update repo
        repo := if s.updates.repo = "" ∨ s.updates.repo = "dockhand-app/dockhand" then
            d.updates.repo
          else s.updates.repo } }

/-! ### The store -/

/-- A row of the `settings` table, without its key. -/
structure Row where
  value : Json
  updatedAt : ℕ

/-- The section rows of the table. -/
abbrev Rows := Section → Option Row

/-- The cache and the table, with the defaults that lie under both. -/
structure Store where
  defaults : Settings
  cur : Settings
  rows : Rows

/-- A stored row overlaid on the map of the defaults; a row that is not an object is ignored. -/
def overlay (base : Obj) : Option Row → Obj
  | some ⟨.obj sec, _⟩ => deepMerge base sec
  | _ => base

/-- The settings that the rows stand for under the defaults `d`. -/
def readRows (d : Settings) (rows : Rows) : Option Settings :=
  (fromMap fun k => overlay (toMap d k) (rows k)).map (normalize · d)

/-- `Load` replaces the cache by what the rows stand for; `none` when they do not decode. -/
def Store.load (st : Store) : Option Store :=
  (readRows st.defaults st.rows).map fun out => { st with cur := out }

/-- The keys that are computed on read and never written. -/
def readOnly : Section → List String
  | .github => ["webhookUrl", "webhookSecret", "appConfigured", "oauthConfigured",
      "appInstallUrl", "secretEnc"]
  | _ => []

/-- A section's patch without the read-only keys. -/
def stripReadOnly (k : Section) (vals : Obj) : Obj :=
  (readOnly k).foldl (fun vals key => Assoc.del key vals) vals

/-- A partial update, keyed by section name. -/
abbrev SettingsPatch := GoMap String (GoMap String Json)

/-- Why `Patch` refuses a request, or gives it up. -/
inductive PatchError
  | unknownSection (name : String)
  | invalidSettings
  | validation (msg : String)
  | write
  deriving DecidableEq

/-- The first loop of `Patch`: merge each named section and collect the names. -/
def mergePatch (cur : Section → Obj) :
    List (String × GoMap String Json) → Except PatchError ((Section → Obj) × List Section)
  | [] => .ok (cur, [])
  | (name, vals) :: patch =>
    match Section.ofKey? name with
    | none => .error (.unknownSection name)
    | some k =>
      let merged := deepMerge (cur k) (stripReadOnly k vals.entries)
      match mergePatch (Function.update cur k merged) patch with
      | .error e => .error e
      | .ok (m, changed) => .ok (m, k :: changed)

/-- `Patch` up to its save loop: the new settings and the sections to save. -/
def Store.prepare (env : Env) (st : Store) (patch : SettingsPatch) :
    Except PatchError (Settings × List Section) :=
  match mergePatch (toMap st.cur) patch.entries with
  | .error e => .error e
  | .ok (cur, changed) =>
    match fromMap cur with
    | none => .error .invalidSettings
    | some out =>
      match validate env out with
      | .error msg => .error (.validation msg)
      | .ok out => .ok (normalize out st.defaults, changed)

/-- `save` upserts the row of a section. -/
def save (now : ℕ) (rows : Rows) (k : Section) (m : Obj) : Rows :=
  Function.update rows k (some ⟨.obj m, now⟩)

/-- The save loop of `Patch`, whose `i`-th write is at the time `now i` and succeeds when `writes i`
says so. It stops at the first failing write. -/
def saveAll (final : Section → Obj) (now : ℕ → ℕ) (writes : ℕ → Bool) :
    ℕ → List Section → Rows → Rows × Bool
  | _, [], rows => (rows, true)
  | i, k :: ks, rows =>
    if writes i then saveAll final now writes (i + 1) ks (save (now i) rows k (final k))
    else (rows, false)

/-- `Patch` deep-merges the patch into the stored settings and persists the changed sections. -/
def Store.patch (env : Env) (now : ℕ → ℕ) (writes : ℕ → Bool) (st : Store)
    (patch : SettingsPatch) : Store × Except PatchError Settings :=
  match st.prepare env patch with
  | .error e => (st, .error e)
  | .ok (out, changed) =>
    match saveAll (toMap out) now writes 0 changed st.rows with
    | (rows, true) => ({ st with rows, cur := out }, .ok out)
    | (rows, false) => ({ st with rows }, .error .write)

/-- `Update` applies `fn` to the settings and persists the given section. -/
def Store.update (now : ℕ) (write : Bool) (st : Store) (k : Section) (fn : Settings → Settings) :
    Store × Bool :=
  let c := fn st.cur
  if write then ({ st with rows := save now st.rows k (toMap c k), cur := c }, true)
  else (st, false)

end Dockhand.Settings
