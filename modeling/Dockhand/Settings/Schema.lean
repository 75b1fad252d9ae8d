import Dockhand.Go.Json

/-!
# The settings sections

The seven sections of Dockhand's settings, each with its JSON tags, and `Settings`, the whole
stored configuration. A section is named by `Section`; `Settings.sec` reads the section a name
stands for, so that what holds of every section is stated and proved once, for a variable
`k : Section`.

The zero value of a structure is the Go zero value: it is what `json.Unmarshal` starts from.
-/

namespace Dockhand.Settings

open Go

/-- The section of the address under which Dockhand is reached. -/
structure General where
  publicURL : String := ""
  domain : String := ""
  deriving DecidableEq

/-- The section of the monitors' checks and what they tell of. -/
structure Uptime where
  intervalSec : Int64 := 0
  retries : Int64 := 0
  hostIDs : List String := []
  autoMonitor : Bool := false
  notify : Bool := false
  publicStatus : Bool := false
  deriving DecidableEq

/-- The stored github section. `secretEnc` holds the encrypted webhook secret. -/
structure GitHub where
  autoDeploy : Bool := false
  waitChecks : Bool := false
  onlyCompose : Bool := false
  secretEnc : String := ""
  deriving DecidableEq

/-- What is set for one tool: whether it is offered, and whether its calls have to be confirmed. -/
structure ToolPref where
  enabled : Bool := false
  confirm : Bool := false
  deriving DecidableEq

/-- The section of the server for models, with what is set for its tools. -/
structure MCP where
  enabled : Bool := false
  transport : String := ""
  port : Int64 := 0
  tools : Dict String ToolPref := ∅
  deriving DecidableEq

/-- The section of Dockhand's own updates. -/
structure Updates where
  auto : Bool := false
  channel : String := ""
  window : String := ""
  backup : Bool := false
  build : String := ""
  redeployOnPush : Bool := false
  repo : String := ""
  composeFile : String := ""
  timezone : String := ""
  deriving DecidableEq

/-- The section of what is notified about. -/
structure Notifications where
  hostDown : Bool := false
  containerCrash : Bool := false
  unhealthy : Bool := false
  updates : Bool := false
  diskSpace : Bool := false
  deploys : Bool := false
  digest : Bool := false
  deriving DecidableEq

/-- The section of the registry that Dockhand runs itself. -/
structure Registry where
  enabled : Bool := false
  address : String := ""
  deriving DecidableEq

/-! ### JSON tags -/

/-- The keys of the section, in the order of the fields. -/
def General.fields : List (StructField General) :=
  [.string "publicUrl" (·.publicURL) fun s v => { s with publicURL := v },
   .string "domain" (·.domain) fun s v => { s with domain := v }]

/-- The keys of the section, as `encoding/json` knows them. -/
def Uptime.fields : List (StructField Uptime) :=
  [.int "intervalSec" (·.intervalSec) fun s v => { s with intervalSec := v },
   .int "retries" (·.retries) fun s v => { s with retries := v },
   .strings "hostIds" (·.hostIDs) fun s v => { s with hostIDs := v },
   .bool "autoMonitor" (·.autoMonitor) fun s v => { s with autoMonitor := v },
   .bool "notify" (·.notify) fun s v => { s with notify := v },
   .bool "publicStatus" (·.publicStatus) fun s v => { s with publicStatus := v }]

/-- The key of the encrypted webhook secret, which is left out where there is none. -/
def GitHub.secretField : StructField GitHub :=
  .stringOmitEmpty "secretEnc" (·.secretEnc) fun s v => { s with secretEnc := v }

/-- The keys of the section, the encrypted secret among them. -/
def GitHub.fields : List (StructField GitHub) :=
  [.bool "autoDeploy" (·.autoDeploy) fun s v => { s with autoDeploy := v },
   .bool "waitChecks" (·.waitChecks) fun s v => { s with waitChecks := v },
   .bool "onlyCompose" (·.onlyCompose) fun s v => { s with onlyCompose := v },
   GitHub.secretField]

/-- The keys of a tool's preferences. -/
def ToolPref.fields : List (StructField ToolPref) :=
  [.bool "enabled" (·.enabled) fun s v => { s with enabled := v },
   .bool "confirm" (·.confirm) fun s v => { s with confirm := v }]

/-- The key of the tools, whose values have keys of their own. -/
def MCP.toolsField : StructField MCP :=
  .map "tools" ToolPref.fields {} (·.tools) fun s v => { s with tools := v }

/-- The keys of the section, with the map of the tools. -/
def MCP.fields : List (StructField MCP) :=
  [.bool "enabled" (·.enabled) fun s v => { s with enabled := v },
   .string "transport" (·.transport) fun s v => { s with transport := v },
   .int "port" (·.port) fun s v => { s with port := v },
   MCP.toolsField]

/-- The keys of the section, each for a field of the updates. -/
def Updates.fields : List (StructField Updates) :=
  [.bool "auto" (·.auto) fun s v => { s with auto := v },
   .string "channel" (·.channel) fun s v => { s with channel := v },
   .string "window" (·.window) fun s v => { s with window := v },
   .bool "backup" (·.backup) fun s v => { s with backup := v },
   .string "build" (·.build) fun s v => { s with build := v },
   .bool "redeployOnPush" (·.redeployOnPush) fun s v => { s with redeployOnPush := v },
   .string "repo" (·.repo) fun s v => { s with repo := v },
   .string "composeFile" (·.composeFile) fun s v => { s with composeFile := v },
   .string "timezone" (·.timezone) fun s v => { s with timezone := v }]

/-- The keys of the section, one for each kind of notification. -/
def Notifications.fields : List (StructField Notifications) :=
  [.bool "hostDown" (·.hostDown) fun s v => { s with hostDown := v },
   .bool "containerCrash" (·.containerCrash) fun s v => { s with containerCrash := v },
   .bool "unhealthy" (·.unhealthy) fun s v => { s with unhealthy := v },
   .bool "updates" (·.updates) fun s v => { s with updates := v },
   .bool "diskSpace" (·.diskSpace) fun s v => { s with diskSpace := v },
   .bool "deploys" (·.deploys) fun s v => { s with deploys := v },
   .bool "digest" (·.digest) fun s v => { s with digest := v }]

/-- The keys of the section of the registry. -/
def Registry.fields : List (StructField Registry) :=
  [.bool "enabled" (·.enabled) fun s v => { s with enabled := v },
   .string "address" (·.address) fun s v => { s with address := v }]

/-! ### Settings as a family of sections -/

/-- The names of the sections. -/
inductive Section
  | general | uptime | github | mcp | updates | notifications | registry
  deriving DecidableEq

/-- The key of a section in the `settings` table and in a patch. -/
def Section.key : Section → String
  | general => "general"
  | uptime => "uptime"
  | github => "github"
  | mcp => "mcp"
  | updates => "updates"
  | notifications => "notifications"
  | registry => "registry"

/-- The section keys stored in the settings table. -/
def sections : List Section :=
  [.general, .uptime, .github, .mcp, .updates, .notifications, .registry]

/-- The section with this key. -/
def Section.ofKey? (key : String) : Option Section := sections.find? fun k => k.key = key

/-- The struct of a section. -/
abbrev Section.Val : Section → Type
  | general => General
  | uptime => Uptime
  | github => GitHub
  | mcp => MCP
  | updates => Updates
  | notifications => Notifications
  | registry => Registry

/-- The fields of a section. -/
def Section.fields : (k : Section) → List (StructField k.Val)
  | general => General.fields
  | uptime => Uptime.fields
  | github => GitHub.fields
  | mcp => MCP.fields
  | updates => Updates.fields
  | notifications => Notifications.fields
  | registry => Registry.fields

/-- The zero value of a section. -/
def Section.zero : (k : Section) → k.Val
  | general => {}
  | uptime => {}
  | github => {}
  | mcp => {}
  | updates => {}
  | notifications => {}
  | registry => {}

end Settings

open Settings in
/-- The full stored configuration. -/
structure Settings where
  general : General
  uptime : Uptime
  github : GitHub
  mcp : MCP
  updates : Updates
  notifications : Notifications
  registry : Registry
  deriving DecidableEq

namespace Settings

open Go

/-- The section with this name. -/
def sec (s : Settings) : (k : Section) → k.Val
  | .general => s.general
  | .uptime => s.uptime
  | .github => s.github
  | .mcp => s.mcp
  | .updates => s.updates
  | .notifications => s.notifications
  | .registry => s.registry

theorem ext_sec {s t : Settings} (h : ∀ k, s.sec k = t.sec k) : s = t := by
  cases s
  cases t
  congr
  exacts [h .general, h .uptime, h .github, h .mcp, h .updates, h .notifications, h .registry]

theorem Section.ofKey?_key (k : Section) : Section.ofKey? k.key = some k := by
  cases k <;> decide

theorem Section.key_of_ofKey? {key : String} {k : Section} (h : Section.ofKey? key = some k) :
    k.key = key := by
  simpa using List.find?_some h

/-! ### The tags are lawful and round-trip -/

section Lawful

attribute [local simp] Section.fields General.fields Uptime.fields GitHub.fields
  GitHub.secretField ToolPref.fields MCP.fields MCP.toolsField Updates.fields
  Notifications.fields Registry.fields StructField.string StructField.stringOmitEmpty
    StructField.bool StructField.int
  StructField.strings StructField.map

theorem ToolPref.lawful : LawfulFields ToolPref.fields where
  nodup := by decide
  get_set := by simp
  get_set_of_ne := by simp
  ext := by rintro ⟨⟩ ⟨⟩; simp

/-- The tags of a section are distinct up to case folding, and its fields are its parts. -/
theorem Section.lawful (k : Section) : LawfulFields k.fields where
  nodup := by cases k <;> decide
  get_set := by cases k <;> simp
  get_set_of_ne := by cases k <;> simp
  ext := by
    cases k <;>
    · rintro ⟨⟩ ⟨⟩
      simp +contextual

end Lawful

theorem ToolPref.roundTrips (t : ToolPref) :
    decodeStruct ToolPref.fields (encodeStruct ToolPref.fields t) {} = some t := by
  refine ToolPref.lawful.decodeStruct_encodeStruct ?_
  simp only [ToolPref.fields, List.forall_mem_cons]
  exact ⟨StructField.bool_roundTrips, StructField.bool_roundTrips, by simp⟩

/-- The ints of the section survive a float64. -/
def Section.Exact : (k : Section) → k.Val → Prop
  | .uptime, u => Float64.through u.intervalSec.toInt = u.intervalSec.toInt ∧
      Float64.through u.retries.toInt = u.retries.toInt
  | .mcp, m => Float64.through m.port.toInt = m.port.toInt
  | .general, _ | .github, _ | .updates, _ | .notifications, _ | .registry, _ => True

/-- The ints of the section are below 2^53. -/
def Section.Small : (k : Section) → k.Val → Prop
  | .uptime, u => u.intervalSec.toInt.natAbs < 2 ^ 53 ∧ u.retries.toInt.natAbs < 2 ^ 53
  | .mcp, m => m.port.toInt.natAbs < 2 ^ 53
  | .general, _ | .github, _ | .updates, _ | .notifications, _ | .registry, _ => True

theorem Section.Small.exact {k : Section} {v : k.Val} (h : k.Small v) : k.Exact v := by
  cases k with
  | uptime => exact ⟨Float64.through_of_lt h.1, Float64.through_of_lt h.2⟩
  | mcp => exact Float64.through_of_lt h
  | general => trivial
  | github => trivial
  | updates => trivial
  | notifications => trivial
  | registry => trivial

/-- Every field of a section with such ints round-trips through its zero value. -/
theorem Section.fields_roundTrip (k : Section) {v : k.Val} (h : k.Exact v) :
    ∀ f ∈ k.fields, f.RoundTrips (f.get k.zero) (f.get v) := by
  cases k <;>
    simp only [Section.fields, General.fields, Uptime.fields, GitHub.fields, MCP.fields,
      Updates.fields, Notifications.fields, Registry.fields, List.forall_mem_cons,
      List.not_mem_nil, false_imp_iff, implies_true, and_true]
  case general => exact ⟨StructField.string_roundTrips, StructField.string_roundTrips⟩
  case uptime =>
    exact ⟨StructField.int_roundTrips h.1, StructField.int_roundTrips h.2,
      StructField.strings_roundTrips, StructField.bool_roundTrips, StructField.bool_roundTrips,
      StructField.bool_roundTrips⟩
  case github =>
    exact ⟨StructField.bool_roundTrips, StructField.bool_roundTrips, StructField.bool_roundTrips,
      StructField.stringOmitEmpty_roundTrips⟩
  case mcp =>
    exact ⟨StructField.bool_roundTrips, StructField.string_roundTrips, StructField.int_roundTrips h,
      StructField.map_roundTrips ToolPref.roundTrips⟩
  case updates =>
    exact ⟨StructField.bool_roundTrips, StructField.string_roundTrips,
      StructField.string_roundTrips,
      StructField.bool_roundTrips, StructField.string_roundTrips, StructField.bool_roundTrips,
      StructField.string_roundTrips, StructField.string_roundTrips, StructField.string_roundTrips⟩
  case notifications =>
    exact ⟨StructField.bool_roundTrips, StructField.bool_roundTrips, StructField.bool_roundTrips,
      StructField.bool_roundTrips, StructField.bool_roundTrips, StructField.bool_roundTrips,
      StructField.bool_roundTrips⟩
  case registry => exact ⟨StructField.bool_roundTrips, StructField.string_roundTrips⟩

/-- **The section round trip.** -/
theorem Section.decode_encode (k : Section) {v : k.Val} (h : k.Exact v) :
    decodeStruct k.fields (encodeStruct k.fields v) k.zero = some v :=
  k.lawful.decodeStruct_encodeStruct (k.fields_roundTrip h)

/-- A section that is decoded of an encoded one is that one if its ints are small. -/
theorem Section.eq_of_decode_encode (k : Section) {v w : k.Val}
    (h : decodeStruct k.fields (encodeStruct k.fields v) k.zero = some w) (hw : k.Small w) :
    v = w := by
  have hreread := k.lawful.decodeStruct_encodeStruct_iff.mp h
  have hexact : k.Exact v := by
    cases k with
    | uptime =>
      simp only [Section.fields, Uptime.fields, List.forall_mem_cons] at hreread
      exact ⟨StructField.int_eq_of_reread hreread.1 hw.1,
        StructField.int_eq_of_reread hreread.2.1 hw.2⟩
    | mcp =>
      simp only [Section.fields, MCP.fields, List.forall_mem_cons] at hreread
      exact StructField.int_eq_of_reread hreread.2.2.1 hw
    | general => trivial
    | github => trivial
    | updates => trivial
    | notifications => trivial
    | registry => trivial
  exact Option.some.inj ((k.decode_encode hexact).symm.trans h)

end Settings

end Dockhand
