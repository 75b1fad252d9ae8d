import Dockhand.Go.Json
import Dockhand.Go.Strings
import Dockhand.Go.Utf8
import Dockhand.Mcp.Catalog
import Dockhand.Transition.Prog

/-!
# Arguments and hosts of a tool call

A tool reads its arguments through `CallCtx` and names the host it works on by id or by name. `host`
resolves such a name and checks that the key may use the host; the service that then does the work
gets the id of the host and looks it up once more. `HostTable` is the table of hosts, `Session` the
state that a call reads and changes, and `perform` the one way to reach the data of a host.
-/

namespace Dockhand.Mcp

open Go Transition

/-! ### Errors and formatting -/

/-- An error of a tool, by what `errors.As` and `errors.Is` find in it. -/
inductive CallError where
  | user (msg : String)
  | badRequest (msg : String)
  /-- A container or a stack that does not exist. -/
  | notFound (msg : String)
  | other (msg : String)
  deriving DecidableEq

/-- The text of an error. -/
def CallError.msg : CallError → String
  | .user msg | .badRequest msg | .notFound msg | .other msg => msg

/-- What `fmt`, `encoding/json`, `unicode` and `util.HumanBytes` do with the values they are given.
-/
structure Fmt where
  /-- The orbits of case folding. -/
  orbit : ℕ → ℕ
  toLower : String → String
  /-- `fmt.Sprint`. -/
  sprint : Json → String
  /-- `fmt.Sscan` into an `int`. -/
  sscan : String → Option ℤ
  /-- The verb `%q`. -/
  quote : String → String
  /-- `json.MarshalIndent`. -/
  js : Json → String
  /-- The order in which a loop visits the entries of a map. -/
  mapOrder : Obj → Obj
  humanBytes : ℤ → String
  /-- `time.Duration.String`, for so many seconds. -/
  duration : ℤ → String
  /-- The last bytes of a string, so many of them. -/
  lastBytes : ℕ → String → String
  /-- The name and the arguments in the parameters of a call, with the numbers as numbers. -/
  decodeParams : String → Except String (String × Option Obj)

/-! ### Arguments -/

/-- `callCtx`. -/
structure CallCtx where
  key : Key
  args : Obj
  actor : String

namespace CallCtx

variable (F : Fmt) (c : CallCtx)

/-- `str`: an argument as a text; a value of another type is printed. -/
def str (name : String) : String :=
  match c.args.lookup name with
  | some (.str x) => trimSpace x
  | some .null | none => ""
  | some x => F.sprint x

/-- `boolean`: an argument as a truth value, or one of three words for it. -/
def boolean (name : String) : Bool :=
  match c.args.lookup name with
  | some (.bool x) => x
  | some (.str x) => x = "true" || x = "1" || x = "yes"
  | _ => false

/-- `int`: an argument as a whole number, with what is meant where there is none. -/
def int (name : String) (default : ℤ) : ℤ :=
  match c.args.lookup name with
  | some (.num x) => x.num.tdiv x.den
  | some (.str x) => (F.sscan x).getD default
  | _ => default

/-- `strs`: an argument as a list, or a text with commas. -/
def strs (name : String) : List String :=
  match c.args.lookup name with
  | some (.arr vs) => (vs.filterMap fun v => v.asString?.map trimSpace).filter (· ≠ "")
  | some (.str x) => ((splitChar x ',').map trimSpace).filter (· ≠ "")
  | _ => []

end CallCtx

/-! ### Hosts -/

/-- What the provider reads of a host's record. -/
structure Record where
  id : String
  name : String
  mcpExposed : Bool
  deriving DecidableEq

/-- The table of hosts in the order of `List`: the id is its primary key and the name is unique. -/
structure HostTable where
  records : List Record
  ids : (records.map Record.id).Nodup
  names : (records.map Record.name).Nodup

namespace HostTable

/-- `hosts.Store.Get`: a host by its id or by its name. -/
def get (T : HostTable) (ref : String) : Option Record :=
  T.records.find? fun r => r.id = ref ∨ r.name = ref

/-- No host bears the id of another one as its name. -/
def Unambiguous (T : HostTable) : Prop :=
  ∀ r ∈ T.records, ∀ r' ∈ T.records, r.name = r'.id → r.id = r'.id

instance (T : HostTable) : Decidable T.Unambiguous :=
  inferInstanceAs (Decidable (∀ r ∈ T.records, ∀ r' ∈ T.records, _))

/-- The host with an id is the one that `get` finds by it. -/
theorem get_id {T : HostTable} (hT : T.Unambiguous) {r : Record} (hr : r ∈ T.records) :
    T.get r.id = some r := by
  cases hget : T.get r.id with
  | none => exact absurd (decide_eq_true (Or.inl rfl)) (List.find?_eq_none.mp hget r hr)
  | some r' =>
    have hr' : r' ∈ T.records := List.mem_of_find?_eq_some hget
    have heq : r'.id = r.id ∨ r'.name = r.id := by simpa using List.find?_some hget
    have hid : r'.id = r.id := heq.elim id (hT r' hr' r hr)
    rw [List.inj_on_of_nodup_map T.ids hr' hr hid]

end HostTable

/-- `strings.EqualFold`. -/
def equalFold (F : Fmt) (s t : String) : Bool :=
  s.toList.map (fun c => foldRune F.orbit c.toNat) = t.toList.map fun c => foldRune F.orbit c.toNat

/-- `Provider.hostAllowed`. -/
def hostAllowed (k : Key) (r : Record) : Bool :=
  r.mcpExposed && (k.hostIDs.isEmpty || r.id ∈ k.hostIDs)

/-! ### Operations on a host -/

/-- The operations of the services on a host. -/
inductive HostOp where
  | view | reboot | containers | detail | action | remove | updateContainer | logs | stackList
  | getCompose | stackAction | pullAndRebuild | putCompose | images | pull | pruneImages | deploy
  | run
  deriving DecidableEq

/-- The operation changes the state of the host. -/
def HostOp.changes : HostOp → Bool
  | .view | .containers | .detail | .logs | .stackList | .getCompose | .images => false
  | _ => true

/-- An operation on a host and the id of the host that it was performed on. -/
structure Performed where
  op : HostOp
  host : String
  deriving DecidableEq

/-- What a call reads and changes: the table of hosts, what belongs to no host (repositories,
registries, jobs), what belongs to each host, by its id, and the operations performed so far. -/
structure Session (γ δ : Type) where
  hosts : HostTable
  shared : γ
  data : String → δ
  trace : List Performed := []

section

variable {γ δ α : Type}

/-- What an operation does on the data of a host. -/
abbrev Action (γ δ α : Type) := γ → δ → Except CallError α × γ × δ

/-- What is left after an operation on the host with an id. -/
def Session.after (s : Session γ δ) (op : HostOp) (id : String) (shared : γ) (d : δ) :
    Session γ δ where
  hosts := s.hosts
  shared := shared
  data := Function.update s.data id d
  trace := s.trace ++ [⟨op, id⟩]

section after

variable (s : Session γ δ) (op : HostOp) (id : String) (shared : γ) (d : δ)

@[simp] theorem Session.after_hosts : (s.after op id shared d).hosts = s.hosts := rfl

@[simp] theorem Session.after_shared : (s.after op id shared d).shared = shared := rfl

@[simp] theorem Session.after_data : (s.after op id shared d).data = Function.update s.data id d :=
  rfl

@[simp] theorem Session.after_trace : (s.after op id shared d).trace = s.trace ++ [⟨op, id⟩] := rfl

end after

/-- A service performs an operation: it looks the host up by what it was given as its id. -/
def perform (op : HostOp) (act : Action γ δ α) (id : String) : Prog CallError (Session γ δ) α :=
  fun s =>
  match s.hosts.get id with
  | none => (.error (.other "host not found"), s)
  | some r =>
    let out := act s.shared (s.data r.id)
    (out.1, s.after op r.id out.2.1 out.2.2)

theorem perform_apply {op : HostOp} {act : Action γ δ α} {id : String} {s : Session γ δ}
    {r : Record}
    (h : s.hosts.get id = some r) :
    perform op act id s = ((act s.shared (s.data r.id)).1,
      s.after op r.id (act s.shared (s.data r.id)).2.1 (act s.shared (s.data r.id)).2.2) := by
  rw [perform, h]

/-- `Provider.host`, on the table of hosts. -/
def resolve (F : Fmt) (k : Key) (ref : String) (T : HostTable) : Except CallError Record :=
  if ref = "" then .error (.user "the host argument is required (see list_hosts)")
  else
    match (T.get ref).or (T.records.find? fun r => equalFold F r.name ref) with
    | none => .error (.user ("unknown host " ++ F.quote ref ++ " (see list_hosts)"))
    | some r =>
      if hostAllowed k r then .ok r
      else .error (.user ("host " ++ F.quote r.name ++ " is not available to this API key"))

/-- `host` finds the host that an argument names, among those that the key allows. -/
def host (F : Fmt) (c : CallCtx) (ref : String) : Prog CallError (Session γ δ) Record :=
  .reads fun s => resolve F c.key ref s.hosts

/-- `Provider.allowedHosts`. -/
def allowedHosts (k : Key) : Prog CallError (Session γ δ) (List Record) :=
  .reads fun s => .ok (s.hosts.records.filter fun r => hostAllowed k r)

end

end Dockhand.Mcp
