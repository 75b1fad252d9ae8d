import Dockhand.Go.Strings
import Mathlib.Data.Int.Notation

/-!
# Host records

A row of the `hosts` table, the validation of what a user enters, and the row that `Store.Update`
computes from the one it has read. Encryption is not modelled: the ciphertext of a new password is
an argument.
-/

namespace Dockhand.Hosts

open Go

/-- The states of a host in the database. -/
inductive Status
  | pending | online | degraded | offline
  deriving DecidableEq

/-- A row of `hosts`. -/
structure Record where
  name : String
  address : String
  port : ℤ := 22
  user : String := "root"
  method : String := "key"
  passwordEnc : String := ""
  hostKey : String := ""
  color : String := "#2f6fed"
  status : Status := .pending
  failCount : ℕ := 0
  monitored : Bool := true
  mcpExposed : Bool := false
  deriving DecidableEq

/-- What a user enters about the connection of a host. -/
structure HostInput where
  name : String
  address : String
  port : ℤ
  user : String
  method : String
  deriving DecidableEq

/-- The pattern of host names. -/
def nameOK (s : String) : Bool :=
  match s.toList with
  | [] => false
  | c :: cs =>
    c.isAlphanum && cs.length ≤ 62 && cs.all fun c => c.isAlphanum || c ∈ ['.', '_', '-']

/-- `Validate`: the normalised input, or the message of the first rule that it breaks. -/
def validate (input : HostInput) : Except String HostInput :=
  let name := trimSpace input.name
  let address := trimSpace input.address
  let user := if trimSpace input.user = "" then "root" else trimSpace input.user
  let method := if input.method = "" then "key" else input.method
  let port := if input.port = 0 then 22 else input.port
  if !nameOK name then
    .error "name must be 1–63 characters: letters, digits, '.', '_' or '-'"
  else if method = "local" then
    .ok { input with
      name := name
      address := if address = "" then "unix:///var/run/docker.sock" else address
      user := user }
  else if method ≠ "key" ∧ method ≠ "password" then .error "method must be key, password or local"
  else if address = "" ∨ containsAny address " /@" then .error "address must be a hostname or IP"
  else if port < 1 ∨ port > 65535 then .error "port must be 1–65535"
  else .ok ⟨name, address, port, user, method⟩

/-- The body of a PATCH request. -/
structure Patch where
  name : Option String := none
  address : Option String := none
  port : Option ℤ := none
  user : Option String := none
  method : Option String := none
  password : Option String := none
  color : Option String := none
  monitored : Option Bool := none
  mcpExposed : Option Bool := none
  resetHostKey : Bool := false
  deriving DecidableEq

/-- The connection settings after a patch, before they are validated. -/
def Patch.input (p : Patch) (cur : Record) : HostInput where
  name := p.name.getD cur.name
  address := p.address.getD cur.address
  port := p.port.getD cur.port
  user := p.user.getD cur.user
  method := p.method.getD cur.method

/-- The stored password after a patch; `sealedPassword` is the ciphertext of the patch's. -/
def Patch.newPassword (p : Patch) (cur : Record) (method sealedPassword : String) : String :=
  if method ≠ "password" then ""
  else if p.password.getD "" ≠ "" then sealedPassword
  else cur.passwordEnc

/-- The patch asks for another address or port than the record's, or to forget the host key. -/
def Patch.Moves (p : Patch) (cur : Record) (input : HostInput) : Prop :=
  p.resetHostKey = true ∨ input.address ≠ cur.address ∨ input.port ≠ cur.port

instance (p : Patch) (cur : Record) (input : HostInput) : Decidable (p.Moves cur input) :=
  inferInstanceAs (Decidable (_ ∨ _ ∨ _))

/-- The row that `Update` writes and whether connection settings have changed, computed from the
row that it has read. -/
def update (cur : Record) (p : Patch) (sealedPassword : String) : Except String (Record × Bool) :=
  match validate (p.input cur) with
  | .error msg => .error msg
  | .ok input =>
    let passwordEnc := p.newPassword cur input.method sealedPassword
    if input.method = "password" ∧ passwordEnc = "" then
      .error "password is required for password authentication"
    else
      .ok
        ({ cur with
            name := input.name
            address := input.address
            port := input.port
            user := input.user
            method := input.method
            passwordEnc := passwordEnc
            color := p.color.getD cur.color
            hostKey := if p.Moves cur input then "" else cur.hostKey
            monitored := p.monitored.getD cur.monitored
            mcpExposed := p.mcpExposed.getD cur.mcpExposed },
          p.Moves cur input ∨ input.user ≠ cur.user ∨ input.method ≠ cur.method ∨
            passwordEnc ≠ cur.passwordEnc)

/-- The columns that `Update` writes; the others stay. -/
def Record.written (row new : Record) : Record :=
  { new with status := row.status, failCount := row.failCount }

/-- `PinHostKey` stores the key when none is stored. -/
def Record.pin (row : Record) (key : String) : Record :=
  if row.hostKey = "" then { row with hostKey := key } else row

/-- `RecordSuccess`, for the columns of the record: the status after a successful poll. -/
def Record.succeed (row : Record) (status : Status) : Record :=
  { row with status := status, failCount := 0 }

/-- `RecordFailure` counts a failed poll, and flips the status to offline at `retries`. -/
def Record.fail (row : Record) (retries : ℤ) : Record :=
  { row with
    failCount := row.failCount + 1
    status := if (row.failCount : ℤ) + 1 ≥ retries then .offline else row.status }

/-- **The host key in an `Update`.** It is kept with the address and port it was read with, or
cleared. -/
theorem hostKey_of_update {cur new : Record} {p : Patch} {sealedPassword : String} {changed : Bool}
    (h : update cur p sealedPassword = .ok (new, changed)) :
    (new.hostKey = cur.hostKey ∧ p.resetHostKey = false ∧ new.address = cur.address ∧
        new.port = cur.port) ∨
      (new.hostKey = "" ∧
        (p.resetHostKey = true ∨ new.address ≠ cur.address ∨ new.port ≠ cur.port)) := by
  rw [update] at h
  cases hval : validate (p.input cur) with
  | error msg =>
    rw [hval] at h
    cases h
  | ok input =>
    rw [hval] at h
    dsimp only at h
    split_ifs at h with hpw hmoves
    · obtain ⟨rfl, -⟩ := Prod.mk.inj (Except.ok.inj h)
      exact .inr ⟨rfl, hmoves⟩
    · obtain ⟨rfl, -⟩ := Prod.mk.inj (Except.ok.inj h)
      rw [Patch.Moves, not_or, not_or, not_not, not_not, Bool.not_eq_true] at hmoves
      exact .inl ⟨rfl, hmoves⟩

end Dockhand.Hosts
