import Dockhand.Go.Dict
import Dockhand.Hosts.CustomSsh
import Dockhand.Transition.Since

/-!
# Terminals to any SSH server

A terminal to an address that is no host: the browser sends the connection with the host key that it
remembers for the address, Dockhand dials, compares the key that the server presents, lets the
credential be used if it is the one asked for or none was, and reports the key to the browser, which
remembers it if it knows none. Any number of terminals are open, in any order of their steps.

`trusted_of_run`: while a key is remembered, a terminal that asks then offers its credential to no
server with another key. `known_iff_since`: a remembered key is the first that was reported since
the address was last forgotten; a server that is refused does not replace it.
-/

namespace Dockhand.Hosts.CustomSsh

open Go Transition

/-! ### Messages -/

/-- `ssh.FingerprintSHA256`. -/
@[ext]
structure Fingerprint where
  text : String
  ne_empty : text ≠ ""
  trimmed : trimSpace text = text
  deriving DecidableEq

/-- How the parsing of a private key fails: the key is encrypted, or something else is wrong with
it. -/
inductive KeyError
  | passphraseMissing
  | other (msg : String)

/-- The library functions of the browser and the server. A signer is named by a string. -/
structure Env where
  toLowerCase : String → String
  parsePrivateKey : String → Except KeyError String
  parsePrivateKeyWithPassphrase : String → String → Except KeyError String

/-- `CustomSSH`: the message that opens a terminal. -/
structure CustomSSH where
  address : String
  port : ℤ
  user : String
  auth : String
  password : String
  privateKey : String
  passphrase : String
  hostKey : String
  deriving DecidableEq

/-- The words that the dialog sends for the ways of signing in. -/
def SshAuth.str : SshAuth → String
  | key => "key"
  | password => "password"
  | privateKey => "privateKey"

/-- The first message of a terminal. -/
def CustomSshConn.hello (c : CustomSshConn) (hostKey : String) : CustomSSH where
  address := c.place.address
  port := c.place.port
  user := c.place.user
  auth := c.auth.str
  password := c.password
  privateKey := c.privateKey
  passphrase := c.passphrase
  hostKey := hostKey

/-! ### The server -/

/-- What `DialSSH` reads of a target. -/
structure Target where
  address : String
  port : ℤ
  user : String
  method : String := "key"
  password : String := ""
  signer : Option String := none
  hostFingerprint : String
  deriving DecidableEq

/-- What is shown to the server in place of a name: a password, a key of the user, or Dockhand's
own. -/
inductive Credential
  | password (password : String)
  | signer (signer : String)
  | dockhandKey
  deriving DecidableEq

/-- `cfg.Auth`. -/
def Target.credential (t : Target) : Credential :=
  if t.method = "password" then .password t.password
  else match t.signer with
    | some s => .signer s
    | none => .dockhandKey

/-- `parseSigner`. -/
def parseSigner (env : Env) (pem passphrase : String) : Except String String :=
  let pem := trimSpace pem
  if pem = "" then .error "paste a private key"
  else
    match if passphrase ≠ "" then env.parsePrivateKeyWithPassphrase (pem ++ "\n") passphrase
      else env.parsePrivateKey (pem ++ "\n") with
    | .ok signer => .ok signer
    | .error .passphraseMissing => .error "this private key is encrypted — enter its passphrase"
    | .error (.other msg) => .error ("cannot read the private key: " ++ msg)

/-- The target before its credential. -/
def CustomSSH.place (c : CustomSSH) : Target where
  address := trimSpace c.address
  port := if c.port ≤ 0 ∨ 65535 < c.port then 22 else c.port
  user := trimSpace c.user
  hostFingerprint := trimSpace c.hostKey

/-- `OpenCustomShell` up to its dial. -/
def CustomSSH.target (env : Env) (c : CustomSSH) : Except String Target :=
  if c.place.address = "" ∨ c.place.user = "" then .error "address and user are required"
  else if c.auth = "password" then
    if c.password = "" then .error "enter a password"
    else .ok { c.place with method := "password", password := c.password }
  else if c.auth = "privateKey" then
    match parseSigner env c.privateKey c.passphrase with
    | .ok signer => .ok { c.place with signer := some signer }
    | .error err => .error err
  else .ok c.place

/-- The host key callback of `DialSSH` lets this key pass. -/
def Target.accepts (t : Target) (fp : Fingerprint) : Bool :=
  t.hostFingerprint = "" || t.hostFingerprint = fp.text

/-! ### Terminals -/

/-- How far a terminal is. -/
inductive Phase
  /-- Its WebSocket is being opened. -/
  | opening
  | asked (c : CustomSSH)
  | failed (err : String)
  | dialing (t : Target)
  /-- The server has presented this key; `offered` if it may have the credential. -/
  | shaken (t : Target) (fp : Fingerprint) (offered : Bool)
  /-- The browser has been told the key. -/
  | told (t : Target) (fp : Fingerprint) (offered : Bool)
  deriving DecidableEq

/-- A terminal of the browser, with the connection that its dialog asks for. -/
structure Terminal where
  conn : CustomSshConn
  phase : Phase := .opening
  deriving DecidableEq

/-- The browser's storage and the terminals. -/
structure Browser where
  known : Dict String Fingerprint := ∅
  terminals : Dict ℕ Terminal := ∅
  deriving DecidableEq

/-- What happens next. A terminal is named by a number, a new one when it reconnects. In `tell`, the
storage may be unavailable. -/
inductive Event
  | «open» (i : ℕ) (conn : CustomSshConn)
  | hello (i : ℕ)
  | receive (i : ℕ)
  | shake (i : ℕ) (fp : Fingerprint)
  | tell (i : ℕ) (writable : Bool)
  | forget (address : String) (port : ℕ)
  | clear
  deriving DecidableEq

/-- `OpenCustomShell` begins. -/
def CustomSSH.received (env : Env) (c : CustomSSH) : Phase :=
  match c.target env with
  | .ok t => .dialing t
  | .error err => .failed err

/-- `knownKey`. -/
def knownKey (env : Env) (address : String) (port : ℕ) : String :=
  env.toLowerCase address ++ ":" ++ (portOr22 port).repr

/-- The host key that the browser has stored for the address and the port of the connection. -/
def CustomSshConn.knownKey (env : Env) (c : CustomSshConn) : String :=
  CustomSsh.knownKey env c.place.address c.place.port

/-! ### Who is asked for -/

section Asks

variable {env : Env} {fp : Fingerprint}

/-- The terminal asks for this key, and its credential is offered to no server with another. -/
def Phase.Asks (fp : Fingerprint) : Phase → Prop
  | .opening | .failed _ => True
  | .asked c => c.hostKey = fp.text
  | .dialing t => t.hostFingerprint = fp.text
  | .shaken _ fp' offered | .told _ fp' offered => offered = true → fp' = fp

/-- The key of the server that the credential has been offered to. -/
def Phase.offered : Phase → Option Fingerprint
  | .shaken _ fp offered | .told _ fp offered => if offered then some fp else none
  | _ => none

private theorem Phase.Asks.eq {phase : Phase} {fp' : Fingerprint} (h : phase.Asks fp)
    (hoffered : phase.offered = some fp') : fp' = fp := by
  cases phase with
  | shaken t fp'' ok | told t fp'' ok =>
    obtain ⟨hok, rfl⟩ : ok = true ∧ fp'' = fp' := by simpa [Phase.offered] using hoffered
    exact h hok
  | _ => cases hoffered

private theorem CustomSSH.hostFingerprint_of_target {c : CustomSSH} {t : Target}
    (h : c.target env = .ok t) :
    t.hostFingerprint = trimSpace c.hostKey := by
  rw [CustomSSH.target] at h
  split_ifs at h
  · obtain rfl := Except.ok.inj h
    rfl
  · split at h
    · obtain rfl := Except.ok.inj h
      rfl
    · cases h
  · obtain rfl := Except.ok.inj h
    rfl

theorem Phase.Asks.received {c : CustomSSH} (h : c.hostKey = fp.text) :
    (c.received env).Asks fp := by
  rw [CustomSSH.received]
  cases ht : c.target env with
  | ok t =>
    show t.hostFingerprint = fp.text
    rw [CustomSSH.hostFingerprint_of_target ht, h, fp.trimmed]
  | error err => trivial

private theorem Target.eq_of_accepts {t : Target} {fp' : Fingerprint}
    (h : t.hostFingerprint = fp.text)
    (haccepts : t.accepts fp' = true) : fp' = fp := by
  rw [Target.accepts, h, Bool.or_eq_true, decide_eq_true_eq, decide_eq_true_eq] at haccepts
  exact Fingerprint.ext (haccepts.resolve_left fp.ne_empty).symm

end Asks

namespace Browser

variable (env : Env)

/-- `knownHostKey`. -/
def knownHostKey (b : Browser) (c : CustomSshConn) : String :=
  ((b.known.get? (c.knownKey env)).map (·.text)).getD ""

/-- The `i`-th terminal, which is `x`, comes into another phase. -/
def setPhase (b : Browser) (i : ℕ) (x : Terminal) (phase : Phase) : Browser :=
  { b with terminals := b.terminals.set i { x with phase } }

/-- `saveHostKey`, unless the browser knows a key. -/
def remember (b : Browser) (c : CustomSshConn) (fp : Fingerprint) (writable : Bool) : Browser :=
  if b.knownHostKey env c = "" ∧ writable then { b with known := b.known.set (c.knownKey env) fp }
  else b

/-- One message, one handshake or one act of the user. -/
def step (b : Browser) : Event → Option Browser
  | .open i conn =>
    match b.terminals.get? i with
    | none => some { b with terminals := b.terminals.set i { conn } }
    | some _ => none
  | .hello i =>
    match b.terminals.get? i with
    | some x =>
      if x.phase = .opening then
        some (b.setPhase i x (.asked (x.conn.hello (b.knownHostKey env x.conn))))
      else none
    | none => none
  | .receive i =>
    match b.terminals.get? i with
    | some ⟨conn, .asked c⟩ => some (b.setPhase i ⟨conn, .asked c⟩ (c.received env))
    | _ => none
  | .shake i fp =>
    match b.terminals.get? i with
    | some ⟨conn, .dialing t⟩ =>
      some (b.setPhase i ⟨conn, .dialing t⟩ (.shaken t fp (t.accepts fp)))
    | _ => none
  | .tell i writable =>
    match b.terminals.get? i with
    | some ⟨conn, .shaken t fp offered⟩ =>
      some ((b.remember env conn fp writable).setPhase i ⟨conn, .shaken t fp offered⟩
        (.told t fp offered))
    | _ => none
  | .forget address port => some { b with known := b.known.del (knownKey env address port) }
  | .clear => some { b with known := ∅ }

/-- The step function as a relation. -/
inductive Step (b : Browser) : Event → Browser → Prop
  | open (i : ℕ) (conn : CustomSshConn) (hi : b.terminals.get? i = none) :
      Step b (.open i conn) { b with terminals := b.terminals.set i { conn } }
  | hello (i : ℕ) (x : Terminal) (hi : b.terminals.get? i = some x) (hx : x.phase = .opening) :
      Step b (.hello i) (b.setPhase i x (.asked (x.conn.hello (b.knownHostKey env x.conn))))
  | receive (i : ℕ) (x : Terminal) (c : CustomSSH) (hi : b.terminals.get? i = some x)
      (hx : x.phase = .asked c) : Step b (.receive i) (b.setPhase i x (c.received env))
  | shake (i : ℕ) (x : Terminal) (t : Target) (fp : Fingerprint)
      (hi : b.terminals.get? i = some x) (hx : x.phase = .dialing t) :
      Step b (.shake i fp) (b.setPhase i x (.shaken t fp (t.accepts fp)))
  | tell (i : ℕ) (x : Terminal) (t : Target) (fp : Fingerprint) (offered writable : Bool)
      (hi : b.terminals.get? i = some x) (hx : x.phase = .shaken t fp offered) :
      Step b (.tell i writable)
        ((b.remember env x.conn fp writable).setPhase i x (.told t fp offered))
  | forget (address : String) (port : ℕ) :
      Step b (.forget address port) { b with known := b.known.del (knownKey env address port) }
  | clear : Step b .clear { b with known := ∅ }

variable {env} {b b' : Browser} {e : Event}

/-- **Inversion.** Every step is one of those above. -/
theorem step_sound (h : b.step env e = some b') : Step env b e b' := by
  cases e with
  | «open» i conn =>
    rw [step] at h
    split at h
    · rename_i hi
      obtain rfl := Option.some.inj h
      exact .open i conn hi
    · cases h
  | hello i =>
    rw [step] at h
    split at h
    · rename_i x hi
      obtain ⟨hx, h⟩ := Option.ite_none_right_eq_some.mp h
      obtain rfl := Option.some.inj h
      exact .hello i x hi hx
    · cases h
  | receive i =>
    rw [step] at h
    split at h
    · rename_i conn c hi
      obtain rfl := Option.some.inj h
      exact .receive i ⟨conn, .asked c⟩ c hi rfl
    · cases h
  | shake i fp =>
    rw [step] at h
    split at h
    · rename_i conn t hi
      obtain rfl := Option.some.inj h
      exact .shake i ⟨conn, .dialing t⟩ t fp hi rfl
    · cases h
  | tell i writable =>
    rw [step] at h
    split at h
    · rename_i conn t fp offered hi
      obtain rfl := Option.some.inj h
      exact .tell i ⟨conn, .shaken t fp offered⟩ t fp offered writable hi rfl
    · cases h
  | forget address port =>
    obtain rfl := Option.some.inj h
    exact .forget address port
  | clear =>
    obtain rfl := Option.some.inj h
    exact .clear

/-! ### What is remembered -/

variable {key : String} {fp : Fingerprint}

/-- The user lets the browser forget the key of this address, or clears its storage. -/
def Forgets (env : Env) (key : String) : Event → Prop
  | .forget address port => knownKey env address port = key
  | .clear => True
  | _ => False

instance Forgets.decidable (env : Env) (key : String) : (e : Event) → Decidable (Forgets env key e)
  | .forget .. => inferInstanceAs (Decidable (_ = _))
  | .clear => isTrue trivial
  | .open .. | .hello _ | .receive _ | .shake .. | .tell .. => isFalse id

/-- A terminal to the address is told this key when none is known. -/
def Saves (env : Env) (key : String) (fp : Fingerprint) (b : Browser) (e : Event) (_ : Browser) :
    Prop :=
  ∃ i x t offered, e = .tell i true ∧ b.terminals.get? i = some x ∧ x.conn.knownKey env = key ∧
    x.phase = .shaken t fp offered ∧ b.known.get? key = none

@[simp] theorem known_setPhase (b : Browser) (i : ℕ) (x : Terminal) (phase : Phase) :
    (b.setPhase i x phase).known = b.known := rfl

@[simp] theorem terminals_setPhase (b : Browser) (i : ℕ) (x : Terminal) (phase : Phase) :
    (b.setPhase i x phase).terminals = b.terminals.set i { x with phase } := rfl

@[simp] theorem terminals_remember (b : Browser) (c : CustomSshConn) (fp : Fingerprint)
    (writable : Bool) : (b.remember env c fp writable).terminals = b.terminals := by
  rw [remember]
  split_ifs <;> rfl

private theorem knownHostKey_of_known {c : CustomSshConn}
    (h : b.known.get? (c.knownKey env) = some fp) :
    b.knownHostKey env c = fp.text := by
  rw [knownHostKey, h]
  rfl

private theorem knownHostKey_eq_empty {c : CustomSshConn} :
    b.knownHostKey env c = "" ↔ b.known.get? (c.knownKey env) = none := by
  cases h : b.known.get? (c.knownKey env) with
  | none => simp [knownHostKey, h]
  | some fp => simp [knownHostKey_of_known h, fp.ne_empty]

private theorem known_remember (b : Browser) (c : CustomSshConn) (fp : Fingerprint)
    (writable : Bool)
    (key : String) :
    (b.remember env c fp writable).known.get? key =
      if key = c.knownKey env ∧ b.known.get? key = none ∧ writable then some fp
      else b.known.get? key := by
  simp only [remember, knownHostKey_eq_empty]
  rcases eq_or_ne key (c.knownKey env) with rfl | hkey
  · by_cases hnone : b.known.get? (c.knownKey env) = none ∧ writable = true
    · simp [hnone]
    · rw [if_neg hnone, if_neg fun h => hnone h.2]
  · rw [if_neg fun h : key = _ ∧ _ => hkey h.1]
    split_ifs <;> simp [hkey]

private theorem known_step (he : b.step env e = some b') :
    b'.known.get? key = some fp ↔
      Saves env key fp b e b' ∨ b.known.get? key = some fp ∧ ¬ Forgets env key e := by
  cases step_sound he with
  | tell i x t fp' offered writable hi hx =>
    rw [known_setPhase, known_remember]
    have hsaves : ∀ b', Saves env key fp b (.tell i writable) b' ↔
        writable = true ∧ x.conn.knownKey env = key ∧ fp' = fp ∧ b.known.get? key = none := by
      intro b'
      constructor
      · rintro ⟨i', x', t', offered', hi', hx', hkey, hphase, hnone⟩
        obtain ⟨rfl, rfl⟩ := Event.tell.inj hi'
        obtain rfl := Option.some.inj (hi.symm.trans hx')
        rw [hx] at hphase
        exact ⟨rfl, hkey, (Phase.shaken.inj hphase).2.1, hnone⟩
      · rintro ⟨rfl, hkey, rfl, hnone⟩
        exact ⟨i, x, t, offered, rfl, hi, hkey, hx, hnone⟩
    rw [hsaves]
    by_cases hsaved : key = x.conn.knownKey env ∧ b.known.get? key = none ∧ writable = true
    · obtain ⟨hkey, hnone, hwritable⟩ := hsaved
      simp [hkey.symm, hnone, hwritable]
    · rw [if_neg hsaved]
      constructor
      · exact fun hknown => .inr ⟨hknown, id⟩
      · rintro (⟨hwritable, hkey, -, hnone⟩ | ⟨hknown, -⟩)
        · exact absurd ⟨hkey.symm, hnone, hwritable⟩ hsaved
        · exact hknown
  | forget address port =>
    rw [Dict.get?_del]
    simp [Saves, Forgets, @eq_comm _ key, and_comm]
  | clear => simp [Saves, Forgets]
  | «open» i conn hi => simp [Saves, Forgets]
  | hello i x hi hx => simp [Saves, Forgets]
  | receive i x c hi hx => simp [Saves, Forgets]
  | shake i x t fp' hi hx => simp [Saves, Forgets]

/-- A key is remembered exactly if it was reported when none was known, and the address has not been
forgotten since. -/
theorem known_iff_since {es : List Event} {t : Browser} (hrun : exec (step env) {} es = some t)
    (key : String) (fp : Fingerprint) :
    t.known.get? key = some fp ↔
      Since (step env) (Saves env key fp) (fun _ e _ => Forgets env key e) {} es :=
  exec_since_iff (H := fun b => b.known.get? key = some fp) (I := fun _ => True)
    (fun _ _ _ _ _ => trivial) (fun _ _ _ _ he => known_step he) trivial (by simp) hrun

namespace Tabs

/-- A server without keys of its own, on which names are lowered as in ASCII. -/
def ascii : Env where
  toLowerCase := toLower
  parsePrivateKey _ := .error .passphraseMissing
  parsePrivateKeyWithPassphrase _ _ := .error .passphraseMissing

/-- The fingerprint of the host's first key. -/
def ed25519 : Fingerprint := ⟨"SHA256:Wu7", by decide, by decide⟩

/-- The fingerprint of another key of the host. -/
def rsa : Fingerprint := ⟨"SHA256:c0f", by decide, by decide⟩

/-- The same server as `nas`. -/
def upper : CustomSshConn where
  place := ⟨"NAS", 2222, "admin"⟩
  auth := .password
  password := "secret"
  address_valid := by decide
  port_pos := by decide
  port_lt := by decide
  user_ne_empty := by decide

/-- A first terminal. -/
def firstUse : List Event :=
  [.open 0 CustomSsh.Example.nas, .hello 0, .receive 0, .shake 0 ed25519, .tell 0 true]

/-- Two more, one of which meets another server. -/
def secondUse : List Event :=
  [.open 1 upper, .open 2 upper, .hello 1, .hello 2, .receive 2, .shake 2 rsa, .receive 1,
    .shake 1 ed25519, .tell 2 true]

/-- The browser after the first connection. -/
def first : Browser := (exec (step ascii) {} firstUse).getD {}

/-- The browser after the second connection to the same host. -/
def second : Browser := (exec (step ascii) first secondUse).getD {}

end Tabs

open Tabs in
/-- The first connection to a host stores its key. -/
theorem known_iff_since_firstUse : ∃ t, exec (step ascii) {} firstUse = some t ∧
    (t.known.get? "nas:2222" = some ed25519 ↔
      Since (step ascii) (Saves ascii "nas:2222" ed25519) (fun _ e _ => Forgets ascii "nas:2222" e)
        {}
        firstUse) := by
  have hend : (exec (step ascii) {} firstUse).isSome = true := by decide +kernel
  obtain ⟨t, ht⟩ := Option.isSome_iff_exists.mp hend
  exact ⟨t, ht, known_iff_since ht "nas:2222" ed25519⟩

/-! ### Who is trusted -/

/-- The key is remembered, and the terminals to its address that had not asked in `b₀` ask for it.
-/
structure Trusts (env : Env) (b₀ : Browser) (key : String) (fp : Fingerprint) (b : Browser) :
    Prop where
  known : b.known.get? key = some fp
  asks : ∀ i x, b.terminals.get? i = some x → x.conn.knownKey env = key →
    (∀ x₀, b₀.terminals.get? i = some x₀ → x₀.phase = .opening) → x.phase.Asks fp

variable {b₀ : Browser}

private theorem Trusts.setPhase (h : Trusts env b₀ key fp b) {i : ℕ} {x : Terminal} {phase : Phase}
    (hi : b.terminals.get? i = some x)
    (hphase : x.conn.knownKey env = key → x.phase.Asks fp → phase.Asks fp) :
    Trusts env b₀ key fp (b.setPhase i x phase) where
  known := h.known
  asks j y hy hkey hlate := by
    rw [terminals_setPhase, Dict.get?_set] at hy
    split_ifs at hy with hji
    · obtain rfl := Option.some.inj hy
      exact hphase hkey (h.asks i x hi hkey (hji ▸ hlate))
    · exact h.asks j y hy hkey hlate

theorem Trusts.step (h : Trusts env b₀ key fp b) (hkeep : ¬ Forgets env key e)
    (he : b.step env e = some b') : Trusts env b₀ key fp b' := by
  cases step_sound he with
  | «open» i conn hi =>
    refine ⟨h.known, fun j y hy hkey hlate => ?_⟩
    rw [Dict.get?_set] at hy
    split_ifs at hy with hji
    · obtain rfl := Option.some.inj hy
      trivial
    · exact h.asks j y hy hkey hlate
  | hello i x hi hx =>
    refine h.setPhase hi fun hkey _ => ?_
    -- it asks for the key that is remembered
    exact knownHostKey_of_known (hkey ▸ h.known)
  | receive i x c hi hx =>
    refine h.setPhase hi fun _ hasks => Phase.Asks.received ?_
    rwa [hx] at hasks
  | shake i x t fp' hi hx =>
    refine h.setPhase hi fun _ hasks haccepts => ?_
    rw [hx] at hasks
    -- a server with another key is refused before it is offered anything
    exact Target.eq_of_accepts hasks haccepts
  | tell i x t fp' offered writable hi hx =>
    -- The key is known, so that no other is saved for it.
    have htrusts : Trusts env b₀ key fp (b.remember env x.conn fp' writable) := by
      refine ⟨?_, fun j y hy => h.asks j y (by rwa [terminals_remember] at hy)⟩
      rw [known_remember, if_neg fun hsaved => by simp [h.known] at hsaved, h.known]
    refine htrusts.setPhase (by rwa [terminals_remember]) fun _ hasks => ?_
    rwa [hx] at hasks
  | forget address port =>
    refine ⟨?_, h.asks⟩
    rw [Dict.get?_del, if_neg fun heq => hkeep heq.symm, h.known]
  | clear => exact absurd trivial hkeep

/-- **Trust on first use.** As long as a key is not forgotten, a terminal to its address that had
not asked before offers its credential to no server with another key. -/
theorem trusted_of_run {es : List Event} {t : Browser} (hknown : b₀.known.get? key = some fp)
    (hrun : exec (step env) b₀ es = some t)
    (hkeep : Along (step env) (fun _ e => ¬ Forgets env key e) b₀ es) {i : ℕ} {x : Terminal}
    (hx : t.terminals.get? i = some x) (hkey : x.conn.knownKey env = key)
    (hlate : ∀ x₀, b₀.terminals.get? i = some x₀ → x₀.phase = .opening) {fp' : Fingerprint}
    (hoffered : x.phase.offered = some fp') : fp' = fp := by
  have hstart : Trusts env b₀ key fp b₀ := by
    refine ⟨hknown, fun j y hy _ hlate => ?_⟩
    rw [hlate y hy]
    trivial
  have htrusts : Trusts env b₀ key fp t :=
    exec_invariant_along (fun _ _ _ h hkeep he => h.step hkeep he) hstart hkeep hrun
  exact (htrusts.asks i x hx hkey hlate).eq hoffered

open Tabs in
/-- At the second connection the stored key is the one that is offered. -/
theorem trusted_of_run_secondUse : ∃ x fp, second.terminals.get? 1 = some x ∧
    x.phase.offered = some fp ∧ fp = ed25519 := by
  have hrun : exec (step ascii) first secondUse = some second := by decide +kernel
  have hx : ∃ x, second.terminals.get? 1 = some x ∧ x.conn.knownKey ascii = "nas:2222" ∧
      x.phase.offered = some ed25519 := by
    have hmap : (second.terminals.get? 1).map (fun x => (x.conn.knownKey ascii, x.phase.offered)) =
        some ("nas:2222", some ed25519) := by decide +kernel
    obtain ⟨x, hx, hpair⟩ := Option.map_eq_some_iff.mp hmap
    exact ⟨x, hx, (Prod.mk.inj hpair).1, (Prod.mk.inj hpair).2⟩
  obtain ⟨x, hx, hkey, hoffered⟩ := hx
  have hnew : first.terminals.get? 1 = none := by decide +kernel
  have hknown : first.known.get? "nas:2222" = some ed25519 := by decide +kernel
  exact ⟨x, ed25519, hx, hoffered,
    trusted_of_run hknown hrun (by decide +kernel) hx hkey (by simp [hnew]) hoffered⟩

open Tabs in
example : (second.terminals.get? 2).map (·.phase.offered) = some none := by decide +kernel

end Browser

end Dockhand.Hosts.CustomSsh
