import Dockhand.Go.Dict
import Dockhand.Go.Strings
import Dockhand.Transition.Exec
import Mathlib.Logic.Function.Basic

/-!
# Logins to the registry

`authenticate` looks for a cached login, checks the credentials against the database when there
is none, and stores the result for five minutes. The three are separate steps, and calls of it
run concurrently with `RevokeToken`, `UpdateAccount` and `ResetPassword`.

Hashing is a parameter: `sha256` is the digest of tokens and cache keys, `bcrypt hash password`
says whether a stored hash accepts a password.
-/

namespace Dockhand.Registry

open Go

/-- The library functions that logins rest on. -/
structure Env where
  toLower : String → String
  sha256 : String → String
  bcrypt : String → String → Bool

/-- A row of `registry_tokens`. -/
structure Token where
  name : String
  hash : String
  scope : String
  system : Bool
  revoked : Bool

/-- A row of `users`. -/
structure User where
  username : String
  hash : String

/-- What a login was checked against: a token, or a password of an account. -/
inductive Credential
  | token (id : String)
  | password (uid pass : String)
  deriving DecidableEq

/-- `authResult`. `cred` is not in the source: it records what was checked, for the statements
about it. -/
structure AuthResult where
  scope : String
  who : String
  tokenID : String
  validUntil : ℕ
  cred : Credential

/-- How far a call of `authenticate` is. -/
inductive Phase
  | started
  | missed
  | checked (res : AuthResult)
  | stamped (res : AuthResult)
  | returned (res : AuthResult)
  | failed (err : String)

/-- A call of `authenticate`. -/
structure Call where
  user : String
  pass : String
  phase : Phase

/-- `revoking` are the `RevokeToken` calls between their `UPDATE` and dropping the cache,
`revoked` the tokens for which one has returned without an error. -/
structure Service where
  now : ℕ := 0
  tokens : Dict String Token
  users : Dict String User
  okCache : Dict String AuthResult := ∅
  calls : ℕ → Option Call := fun _ => none
  revoking : List String := []
  revoked : List String := []

/-- What an account changes about itself; an empty new password leaves the old one. The name and
the theme, which logins do not depend on, are left out. -/
structure AccountPatch where
  username : Option String := none
  currentPassword : String := ""
  newPassword : String := ""

/-- What happens next. A call of `authenticate` is named by a number; `sessName` is the username of
the session that changes its account, and `newHash` the hash generated from the new password. -/
inductive Event
  | tick (d : ℕ)
  | begin (k : ℕ) (user pass : String)
  | lookup (k : ℕ)
  | check (k : ℕ)
  | stamp (k : ℕ)
  | store (k : ℕ)
  | revoke (id : String)
  | dropCache (i : ℕ)
  | updateAccount (uid sessName : String) (p : AccountPatch) (newHash : String)
  | resetPassword (username password newHash : String)

/-- Five minutes. -/
def cacheTTL : ℕ := 300000000000

/-- `strings.TrimSpace(strings.ToLower(name))`. -/
def Env.normalizeName (env : Env) (name : String) : String := trimSpace (env.toLower name)

/-- The key under which a login is cached. -/
def Env.cacheKey (env : Env) (user pass : String) : String := env.sha256 (user ++ "\x00" ++ pass)

/-- `ValidatePassword`. -/
def validatePassword (p : String) : Except String Unit :=
  if p.toList.length < 12 then .error "password must be at least 12 characters"
  else if p.utf8ByteSize > 72 then .error "password must be at most 72 bytes"
  else .ok ()

/-- `validUsername`. -/
def validUsername (u : String) : Except String Unit :=
  if u = "" ∨ u.utf8ByteSize > 64 ∨ containsAny u " \t\n/" then
    .error "username must be 1–64 characters without spaces"
  else .ok ()

/-- The username that `UpdateAccount` writes. -/
def AccountPatch.newName (env : Env) (sessName : String) (p : AccountPatch) : Option String :=
  match p.username with
  | none => some sessName
  | some name =>
    (validUsername (env.normalizeName name)).toOption.map fun _ => env.normalizeName name

/-- The password hash that `UpdateAccount` writes. -/
def AccountPatch.newHash (env : Env) (old newHash : String) (p : AccountPatch) : Option String :=
  if p.newPassword = "" then some old
  else if env.bcrypt old p.currentPassword then
    (validatePassword p.newPassword).toOption.map fun _ => newHash
  else none

namespace Service

/-! ### The database -/

/-- The token with this hash that is not revoked. -/
def findToken (s : Service) (hash : String) : Option (String × Token) :=
  s.tokens.entries.find? fun e => e.2.hash = hash ∧ e.2.revoked = false

/-- The account with this username. -/
def findUser (s : Service) (username : String) : Option (String × User) :=
  s.users.entries.find? fun e => e.2.username = username

/-- `Login` verifies a username and password. -/
def login (env : Env) (s : Service) (username password : String) :
    Except String (String × User) :=
  match s.findUser (env.normalizeName username) with
  | some (uid, u) =>
    if env.bcrypt u.hash password then .ok (uid, u) else .error "invalid username or password"
  | none => .error "invalid username or password"

/-- The database check of `authenticate`. -/
def checkCredentials (env : Env) (s : Service) (user pass : String) : Except String AuthResult :=
  if hasPrefix pass "dhr_" then
    match s.findToken (env.sha256 pass) with
    | some (id, t) =>
      .ok { scope := t.scope, who := "token:" ++ t.name, tokenID := id, validUntil := 0,
            cred := .token id }
    | none => .error "bad token"
  else
    match s.login env user pass with
    | .ok (uid, u) =>
      .ok { scope := "push", who := u.username, tokenID := "", validUntil := 0,
            cred := .password uid pass }
    | .error e => .error e

/-! ### The steps of `authenticate` -/

/-- A call moves on. -/
def setPhase (s : Service) (k : ℕ) (c : Call) (phase : Phase) : Service :=
  { s with calls := Function.update s.calls k (some { c with phase }) }

/-- The cached login under a key, unless it has expired. -/
def cached (s : Service) (key : String) : Option AuthResult :=
  (s.okCache.get? key).filter fun c => s.now < c.validUntil

/-- The cache look-up. -/
def lookup (env : Env) (s : Service) (k : ℕ) (c : Call) : Service :=
  match s.cached (env.cacheKey c.user c.pass) with
  | some res => s.setPhase k c (.returned res)
  | none => s.setPhase k c .missed

/-- The database check. -/
def check (env : Env) (s : Service) (k : ℕ) (c : Call) : Service :=
  match s.checkCredentials env c.user c.pass with
  | .ok res => s.setPhase k c (.checked res)
  | .error e => s.setPhase k c (.failed e)

/-- The cache store, which empties a cache of more than 500 logins first. -/
def store (env : Env) (s : Service) (k : ℕ) (c : Call) (res : AuthResult) : Service :=
  let cache := if s.okCache.entries.length > 500 then ∅ else s.okCache
  { s.setPhase k c (.returned res) with okCache := cache.set (env.cacheKey c.user c.pass) res }

/-! ### Revocation and password changes -/

/-- The `UPDATE` of `RevokeToken`; without a matching row the call returns "not found". -/
def revoke (s : Service) (id : String) : Option Service :=
  match s.tokens.get? id with
  | some t =>
    if t.system ∨ t.revoked then none
    else some
      { s with
        tokens := s.tokens.set id { t with revoked := true }
        revoking := s.revoking ++ [id] }
  | none => none

/-- `RevokeToken` drops the cached logins and returns. -/
def dropCache (s : Service) (i : ℕ) (id : String) : Service :=
  { s with okCache := ∅, revoking := s.revoking.eraseIdx i, revoked := id :: s.revoked }

/-- The transaction of `UpdateAccount`: `none` when the call returns an error. -/
def updateAccount (env : Env) (s : Service) (uid sessName : String) (p : AccountPatch)
    (newHash : String) : Option Service := do
  let username ← p.newName env sessName
  let u ← s.users.get? uid
  let hash ← p.newHash env u.hash newHash
  if s.users.entries.any fun e => e.1 ≠ uid ∧ e.2.username = username then none
  else some { s with users := s.users.set uid { username, hash } }

/-- `ResetPassword`: `none` when the call returns an error. -/
def resetPassword (env : Env) (s : Service) (username password newHash : String) :
    Option Service := do
  let _ ← (validatePassword password).toOption
  let (uid, u) ← s.findUser (env.normalizeName username)
  return { s with users := s.users.set uid { u with hash := newHash } }

/-- One step. -/
def step (env : Env) (s : Service) : Event → Option Service
  | .tick d => some { s with now := s.now + d }
  | .begin k user pass =>
    match s.calls k with
    | none => some (s.setPhase k ⟨user, pass, .started⟩ .started)
    | some _ => none
  | .lookup k =>
    match s.calls k with
    | some ⟨user, pass, .started⟩ => some (s.lookup env k ⟨user, pass, .started⟩)
    | _ => none
  | .check k =>
    match s.calls k with
    | some ⟨user, pass, .missed⟩ => some (s.check env k ⟨user, pass, .missed⟩)
    | _ => none
  | .stamp k =>
    match s.calls k with
    | some ⟨user, pass, .checked res⟩ =>
      some (s.setPhase k ⟨user, pass, .checked res⟩
        (.stamped { res with validUntil := s.now + cacheTTL }))
    | _ => none
  | .store k =>
    match s.calls k with
    | some ⟨user, pass, .stamped res⟩ => some (s.store env k ⟨user, pass, .stamped res⟩ res)
    | _ => none
  | .revoke id => s.revoke id
  | .dropCache i => (s.revoking[i]?).map (s.dropCache i)
  | .updateAccount uid sessName p newHash => s.updateAccount env uid sessName p newHash
  | .resetPassword username password newHash => s.resetPassword env username password newHash

end Service

end Dockhand.Registry
