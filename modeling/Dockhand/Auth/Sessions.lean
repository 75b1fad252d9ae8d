import Dockhand.Registry.Auth
import Dockhand.Transition.Since

/-!
# Sessions of the web interface

The table of sessions and the requests that read and write it, in any interleaving. A request of
the API passes the middleware first, which signs it in by its cookie, and then runs its handler;
a handler takes one step for each statement or transaction, so that the steps of others come in
between. `ResetPassword` is run from the command line and passes no middleware.
-/

namespace Dockhand.Auth.Sessions

open Go Transition
open Registry (Env validatePassword validUsername)

/-! ### The tables -/

/-- `model.User`, without its id and the time it was created. -/
structure Profile where
  name : String
  username : String
  role : String
  theme : String
  deriving DecidableEq

/-- A row of `users`, under its id. -/
structure User where
  profile : Profile
  hash : String
  deriving DecidableEq

/-- A row of `sessions`, under its id. The device and the address are left out. -/
structure SessionRow where
  userID : String
  expiresAt : ℕ
  lastSeenAt : ℕ
  deriving DecidableEq

/-- `Session`. -/
structure Session where
  id : String
  userID : String
  user : Profile
  deriving DecidableEq

/-- Nanoseconds. -/
def minute : ℕ := 60000000000

/-- `RememberTTL` and `SessionTTL`. -/
def sessionTTL (remember : Bool) : ℕ :=
  if remember then 30 * 24 * 60 * minute else 24 * 60 * minute

/-- `PublicSessionID`: the id of a session that clients are shown. -/
def publicSessionID (env : Env) (storedID : String) : String :=
  String.ofList ((env.sha256 storedID).toList.take 24)

/-! ### Requests -/

/-- `AccountPatch`. -/
structure AccountPatch where
  name : Option String := none
  username : Option String := none
  theme : Option String := none
  currentPassword : String := ""
  newPassword : String := ""
  deriving DecidableEq

/-- The transaction of `UpdateAccount` before its commit: what it will write, and the sessions that
its `DELETE` has found. -/
structure Change where
  sess : Session
  profile : Profile
  hash : Option String
  ended : List String
  deriving DecidableEq

/-- `noUser` is the error "no user named" with the quoted name. -/
inductive Reply
  | notSignedIn
  | error (msg : String)
  | noUser (username : String)
  | token (tok : String)
  | ok
  deriving DecidableEq

/-- How far a request is. -/
inductive Phase
  /-- `Authenticate` has found the session, last seen at this time. -/
  | found (sess : Session) (lastSeen : ℕ)
  /-- The handler runs. -/
  | arrived (sess : Option Session)
  /-- `Setup` waits for the lock, has it, and has counted no user. -/
  | settingUp (profile : Profile) (hash : String)
  | locked (profile : Profile) (hash : String)
  | counted (profile : Profile) (hash : String)
  /-- `Login` or `Setup` has returned this user; `CreateSession` is next. -/
  | verified (userID : String) (remember : Bool)
  /-- `RevokeSession` has chosen a session. -/
  | revoking (target : String)
  /-- `UpdateAccount` has compared the current password, and has run its statements. -/
  | compared (sess : Session) (profile : Profile) (newPassword : String)
  | changing (c : Change)
  /-- `ResetPassword` has written the hash. -/
  | resetting (userID : String)
  | answered (r : Reply)
  deriving DecidableEq

/-- A request, with the session cookie that it carries and how far it has come. -/
structure Call where
  cookie : String
  phase : Phase
  deriving DecidableEq

/-- The database and the requests. `setupLock` is the request that holds the lock on `users`. -/
structure Accounts where
  now : ℕ := 0
  users : Dict String User := ∅
  sessions : Dict String SessionRow := ∅
  setupLock : Option ℕ := none
  calls : Dict ℕ Call := ∅
  deriving DecidableEq

/-- What happens next. A request is named by a number. Random values, hashes and ids that are
generated come with the event, and so does the order in which rows are returned. -/
inductive Event
  | tick (d : ℕ)
  | arrive (k : ℕ) (cookie : String)
  | touch (k : ℕ)
  | setup (k : ℕ) (name username password hash : String)
  | lock (k : ℕ)
  | count (k : ℕ)
  | commitSetup (k : ℕ) (id : String)
  | login (k : ℕ) (username password : String) (remember : Bool)
  | createSession (k : ℕ) (tok : String)
  | logout (k : ℕ)
  | revoke (k : ℕ) (publicID : String) (rows : List String)
  | deleteRevoked (k : ℕ)
  | patch (k : ℕ) (p : AccountPatch)
  | deleteOthers (k : ℕ) (hash : String)
  | commitPatch (k : ℕ)
  | reset (k : ℕ) (username password hash : String)
  | deleteReset (k : ℕ)
  | fail (k : ℕ) (msg : String)
  | prune
  deriving DecidableEq

/-- The profile and the username that `Setup` writes. -/
def setupProfile (env : Env) (name username password : String) : Except String Profile := do
  let username := env.normalizeName username
  validUsername username
  validatePassword password
  let name := if trimSpace name = "" then username else name
  return { name := trimSpace name, username, role := "admin", theme := "system" }

/-- The name after the patch: trimmed, and not empty where one is given. -/
def AccountPatch.newName (u : Profile) (p : AccountPatch) : Except String String :=
  match p.name with
  | none => .ok u.name
  | some name => if trimSpace name = "" then .error "name cannot be empty" else .ok (trimSpace name)

/-- The username after the patch: normalised and checked where one is given. -/
def AccountPatch.newUsername (env : Env) (u : Profile) (p : AccountPatch) : Except String String :=
  match p.username with
  | none => .ok u.username
  | some name => (validUsername (env.normalizeName name)).map fun _ => env.normalizeName name

/-- The theme after the patch, one of the three that the interface knows. -/
def AccountPatch.newTheme (u : Profile) (p : AccountPatch) : Except String String :=
  match p.theme with
  | none => .ok u.theme
  | some theme =>
    if theme = "light" ∨ theme = "dark" ∨ theme = "system" then .ok theme
    else .error "theme must be light, dark or system"

/-- The profile that `UpdateAccount` writes. -/
def patchedProfile (env : Env) (u : Profile) (p : AccountPatch) : Except String Profile := do
  let name ← p.newName u
  let username ← p.newUsername env u
  let theme ← p.newTheme u
  return { u with name, username, theme }

namespace Accounts

/-- `SetupRequired`. -/
def setupRequired (s : Accounts) : Bool := s.users.entries.isEmpty

/-- The account with this username. -/
def findUser (s : Accounts) (username : String) : Option (String × User) :=
  s.users.entries.find? fun e => e.2.profile.username = username

/-- The query of `Authenticate`. -/
def findSession (env : Env) (s : Accounts) (tok : String) : Option (Session × ℕ) :=
  if tok = "" then none
  else
    (s.sessions.get? (env.sha256 tok)).bind fun r =>
      if s.now < r.expiresAt then
        (s.users.get? r.userID).map fun u => (⟨env.sha256 tok, r.userID, u.profile⟩, r.lastSeenAt)
      else none

/-- The session that a cookie signs in to. -/
def authenticate (env : Env) (s : Accounts) (tok : String) : Option Session :=
  (s.findSession env tok).map (·.1)

/-- `Login`. -/
def login (env : Env) (s : Accounts) (username password : String) : Except String String :=
  match s.findUser (env.normalizeName username) with
  | some (id, u) =>
    if env.bcrypt u.hash password then .ok id else .error "invalid username or password"
  | none => .error "invalid username or password"

/-- The ids of the sessions of a user. -/
def idsOf (s : Accounts) (userID : String) : List String :=
  (s.sessions.entries.filter fun e => e.2.userID = userID).map (·.1)

/-- The session that `RevokeSession` deletes. -/
def revokeTarget (env : Env) (publicID : String) (rows : List String) : String :=
  rows.foldl (fun target id => if publicSessionID env id = publicID then id else target) ""

/-- A session as `Account` shows it. -/
structure SessionInfo where
  id : String
  lastSeenAt : ℕ
  current : Bool
  deriving DecidableEq

/-- `Account`: the sessions of a user that have not expired, the last seen one first. -/
def account (env : Env) (s : Accounts) (sess : Session) : List SessionInfo :=
  ((s.sessions.entries.filter fun e => e.2.userID = sess.userID ∧ s.now < e.2.expiresAt).mergeSort
    fun a b => b.2.lastSeenAt ≤ a.2.lastSeenAt).map fun e =>
      { id := publicSessionID env e.1, lastSeenAt := e.2.lastSeenAt, current := e.1 = sess.id }

/-! ### Steps -/

/-- A request moves on. -/
def setPhase (s : Accounts) (k : ℕ) (c : Call) (phase : Phase) : Accounts :=
  { s with calls := s.calls.set k { c with phase } }

/-- The transaction of a request ends, and with it its lock. -/
def unlock (s : Accounts) (k : ℕ) : Accounts :=
  { s with setupLock := s.setupLock.filter (· ≠ k) }

/-- `DELETE FROM sessions`. -/
def deleteSessions (s : Accounts) (p : String → SessionRow → Bool) : Accounts :=
  { s with sessions := s.sessions.filter fun id r => !p id r }

/-- The middleware, up to its query. -/
def arrive (env : Env) (s : Accounts) (k : ℕ) (cookie : String) : Accounts :=
  match s.findSession env cookie with
  | some (sess, lastSeen) => s.setPhase k ⟨cookie, .arrived none⟩ (.found sess lastSeen)
  | none => s.setPhase k ⟨cookie, .arrived none⟩ (.arrived none)

/-- The second statement of `Authenticate`, at most once a minute. -/
def touch (s : Accounts) (k : ℕ) (c : Call) (sess : Session) (lastSeen : ℕ) : Accounts :=
  let s' := s.setPhase k c (.arrived (some sess))
  if lastSeen + minute < s.now then
    { s' with
      sessions := s.sessions.mapVals fun id r =>
        if id = sess.id then { r with lastSeenAt := s.now } else r }
  else s'

/-- `INSERT INTO sessions`, which fails when the id is there already. -/
def createSession (env : Env) (s : Accounts) (k : ℕ) (c : Call) (userID : String) (remember : Bool)
    (tok : String) : Accounts :=
  match s.sessions.get? (env.sha256 tok) with
  | some _ => s.setPhase k c (.answered (.error "duplicate key"))
  | none =>
    { s.setPhase k c (.answered (.token tok)) with
      sessions := s.sessions.set (env.sha256 tok) ⟨userID, s.now + sessionTTL remember, s.now⟩ }

/-- `UpdateAccount`, up to its comparison of the current password. -/
def patch (env : Env) (s : Accounts) (k : ℕ) (c : Call) (sess : Session) (p : AccountPatch) :
    Accounts :=
  match patchedProfile env sess.user p with
  | .error msg => s.setPhase k c (.answered (.error msg))
  | .ok profile =>
    if p.newPassword = "" then s.setPhase k c (.changing ⟨sess, profile, none, []⟩)
    else
      match s.users.get? sess.userID with
      | none => s.setPhase k c (.answered (.error "no rows in result set"))
      | some u =>
        if env.bcrypt u.hash p.currentPassword then
          match validatePassword p.newPassword with
          | .error msg => s.setPhase k c (.answered (.error msg))
          | .ok _ => s.setPhase k c (.compared sess profile p.newPassword)
        else s.setPhase k c (.answered (.error "current password is incorrect"))

/-- Another account has the username that a change writes. -/
def taken (s : Accounts) (ch : Change) : Bool :=
  s.users.entries.any fun e =>
    e.1 ≠ ch.sess.userID ∧ e.2.profile.username = ch.profile.username

/-- The last statement of `UpdateAccount` and its commit. -/
def commitPatch (s : Accounts) (k : ℕ) (c : Call) (ch : Change) : Accounts :=
  if s.taken ch then s.setPhase k c (.answered (.error "that username is taken"))
  else
    { (s.setPhase k c (.answered .ok)).deleteSessions fun id _ => id ∈ ch.ended with
      users := s.users.mapVals fun id u =>
        if id = ch.sess.userID then ⟨ch.profile, ch.hash.getD u.hash⟩ else u }

/-- `ResetPassword`, up to its first statement. -/
def reset (env : Env) (s : Accounts) (k : ℕ) (username password hash : String) : Accounts :=
  match validatePassword password with
  | .error msg => s.setPhase k ⟨"", .arrived none⟩ (.answered (.error msg))
  | .ok _ =>
    match s.findUser (env.normalizeName username) with
    | none => s.setPhase k ⟨"", .arrived none⟩ (.answered (.noUser username))
    | some (id, _) =>
      { s.setPhase k ⟨"", .arrived none⟩ (.resetting id) with
        users := s.users.mapVals fun id' u => if id' = id then { u with hash } else u }

/-- One step. -/
def step (env : Env) (s : Accounts) : Event → Option Accounts
  | .tick d => some { s with now := s.now + d }
  | .arrive k cookie =>
    match s.calls.get? k with
    | none => some (s.arrive env k cookie)
    | some _ => none
  | .touch k =>
    match s.calls.get? k with
    | some ⟨cookie, .found sess lastSeen⟩ => some (s.touch k ⟨cookie, .arrived none⟩ sess lastSeen)
    | _ => none
  | .setup k name username password hash =>
    match s.calls.get? k with
    | some ⟨cookie, .arrived sess⟩ =>
      match setupProfile env name username password with
      | .error msg => some (s.setPhase k ⟨cookie, .arrived sess⟩ (.answered (.error msg)))
      | .ok profile =>
        if env.bcrypt hash password then
          some (s.setPhase k ⟨cookie, .arrived sess⟩ (.settingUp profile hash))
        else none
    | _ => none
  | .lock k =>
    match s.calls.get? k, s.setupLock with
    | some ⟨cookie, .settingUp profile hash⟩, none =>
      some { s.setPhase k ⟨cookie, .arrived none⟩ (.locked profile hash) with setupLock := some k }
    | _, _ => none
  | .count k =>
    match s.calls.get? k with
    | some ⟨cookie, .locked profile hash⟩ =>
      if s.setupRequired then some (s.setPhase k ⟨cookie, .arrived none⟩ (.counted profile hash))
      else
        some ((s.setPhase k ⟨cookie, .arrived none⟩
          (.answered (.error "setup has already been completed"))).unlock k)
    | _ => none
  | .commitSetup k id =>
    match s.calls.get? k, s.users.get? id with
    | some ⟨cookie, .counted profile hash⟩, none =>
      some
        ({ s.setPhase k ⟨cookie, .arrived none⟩ (.verified id true) with
          users := s.users.set id ⟨profile, hash⟩ }.unlock k)
    | _, _ => none
  | .login k username password remember =>
    match s.calls.get? k with
    | some ⟨cookie, .arrived sess⟩ =>
      match s.login env username password with
      | .ok id => some (s.setPhase k ⟨cookie, .arrived sess⟩ (.verified id remember))
      | .error msg => some (s.setPhase k ⟨cookie, .arrived sess⟩ (.answered (.error msg)))
    | _ => none
  | .createSession k tok =>
    match s.calls.get? k with
    | some ⟨cookie, .verified userID remember⟩ =>
      some (s.createSession env k ⟨cookie, .arrived none⟩ userID remember tok)
    | _ => none
  | .logout k =>
    match s.calls.get? k with
    | some ⟨cookie, .arrived (some _)⟩ =>
      some ((s.setPhase k ⟨cookie, .arrived none⟩ (.answered .ok)).deleteSessions
        fun id _ => id = env.sha256 cookie)
    | some ⟨cookie, .arrived none⟩ =>
      some (s.setPhase k ⟨cookie, .arrived none⟩ (.answered .notSignedIn))
    | _ => none
  | .revoke k publicID rows =>
    match s.calls.get? k with
    | some ⟨cookie, .arrived (some sess)⟩ =>
      if rows.Perm (s.idsOf sess.userID) then
        if revokeTarget env publicID rows = "" then
          some (s.setPhase k ⟨cookie, .arrived none⟩ (.answered (.error "session not found")))
        else
          some (s.setPhase k ⟨cookie, .arrived none⟩ (.revoking (revokeTarget env publicID rows)))
      else none
    | some ⟨cookie, .arrived none⟩ =>
      some (s.setPhase k ⟨cookie, .arrived none⟩ (.answered .notSignedIn))
    | _ => none
  | .deleteRevoked k =>
    match s.calls.get? k with
    | some ⟨cookie, .revoking target⟩ =>
      some ((s.setPhase k ⟨cookie, .arrived none⟩ (.answered .ok)).deleteSessions
        fun id _ => id = target)
    | _ => none
  | .patch k p =>
    match s.calls.get? k with
    | some ⟨cookie, .arrived (some sess)⟩ => some (s.patch env k ⟨cookie, .arrived none⟩ sess p)
    | some ⟨cookie, .arrived none⟩ =>
      some (s.setPhase k ⟨cookie, .arrived none⟩ (.answered .notSignedIn))
    | _ => none
  | .deleteOthers k hash =>
    match s.calls.get? k with
    | some ⟨cookie, .compared sess profile newPassword⟩ =>
      if env.bcrypt hash newPassword then
        some (s.setPhase k ⟨cookie, .arrived none⟩ (.changing
          ⟨sess, profile, some hash, (s.idsOf sess.userID).filter (· ≠ sess.id)⟩))
      else none
    | _ => none
  | .commitPatch k =>
    match s.calls.get? k with
    | some ⟨cookie, .changing ch⟩ => some (s.commitPatch k ⟨cookie, .arrived none⟩ ch)
    | _ => none
  | .reset k username password hash =>
    match s.calls.get? k with
    | none => if env.bcrypt hash password then some (s.reset env k username password hash) else none
    | some _ => none
  | .deleteReset k =>
    match s.calls.get? k with
    | some ⟨cookie, .resetting userID⟩ =>
      some ((s.setPhase k ⟨cookie, .arrived none⟩ (.answered .ok)).deleteSessions
        fun _ r => r.userID = userID)
    | _ => none
  | .fail k msg =>
    match s.calls.get? k with
    | some ⟨_, .answered _⟩ => none
    | some ⟨cookie, _⟩ =>
      some ((s.setPhase k ⟨cookie, .arrived none⟩ (.answered (.error msg))).unlock k)
    | none => none
  | .prune => some (s.deleteSessions fun _ r => r.expiresAt < s.now)

end Accounts

end Dockhand.Auth.Sessions
