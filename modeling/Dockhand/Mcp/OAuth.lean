import Dockhand.Go.Dict
import Dockhand.Go.Strings
import Dockhand.Mcp.Catalog
import Dockhand.Transition.Custody
import Dockhand.Transition.Exec
import Mathlib.Algebra.Order.Group.Unbundled.Int
import Mathlib.Logic.Function.Basic

/-!
# Authorization codes

A consent issues a code, and `Exchange` redeems it for an API key. The codes are one map. `Exchange`
takes a code out of it under the lock and does the rest without: it checks the expiry, looks up the
client, checks the secret, the redirect URI and the verifier, and creates the key. Calls of it run
concurrently, and each may fail after its code is gone.

An issue is a token in custody: it is in the map, in one call or in one key (`Provider.held`).
-/

namespace Dockhand.Mcp.OAuth

open Go Transition

/-- The library functions that codes rest on. `s256` is the base64url of the SHA-256 of a string. -/
structure Env where
  toLower : String → String
  hashKey : String → String
  s256 : String → String

/-- `OAuthError`. -/
structure OAuthError where
  code : String
  desc : String
  deriving DecidableEq, Repr

/-- An `oauth_clients` row. -/
structure OAuthClient where
  id : String
  name : String
  redirectURIs : List String
  secretHash : String
  deriving DecidableEq, Repr

/-- A validated /oauth/authorize request. -/
structure AuthRequest where
  client : OAuthClient
  redirectURI : String
  state : String
  challenge : String
  deriving DecidableEq, Repr

/-- `ApiKeyInput`: the key that a grant is turned into. -/
structure ApiKeyInput where
  name : String
  client : String
  scope : String
  groups : List String := []
  hostIDs : List String
  /-- An `int`. -/
  expiresDays : ℤ := 0
  deriving DecidableEq, Repr

/-- What the user consents to. -/
structure Consent where
  approve : Bool := true
  scope : String
  hostIDs : List String
  deriving DecidableEq, Repr

/-- `authCode`. `issue` is not in the source: it numbers the codes that have been issued. -/
structure AuthCode where
  clientID : String
  redirectURI : String
  challenge : String
  key : ApiKeyInput
  exp : ℕ
  issue : ℕ
  deriving DecidableEq, Repr

/-- The arguments of `Exchange`. -/
structure Grant where
  clientID : String
  clientSecret : String
  code : String
  redirectURI : String
  verifier : String
  deriving DecidableEq, Repr

/-- A row of `api_keys`. -/
structure ApiKey where
  name : String
  client : String
  hash : String
  scope : String
  groups : List String
  hostIDs : List String
  expiresAt : Option ℤ
  deriving DecidableEq, Repr

/-- An error of `Exchange`. -/
inductive Failure
  | oauth (err : OAuthError)
  | other (msg : String)

/-- How far a call of `Exchange` is. -/
inductive Phase
  | started
  | taken (ac : Option AuthCode)
  | unexpired (ac : AuthCode)
  | verified (ac : AuthCode)
  | returned (key : String)
  | failed (err : Failure)

/-- A call of `Exchange`. `start` is not in the source. -/
structure Call where
  grant : Grant
  start : ℕ
  phase : Phase

/-- A code that has been issued. -/
structure Issue where
  code : String
  time : ℕ
  actor : String
  req : AuthRequest
  consent : Consent

/-- A key that has been created, and from what. -/
structure Created where
  row : ApiKey
  code : AuthCode
  grant : Grant
  start : ℕ

/-- `issued` is the history. Times are nanoseconds. -/
structure Provider where
  now : ℕ := 0
  clients : Dict String OAuthClient := ∅
  codes : Dict String AuthCode := ∅
  calls : ℕ → Option Call := fun _ => none
  keys : List Created := []
  issued : List Issue := []

/-- What the database says to an `INSERT … RETURNING`. The row may be there although the answer is
lost. -/
inductive Answer
  | inserted
  | lost
  | refused

/-- What happens next. A call of `Exchange` is named by a number, and what is random is given. -/
inductive Event
  | tick (d : ℕ)
  | registerClient (c : OAuthClient)
  | approve (actor : String) (enabled : Bool) (query : String → String) (consent : Consent)
      (code : String)
  | begin (k : ℕ) (grant : Grant)
  | take (k : ℕ)
  | checkExpiry (k : ℕ)
  | checkClient (k : ℕ) (reachable : Bool)
  | createKey (k : ℕ) (random : String) (answer : Answer)

/-- The nanoseconds of an hour. -/
def hour : ℤ := 3600000000000

/-- Ten minutes. -/
def codeTTL : ℕ := 600000000000

/-- A `time.Duration` is an int64. -/
def wrap64 (d : ℤ) : ℤ := d.bmod (2 ^ 64)

/-- What every key begins with. -/
def keyPrefix : String := "dh_live_"

/-- The names of the tool groups. -/
def groups : List String := ["Hosts", "Containers", "Logs", "Stacks", "Images", "Deploy"]

/-- The `redirect_uri` of the request, or the only one of the client. -/
def redirectFor (c : OAuthClient) (sent : String) : String :=
  match c.redirectURIs with
  | [only] => if sent = "" then only else sent
  | _ => sent

/-- The row that `CreateKey` inserts, or what is wrong with the input. -/
def keyRow (env : Env) (now : ℕ) (full : String) (input : ApiKeyInput) : Except String ApiKey :=
  let name := trimSpace input.name
  let client := if input.client = "" then "other" else input.client
  let scope := if input.scope = "" then "read" else input.scope
  if name = "" then .error "name is required"
  else if client ∉ ["claude", "cursor", "other"] then
    .error "client must be claude, cursor or other"
  else if scope ∉ ["read", "full", "custom"] then .error "scope must be read, full or custom"
  else match input.groups.find? (· ∉ groups) with
    | some g => .error ("unknown tool group " ++ g)
    | none =>
      if scope = "custom" ∧ input.groups = [] then
        .error "choose at least one tool group for a custom key"
      else .ok {
        name, client, scope
        hash := env.hashKey full
        groups := input.groups
        hostIDs := input.hostIDs
        expiresAt :=
          if 0 < input.expiresDays then some (now + wrap64 (input.expiresDays * 24 * hour)) else
            none }

namespace Provider

/-! ### Consent -/

/-- `Client` looks up a registered client. -/
def client (s : Provider) (id : String) : Except OAuthError OAuthClient :=
  match s.clients.get? id with
  | some c => .ok c
  | none => .error ⟨"invalid_client", "unknown client_id; register the client again"⟩

/-- `CheckAuthorize` validates authorize parameters. -/
def checkAuthorize (s : Provider) (query : String → String) : Except OAuthError AuthRequest := do
  let c ← s.client (query "client_id")
  let ru := redirectFor c (query "redirect_uri")
  if ru ∉ c.redirectURIs then
    throw ⟨"invalid_request", "redirect_uri is not registered for this client"⟩
  if query "response_type" ≠ "code" then
    throw ⟨"unsupported_response_type", "response_type must be code"⟩
  if query "code_challenge" = "" ∨ query "code_challenge_method" ≠ "S256" then
    throw ⟨"invalid_request", "PKCE with code_challenge_method=S256 is required"⟩
  return ⟨c, ru, query "state", query "code_challenge"⟩

/-- `IssueCode` records an approved request. Codes that have expired are dropped. -/
def issueCode (s : Provider) (code : String) (req : AuthRequest) (key : ApiKeyInput) : Provider :=
  { s with
    codes := (s.codes.filter fun _ c => ¬ c.exp < s.now).set code
      ⟨req.client.id, req.redirectURI, req.challenge, key, s.now + codeTTL, s.issued.length⟩ }

end Provider

/-- The key that `oauthApprove` asks for. -/
def consentedKey (env : Env) (actor : String) (req : AuthRequest) (consent : Consent) :
    ApiKeyInput where
  name := req.client.name ++ " (OAuth, " ++ actor ++ ")"
  client := if contains (env.toLower req.client.name) "claude" then "claude" else "other"
  scope := if consent.scope ≠ "full" then "read" else consent.scope
  hostIDs := consent.hostIDs

namespace Provider

variable (env : Env)

/-- `oauthApprove`, with the code that is drawn. -/
def approve (s : Provider) (actor : String) (enabled : Bool) (query : String → String)
    (consent : Consent) (code : String) : Provider :=
  match s.checkAuthorize query with
  | .error _ => s
  | .ok req =>
    if consent.approve ∧ enabled then
      { s.issueCode code req (consentedKey env actor req consent) with
        issued := s.issued ++ [⟨code, s.now, actor, req, consent⟩] }
    else s

/-! ### Redemption -/

/-- The `k`-th call, which is `c`, comes into another phase. -/
def setPhase (s : Provider) (k : ℕ) (c : Call) (phase : Phase) : Provider :=
  { s with calls := Function.update s.calls k (some { c with phase }) }

/-- The locked part. -/
def take (s : Provider) (k : ℕ) (c : Call) : Provider :=
  { s.setPhase k c (.taken (s.codes.get? c.grant.code)) with codes := s.codes.del c.grant.code }

/-- A code that is gone or has expired is refused; else the client is looked up. -/
def afterExpiry (s : Provider) (g : Grant) (ac : Option AuthCode) : Phase :=
  match ac with
  | none => .failed (.oauth ⟨"invalid_grant", "authorization code is invalid or expired"⟩)
  | some ac =>
    if ac.exp < s.now then
      .failed (.oauth ⟨"invalid_grant", "authorization code is invalid or expired"⟩)
    else if g.clientID ≠ "" ∧ g.clientID ≠ ac.clientID then
      .failed (.oauth ⟨"invalid_grant", "code was issued to another client"⟩)
    else .unexpired ac

/-- The client is checked: its secret where it has one, and that the code was issued for it and for
this redirection. -/
def afterClient (s : Provider) (g : Grant) (ac : AuthCode) (reachable : Bool) : Phase :=
  if ¬ reachable then .failed (.other "the database is not reachable")
  else match s.client ac.clientID with
    | .error err => .failed (.oauth err)
    | .ok c =>
      if c.secretHash ≠ "" ∧ env.hashKey g.clientSecret ≠ c.secretHash then
        .failed (.oauth ⟨"invalid_client", "client authentication failed"⟩)
      else if g.redirectURI ≠ "" ∧ g.redirectURI ≠ ac.redirectURI then
        .failed (.oauth ⟨"invalid_grant", "redirect_uri does not match the authorization request"⟩)
      else if g.verifier = "" ∨ env.s256 g.verifier ≠ ac.challenge then
        .failed (.oauth ⟨"invalid_grant", "PKCE verification failed"⟩)
      else .verified ac

/-- `CreateKey` issues a new key and returns it with the full secret. -/
def createKey (s : Provider) (k : ℕ) (c : Call) (ac : AuthCode) (random : String)
    (answer : Answer) :
    Provider :=
  match keyRow env s.now (keyPrefix ++ random) ac.key, answer with
  | .error msg, _ => s.setPhase k c (.failed (.other msg))
  | .ok _, .refused => s.setPhase k c (.failed (.other "the key could not be inserted"))
  | .ok row, .inserted =>
    { s.setPhase k c (.returned (keyPrefix ++ random)) with
      keys := s.keys ++ [⟨row, ac, c.grant, c.start⟩] }
  | .ok row, .lost =>
    { s.setPhase k c (.failed (.other "the answer was lost")) with
      keys := s.keys ++ [⟨row, ac, c.grant, c.start⟩] }

/-- What happens next. A call holds what it has taken out of the map until it returns. -/
def step (s : Provider) : Event → Option Provider
  | .tick d => some { s with now := s.now + d }
  | .registerClient c =>
    if s.clients.get? c.id = none then some { s with clients := s.clients.set c.id c } else none
  | .approve actor enabled query consent code =>
    some (s.approve env actor enabled query consent code)
  | .begin k grant =>
    if (s.calls k).isNone then
      some { s with calls := Function.update s.calls k (some ⟨grant, s.now, .started⟩) }
    else none
  | .take k => (s.calls k).bind fun c =>
    match c.phase with
    | .started => some (s.take k c)
    | _ => none
  | .checkExpiry k => (s.calls k).bind fun c =>
    match c.phase with
    | .taken ac => some (s.setPhase k c (s.afterExpiry c.grant ac))
    | _ => none
  | .checkClient k reachable => (s.calls k).bind fun c =>
    match c.phase with
    | .unexpired ac => some (s.setPhase k c (s.afterClient env c.grant ac reachable))
    | _ => none
  | .createKey k random answer => (s.calls k).bind fun c =>
    match c.phase with
    | .verified ac => some (s.createKey env k c ac random answer)
    | _ => none

end Provider

/-! ### Custody -/

/-- Where the number of an issue may be. -/
inductive Place
  | map (code : String)
  | call (k : ℕ)
  | key (i : ℕ)

/-- The code that a call has in its hands. -/
def Phase.code? : Phase → Option AuthCode
  | .taken ac => ac
  | .unexpired ac => some ac
  | .verified ac => some ac
  | _ => none

namespace Provider

variable (env : Env)

/-- The number of the grant whose code is at a place: in the map, in a call, or turned into a key.
-/
def held (s : Provider) : Place → Option ℕ
  | .map code => (s.codes.get? code).map AuthCode.issue
  | .call k => ((s.calls k).bind fun c => c.phase.code?).map AuthCode.issue
  | .key i => (s.keys[i]?).map fun c => c.code.issue

/-- What `Exchange` checks before the client is looked up. -/
structure InTime (start : ℕ) (g : Grant) (ac : AuthCode) : Prop where
  start : start ≤ ac.exp
  client : g.clientID ≠ "" → g.clientID = ac.clientID

/-- What it checks of the grant for the client. -/
structure Granted (g : Grant) (ac : AuthCode) (client : OAuthClient) : Prop where
  secret : client.secretHash ≠ "" → env.hashKey g.clientSecret = client.secretHash
  redirect : g.redirectURI ≠ "" → g.redirectURI = ac.redirectURI
  verifier : g.verifier ≠ "" ∧ env.s256 g.verifier = ac.challenge

/-- The code is the one that was issued under its number. -/
def Issued (s : Provider) (code : String) (ac : AuthCode) (iss : Issue) : Prop :=
  s.issued[ac.issue]? = some iss ∧ iss.code = code ∧
    ac = ⟨iss.req.client.id, iss.req.redirectURI, iss.req.challenge,
      consentedKey env iss.actor iss.req iss.consent, iss.time + codeTTL, ac.issue⟩

/-- What a call has checked of the code in its hands. -/
def Checked (s : Provider) (c : Call) : Prop :=
  match c.phase with
  | .unexpired ac => InTime c.start c.grant ac
  | .verified ac => InTime c.start c.grant ac ∧
    ∃ client, s.client ac.clientID = .ok client ∧ Granted env c.grant ac client
  | _ => True

/-- A call has started, and what it has in its hands was issued under the code that it was given. -/
structure CallInv (s : Provider) (c : Call) : Prop where
  start : c.start ≤ s.now
  checked : s.Checked env c
  issued : ∀ ac, c.phase.code? = some ac → ∃ iss, s.Issued env c.grant.code ac iss

/-- A key was created for a consent, from a grant that answers it. -/
structure Redeemed (c : Created) (iss : Issue) : Prop where
  code : c.grant.code = iss.code
  start : c.start ≤ iss.time + codeTTL
  client : c.grant.clientID ≠ "" → c.grant.clientID = iss.req.client.id
  redirect : c.grant.redirectURI ≠ "" → c.grant.redirectURI = iss.req.redirectURI
  secret : iss.req.client.secretHash ≠ "" →
    env.hashKey c.grant.clientSecret = iss.req.client.secretHash
  verifier : c.grant.verifier ≠ "" ∧ env.s256 c.grant.verifier = iss.req.challenge
  scope : c.row.scope = if iss.consent.scope = "full" then "full" else "read"
  groups : c.row.groups = []
  hosts : c.row.hostIDs = iss.consent.hostIDs
  lifetime : c.row.expiresAt = none

/-- The key was made from a code that was issued, and redeemed as its grant asks. -/
def KeyInv (s : Provider) (c : Created) : Prop :=
  ∃ iss, s.issued[c.code.issue]? = some iss ∧ Redeemed env c iss

/-- What holds between the steps: no code is in two places, and every code is one that was issued
for its client. -/
structure Inv (s : Provider) : Prop where
  linear : Linear s.held
  ids : ∀ id c, s.clients.get? id = some c → c.id = id
  clients : ∀ iss ∈ s.issued, s.client iss.req.client.id = .ok iss.req.client
  codes : ∀ code ac, s.codes.get? code = some ac → ∃ iss, s.Issued env code ac iss
  calls : ∀ k c, s.calls k = some c → s.CallInv env c
  keys : ∀ c ∈ s.keys, s.KeyInv env c

end Provider

/-! ### What a step does -/

namespace Provider

variable {env : Env} {s s' : Provider} {k : ℕ} {c : Call}

/-- Every number that is held has been issued. -/
theorem Inv.lt_of_held (h : s.Inv env) {p : Place} {n : ℕ} (hp : s.held p = some n) :
    n < s.issued.length := by
  have hlt : ∀ {n : ℕ} {iss : Issue}, s.issued[n]? = some iss → n < s.issued.length :=
    fun hn => (List.getElem?_eq_some_iff.mp hn).1
  cases p with
  | map code =>
    obtain ⟨ac, hac, rfl⟩ := Option.map_eq_some_iff.mp hp
    obtain ⟨iss, hiss, -⟩ := h.codes code ac hac
    exact hlt hiss
  | call k =>
    obtain ⟨ac, hac, rfl⟩ := Option.map_eq_some_iff.mp hp
    obtain ⟨c, hc, hcode⟩ := Option.bind_eq_some_iff.mp hac
    obtain ⟨iss, hiss, -⟩ := (h.calls k c hc).issued ac hcode
    exact hlt hiss
  | key i =>
    obtain ⟨c, hc, rfl⟩ := Option.map_eq_some_iff.mp hp
    obtain ⟨iss, hiss, -⟩ := h.keys c (List.mem_of_getElem? hc)
    exact hlt hiss

private theorem client_eq_ok {id : String} {c : OAuthClient} :
    s.client id = .ok c ↔ s.clients.get? id = some c := by
  rw [client]
  cases s.clients.get? id with
  | none => simp
  | some c' => simp

/-- What the calls see of the clients and of the issues may only grow. -/
structure Grows (s s' : Provider) : Prop where
  now : s.now ≤ s'.now
  client : ∀ id c, s.client id = .ok c → s'.client id = .ok c
  issued : ∀ (n : ℕ) (iss : Issue), s.issued[n]? = some iss → s'.issued[n]? = some iss

private theorem Grows.of_eq (hnow : s'.now = s.now) (hclients : s'.clients = s.clients)
    (hissued : s'.issued = s.issued) : Grows s s' where
  now := hnow.ge
  client := fun id c hc => by
    rw [client_eq_ok, hclients]
    exact client_eq_ok.mp hc
  issued := fun n iss hn => by
    rw [hissued]
    exact hn

theorem Issued.grows {code : String} {ac : AuthCode} {iss : Issue} (h : s.Issued env code ac iss)
    (hgrows : Grows s s') : s'.Issued env code ac iss :=
  ⟨hgrows.issued _ _ h.1, h.2⟩

theorem CallInv.grows (h : s.CallInv env c) (hgrows : Grows s s') : s'.CallInv env c where
  start := h.start.trans hgrows.now
  checked := by
    have hchecked := h.checked
    unfold Checked at hchecked ⊢
    split at hchecked
    · exact hchecked
    · obtain ⟨htime, client, hclient, hgranted⟩ := hchecked
      exact ⟨htime, client, hgrows.client _ _ hclient, hgranted⟩
    · trivial
  issued := fun ac hac => by
    obtain ⟨iss, hiss⟩ := h.issued ac hac
    exact ⟨iss, hiss.grows hgrows⟩

/-- What has not changed keeps its invariant. -/
theorem Inv.grows (h : s.Inv env) (hgrows : Grows s s') (hlinear : Linear s'.held)
    (hids : ∀ id c, s'.clients.get? id = some c → c.id = id)
    (hclients : ∀ iss ∈ s'.issued, iss ∈ s.issued ∨ s'.client iss.req.client.id =
      .ok iss.req.client)
    (hcodes : ∀ code ac, s'.codes.get? code = some ac →
      s.codes.get? code = some ac ∨ ∃ iss, s'.Issued env code ac iss)
    (hcalls : ∀ k c, s'.calls k = some c → s.calls k = some c ∨ s'.CallInv env c)
    (hkeys : ∀ c ∈ s'.keys, c ∈ s.keys ∨ s'.KeyInv env c) : s'.Inv env where
  linear := hlinear
  ids := hids
  clients := fun iss hiss =>
    (hclients iss hiss).elim (fun hold => hgrows.client _ _ (h.clients iss hold)) id
  codes := fun code ac hac => (hcodes code ac hac).elim (fun hold => by
    obtain ⟨iss, hiss⟩ := h.codes code ac hold
    exact ⟨iss, hiss.grows hgrows⟩) id
  calls := fun k c hc => (hcalls k c hc).elim (fun hold => (h.calls k c hold).grows hgrows) id
  keys := fun c hc => (hkeys c hc).elim (fun hold => by
    obtain ⟨iss, hiss, hredeemed⟩ := h.keys c hold
    exact ⟨iss, hgrows.issued _ _ hiss, hredeemed⟩) id

theorem Inv.tick (h : s.Inv env) (d : ℕ) : Inv env { s with now := s.now + d } :=
  h.grows ⟨Nat.le_add_right _ _, fun _ _ => id, fun _ _ => id⟩ h.linear h.ids
    (fun _ hiss => Or.inl hiss) (fun _ _ hac => Or.inl hac) (fun _ _ hc => Or.inl hc)
    fun _ hc => Or.inl hc

private theorem Inv.registerClient (h : s.Inv env) {new : OAuthClient}
    (hnew : s.clients.get? new.id = none) :
    Inv env { s with clients := s.clients.set new.id new } := by
  have hclient : ∀ id c, s.client id = .ok c →
      Provider.client { s with clients := s.clients.set new.id new } id = .ok c := by
    intro id c hc
    have hne : id ≠ new.id := by
      rintro rfl
      rw [client, hnew] at hc
      cases hc
    rw [client, Dict.get?_set, if_neg hne]
    exact hc
  refine h.grows ⟨le_refl _, hclient, fun _ _ => id⟩ h.linear (fun id c hc => ?_)
    (fun _ hiss => Or.inl hiss) (fun _ _ hac => Or.inl hac) (fun _ _ hc => Or.inl hc)
    fun _ hc => Or.inl hc
  rw [Dict.get?_set] at hc
  split_ifs at hc with hid
  · rw [hid, ← Option.some.inj hc]
  · exact h.ids id c hc

/-- An authorized request is one of the client that it names. -/
theorem client_of_checkAuthorize {query : String → String} {req : AuthRequest}
    (h : s.checkAuthorize query = .ok req) : s.client (query "client_id") = .ok req.client := by
  unfold checkAuthorize at h
  cases hclient : s.client (query "client_id") with
  | error err =>
    rw [hclient] at h
    cases h
  | ok c =>
    rw [hclient] at h
    simp only [bind, Except.bind, pure, Except.pure, throw, throwThe, MonadExceptOf.throw] at h
    split_ifs at h
    obtain rfl := Except.ok.inj h
    rfl

private theorem get?_issueCode {code code' : String} {req : AuthRequest} {key : ApiKeyInput}
    {ac : AuthCode}
    (h : (s.issueCode code req key).codes.get? code' = some ac) :
    code' = code ∧ ac = ⟨req.client.id, req.redirectURI, req.challenge, key, s.now + codeTTL,
      s.issued.length⟩ ∨ s.codes.get? code' = some ac := by
  rw [issueCode, Dict.get?_set] at h
  split_ifs at h with hcode
  · exact Or.inl ⟨hcode, (Option.some.inj h).symm⟩
  · rw [Dict.get?_filter, Option.filter_eq_some_iff] at h
    exact Or.inr h.1

theorem Inv.approve (h : s.Inv env) (actor : String) (enabled : Bool) (query : String → String)
    (consent : Consent) (code : String) :
    (s.approve env actor enabled query consent code).Inv env := by
  unfold Provider.approve
  split
  · exact h
  rename_i req hreq
  split
  · have hclient := client_of_checkAuthorize hreq
    have hid := h.ids _ _ (client_eq_ok.mp hclient)
    rw [← hid] at hclient
    have hissued : ∀ (n : ℕ) (iss : Issue), s.issued[n]? = some iss →
        (s.issued ++ [⟨code, s.now, actor, req, consent⟩])[n]? = some iss := by
      intro n iss hn
      rw [List.getElem?_append_left (List.getElem?_eq_some_iff.mp hn).1]
      exact hn
    refine h.grows ⟨le_refl _, fun _ _ => id, hissued⟩ ?_ h.ids (fun iss hiss => ?_)
      (fun code' ac hac => ?_) (fun _ _ hc => Or.inl hc) fun _ hc => Or.inl hc
    · refine h.linear.put (b := .map code)
        (fun p (hp : s.held p = some s.issued.length) => (h.lt_of_held hp).ne rfl) fun p n hp => ?_
      cases p with
      | map code' =>
        obtain ⟨ac, hac, rfl⟩ := Option.map_eq_some_iff.mp hp
        rcases get?_issueCode hac with ⟨rfl, rfl⟩ | hac
        · exact Or.inl ⟨rfl, rfl⟩
        · exact Or.inr (Option.map_eq_some_iff.mpr ⟨ac, hac, rfl⟩)
      | call k => exact Or.inr hp
      | key i => exact Or.inr hp
    · rcases List.mem_append.mp hiss with hiss | hiss
      · exact Or.inl hiss
      · rw [List.mem_singleton.mp hiss]
        exact Or.inr hclient
    · rcases get?_issueCode hac with ⟨rfl, rfl⟩ | hac
      · exact Or.inr ⟨_, List.getElem?_concat_length, rfl, rfl⟩
      · exact Or.inl hac
  · exact h

private theorem eq_of_update {f : ℕ → Option Call} {new : Call} {k k' : ℕ}
    (h : Function.update f k (some new) k' = some c) : k' = k ∧ c = new ∨ k' ≠ k ∧
      f k' = some c := by
  rw [Function.update_apply] at h
  split_ifs at h with hk
  · exact Or.inl ⟨hk, (Option.some.inj h).symm⟩
  · exact Or.inr ⟨hk, h⟩

private theorem held_call {t : ℕ} :
    s.held (.call k) = some t ↔ ∃ c ac, s.calls k = some c ∧ c.phase.code? = some ac ∧
      ac.issue = t := by
  simp only [held, Option.map_eq_some_iff, Option.bind_eq_some_iff]
  constructor
  · rintro ⟨ac, ⟨c, hc, hac⟩, ht⟩
    exact ⟨c, ac, hc, hac, ht⟩
  · rintro ⟨c, ac, hc, hac, ht⟩
    exact ⟨ac, ⟨c, hc, hac⟩, ht⟩

theorem Inv.begin (h : s.Inv env) (g : Grant) :
    Inv env { s with calls := Function.update s.calls k (some ⟨g, s.now, .started⟩) } := by
  refine h.grows (.of_eq rfl rfl rfl) (h.linear.drop fun p n hp => ?_) h.ids
    (fun _ hiss => Or.inl hiss) (fun _ _ hac => Or.inl hac) (fun k' c hc => ?_) fun _ hc =>
      Or.inl hc
  · cases p with
    | map code => exact hp
    | call k' =>
      obtain ⟨c, ac, hc, hac, ht⟩ := held_call.mp hp
      rcases eq_of_update hc with ⟨-, rfl⟩ | ⟨-, hc⟩
      · cases hac
      · exact held_call.mpr ⟨c, ac, hc, hac, ht⟩
    | key i => exact hp
  · rcases eq_of_update hc with ⟨-, rfl⟩ | ⟨-, hc⟩
    · exact Or.inr ⟨le_refl _, trivial, fun ac hac => by cases hac⟩
    · exact Or.inl hc

/-- A call may go on with what it has in its hands, or drop it. -/
theorem Inv.setPhase (h : s.Inv env) (hc : s.calls k = some c) {phase : Phase}
    (hcode : ∀ ac, phase.code? = some ac → c.phase.code? = some ac)
    (hchecked : s.Checked env { c with phase }) : (s.setPhase k c phase).Inv env := by
  have hgrows : Grows s (s.setPhase k c phase) := .of_eq rfl rfl rfl
  refine h.grows hgrows (h.linear.drop fun p n hp => ?_) h.ids (fun _ hiss => Or.inl hiss)
    (fun _ _ hac => Or.inl hac) (fun k' c' hc' => ?_) fun _ hc => Or.inl hc
  · cases p with
    | map code => exact hp
    | call k' =>
      obtain ⟨c', ac, hc', hac, ht⟩ := held_call.mp hp
      rcases eq_of_update hc' with ⟨rfl, rfl⟩ | ⟨-, hc'⟩
      · exact held_call.mpr ⟨c, ac, hc, hcode ac hac, ht⟩
      · exact held_call.mpr ⟨c', ac, hc', hac, ht⟩
    | key i => exact hp
  · rcases eq_of_update hc' with ⟨-, rfl⟩ | ⟨-, hc'⟩
    · have hold := h.calls k c hc
      have hnew : s.CallInv env { c with phase } :=
        ⟨hold.start, hchecked, fun ac hac => hold.issued ac (hcode ac hac)⟩
      exact Or.inr (hnew.grows hgrows)
    · exact Or.inl hc'

/-- The code goes from the map to the call. -/
theorem Inv.take (h : s.Inv env) (hc : s.calls k = some c) : (s.take k c).Inv env := by
  have hgrows : Grows s (s.take k c) := .of_eq rfl rfl rfl
  have hdel : ∀ {code ac}, (s.codes.del c.grant.code).get? code = some ac →
      code ≠ c.grant.code ∧ s.codes.get? code = some ac := by
    intro code ac hac
    rw [Dict.get?_del] at hac
    split_ifs at hac with hcode
    exact ⟨hcode, hac⟩
  refine h.grows hgrows (h.linear.move (a := .map c.grant.code) (b := .call k) fun p n hp => ?_)
    h.ids
    (fun _ hiss => Or.inl hiss) (fun _ _ hac => Or.inl (hdel hac).2) (fun k' c' hc' => ?_)
    fun _ hc => Or.inl hc
  · cases p with
    | map code =>
      obtain ⟨ac, hac, ht⟩ := Option.map_eq_some_iff.mp hp
      obtain ⟨hne, hac⟩ := hdel hac
      exact Or.inr ⟨by simpa using hne, Option.map_eq_some_iff.mpr ⟨ac, hac, ht⟩⟩
    | call k' =>
      obtain ⟨c', ac, hc', hac, ht⟩ := held_call.mp hp
      rcases eq_of_update hc' with ⟨rfl, rfl⟩ | ⟨-, hc'⟩
      · exact Or.inl ⟨rfl, Option.map_eq_some_iff.mpr ⟨ac, hac, ht⟩⟩
      · exact Or.inr ⟨by simp, held_call.mpr ⟨c', ac, hc', hac, ht⟩⟩
    | key i => exact Or.inr ⟨by simp, hp⟩
  · rcases eq_of_update hc' with ⟨-, rfl⟩ | ⟨-, hc'⟩
    · have hnew : s.CallInv env { c with phase := .taken (s.codes.get? c.grant.code) } :=
        ⟨(h.calls k c hc).start, trivial, fun ac hac => h.codes c.grant.code ac hac⟩
      exact Or.inr (hnew.grows hgrows)
    · exact Or.inl hc'

private theorem keyRow_ok {now : ℕ} {full : String} {input : ApiKeyInput} {row : ApiKey}
    (h : keyRow env now full input = .ok row) :
    row.scope = (if input.scope = "" then "read" else input.scope) ∧ row.groups = input.groups ∧
      row.hostIDs = input.hostIDs ∧ row.expiresAt =
        if 0 < input.expiresDays then some (now + wrap64 (input.expiresDays * 24 * hour)) else
          none := by
  unfold keyRow at h
  extract_lets name client scope at h
  split at h
  · cases h
  split at h
  · cases h
  split at h
  · cases h
  split at h
  · cases h
  split at h
  · cases h
  · obtain rfl := Except.ok.inj h
    exact ⟨rfl, rfl, rfl, rfl⟩

private theorem scope_consentedKey (env : Env) (actor : String) (req : AuthRequest)
    (consent : Consent) :
    (if (consentedKey env actor req consent).scope = "" then "read"
      else (consentedKey env actor req consent).scope) =
      if consent.scope = "full" then "full" else "read" := by
  by_cases hfull : consent.scope = "full"
  · simp [consentedKey, hfull]
  · simp [consentedKey, hfull]

/-- What is checked of the code makes the key one of its consent. -/
theorem Inv.redeemed (h : s.Inv env) {ac : AuthCode} (hc : s.calls k = some c)
    (hphase : c.phase = .verified ac) {full : String} {row : ApiKey}
    (hrow : keyRow env s.now full ac.key = .ok row) : s.KeyInv env ⟨row, ac, c.grant, c.start⟩ := by
  have hcall := h.calls k c hc
  have hchecked := hcall.checked
  rw [Checked, hphase] at hchecked
  obtain ⟨htime, client, hclient, hgranted⟩ := hchecked
  obtain ⟨iss, hiss, hcode, hac⟩ := hcall.issued ac (by rw [hphase]; rfl)
  have hsame : client = iss.req.client := by
    have hreq := h.clients iss (List.mem_of_getElem? hiss)
    rw [hac] at hclient
    exact Except.ok.inj (hclient.symm.trans hreq)
  obtain ⟨hscope, hgroups, hhosts, hexpires⟩ := keyRow_ok hrow
  rw [hac] at hscope hgroups hhosts hexpires
  refine ⟨iss, hiss, ⟨hcode.symm, ?_, ?_, ?_, ?_, ?_, ?_, hgroups, hhosts, hexpires⟩⟩
  · have hstart := htime.start
    rw [hac] at hstart
    exact hstart
  · have hclient := htime.client
    rw [hac] at hclient
    exact hclient
  · have hredirect := hgranted.redirect
    rw [hac] at hredirect
    exact hredirect
  · rw [← hsame]
    exact hgranted.secret
  · have hverifier := hgranted.verifier
    rw [hac] at hverifier
    exact hverifier
  · rw [hscope]
    exact scope_consentedKey env iss.actor iss.req iss.consent

private theorem checked_of_code?_eq_none (h : c.phase.code? = none) : s.Checked env c := by
  cases c with
  | mk grant start phase =>
    cases phase with
    | unexpired ac => cases h
    | verified ac => cases h
    | _ => trivial

/-- The code goes from the call to the key. -/
theorem Inv.insert (h : s.Inv env) (hc : s.calls k = some c) {ac : AuthCode}
    (hphase : c.phase = .verified ac) {full : String} {row : ApiKey}
    (hrow : keyRow env s.now full ac.key = .ok row) {phase : Phase} (hcode : phase.code? = none) :
    Inv env { s.setPhase k c phase with keys := s.keys ++ [⟨row, ac, c.grant, c.start⟩] } := by
  refine h.grows (.of_eq rfl rfl rfl) (h.linear.move (a := .call k) (b := .key s.keys.length)
    fun p n hp => ?_) h.ids (fun _ hiss => Or.inl hiss) (fun _ _ hac => Or.inl hac)
    (fun k' c' hc' => ?_) fun c' hc' => ?_
  · cases p with
    | map code => exact Or.inr ⟨by simp, hp⟩
    | call k' =>
      obtain ⟨c', ac', hc', hac, ht⟩ := held_call.mp hp
      rcases eq_of_update hc' with ⟨-, rfl⟩ | ⟨hne, hc'⟩
      · rw [hcode] at hac
        cases hac
      · exact Or.inr ⟨by simpa using hne, held_call.mpr ⟨c', ac', hc', hac, ht⟩⟩
    | key i =>
      obtain ⟨c', hc', ht⟩ := Option.map_eq_some_iff.mp hp
      rcases Nat.lt_or_ge i s.keys.length with hi | hi
      · rw [List.getElem?_append_left hi] at hc'
        exact Or.inr ⟨by simp, Option.map_eq_some_iff.mpr ⟨c', hc', ht⟩⟩
      · have hlen := (List.getElem?_eq_some_iff.mp hc').1
        rw [List.length_append, List.length_singleton] at hlen
        obtain rfl : i = s.keys.length := by omega
        rw [List.getElem?_concat_length, Option.some.injEq] at hc'
        obtain rfl := hc'
        exact Or.inl ⟨rfl, held_call.mpr ⟨c, ac, hc, by rw [hphase]; rfl, ht⟩⟩
  · rcases eq_of_update hc' with ⟨-, rfl⟩ | ⟨-, hc'⟩
    · exact Or.inr ⟨(h.calls k c hc).start, checked_of_code?_eq_none hcode, fun ac' hac => by
        rw [hcode] at hac
        cases hac⟩
    · exact Or.inl hc'
  · rcases List.mem_append.mp hc' with hc' | hc'
    · exact Or.inl hc'
    · rw [List.mem_singleton.mp hc']
      exact Or.inr (h.redeemed hc hphase hrow)

private theorem afterExpiry_cases (s : Provider) (g : Grant) (ac : Option AuthCode) :
    (∃ err, s.afterExpiry g ac = .failed err) ∨
      ∃ a, ac = some a ∧ s.now ≤ a.exp ∧ (g.clientID ≠ "" → g.clientID = a.clientID) ∧
        s.afterExpiry g ac = .unexpired a := by
  unfold afterExpiry
  split
  · exact Or.inl ⟨_, rfl⟩
  rename_i a
  split
  · exact Or.inl ⟨_, rfl⟩
  rename_i hexp
  split
  · exact Or.inl ⟨_, rfl⟩
  rename_i hclient
  rw [not_and, not_not] at hclient
  exact Or.inr ⟨a, rfl, not_lt.mp hexp, hclient, rfl⟩

private theorem afterClient_cases (env : Env) (s : Provider) (g : Grant) (ac : AuthCode)
    (reachable : Bool) :
    (∃ err, s.afterClient env g ac reachable = .failed err) ∨
      (∃ client, s.client ac.clientID = .ok client ∧ Granted env g ac client) ∧
        s.afterClient env g ac reachable = .verified ac := by
  unfold afterClient
  split
  · exact Or.inl ⟨_, rfl⟩
  split
  · exact Or.inl ⟨_, rfl⟩
  rename_i client hclient
  split
  · exact Or.inl ⟨_, rfl⟩
  rename_i hsecret
  split
  · exact Or.inl ⟨_, rfl⟩
  rename_i hredirect
  split
  · exact Or.inl ⟨_, rfl⟩
  rename_i hverifier
  rw [not_and, not_not] at hsecret hredirect
  rw [not_or, not_not] at hverifier
  exact Or.inr ⟨⟨client, hclient, hsecret, hredirect, hverifier⟩, rfl⟩

private theorem Inv.checkExpiry (h : s.Inv env) (hc : s.calls k = some c) {ac : Option AuthCode}
    (hphase : c.phase = .taken ac) : (s.setPhase k c (s.afterExpiry c.grant ac)).Inv env := by
  rcases afterExpiry_cases s c.grant ac with ⟨err, herr⟩ | ⟨a, rfl, hexp, hclient, hnext⟩
  · rw [herr]
    exact h.setPhase hc (fun a ha => by cases ha) trivial
  · rw [hnext]
    refine h.setPhase hc (fun a' ha => ?_) ⟨(h.calls k c hc).start.trans hexp, hclient⟩
    rw [hphase]
    exact ha

private theorem Inv.checkClient (h : s.Inv env) (hc : s.calls k = some c) {ac : AuthCode}
    (hphase : c.phase = .unexpired ac) (reachable : Bool) :
    (s.setPhase k c (s.afterClient env c.grant ac reachable)).Inv env := by
  rcases afterClient_cases env s c.grant ac reachable with ⟨err, herr⟩ | ⟨hclient, hnext⟩
  · rw [herr]
    exact h.setPhase hc (fun a ha => by cases ha) trivial
  · have htime := (h.calls k c hc).checked
    rw [Checked, hphase] at htime
    rw [hnext]
    refine h.setPhase hc (fun a ha => ?_) ⟨htime, hclient⟩
    rw [hphase]
    exact ha

theorem Inv.step (h : s.Inv env) (e : Event) (he : s.step env e = some s') : s'.Inv env := by
  cases e with
  | tick d =>
    obtain rfl := Option.some.inj he
    exact h.tick d
  | registerClient c =>
    rw [Provider.step, Option.ite_none_right_eq_some] at he
    obtain ⟨hnew, he⟩ := he
    obtain rfl := Option.some.inj he
    exact h.registerClient hnew
  | approve actor enabled query consent code =>
    obtain rfl := Option.some.inj he
    exact h.approve actor enabled query consent code
  | begin k g =>
    rw [Provider.step, Option.ite_none_right_eq_some] at he
    obtain rfl := Option.some.inj he.2
    exact h.begin g
  | take k =>
    obtain ⟨c, hc, he⟩ := Option.bind_eq_some_iff.mp he
    split at he
    · obtain rfl := Option.some.inj he
      exact h.take hc
    · cases he
  | checkExpiry k =>
    obtain ⟨c, hc, he⟩ := Option.bind_eq_some_iff.mp he
    split at he
    · rename_i ac hphase
      obtain rfl := Option.some.inj he
      exact h.checkExpiry hc hphase
    · cases he
  | checkClient k reachable =>
    obtain ⟨c, hc, he⟩ := Option.bind_eq_some_iff.mp he
    split at he
    · rename_i ac hphase
      obtain rfl := Option.some.inj he
      exact h.checkClient hc hphase reachable
    · cases he
  | createKey k random answer =>
    obtain ⟨c, hc, he⟩ := Option.bind_eq_some_iff.mp he
    split at he
    · rename_i ac hphase
      obtain rfl := Option.some.inj he
      cases hrow : keyRow env s.now (keyPrefix ++ random) ac.key with
      | error msg =>
        unfold Provider.createKey
        rw [hrow]
        exact h.setPhase hc (fun a ha => by cases ha) trivial
      | ok row =>
        unfold Provider.createKey
        rw [hrow]
        cases answer with
        | inserted => exact h.insert hc hphase hrow rfl
        | lost => exact h.insert hc hphase hrow rfl
        | refused => exact h.setPhase hc (fun a ha => by cases ha) trivial
    · cases he

private theorem inv_init (env : Env) : Inv env {} where
  linear := fun p q t hp => by cases p <;> cases hp
  ids := fun id c hc => by cases hc
  clients := fun iss hiss => by cases hiss
  codes := fun code ac hac => by cases hac
  calls := fun k c hc => by cases hc
  keys := fun c hc => by cases hc

/-- In every run each issue leads to at most one key, and each key is created for a consent, from a
grant that answers it. -/
theorem redeemed_once (env : Env) (es : List Event) (s : Provider)
    (hrun : exec (step env) {} es = some s) :
    (∀ (i j : ℕ) (c c' : Created), s.keys[i]? = some c → s.keys[j]? = some c' →
      c.code.issue = c'.code.issue → i = j) ∧
      ∀ c ∈ s.keys, s.KeyInv env c := by
  have hinv : s.Inv env := exec_invariant (fun s e s' h => h.step e) (inv_init env) hrun
  refine ⟨fun i j c c' hi hj hissue => ?_, hinv.keys⟩
  have hsame := hinv.linear (.key i) (.key j) c.code.issue (Option.map_eq_some_iff.mpr ⟨c, hi, rfl⟩)
    (Option.map_eq_some_iff.mpr ⟨c', hj, hissue.symm⟩)
  exact Place.key.inj hsame

/-- A run in which a code is redeemed, and tried once more. -/
def redemption : List Event :=
  [.registerClient ⟨"7", "Claude", ["http://localhost:3000"], ""⟩,
    .approve "admin" true
      (fun p => if p = "client_id" then "7" else if p = "response_type" then "code"
        else if p = "code_challenge" then "E9Mel" else if p = "code_challenge_method" then "S256"
          else "")
      { scope := "full", hostIDs := ["1"] } "abc",
    .begin 0 ⟨"7", "", "abc", "", "dBjft"⟩, .begin 1 ⟨"7", "", "abc", "", "dBjft"⟩, .tick 5,
      .take 0,
    .take 1, .checkExpiry 1, .checkExpiry 0, .checkClient 0 true, .createKey 0 "k" .inserted]

/-- A hash at which the verifier of the example has its challenge. -/
def challenges : Env := ⟨toLower, id, fun v => if v = "dBjft" then "E9Mel" else v⟩

/-- Two calls send the same code, and one of them gets a key. -/
theorem redemption_once :
    (∀ (i j : ℕ) (c c' : Created), ((exec (step challenges) {} redemption).getD {}).keys[i]? =
      some c →
      ((exec (step challenges) {} redemption).getD {}).keys[j]? = some c' →
      c.code.issue = c'.code.issue → i = j) ∧
    ∀ c ∈ ((exec (step challenges) {} redemption).getD {}).keys,
      ((exec (step challenges) {} redemption).getD {}).KeyInv challenges c :=
  redeemed_once challenges redemption _ rfl

example : ((exec (step challenges) {} redemption).getD {}).keys.length = 1 := by decide +kernel

end Provider

end Dockhand.Mcp.OAuth
