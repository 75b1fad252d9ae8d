import Dockhand.Alerts.Channels
import Dockhand.Registry.DockerConfig
import Dockhand.Transition.Exec

/-!
# Registry credentials

Pulls through the API take the credential of a registry from `Lookup`, and the docker CLI finds it
in the config that `MergeDockerConfig` makes of `All`. For Dockhand's own registry `Lookup` prefers
the system token to a stored row. `All` lists both, the row last, and the last one stands in the
config. `SaveCredential` refuses a row for the own registry, but only while the registry is on
under that address. `agrees_iff` says when the two paths agree.
-/

namespace Dockhand.RegAuth

open Go Transition

/-! ### Names of registries -/

/-- What `Normalize` makes of a name: neither a path nor another name of `docker.io`. -/
structure Normal (s : String) : Prop where
  no_slash : '/' ∉ s.toList
  ne_empty : s ≠ ""
  ne_index : s ≠ "index.docker.io"
  ne_registry : s ≠ "registry-1.docker.io"

private theorem normal_normalize (toLower : String → String) (server : String) :
    Normal (normalize toLower server) := by
  simp only [normalize]
  generalize trimPrefix (trimPrefix (toLower (trimSpace server)) "https://") "http://" = name
  split_ifs with h
  · exact ⟨by decide, by decide, by decide, by decide⟩
  · simp only [List.mem_cons, List.not_mem_nil, or_false, not_or] at h
    have hslash : '/' ∉ (cutChar name '/').1.toList := by
      intro hslash
      rw [cutChar, String.toList_ofList] at hslash
      simpa using List.mem_takeWhile_imp hslash
    exact ⟨hslash, h.1, h.2.2.1, h.2.2.2.1⟩

attribute [local irreducible] normalize

/-- The key that the CLI looks under belongs to one server only. -/
theorem dockerKey_mem_keys_iff {s t : String} (hs : Normal s) (ht : Normal t) :
    dockerKey s ∈ keys t ↔ t = s := by
  constructor
  · intro h
    rw [keys, dockerKey, dockerKey] at h
    by_cases hdocker : s = "docker.io"
    · by_cases hdocker' : t = "docker.io"
      · rw [hdocker, hdocker']
      · rw [if_pos hdocker, if_neg hdocker', if_neg hdocker', List.mem_singleton] at h
        exact absurd (by rw [← h]; decide) ht.no_slash
    · rw [if_neg hdocker] at h
      by_cases hdocker' : t = "docker.io"
      · rw [if_pos hdocker', if_pos hdocker'] at h
        simp only [List.mem_cons, List.not_mem_nil, or_false] at h
        rcases h with h | h | h | h
        · exact absurd (by rw [h]; decide) hs.no_slash
        · exact absurd h hdocker
        · exact absurd h hs.ne_index
        · exact absurd h hs.ne_registry
      · rw [if_neg hdocker', if_neg hdocker', List.mem_singleton] at h
        exact h.symm
  · rintro rfl
    exact dockerKey_mem_keys t

/-! ### The service -/

/-- A row of `registry_credentials`. -/
structure Row where
  id : String
  server : String
  username : String
  passwordEnc : String
  deriving DecidableEq

/-- The library functions that credentials rest on. -/
structure Env (ν : Type) where
  toLower : String → String
  box : Alerts.Box ν
  /-- `ORDER BY server`, in the collation of the database. -/
  orderByServer : List Row → List Row
  orderByServer_perm : ∀ rows, (orderByServer rows).Perm rows

/-- The settings of the registry, the host of the public URL, the token that `systemToken` returns,
and the rows of `registry_credentials`. -/
structure Service where
  enabled : Bool := false
  registryAddress : String := ""
  publicHost : String := ""
  systemToken : String := ""
  rows : List Row := []
  deriving DecidableEq

/-- What happens next: an administrator changes the settings, the system token is made, or
credentials are saved and deleted. -/
inductive Event (ν : Type)
  | putSettings (enabled : Bool) (registryAddress publicHost : String)
  | ensureSystemToken (random : List UInt8)
  | saveCredential (server username password id : String) (nonce : ν)
  | deleteCredential (id : String)

/-- A digit of `base64.RawURLEncoding`. -/
def urlDigit (c : Char) : Char := if c = '+' then '-' else if c = '/' then '_' else c

/-- `newToken`, with the bytes that are drawn. -/
def newToken (random : List UInt8) : String :=
  "dhr_" ++ String.ofList (((Base64.encode random).filter (· ≠ '=')).map urlDigit)

section Service

variable {ν : Type} (env : Env ν)

/-- The name of a row's server, the username and the password, if it can be decrypted. -/
def Row.cred (r : Row) : Option Cred :=
  (env.box.decrypt r.passwordEnc).map fun p => ⟨r.server, r.username, p⟩

namespace Service

/-- `Address` is the registry's name for docker login/tag/push: the setting, or the host[:port] of
Dockhand's public URL. -/
def address (s : Service) : String :=
  if s.registryAddress ≠ "" then env.toLower s.registryAddress
  else if s.publicHost = "" then ""
  else env.toLower s.publicHost

/-- `Lookup`: the credential of a server, with Dockhand's own for its own registry. -/
def lookup (s : Service) (server : String) : Option Cred :=
  let server := normalize env.toLower server
  if s.enabled ∧ server = s.address env ∧ s.systemToken ≠ "" then
    some ⟨server, "dockhand", s.systemToken⟩
  else (s.rows.find? fun r => r.server = server).bind (Row.cred env)

/-- `All`: the credentials of the rows that can be decrypted, after Dockhand's own. -/
def all (s : Service) : List Cred :=
  (if s.enabled ∧ s.systemToken ≠ "" ∧ s.address env ≠ "" then
    [⟨s.address env, "dockhand", s.systemToken⟩] else []) ++
  (env.orderByServer s.rows).filterMap (Row.cred env)

/-- `INSERT … ON CONFLICT (server) DO UPDATE`. -/
def upsert (rows : List Row) (new : Row) : List Row :=
  if rows.any fun r => r.server = new.server then
    rows.map fun r =>
      if r.server = new.server then { new with id := r.id } else r
  else rows ++ [new]

/-- `SaveCredential` adds or replaces the credential for a server. -/
def saveCredential (s : Service) (server username password id : String) (nonce : ν) :
    Except String Service :=
  let server := normalize env.toLower server
  let user := trimSpace username
  if server = "" ∨ containsAny server " /" then
    .error "enter the registry host, e.g. ghcr.io or registry.example.com:5000"
  else if s.enabled ∧ server = s.address env then
    .error "that's Dockhand's own registry — hosts already pull from it with Dockhand's token"
  else if user = "" ∨ password = "" then
    .error "username and password (or access token) are required"
  else .ok { s with rows := upsert s.rows ⟨id, server, user, env.box.encrypt nonce password⟩ }

/-- A request that fails leaves the state as it is. -/
def step (s : Service) : Event ν → Option Service
  | .putSettings enabled registryAddress publicHost =>
    some { s with enabled, registryAddress, publicHost }
  | .ensureSystemToken random =>
    some (if s.systemToken ≠ "" then s else { s with systemToken := newToken random })
  | .saveCredential server username password id nonce =>
    some ((s.saveCredential env server username password id nonce).toOption.getD s)
  | .deleteCredential id => some { s with rows := s.rows.filter fun r => r.id ≠ id }

/-- The state is one that some history leads to. -/
def Reachable (s : Service) : Prop := ∃ es, exec (step env) {} es = some s

end Service

/-! ### Both paths -/

/-- What the docker CLI takes the decoded text of an entry for: a username and a password, with the
first colon between them and without NULs around the password. -/
def readAuth (text : String) : Option (String × String) :=
  if ':' ∈ text.toList ∧ (cutChar text ':').1 ≠ "" then
    some ((cutChar text ':').1, trim (cutChar text ':').2 "\x00")
  else none

/-- The token is what `Lookup` prefers for this registry. -/
def Service.Own (s : Service) (h : String) : Prop :=
  s.enabled ∧ normalize env.toLower h = s.address env ∧ s.systemToken ≠ ""

/-- There is a credential for the registry: the token or a row. -/
def Service.Has (s : Service) (h : String) : Prop :=
  s.Own env h ∨ ∃ r ∈ s.rows, r.server = normalize env.toLower h

section Paths

variable (j : JsonText) (decodeAuth : Json → Option (String × String)) (existing : List UInt8)

/-- What `Lookup` returns for a registry is what the docker CLI finds for it. -/
def Service.Agrees (s : Service) (h : String) : Prop :=
  ∀ c ∈ s.lookup env h, ∃ out, mergeDockerConfig j existing (s.all env) = some out ∧
    (j.field₂ out "auths" (dockerKey (normalize env.toLower h))).bind decodeAuth =
      some (c.username, c.password)

/-- The config is not `null`. No other credential is stored for the own registry. A credential that
is stored for another one has no colon in its username and no NUL at the ends of its password. -/
structure Service.Agreeable (s : Service) (h : String) : Prop where
  not_null : j.document existing ≠ some .null
  own : s.Own env h → ∀ r ∈ s.rows, r.server = normalize env.toLower h →
    r.username = "dockhand" ∧ ∀ p ∈ env.box.decrypt r.passwordEnc, trim p "\x00" = s.systemToken
  stored : ¬ s.Own env h → ∀ r ∈ s.rows, r.server = normalize env.toLower h →
    ':' ∉ r.username.toList ∧ ∀ p ∈ env.box.decrypt r.passwordEnc, trim p "\x00" = p

end Paths

end Service

/-! ### Reading an entry -/

private theorem mem_dropWhile {α : Type} {p : α → Bool} {a : α} {l : List α} (h : a ∈ l)
    (ha : p a = false) :
    a ∈ l.dropWhile p := by
  rw [← List.takeWhile_append_dropWhile (p := p) (l := l), List.mem_append] at h
  refine h.resolve_left fun htake => ?_
  rw [List.mem_takeWhile_imp htake] at ha
  cases ha

private theorem mem_trim {s cutset : String} {c : Char} (h : c ∈ s.toList)
    (hc : c ∉ cutset.toList) :
    c ∈ (trim s cutset).toList := by
  have hkeep : decide (c ∈ cutset.toList) = false := decide_eq_false hc
  rw [trim, trimRight, String.toList_ofList, String.toList_ofList, List.rdropWhile,
    List.mem_reverse]
  exact mem_dropWhile (List.mem_reverse.mpr (mem_dropWhile h hkeep)) hkeep

private theorem trim_eq_self {s cutset : String} (h : ∀ c ∈ s.toList, c ∉ cutset.toList) :
    trim s cutset = s := by
  have hkeep : ∀ c ∈ s.toList, decide (c ∈ cutset.toList) = false := fun c hc =>
    decide_eq_false (h c hc)
  have hdrop : s.toList.dropWhile (· ∈ cutset.toList) = s.toList :=
    List.dropWhile_eq_self_iff.mpr fun hl => by simp [hkeep _ (List.getElem_mem hl)]
  have hrdrop : s.toList.rdropWhile (· ∈ cutset.toList) = s.toList :=
    List.rdropWhile_eq_self_iff.mpr fun hl => by simp [hkeep _ (List.getLast_mem hl)]
  rw [trim, trimRight, hdrop, String.toList_ofList, hrdrop, String.ofList_toList]

private theorem readAuth_text {c : Cred} (hne : c.username ≠ "")
    (hcolon : ':' ∉ c.username.toList) :
    readAuth c.text = some (c.username, trim c.password "\x00") := by
  have hcut : cutChar c.text ':' = (c.username, c.password) := cutChar_append rfl hcolon
  rw [readAuth, hcut, if_pos ⟨by simp [Cred.text], hne⟩]

/-- A username is read up to its first colon, and then a colon stands in the password. -/
theorem readAuth_text_of_colon {c : Cred} {u p : String} (hcolon : ':' ∈ c.username.toList)
    (h : readAuth c.text = some (u, p)) : ':' ∉ u.toList ∧ ':' ∈ p.toList := by
  obtain ⟨a, b, hsplit, ha⟩ := List.eq_append_cons_of_mem hcolon
  have htext : c.text = String.ofList a ++ ":" ++ (String.ofList b ++ ":" ++ c.password) :=
    String.toList_injective (by simp [Cred.text, hsplit])
  have hcut : cutChar (String.ofList a ++ ":" ++ (String.ofList b ++ ":" ++ c.password)) ':' =
      (String.ofList a, String.ofList b ++ ":" ++ c.password) :=
    cutChar_append rfl (by rwa [String.toList_ofList])
  rw [readAuth, htext, hcut, Option.ite_none_right_eq_some] at h
  obtain ⟨rfl, rfl⟩ := Prod.mk.inj (Option.some.inj h.2)
  exact ⟨by rwa [String.toList_ofList], mem_trim (by simp) (by decide)⟩

/-- What is read of a credential, where no colon is read. -/
theorem readAuth_text_iff {c : Cred} {u p : String} (hne : c.username ≠ "") (hu : ':' ∉ u.toList)
    (hp : ':' ∉ p.toList) :
    readAuth c.text = some (u, p) ↔ c.username = u ∧ trim c.password "\x00" = p := by
  constructor
  · intro h
    have hcolon : ':' ∉ c.username.toList := fun hcolon => hp (readAuth_text_of_colon hcolon h).2
    rw [readAuth_text hne hcolon] at h
    exact Prod.mk.inj (Option.some.inj h)
  · rintro ⟨rfl, rfl⟩
    exact readAuth_text hne hu

/-- A credential is read as it is. -/
theorem readAuth_text_self_iff {c : Cred} (hne : c.username ≠ "") :
    readAuth c.text = some (c.username, c.password) ↔
      ':' ∉ c.username.toList ∧ trim c.password "\x00" = c.password := by
  by_cases hcolon : ':' ∈ c.username.toList
  · refine iff_of_false (fun h => ?_) fun h => h.1 hcolon
    exact (readAuth_text_of_colon hcolon h).1 hcolon
  · simp [readAuth_text hne hcolon, hcolon]

private theorem colon_not_mem_dockhand : ':' ∉ "dockhand".toList := by decide

/-! ### What every history keeps -/

/-- A token holds neither a colon nor a NUL. -/
def Plain (t : String) : Prop := ':' ∉ t.toList ∧ '\x00' ∉ t.toList

private theorem plain_newToken (random : List UInt8) : Plain (newToken random) := by
  have hdigit : ∀ {d}, d ∈ '=' :: Base64.alphabet → urlDigit d ≠ ':' ∧ urlDigit d ≠ '\x00' := by
    have hall : ('=' :: Base64.alphabet).all
        (fun d => urlDigit d ≠ ':' && urlDigit d ≠ '\x00') = true := by decide +kernel
    intro d hd
    simpa using List.all_eq_true.mp hall d hd
  have hmem : ∀ {c}, c ∈ (newToken random).toList → c ≠ ':' ∧ c ≠ '\x00' := by
    intro c hc
    rw [newToken, String.toList_append, List.mem_append] at hc
    rcases hc with hc | hc
    · have hall : "dhr_".toList.all (fun d => d ≠ ':' && d ≠ '\x00') = true := by decide
      simpa using List.all_eq_true.mp hall c hc
    · rw [String.toList_ofList] at hc
      obtain ⟨d, hd, rfl⟩ := List.mem_map.mp hc
      exact hdigit (Base64.mem_encode (List.mem_filter.mp hd).1)
  exact ⟨fun h => (hmem h).1 rfl, fun h => (hmem h).2 rfl⟩

private theorem mem_upsert {rows : List Row} {new r : Row} (h : r ∈ Service.upsert rows new) :
    r ∈ rows ∨ r.server = new.server ∧ r.username = new.username ∧
      r.passwordEnc = new.passwordEnc := by
  unfold Service.upsert at h
  split at h
  · obtain ⟨r', hr', rfl⟩ := List.mem_map.mp h
    split
    · exact Or.inr ⟨rfl, rfl, rfl⟩
    · exact Or.inl hr'
  · rcases List.mem_append.mp h with h | h
    · exact Or.inl h
    · rw [List.mem_singleton.mp h]
      exact Or.inr ⟨rfl, rfl, rfl⟩

private theorem nodup_upsert {rows : List Row} (new : Row) (h : (rows.map Row.server).Nodup) :
    ((Service.upsert rows new).map Row.server).Nodup := by
  unfold Service.upsert
  split
  · have hserver : ∀ r ∈ rows, (Row.server ∘ fun r =>
        if r.server = new.server then { new with id := r.id } else r) r = r.server := by
      intro r _
      rw [Function.comp_apply]
      split
      · rename_i heq
        exact heq.symm
      · rfl
    rw [List.map_map, List.map_congr_left hserver]
    exact h
  · rename_i hnew
    rw [List.any_eq_true] at hnew
    rw [List.map_append, List.map_singleton]
    refine List.Nodup.append h (List.nodup_singleton _) (List.disjoint_singleton.mpr fun hmem => ?_)
    obtain ⟨r, hr, heq⟩ := List.mem_map.mp hmem
    exact hnew ⟨r, hr, decide_eq_true heq⟩

namespace Service

variable {ν : Type} {env : Env ν} {s s' : Service}

/-- The rows have distinct servers, which are normal, and can be decrypted. -/
structure Inv (env : Env ν) (s : Service) : Prop where
  nodup : (s.rows.map Row.server).Nodup
  normal : ∀ r ∈ s.rows, Normal r.server
  username : ∀ r ∈ s.rows, r.username ≠ ""
  decrypts : ∀ r ∈ s.rows, ∃ p, env.box.decrypt r.passwordEnc = some p
  plain : Plain s.systemToken

/-- A credential that is saved has a normal server, a username and a password. -/
theorem saveCredential_cases {server username password id : String} {nonce : ν}
    (h : s.saveCredential env server username password id nonce = .ok s') :
    trimSpace username ≠ "" ∧ password ≠ "" ∧
      s' = { s with rows := upsert s.rows ⟨id, normalize env.toLower server, trimSpace username,
        env.box.encrypt nonce password⟩ } := by
  simp only [saveCredential] at h
  split at h
  · cases h
  split at h
  · cases h
  split at h
  · cases h
  · rename_i hgiven
    rw [not_or] at hgiven
    exact ⟨hgiven.1, hgiven.2, (Except.ok.inj h).symm⟩

theorem Inv.upsert (hinv : s.Inv env) (new : Row) (hserver : Normal new.server)
    (huser : new.username ≠ "") (hdec : ∃ p, env.box.decrypt new.passwordEnc = some p) :
    Inv env { s with rows := Service.upsert s.rows new } := by
  refine ⟨nodup_upsert new hinv.nodup, fun r hr => ?_, fun r hr => ?_, fun r hr => ?_, hinv.plain⟩
  · rcases mem_upsert hr with hr | ⟨hr, -, -⟩
    · exact hinv.normal r hr
    · rw [hr]
      exact hserver
  · rcases mem_upsert hr with hr | ⟨-, hr, -⟩
    · exact hinv.username r hr
    · rw [hr]
      exact huser
  · rcases mem_upsert hr with hr | ⟨-, -, hr⟩
    · exact hinv.decrypts r hr
    · rw [hr]
      exact hdec

theorem Inv.step (e : Event ν) (hinv : s.Inv env) (h : s.step env e = some s') : s'.Inv env := by
  cases e with
  | putSettings enabled registryAddress publicHost =>
    obtain rfl := Option.some.inj h
    exact ⟨hinv.nodup, hinv.normal, hinv.username, hinv.decrypts, hinv.plain⟩
  | ensureSystemToken random =>
    obtain rfl := Option.some.inj h
    split
    · exact hinv
    · exact { hinv with plain := plain_newToken random }
  | saveCredential server username password id nonce =>
    rw [Service.step, Option.some.injEq] at h
    cases hsave : s.saveCredential env server username password id nonce with
    | error msg =>
      rw [hsave] at h
      obtain rfl : s = s' := h
      exact hinv
    | ok s'' =>
      rw [hsave] at h
      obtain rfl : s'' = s' := h
      obtain ⟨huser, hpassword, rfl⟩ := saveCredential_cases hsave
      have hserver := normal_normalize env.toLower server
      generalize normalize env.toLower server = server' at hserver ⊢
      exact hinv.upsert ⟨id, server', _, _⟩ hserver huser
        ⟨password, env.box.decrypt_encrypt nonce password hpassword⟩
  | deleteCredential id =>
    obtain rfl := Option.some.inj h
    have hmem : ∀ {r}, r ∈ s.rows.filter (fun r => r.id ≠ id) → r ∈ s.rows :=
      fun hr => (List.mem_filter.mp hr).1
    exact ⟨hinv.nodup.sublist (List.filter_sublist.map _), fun r hr => hinv.normal r (hmem hr),
      fun r hr => hinv.username r (hmem hr), fun r hr => hinv.decrypts r (hmem hr), hinv.plain⟩

private theorem inv_init (env : Env ν) : Inv env {} where
  nodup := List.nodup_nil
  normal := fun r hr => by cases hr
  username := fun r hr => by cases hr
  decrypts := fun r hr => by cases hr
  plain := ⟨by decide, by decide⟩

private theorem Reachable.inv (h : s.Reachable env) : s.Inv env := by
  obtain ⟨es, hrun⟩ := h
  exact exec_invariant (fun s e s' hinv => hinv.step e) (inv_init env) hrun

/-! ### Looking up -/

private theorem lookup_own {h : String} (hown : s.Own env h) :
    s.lookup env h = some ⟨normalize env.toLower h, "dockhand", s.systemToken⟩ := if_pos hown

private theorem lookup_row {h : String} {r : Row} (hnodup : (s.rows.map Row.server).Nodup)
    (hown : ¬ s.Own env h) (hr : r ∈ s.rows) (hserver : r.server = normalize env.toLower h) :
    s.lookup env h = r.cred env := by
  have hfind : (s.rows.find? fun r' => r'.server = normalize env.toLower h) = some r := by
    have hfound : (s.rows.find? fun r' => r'.server = normalize env.toLower h).isSome :=
      List.find?_isSome.mpr ⟨r, hr, decide_eq_true hserver⟩
    obtain ⟨r', hr'⟩ := Option.isSome_iff_exists.mp hfound
    have hserver' : r'.server = normalize env.toLower h := by simpa using List.find?_some hr'
    rw [hr', List.inj_on_of_nodup_map hnodup (List.mem_of_find?_eq_some hr') hr
      (hserver'.trans hserver.symm)]
  calc s.lookup env h
      = (s.rows.find? fun r' => r'.server = normalize env.toLower h).bind (Row.cred env) :=
        if_neg hown
    _ = r.cred env := by rw [hfind, Option.bind_some]

private theorem lookup_of_not_has {h : String} (hhas : ¬ s.Has env h) : s.lookup env h = none := by
  have hfind : (s.rows.find? fun r => r.server = normalize env.toLower h) = none :=
    List.find?_eq_none.mpr fun r hr hserver => hhas (Or.inr ⟨r, hr, of_decide_eq_true hserver⟩)
  calc s.lookup env h
      = (s.rows.find? fun r => r.server = normalize env.toLower h).bind (Row.cred env) :=
        if_neg fun hown => hhas (Or.inl hown)
    _ = none := by rw [hfind, Option.bind_none]

/-! ### The list of all credentials -/

private theorem mem_rowCreds {c : Cred} :
    c ∈ (env.orderByServer s.rows).filterMap (Row.cred env) ↔
      ∃ r ∈ s.rows, r.cred env = some c := by
  simp only [List.mem_filterMap, (env.orderByServer_perm s.rows).mem_iff]

private theorem server_of_cred {r : Row} {c : Cred} (hc : r.cred env = some c) :
    c.server = r.server := by
  obtain ⟨p, -, rfl⟩ := Option.map_eq_some_iff.mp hc
  rfl

/-- Under the key of a stored credential stands that credential, whatever the token is. -/
theorem Inv.lastFor_all_row (hinv : s.Inv env) {r : Row} {c : Cred} (hr : r ∈ s.rows)
    (hc : r.cred env = some c) : lastFor (s.all env) (dockerKey r.server) = some c := by
  refine lastFor_append_right (mem_rowCreds.mpr ⟨r, hr, hc⟩)
    (server_of_cred hc ▸ dockerKey_mem_keys r.server) fun d hd hkey => ?_
  obtain ⟨r', hr', hd⟩ := mem_rowCreds.mp hd
  rw [server_of_cred hd, dockerKey_mem_keys_iff (hinv.normal r hr) (hinv.normal r' hr')] at hkey
  obtain rfl := List.inj_on_of_nodup_map hinv.nodup hr' hr hkey
  exact Option.some.inj (hd.symm.trans hc)

/-- Under the key of the own registry stands the token, where no credential is stored for it. -/
theorem Inv.lastFor_all_own (hinv : s.Inv env) (hon : s.enabled ∧ s.systemToken ≠ "")
    (hnormal : Normal (s.address env)) (hrows : ∀ r ∈ s.rows, r.server ≠ s.address env) :
    lastFor (s.all env) (dockerKey (s.address env)) =
      some ⟨s.address env, "dockhand", s.systemToken⟩ := by
  have hnone : ∀ d ∈ (env.orderByServer s.rows).filterMap (Row.cred env),
      dockerKey (s.address env) ∉ keys d.server := by
    intro d hd hkey
    obtain ⟨r, hr, hd⟩ := mem_rowCreds.mp hd
    rw [server_of_cred hd, dockerKey_mem_keys_iff hnormal (hinv.normal r hr)] at hkey
    exact hrows r hr hkey
  rw [all, lastFor_append_left hnone, if_pos ⟨hon.1, hon.2, hnormal.ne_empty⟩]
  exact lastFor_singleton ⟨s.address env, "dockhand", s.systemToken⟩

/-! ### Agreement -/

section Agreement

variable {j : JsonText} {decodeAuth : Json → Option (String × String)} {existing : List UInt8}
  (hreads : ∀ cfg, j.unmarshalMap existing = some cfg →
    j.document (j.marshal (.obj (withCreds cfg (s.all env)).entries)) =
      some (.obj (withCreds cfg (s.all env)).entries))
  (hcli : ∀ c : Cred, decodeAuth c.entry = readAuth c.text)

include hreads hcli

/-- What the CLI finds is what it reads of the last credential under the key. -/
theorem agrees_iff_of_lookup {h : String} {c d : Cred} (hlookup : s.lookup env h = some c)
    (hlast : lastFor (s.all env) (dockerKey (normalize env.toLower h)) = some d) :
    s.Agrees env j decodeAuth existing h ↔
      j.document existing ≠ some .null ∧ readAuth d.text = some (c.username, c.password) := by
  have hagrees : s.Agrees env j decodeAuth existing h ↔
      ∃ out, mergeDockerConfig j existing (s.all env) = some out ∧
        (j.field₂ out "auths" (dockerKey (normalize env.toLower h))).bind decodeAuth =
          some (c.username, c.password) := by
    rw [Agrees, hlookup]
    simp
  rw [hagrees, mergeDockerConfig]
  cases hcfg : j.unmarshalMap existing with
  | none => simp [JsonText.unmarshalMap_eq_none.mp hcfg]
  | some cfg =>
    have hnull : j.document existing ≠ some .null := fun hnull => by
      rw [JsonText.unmarshalMap_eq_none.mpr hnull] at hcfg
      cases hcfg
    have hfound := field₂_marshal_of_lastFor hcfg (hreads cfg hcfg) hlast
    simp [hfound, hcli, hnull]

/-- Agreement where a credential is stored. -/
theorem agrees_iff_of_row (hinv : s.Inv env) {h : String} {r : Row} {p : String} (hr : r ∈ s.rows)
    (hserver : r.server = normalize env.toLower h) (hp : env.box.decrypt r.passwordEnc = some p) :
    s.Agrees env j decodeAuth existing h ↔ j.document existing ≠ some .null ∧
      (s.Own env h → r.username = "dockhand" ∧ trim p "\x00" = s.systemToken) ∧
      (¬ s.Own env h → ':' ∉ r.username.toList ∧ trim p "\x00" = p) := by
  have hc : r.cred env = some ⟨r.server, r.username, p⟩ := by rw [Row.cred, hp, Option.map_some]
  have hlast := hinv.lastFor_all_row hr hc
  rw [hserver] at hlast
  have hne : r.username ≠ "" := hinv.username r hr
  by_cases hown : s.Own env h
  · rw [agrees_iff_of_lookup hreads hcli (lookup_own hown) hlast,
      readAuth_text_iff hne colon_not_mem_dockhand hinv.plain.1]
    simp [hown]
  · rw [agrees_iff_of_lookup hreads hcli ((lookup_row hinv.nodup hown hr hserver).trans hc) hlast,
      readAuth_text_self_iff hne]
    simp [hown]

/-- Agreement where only the token is there. -/
theorem agrees_iff_of_own (hinv : s.Inv env) {h : String} (hown : s.Own env h)
    (hrows : ∀ r ∈ s.rows, r.server ≠ normalize env.toLower h) :
    s.Agrees env j decodeAuth existing h ↔ j.document existing ≠ some .null := by
  have hlast := hinv.lastFor_all_own ⟨hown.1, hown.2.2⟩
    (hown.2.1 ▸ normal_normalize env.toLower h) (hown.2.1 ▸ hrows)
  rw [← hown.2.1] at hlast
  have hne : "dockhand" ≠ "" := by decide
  have htrim : trim s.systemToken "\x00" = s.systemToken := trim_eq_self fun c hc hmem => by
    obtain rfl : c = '\x00' := List.mem_singleton.mp hmem
    exact hinv.plain.2 hc
  have hread : readAuth (Cred.text ⟨normalize env.toLower h, "dockhand", s.systemToken⟩) =
      some ("dockhand", s.systemToken) :=
    (readAuth_text_self_iff hne).mpr ⟨colon_not_mem_dockhand, htrim⟩
  rw [agrees_iff_of_lookup hreads hcli (lookup_own hown) hlast]
  exact and_iff_left hread

/-- The two paths agree on a registry exactly when the service is agreeable for it, if it has a
credential at all. -/
theorem agrees_iff (hreach : s.Reachable env) (h : String) :
    s.Agrees env j decodeAuth existing h ↔ (s.Has env h → s.Agreeable env j existing h) := by
  have hinv := hreach.inv
  by_cases hhas : s.Has env h
  · rw [imp_iff_right hhas]
    by_cases hrow : ∃ r ∈ s.rows, r.server = normalize env.toLower h
    · obtain ⟨r, hr, hserver⟩ := hrow
      obtain ⟨p, hp⟩ := hinv.decrypts r hr
      have honly : ∀ r' ∈ s.rows, r'.server = normalize env.toLower h → r' = r := fun r' hr' hs =>
        List.inj_on_of_nodup_map hinv.nodup hr' hr (hs.trans hserver.symm)
      rw [agrees_iff_of_row hreads hcli hinv hr hserver hp]
      constructor
      · rintro ⟨hnull, hown, hstored⟩
        refine ⟨hnull, fun ho r' hr' hs => ?_, fun ho r' hr' hs => ?_⟩
        · rw [honly r' hr' hs, hp]
          simpa using hown ho
        · rw [honly r' hr' hs, hp]
          simpa using hstored ho
      · rintro ⟨hnull, hown, hstored⟩
        refine ⟨hnull, fun ho => ?_, fun ho => ?_⟩
        · obtain ⟨huser, hpass⟩ := hown ho r hr hserver
          exact ⟨huser, hpass p hp⟩
        · obtain ⟨huser, hpass⟩ := hstored ho r hr hserver
          exact ⟨huser, hpass p hp⟩
    · have hown : s.Own env h := hhas.resolve_right hrow
      have hrows : ∀ r ∈ s.rows, r.server ≠ normalize env.toLower h :=
        fun r hr hserver => hrow ⟨r, hr, hserver⟩
      rw [agrees_iff_of_own hreads hcli hinv hown hrows]
      exact ⟨fun hnull => ⟨hnull, fun _ r hr hs => absurd hs (hrows r hr),
        fun _ r hr hs => absurd hs (hrows r hr)⟩, Agreeable.not_null⟩
  · refine iff_of_true ?_ fun hhas' => absurd hhas' hhas
    rw [Agrees, lookup_of_not_has hhas]
    exact fun c hc => by cases hc

end Agreement

end Service

/-! ### Two histories -/

/-- What the CLI reads of an entry. -/
def cliDecodeAuth : Json → Option (String × String)
  | .obj [("auth", .str auth)] => do
    let bytes ← Base64.decode auth.toList
    let text ← String.fromUTF8? ⟨bytes.toArray⟩
    readAuth text
  | _ => none

private theorem cliDecodeAuth_entry (c : Cred) : cliDecodeAuth c.entry = readAuth c.text := by
  have hutf8 : String.fromUTF8? c.text.toUTF8 = some c.text := dif_pos c.text.isValidUTF8
  simp only [Cred.entry, cliDecodeAuth, String.toList_ofList, Base64.decode_encode, utf8,
    Option.bind_eq_bind, Option.bind_some, Array.toArray_toList]
  rw [hutf8, Option.bind_some]

/-- An environment in which nothing is encrypted. -/
def plainEnv : Env Unit where
  toLower := toLower
  box := ⟨fun _ v => v, some, fun _ _ _ => rfl⟩
  orderByServer := id
  orderByServer_perm := .refl

/-- A credential of another registry beside an empty configuration. -/
theorem agrees_ghcr : Service.Agrees plainEnv (fewTexts oneCredential oneMerged) cliDecodeAuth
    (utf8 "\x7b\x7d") { rows := [⟨"1", "ghcr.io", "u", "p"⟩] } "ghcr.io" :=
  (Service.agrees_iff (j := fewTexts oneCredential oneMerged)
    (fun cfg hcfg => by
      obtain rfl := Option.some.inj hcfg
      rfl) cliDecodeAuth_entry
    ⟨[.saveCredential "ghcr.io" "u" "p" "1" ()], by decide +kernel⟩ "ghcr.io").mpr fun _ => {
      not_null := fun h => by cases h
      own := fun hown => by cases hown.1
      stored := fun _ r hr _ => by
        obtain rfl := List.mem_singleton.mp hr
        refine ⟨by decide, fun p hp => ?_⟩
        obtain rfl := Option.some.inj hp
        decide +kernel }

/-- The config with a credential for the own registry. -/
def ownCredential : String :=
  "\x7b\n  \"auths\": \x7b\n    \"reg.lan\": \x7b\n      \"auth\": \"dTpw\"\n    \x7d\n  \x7d,\n" ++
    "  \"credHelpers\": \x7b\n    \"reg.lan\": \"\"\n  \x7d\n\x7d"

/-- The value of the config with a credential for the own registry. -/
def ownMerged : Json :=
  .obj [("auths", .obj [("reg.lan", .obj [("auth", .str "dTpw")])]),
    ("credHelpers", .obj [("reg.lan", .str "")])]

/-- A credential is saved for `reg.lan`, and the registry is turned on there. -/
def turnedOn : Service where
  enabled := true
  registryAddress := "reg.lan"
  systemToken := newToken (List.replicate 24 0)
  rows := [⟨"1", "reg.lan", "u", "p"⟩]

/-- A credential that was saved before the registry was turned on is the one that the CLI finds. -/
theorem turnedOn_disagrees : ¬ ∀ (env : Env Unit) (s : Service) (j : JsonText)
    (decodeAuth : Json → Option (String × String)) (existing : List UInt8) (h : String),
    (∀ cfg, j.unmarshalMap existing = some cfg →
      j.document (j.marshal (.obj (withCreds cfg (s.all env)).entries)) =
        some (.obj (withCreds cfg (s.all env)).entries)) →
    (∀ c : Cred, decodeAuth c.entry = readAuth c.text) → s.Reachable env →
    s.Agrees env j decodeAuth existing h := by
  intro h
  have hreads : ∀ cfg, (fewTexts ownCredential ownMerged).unmarshalMap (utf8 "\x7b\x7d") =
    some cfg →
      (fewTexts ownCredential ownMerged).document ((fewTexts ownCredential ownMerged).marshal
        (.obj (withCreds cfg (turnedOn.all plainEnv)).entries)) =
        some (.obj (withCreds cfg (turnedOn.all plainEnv)).entries) := by
    intro cfg hcfg
    obtain rfl := Option.some.inj hcfg
    rfl
  have hreach : turnedOn.Reachable plainEnv :=
    ⟨[.ensureSystemToken (List.replicate 24 0), .saveCredential "reg.lan" "u" "p" "1" (),
      .putSettings true "reg.lan" ""], by decide +kernel⟩
  have hown : turnedOn.Own plainEnv "reg.lan" := ⟨rfl, by decide +kernel, by decide +kernel⟩
  have hserver : "reg.lan" = normalize plainEnv.toLower "reg.lan" := by decide +kernel
  have hagrees := h plainEnv turnedOn _ cliDecodeAuth (utf8 "\x7b\x7d") "reg.lan" hreads
    cliDecodeAuth_entry hreach
  rw [Service.agrees_iff_of_row (r := ⟨"1", "reg.lan", "u", "p"⟩) hreads cliDecodeAuth_entry
    hreach.inv List.mem_cons_self hserver rfl] at hagrees
  exact absurd (hagrees.2.1 hown).1 (by decide)

end Dockhand.RegAuth
