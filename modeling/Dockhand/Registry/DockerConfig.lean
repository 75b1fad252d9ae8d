import Dockhand.Go.Base64
import Dockhand.Go.JsonText
import Dockhand.Go.Strings

/-!
# The docker config

`MergeDockerConfig` adds credentials to the `config.json` of a host, which the docker CLI reads
them from. `docker.io` is written under four keys, and every server also gets an empty entry in
`credHelpers`. The config may be any text. A text that is `null` makes the map nil, and the
first assignment to it panics. `conserves_iff` says when the merge is otherwise what it should be.
-/

namespace Dockhand.RegAuth

open Go

/-- A username and password for one registry. -/
structure Cred where
  server : String
  username : String
  password : String
  deriving DecidableEq, Repr

/-- `Normalize` turns `https://index.docker.io/v1/` and friends into `docker.io`, and strips schemes
and paths from other servers. -/
def normalize (toLower : String → String) (server : String) : String :=
  let s := toLower (trimSpace server)
  let s := trimPrefix (trimPrefix s "https://") "http://"
  let s := (cutChar s '/').1
  if s ∈ ["", "docker.io", "index.docker.io", "registry-1.docker.io", "registry.hub.docker.com",
      "hub.docker.com"] then "docker.io"
  else s

/-- `dockerKey` is the key the docker CLI uses for a registry in config.json. -/
def dockerKey (server : String) : String :=
  if server = "docker.io" then "https://index.docker.io/v1/" else server

/-- The keys that a server is written under. -/
def keys (server : String) : List String :=
  dockerKey server ::
    if server = "docker.io" then ["docker.io", "index.docker.io", "registry-1.docker.io"] else []

/-- The key of the empty credHelpers entry. -/
def helperKey (k : String) : String := trimSuffix (trimPrefix k "https://") "/v1/"

/-- What a credential is encoded from. -/
def Cred.text (c : Cred) : String := c.username ++ ":" ++ c.password

/-- The entry of a credential in `auths`. -/
def Cred.entry (c : Cred) : Json :=
  .obj [("auth", .str (String.ofList (Base64.encode (utf8 c.text))))]

/-- The entries of `auths` and of `credHelpers`. -/
abbrev Entries := Dict String Json × Dict String Json

/-- The type assertion to a map, with an empty one in place of nil. -/
def objectOrEmpty (v : Option Json) : Dict String Json := (v.bind Json.asObj?).elim ∅ Dict.ofEntries

/-- A credential is entered under one key, and an empty helper keeps the client from asking another
one. -/
def addKey (c : Cred) (st : Entries) (k : String) : Entries :=
  (st.1.set k c.entry, st.2.set (helperKey k) (.str ""))

/-- A credential is entered under all keys of its server. -/
def addCred (st : Entries) (c : Cred) : Entries := (keys c.server).foldl (addKey c) st

/-- The entries with those of the credentials. -/
def mergedEntries (cfg : Dict String Json) (creds : List Cred) : Entries :=
  creds.foldl addCred (objectOrEmpty (cfg.get? "auths"), objectOrEmpty (cfg.get? "credHelpers"))

/-- The config with the credentials. -/
def withCreds (cfg : Dict String Json) (creds : List Cred) : Dict String Json :=
  let st := mergedEntries cfg creds
  (cfg.set "auths" (.obj st.1.entries)).set "credHelpers" (.obj st.2.entries)

/-- `MergeDockerConfig` adds creds to an existing docker config.json, which may be empty or invalid.
`none` is the panic of an assignment to a nil map. That a blank text is not unmarshalled makes no
difference, because it is no JSON. -/
def mergeDockerConfig (j : JsonText) (existing : List UInt8) (creds : List Cred) :
    Option (List UInt8) :=
  (j.unmarshalMap existing).map fun cfg => j.marshal (.obj (withCreds cfg creds).entries)

/-! ### The merged entries -/

/-- The credential that a key holds in the end: the last one that is written under it. -/
def lastFor (creds : List Cred) (k : String) : Option Cred :=
  (creds.filter fun c => k ∈ keys c.server).getLast?

/-- The key is one of the helper keys of a listed server. -/
def HasHelper (creds : List Cred) (h : String) : Prop :=
  ∃ c ∈ creds, ∃ k ∈ keys c.server, helperKey k = h

instance (creds : List Cred) (h : String) : Decidable (HasHelper creds h) :=
  inferInstanceAs (Decidable (∃ c ∈ creds, ∃ k ∈ keys c.server, helperKey k = h))

private theorem get?_addCred_auths (st : Entries) (c : Cred) (k : String) :
    (addCred st c).1.get? k = if k ∈ keys c.server then some c.entry else st.1.get? k := by
  rw [addCred]
  generalize keys c.server = ks
  induction ks generalizing st with
  | nil => simp
  | cons k' ks ih =>
    rw [List.foldl_cons, ih, addKey, Dict.get?_set]
    by_cases hk : k = k' <;> simp [hk]

private theorem get?_addCred_helpers (st : Entries) (c : Cred) (h : String) :
    (addCred st c).2.get? h =
      if ∃ k ∈ keys c.server, helperKey k = h then some (.str "") else st.2.get? h := by
  rw [addCred]
  generalize keys c.server = ks
  induction ks generalizing st with
  | nil => simp
  | cons k' ks ih =>
    rw [List.foldl_cons, ih, addKey, Dict.get?_set]
    by_cases hk : helperKey k' = h
    · simp [hk]
    · have hne : ¬ h = helperKey k' := fun heq => hk heq.symm
      simp [hk, hne]

private theorem get?_foldl_auths (st : Entries) (creds : List Cred) (k : String) :
    (creds.foldl addCred st).1.get? k =
      (lastFor creds k).elim (st.1.get? k) fun c => some c.entry := by
  induction creds using List.reverseRecOn with
  | nil => rfl
  | append_singleton creds c ih =>
    rw [List.foldl_append, List.foldl_cons, List.foldl_nil, get?_addCred_auths, lastFor,
      List.filter_append]
    by_cases hk : k ∈ keys c.server
    · simp [hk]
    · rw [if_neg hk, ih, lastFor]
      simp [hk]

private theorem get?_foldl_helpers (st : Entries) (creds : List Cred) (h : String) :
    (creds.foldl addCred st).2.get? h =
      if HasHelper creds h then some (.str "") else st.2.get? h := by
  induction creds using List.reverseRecOn with
  | nil => simp [HasHelper]
  | append_singleton creds c ih =>
    have hcons : HasHelper (creds ++ [c]) h ↔
        (∃ k ∈ keys c.server, helperKey k = h) ∨ HasHelper creds h := by
      simp only [HasHelper, List.mem_append, List.mem_singleton, or_and_right, exists_or,
        exists_eq_left, or_comm]
    rw [List.foldl_append, List.foldl_cons, List.foldl_nil, get?_addCred_helpers, ih]
    by_cases hc : ∃ k ∈ keys c.server, helperKey k = h
    · rw [if_pos hc, if_pos (hcons.mpr (Or.inl hc))]
    · rw [if_neg hc]
      exact if_congr (by rw [hcons, or_iff_right hc]) rfl rfl

private theorem get?_objectOrEmpty (v : Option Json) (k : String) :
    (objectOrEmpty v).get? k = v.bind (·.field k) := by
  cases v with
  | none => rfl
  | some v => cases v <;> rfl

/-- A server that is listed has a last credential. -/
theorem lastFor_isSome {creds : List Cred} {c : Cred} {k : String} (hc : c ∈ creds)
    (hk : k ∈ keys c.server) : ∃ d, lastFor creds k = some d := by
  have hmem : c ∈ creds.filter fun c => k ∈ keys c.server :=
    List.mem_filter.mpr ⟨hc, decide_eq_true hk⟩
  exact ⟨_, List.getLast?_eq_some_getLast (List.ne_nil_of_mem hmem)⟩

theorem dockerKey_mem_keys (s : String) : dockerKey s ∈ keys s := List.mem_cons_self

theorem lastFor_singleton (c : Cred) : lastFor [c] (dockerKey c.server) = some c := by
  simp [lastFor, dockerKey_mem_keys]

theorem lastFor_append_left {creds creds' : List Cred} {k : String}
    (h : ∀ c ∈ creds', k ∉ keys c.server) : lastFor (creds ++ creds') k = lastFor creds k := by
  have hnil : creds'.filter (fun c => k ∈ keys c.server) = [] :=
    List.filter_eq_nil_iff.mpr fun c hc => by simpa using h c hc
  rw [lastFor, List.filter_append, hnil, List.append_nil, lastFor]

/-- The only credential of a key is its last one, whatever stands before. -/
theorem lastFor_append_right {creds creds' : List Cred} {c : Cred} {k : String} (hc : c ∈ creds')
    (hk : k ∈ keys c.server) (honly : ∀ d ∈ creds', k ∈ keys d.server → d = c) :
    lastFor (creds ++ creds') k = some c := by
  obtain ⟨d, hd⟩ := lastFor_isSome hc hk
  have hmem := List.mem_filter.mp (List.mem_of_getLast? hd)
  obtain rfl := honly d hmem.1 (of_decide_eq_true hmem.2)
  rw [lastFor] at hd
  rw [lastFor, List.filter_append, List.getLast?_append, hd, Option.some_or]

private theorem lastFor_eq_none {creds : List Cred} {k : String}
    (h : ∀ c ∈ creds, k ∉ keys c.server) :
    lastFor creds k = none := by
  have hnil : creds.filter (fun c => k ∈ keys c.server) = [] :=
    List.filter_eq_nil_iff.mpr fun c hc => by simpa using h c hc
  rw [lastFor, hnil, List.getLast?_nil]

/-- Entries are the same exactly when what they were encoded from is. -/
theorem entry_eq_iff {c d : Cred} : d.entry = c.entry ↔ d.text = c.text := by
  constructor
  · intro h
    simp only [Cred.entry, Json.obj.injEq, List.cons.injEq, Prod.mk.injEq, Json.str.injEq, true_and,
      and_true, String.ofList_inj] at h
    have hbytes : utf8 d.text = utf8 c.text := by
      have hdecode := congrArg Base64.decode h
      rwa [Base64.decode_encode, Base64.decode_encode, Option.some.injEq] at hdecode
    exact String.toByteArray_inj.mp (ByteArray.ext (Array.toList_inj.mp hbytes))
  · intro h
    rw [Cred.entry, Cred.entry, h]

/-! ### What the merge conserves -/

section Merge

variable (j : JsonText) (existing : List UInt8) (creds : List Cred)

/-- The credential is the last one listed for its server. -/
def LastListed (c : Cred) : Prop :=
  (creds.filter fun d => d.server = c.server).getLast? = some c

/-- The text `out` is the existing config with the credentials, and nothing else has changed. -/
structure Conserves (out : List UInt8) : Prop where
  json : ∃ m, j.document out = some (.obj m)
  top : ∀ k, k ≠ "auths" → k ≠ "credHelpers" → j.field out k = j.field existing k
  auths : ∀ k, (∀ c ∈ creds, k ∉ keys c.server) →
    j.field₂ out "auths" k = j.field₂ existing "auths" k
  helpers : ∀ h, ¬ HasHelper creds h →
    j.field₂ out "credHelpers" h = j.field₂ existing "credHelpers" h
  listed : ∀ c, LastListed creds c → j.field₂ out "auths" (dockerKey c.server) = some c.entry
  helper : ∀ h, HasHelper creds h → j.field₂ out "credHelpers" h = some (.str "")
  again : mergeDockerConfig j out creds = some out

/-- The value is stored as it is: all its numbers are float64 numbers. -/
def Exact (v : Option Json) : Prop := ∀ w ∈ v, Json.stored j.float64 w = w

/-- The existing config is not `null`, the numbers of what is kept are float64 numbers, and under
the key of each listed server no other credential is written after its last one. -/
structure Mergeable : Prop where
  not_null : j.document existing ≠ some .null
  top : ∀ k, k ≠ "auths" → k ≠ "credHelpers" → Exact j (j.field existing k)
  auths : ∀ k, (∀ c ∈ creds, k ∉ keys c.server) → Exact j (j.field₂ existing "auths" k)
  helpers : ∀ h, ¬ HasHelper creds h → Exact j (j.field₂ existing "credHelpers" h)
  unshadowed : ∀ c, LastListed creds c → ∀ d ∈ lastFor creds (dockerKey c.server), d.text = c.text

end Merge

variable {j : JsonText} {existing : List UInt8} {creds : List Cred} {cfg : Dict String Json}

private theorem map_stored_eq_iff (v : Option Json) : v.map (Json.stored j.float64) = v ↔
    Exact j v := by
  cases v with
  | none => simp [Exact]
  | some v => simp [Exact]

/-- The entries that the loop starts with. -/
theorem get?_objectOrEmpty_unmarshalMap (h : j.unmarshalMap existing = some cfg) (k k' : String) :
    (objectOrEmpty (cfg.get? k)).get? k' =
      (j.field₂ existing k k').map (Json.stored j.float64) := by
  rw [get?_objectOrEmpty, JsonText.get?_unmarshalMap h, JsonText.field₂]
  cases j.field existing k with
  | none => rfl
  | some v => exact Json.field_stored j.float64 v k'

private theorem get?_withCreds (cfg : Dict String Json) (creds : List Cred) (k : String) :
    (withCreds cfg creds).get? k =
      if k = "credHelpers" then some (.obj (mergedEntries cfg creds).2.entries)
      else if k = "auths" then some (.obj (mergedEntries cfg creds).1.entries)
      else cfg.get? k := by
  rw [withCreds, Dict.get?_set, Dict.get?_set]

private theorem get?_mergedEntries_auths (h : j.unmarshalMap existing = some cfg) (k : String) :
    (mergedEntries cfg creds).1.get? k = (lastFor creds k).elim
      ((j.field₂ existing "auths" k).map (Json.stored j.float64)) fun c => some c.entry := by
  rw [mergedEntries, get?_foldl_auths, get?_objectOrEmpty_unmarshalMap h]

private theorem get?_mergedEntries_helpers (h : j.unmarshalMap existing = some cfg) (k : String) :
    (mergedEntries cfg creds).2.get? k = if HasHelper creds k then some (.str "")
      else (j.field₂ existing "credHelpers" k).map (Json.stored j.float64) := by
  rw [mergedEntries, get?_foldl_helpers, get?_objectOrEmpty_unmarshalMap h]

/-! ### A second merge -/

private theorem storedObj_entries {d : Dict String Json}
    (h : ∀ k v, d.get? k = some v → Json.stored j.float64 v = v) :
    Json.storedObj j.float64 d.entries = d.entries := by
  rw [Json.storedObj_eq]
  refine (List.map_congr_left fun e he => ?_).trans (List.map_id _)
  have hget : d.get? e.1 = some e.2 := Dict.get?_eq_some_iff.mpr he
  exact Prod.ext rfl (h e.1 e.2 hget)

section Again

variable (hcfg : j.unmarshalMap existing = some cfg)

include hcfg

private theorem stored_mergedEntries_auths {k : String} {v : Json}
    (hv : (mergedEntries cfg creds).1.get? k = some v) : Json.stored j.float64 v = v := by
  rw [get?_mergedEntries_auths hcfg] at hv
  cases hlast : lastFor creds k with
  | some c =>
    rw [hlast] at hv
    obtain rfl := Option.some.inj hv
    rfl
  | none =>
    rw [hlast] at hv
    obtain ⟨w, -, rfl⟩ := Option.map_eq_some_iff.mp hv
    exact Json.stored_stored j.float64_float64 w

private theorem stored_mergedEntries_helpers {k : String} {v : Json}
    (hv : (mergedEntries cfg creds).2.get? k = some v) : Json.stored j.float64 v = v := by
  rw [get?_mergedEntries_helpers hcfg] at hv
  split_ifs at hv
  · obtain rfl := Option.some.inj hv
    rfl
  · obtain ⟨w, -, rfl⟩ := Option.map_eq_some_iff.mp hv
    exact Json.stored_stored j.float64_float64 w

/-- All of the merged config is stored as it is. -/
theorem stored_withCreds {k : String} {v : Json} (hv : (withCreds cfg creds).get? k = some v) :
    Json.stored j.float64 v = v := by
  rw [get?_withCreds] at hv
  split_ifs at hv
  · obtain rfl := Option.some.inj hv
    rw [Json.stored, storedObj_entries fun k v => stored_mergedEntries_helpers hcfg]
  · obtain rfl := Option.some.inj hv
    rw [Json.stored, storedObj_entries fun k v => stored_mergedEntries_auths hcfg]
  · rw [JsonText.get?_unmarshalMap hcfg] at hv
    obtain ⟨w, -, rfl⟩ := Option.map_eq_some_iff.mp hv
    exact Json.stored_stored j.float64_float64 w

/-- With the credentials in it, the config takes them in without a change. -/
theorem withCreds_withCreds : withCreds (withCreds cfg creds) creds = withCreds cfg creds := by
  have hauths : objectOrEmpty ((withCreds cfg creds).get? "auths") =
      (mergedEntries cfg creds).1 := by
    rw [get?_withCreds, if_neg (by decide), if_pos rfl]
    exact Dict.ofEntries_entries _
  have hhelpers : objectOrEmpty ((withCreds cfg creds).get? "credHelpers") =
      (mergedEntries cfg creds).2 := by
    rw [get?_withCreds, if_pos rfl]
    exact Dict.ofEntries_entries _
  have hmerged : mergedEntries (withCreds cfg creds) creds = mergedEntries cfg creds := by
    rw [mergedEntries, hauths, hhelpers]
    refine Prod.ext (Dict.ext_get? fun k => ?_) (Dict.ext_get? fun h => ?_)
    · rw [get?_foldl_auths, get?_mergedEntries_auths hcfg]
      cases lastFor creds k <;> rfl
    · rw [get?_foldl_helpers, get?_mergedEntries_helpers hcfg]
      split_ifs <;> rfl
  refine Dict.ext_get? fun k => ?_
  rw [get?_withCreds, hmerged, get?_withCreds]
  split_ifs <;> rfl

end Again

/-! ### The merge -/

section Reads

variable (hcfg : j.unmarshalMap existing = some cfg)
  (hreads : j.document (j.marshal (.obj (withCreds cfg creds).entries)) =
    some (.obj (withCreds cfg creds).entries))

include hreads

private theorem field_marshal (k : String) :
    j.field (j.marshal (.obj (withCreds cfg creds).entries)) k = (withCreds cfg creds).get? k := by
  rw [JsonText.field, hreads, Option.bind_some, Json.field_obj, Dict.ofEntries_entries]

private theorem field₂_marshal_auths (k : String) :
    j.field₂ (j.marshal (.obj (withCreds cfg creds).entries)) "auths" k =
      (mergedEntries cfg creds).1.get? k := by
  rw [JsonText.field₂, field_marshal hreads, get?_withCreds, if_neg (by decide), if_pos rfl,
    Option.bind_some, Json.field_obj, Dict.ofEntries_entries]

private theorem field₂_marshal_helpers (h : String) :
    j.field₂ (j.marshal (.obj (withCreds cfg creds).entries)) "credHelpers" h =
      (mergedEntries cfg creds).2.get? h := by
  rw [JsonText.field₂, field_marshal hreads, get?_withCreds, if_pos rfl, Option.bind_some,
    Json.field_obj, Dict.ofEntries_entries]

include hcfg

/-- Under a key stands the entry of its last credential. -/
theorem field₂_marshal_of_lastFor {k : String} {c : Cred} (hlast : lastFor creds k = some c) :
    j.field₂ (j.marshal (.obj (withCreds cfg creds).entries)) "auths" k = some c.entry := by
  rw [field₂_marshal_auths hreads, get?_mergedEntries_auths hcfg, hlast, Option.elim_some]

/-- What is stored of the merged config is the merged config. -/
theorem mergeDockerConfig_marshal :
    mergeDockerConfig j (j.marshal (.obj (withCreds cfg creds).entries)) creds =
      some (j.marshal (.obj (withCreds cfg creds).entries)) := by
  have hstored : j.unmarshalMap (j.marshal (.obj (withCreds cfg creds).entries)) =
      some (withCreds cfg creds) := by
    rw [JsonText.unmarshalMap, hreads]
    exact congrArg some ((congrArg Dict.ofEntries
      (storedObj_entries fun k v => stored_withCreds hcfg)).trans (Dict.ofEntries_entries _))
  rw [mergeDockerConfig, hstored, Option.map_some, withCreds_withCreds hcfg]

/-- The entry of a listed server is the one of the last credential under its key. -/
theorem listed_marshal_iff {c : Cred} (hc : LastListed creds c) :
    j.field₂ (j.marshal (.obj (withCreds cfg creds).entries)) "auths" (dockerKey c.server) =
      some c.entry ↔ ∀ d ∈ lastFor creds (dockerKey c.server), d.text = c.text := by
  have hmem : c ∈ creds := (List.mem_filter.mp (List.mem_of_getLast? hc)).1
  obtain ⟨d, hd⟩ := lastFor_isSome hmem (k := dockerKey c.server) List.mem_cons_self
  rw [field₂_marshal_of_lastFor hcfg hreads hd, hd]
  simp [entry_eq_iff]

private theorem conserves_marshal_iff :
    Conserves j existing creds (j.marshal (.obj (withCreds cfg creds).entries)) ↔
      Mergeable j existing creds := by
  have hauths : ∀ {k}, (∀ c ∈ creds, k ∉ keys c.server) →
      ((mergedEntries cfg creds).1.get? k = j.field₂ existing "auths" k ↔
        Exact j (j.field₂ existing "auths" k)) := by
    intro k hk
    rw [get?_mergedEntries_auths hcfg, lastFor_eq_none hk]
    exact map_stored_eq_iff _
  have hhelpers : ∀ {h}, ¬ HasHelper creds h →
      ((mergedEntries cfg creds).2.get? h = j.field₂ existing "credHelpers" h ↔
        Exact j (j.field₂ existing "credHelpers" h)) := by
    intro h hh
    rw [get?_mergedEntries_helpers hcfg, if_neg hh]
    exact map_stored_eq_iff _
  have htop : ∀ {k}, k ≠ "auths" → k ≠ "credHelpers" →
      ((withCreds cfg creds).get? k = j.field existing k ↔ Exact j (j.field existing k)) := by
    intro k hk hk'
    rw [get?_withCreds, if_neg hk', if_neg hk, JsonText.get?_unmarshalMap hcfg]
    exact map_stored_eq_iff _
  constructor
  · intro h
    exact {
      not_null := fun hnull => by
        rw [JsonText.unmarshalMap_eq_none.mpr hnull] at hcfg
        cases hcfg
      top := fun k hk hk' => (htop hk hk').mp (field_marshal hreads k ▸ h.top k hk hk')
      auths := fun k hk => (hauths hk).mp (field₂_marshal_auths hreads k ▸ h.auths k hk)
      helpers := fun h' hh => (hhelpers hh).mp (field₂_marshal_helpers hreads h' ▸ h.helpers h' hh)
      unshadowed := fun c hc => (listed_marshal_iff hcfg hreads hc).mp (h.listed c hc) }
  · intro h
    exact {
      json := ⟨_, hreads⟩
      top := fun k hk hk' =>
        (field_marshal hreads k).trans ((htop hk hk').mpr (h.top k hk hk'))
      auths := fun k hk => (field₂_marshal_auths hreads k).trans ((hauths hk).mpr (h.auths k hk))
      helpers := fun h' hh =>
        (field₂_marshal_helpers hreads h').trans ((hhelpers hh).mpr (h.helpers h' hh))
      listed := fun c hc => (listed_marshal_iff hcfg hreads hc).mpr (h.unshadowed c hc)
      helper := fun h' hh => by
        rw [field₂_marshal_helpers hreads, get?_mergedEntries_helpers hcfg, if_pos hh]
      again := mergeDockerConfig_marshal hcfg hreads }

end Reads

/-- Where what is written is read back, the merge gives the config with the credentials exactly
when the config is mergeable. -/
theorem conserves_iff (j : JsonText) (existing : List UInt8) (creds : List Cred)
    (hreads : ∀ cfg, j.unmarshalMap existing = some cfg →
      j.document (j.marshal (.obj (withCreds cfg creds).entries)) =
        some (.obj (withCreds cfg creds).entries)) :
    (∃ out, mergeDockerConfig j existing creds = some out ∧ Conserves j existing creds out) ↔
      Mergeable j existing creds := by
  cases hcfg : j.unmarshalMap existing with
  | none =>
    rw [mergeDockerConfig, hcfg]
    constructor
    · rintro ⟨out, hout, -⟩
      cases hout
    · exact fun h => absurd (JsonText.unmarshalMap_eq_none.mp hcfg) h.not_null
  | some cfg =>
    rw [mergeDockerConfig, hcfg, ← conserves_marshal_iff hcfg (hreads cfg hcfg)]
    constructor
    · rintro ⟨out, hout, h⟩
      rw [Option.map_some, Option.some.injEq] at hout
      rw [hout]
      exact h
    · exact fun h => ⟨_, rfl, h⟩

/-- A config with one credential. -/
def oneCredential : String :=
  "\x7b\n  \"auths\": \x7b\n    \"ghcr.io\": \x7b\n      \"auth\": \"dTpw\"\n    \x7d\n  \x7d,\n" ++
    "  \"credHelpers\": \x7b\n    \"ghcr.io\": \"\"\n  \x7d\n\x7d"

/-- The value of the config with one credential. -/
def oneMerged : Json :=
  .obj [("auths", .obj [("ghcr.io", .obj [("auth", .str "dTpw")])]),
    ("credHelpers", .obj [("ghcr.io", .str "")])]

/-- A config with a setting of its own, a credential and a credential helper. -/
def ownConfig : String :=
  "\x7b\"HttpHeaders\":\x7b\"X-Meta\":\"a\"\x7d," ++
    "\"auths\":\x7b\"quay.io\":\x7b\"auth\":\"cTpx\"\x7d\x7d," ++
    "\"credHelpers\":\x7b\"gcr.io\":\"gcloud\"\x7d\x7d"

/-- A configuration with a setting of its own, an entry and a helper. -/
def ownConfigValue : Json :=
  .obj [("HttpHeaders", .obj [("X-Meta", .str "a")]),
    ("auths", .obj [("quay.io", .obj [("auth", .str "cTpx")])]),
    ("credHelpers", .obj [("gcr.io", .str "gcloud")])]

/-- The same config with the one credential. -/
def addedConfig : String :=
  "\x7b\n  \"HttpHeaders\": \x7b\n    \"X-Meta\": \"a\"\n  \x7d,\n" ++
    "  \"auths\": \x7b\n    \"ghcr.io\": \x7b\n      \"auth\": \"dTpw\"\n    \x7d,\n" ++
    "    \"quay.io\": \x7b\n      \"auth\": \"cTpx\"\n    \x7d\n  \x7d,\n" ++
    "  \"credHelpers\": \x7b\n    \"gcr.io\": \"gcloud\",\n    \"ghcr.io\": \"\"\n  \x7d\n\x7d"

/-- The configuration with a credential added, and all else kept. -/
def addedConfigValue : Json :=
  .obj [("HttpHeaders", .obj [("X-Meta", .str "a")]),
    ("auths", .obj [("ghcr.io", .obj [("auth", .str "dTpw")]),
      ("quay.io", .obj [("auth", .str "cTpx")])]),
    ("credHelpers", .obj [("gcr.io", .str "gcloud"), ("ghcr.io", .str "")])]

/-- `encoding/json` on a few texts, one of which is written. -/
def fewTexts (written : String) (merged : Json) : JsonText where
  document text :=
    if text = utf8 "null" then some .null
    else if text = utf8 "\x7b\x7d" then some (.obj [])
    else if text = utf8 ownConfig then some ownConfigValue
    else if text = utf8 written then some merged
    else none
  marshal _ := utf8 written
  float64 := some
  float64_float64 q r h := by
    obtain rfl := Option.some.inj h
    rfl

/-- Into the config with a credential for `quay.io` and a helper for `gcr.io` goes a credential for
`ghcr.io`. -/
theorem conserves_ownConfig :
    ∃ out, mergeDockerConfig (fewTexts addedConfig addedConfigValue) (utf8 ownConfig)
        [⟨"ghcr.io", "u", "p"⟩] = some out ∧
      Conserves (fewTexts addedConfig addedConfigValue) (utf8 ownConfig) [⟨"ghcr.io", "u", "p"⟩]
        out := by
  have hexact (v : Option Json) : Exact (fewTexts addedConfig addedConfigValue) v :=
    fun w _ => Json.stored_some w
  have hlast : lastFor [⟨"ghcr.io", "u", "p"⟩] (dockerKey "ghcr.io") =
      some ⟨"ghcr.io", "u", "p"⟩ := by decide
  have hread : (fewTexts addedConfig addedConfigValue).document (utf8 ownConfig) =
      some ownConfigValue := by
    simp only [fewTexts]
    rw [if_neg (by decide +kernel), if_neg (by decide +kernel), if_pos trivial]
  have hwritten : (fewTexts addedConfig addedConfigValue).document (utf8 addedConfig) =
      some addedConfigValue := by
    simp only [fewTexts]
    rw [if_neg (by decide +kernel), if_neg (by decide +kernel), if_neg (by decide +kernel),
      if_pos trivial]
  refine (conserves_iff (fewTexts addedConfig addedConfigValue) (utf8 ownConfig)
    [⟨"ghcr.io", "u", "p"⟩] fun cfg hcfg => ?_).mpr ?_
  · rw [JsonText.unmarshalMap, hread] at hcfg
    obtain rfl := Option.some.inj hcfg
    exact hwritten
  · exact {
      not_null := by simp [hread, ownConfigValue]
      top := fun k _ _ => hexact _
      auths := fun k _ => hexact _
      helpers := fun k _ => hexact _
      unshadowed := fun c hc d hd => by
        obtain rfl := List.mem_singleton.mp (List.mem_filter.mp (List.mem_of_getLast? hc)).1
        rw [Option.mem_def, hlast] at hd
        obtain rfl := Option.some.inj hd
        rfl }

/-- A config that is `null` makes the merge panic. -/
theorem mergeDockerConfig_panics : ¬ ∀ (j : JsonText) (existing : List UInt8) (creds : List Cred),
    (∀ cfg, j.unmarshalMap existing = some cfg →
      j.document (j.marshal (.obj (withCreds cfg creds).entries)) =
        some (.obj (withCreds cfg creds).entries)) →
    ∃ out, mergeDockerConfig j existing creds = some out ∧ Conserves j existing creds out := by
  intro h
  have hnull : (fewTexts oneCredential oneMerged).unmarshalMap (utf8 "null") = none := rfl
  have hnever : ∀ cfg, (fewTexts oneCredential oneMerged).unmarshalMap (utf8 "null") ≠ some cfg :=
    fun cfg => by simp [hnull]
  obtain ⟨out, hout, -⟩ := h (fewTexts oneCredential oneMerged) (utf8 "null")
    [⟨"ghcr.io", "u", "p"⟩] fun cfg hcfg => absurd hcfg (hnever cfg)
  rw [mergeDockerConfig, hnull] at hout
  cases hout

end Dockhand.RegAuth
