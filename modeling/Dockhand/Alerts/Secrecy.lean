import Dockhand.Alerts.Channels

/-!
# The secrets of notification channels

Two runs of the same calls, in which the values entered as secrets differ but are masked alike, are
to show the same views. They do not: the URL of a slack or webhook channel is a secret, and an
update that turns the channel into an ntfy one and keeps the URL shows it, because the URL of an
ntfy channel is none (`Channels.not_views_eq`). In runs without such an update all that the API
shows is the same: `Channels.views_eq_of_paired`.
-/

namespace Dockhand.Alerts

open Go Transition

/-! ### Values that are masked alike -/

/-- The last four bytes. -/
def lastFour (v : String) : List UInt8 := (bytes v).drop ((bytes v).length - 4)

private theorem bytes_maskPrefix_ne_nil : bytes maskPrefix ≠ [] := by decide

private theorem mask_eq_nil {v : String} : mask v = [] ↔ v = "" := by
  unfold mask
  split_ifs <;> simp_all [bytes_maskPrefix_ne_nil]

private theorem mask_eq_short {v : String} (hv : v ≠ "") :
    mask v = bytes maskPrefix ↔ (bytes v).length ≤ 4 := by
  rw [mask, if_neg hv]
  split_ifs with hshort
  · simp [hshort]
  · simp [hshort]
    omega

/-- **The mask** shows whether a value is empty, whether it has more than four bytes, and then the
last four of them. -/
theorem mask_eq_iff {v v' : String} :
    mask v = mask v' ↔ (v = "" ↔ v' = "") ∧
      ((bytes v).length ≤ 4 ↔ (bytes v').length ≤ 4) ∧
        (4 < (bytes v).length → lastFour v = lastFour v') := by
  by_cases hv : v = ""
  · subst hv
    rw [eq_comm, show mask "" = [] from rfl, mask_eq_nil]
    constructor
    · rintro rfl
      exact ⟨Iff.rfl, Iff.rfl, fun _ => rfl⟩
    · exact fun h => h.1.mp rfl
  · by_cases hv' : v' = ""
    · subst hv'
      simp [show mask "" = [] from rfl, mask_eq_nil, hv]
    · by_cases hshort : (bytes v).length ≤ 4
      · rw [(mask_eq_short hv).mpr hshort, eq_comm, mask_eq_short hv']
        simp [hv, hv', hshort, Nat.not_lt.mpr hshort]
      · by_cases hshort' : (bytes v').length ≤ 4
        · rw [(mask_eq_short hv').mpr hshort', mask_eq_short hv]
          simp [hshort, hshort']
        · rw [mask, mask, if_neg hv, if_neg hv', if_neg hshort, if_neg hshort']
          simp [hv, hv', hshort, hshort', lastFour, Nat.not_le.mp hshort]

/-- The values are the same, or the key is secret and nothing that the API shows tells them
apart. -/
def Alike (typ key v v' : String) : Prop :=
  v = v' ∨ isSecret typ key = true ∧ mask v = mask v' ∧ (key = "url" → isHTTP v = isHTTP v')

instance (typ key v v' : String) : Decidable (Alike typ key v v') :=
  inferInstanceAs (Decidable (_ ∨ _))

/-- The stored values are alike, and trimmed where they differ. -/
def Twin (typ key v v' : String) : Prop :=
  v = v' ∨ Alike typ key v v' ∧ trimSpace v = v ∧ trimSpace v' = v'

private theorem Alike.eq {typ key v v' : String} (h : Alike typ key v v')
    (hkey : isSecret typ key = false) : v = v' :=
  h.elim id fun hsecret => absurd hsecret.1 (by simp [hkey])

theorem Twin.alike {typ key v v' : String} (h : Twin typ key v v') : Alike typ key v v' :=
  h.elim .inl And.left

private theorem Alike.twin_trim {typ key v v' : String}
    (h : Alike typ key (trimSpace v) (trimSpace v')) :
    Twin typ key (trimSpace v) (trimSpace v') :=
  .inr ⟨h, trimSpace_trimSpace v, trimSpace_trimSpace v'⟩

/-- The configs of two channels of a type. -/
def TwinConfig (typ : String) (cfg cfg' : Dict String String) : Prop :=
  ∀ key, Option.Rel (Twin typ key) (cfg.get? key) (cfg'.get? key)

/-- Two channels that look the same. -/
structure TwinChannel (c c' : Channel) : Prop where
  id : c.id = c'.id
  type : c.type = c'.type
  name : c.name = c'.name
  config : TwinConfig c.type c.config c'.config
  enabled : c.enabled = c'.enabled
  createdAt : c.createdAt = c'.createdAt

private theorem TwinConfig.get?_eq {typ : String} {cfg cfg' : Dict String String}
    (h : TwinConfig typ cfg cfg') (key : String) (hkey : isSecret typ key = false) :
    cfg.get? key = cfg'.get? key := by
  simpa using (h key).map_eq (f := id) (g := id) fun _ _ hv => hv.alike.eq hkey

private theorem TwinChannel.view_eq {c c' : Channel} (h : TwinChannel c c') : c.view = c'.view := by
  have hconfig : c.view.config = c'.view.config := Dict.ext_get? fun key => by
    simp only [Channel.view, Dict.get?_mapVals, ← h.type]
    refine (h.config key).map_eq fun v v' hv => ?_
    rcases hv.alike with rfl | ⟨hkey, hmask, -⟩
    · rfl
    · rw [if_pos hkey, if_pos hkey, hmask]
  simp only [Channel.view, View.mk.injEq] at hconfig ⊢
  exact ⟨h.id, h.type, h.name, hconfig, h.enabled, h.createdAt⟩

/-! ### The stored config -/

section Box

variable {ν : Type} (box : Box ν)

/-- **What is stored reads back**: a secret value is decrypted to what it was. -/
theorem decodeValue_encoded (n : ν) {typ key v : String} :
    decodeValue box (if isSecret typ key && v ≠ "" then "enc:" ++ box.encrypt n v else v) =
      if isSecret typ key then v else decodeValue box v := by
  by_cases hkey : isSecret typ key = true
  · by_cases hv : v = ""
    · subst hv
      simp [hkey, decodeValue, hasPrefix]
    · have hprefix : hasPrefix ("enc:" ++ box.encrypt n v) "enc:" = true := by simp [hasPrefix]
      simp [hkey, hv, decodeValue, hprefix, trimPrefix_append, box.decrypt_encrypt n v hv]
  · simp [hkey]

private theorem TwinChannel.decoded_encoded {c c' : Channel} (h : TwinChannel c c')
    (draw draw' : String → ν) :
    TwinChannel ((c.encoded box draw).decoded box) ((c'.encoded box draw').decoded box) := by
  refine ⟨h.id, h.type, h.name, fun key => ?_, h.enabled, h.createdAt⟩
  simp only [Channel.decoded, Channel.encoded, decodeConfig, encodeConfig, Dict.get?_mapVals,
    Option.map_map, Function.comp_def, decodeValue_encoded, ← h.type]
  refine (h.config key).map fun v v' hv => ?_
  by_cases hkey : isSecret c.type key = true
  · rwa [if_pos hkey, if_pos hkey]
  · rw [hv.alike.eq (by simpa using hkey)]
    exact .inl rfl

end Box

/-! ### Validation -/

/-- The same error, or channels that look the same. -/
def TwinResult : Except String Channel → Except String Channel → Prop
  | .error err, .error err' => err = err'
  | .ok c, .ok c' => TwinChannel c c'
  | _, _ => False

theorem get?_clean (c : Channel) (keys : List String) (key : String) :
    (c.clean keys).get? key =
      if key ∈ keys then some (trimSpace ((c.config.get? key).getD "")) else none := by
  have hfold : ∀ (m : Dict String String), (keys.foldl
      (fun m k => m.set k (trimSpace ((c.config.get? k).getD ""))) m).get? key =
        if key ∈ keys then some (trimSpace ((c.config.get? key).getD "")) else m.get? key := by
    induction keys with
    | nil => simp
    | cons k keys ih =>
      intro m
      rw [List.foldl_cons, ih, Dict.get?_set]
      by_cases hk : key = k <;> simp [hk]
  exact hfold ∅

private theorem twinConfig_setDefault {typ key value : String} {cfg cfg' : Dict String String}
    (h : TwinConfig typ cfg cfg') (hkey : isSecret typ key = false) :
    TwinConfig typ (setDefault cfg key value) (setDefault cfg' key value) := by
  unfold setDefault
  rw [← h.get?_eq _ hkey]
  split_ifs
  · intro k
    rw [Dict.get?_set, Dict.get?_set]
    split_ifs
    · exact .some (.inl rfl)
    · exact h k
  · exact h

private theorem TwinConfig.isHTTP_eq {typ : String} {cfg cfg' : Dict String String}
    (h : TwinConfig typ cfg cfg') :
    isHTTP ((cfg.get? "url").getD "") = isHTTP ((cfg'.get? "url").getD "") := by
  have hmap := (h "url").map_eq (f := isHTTP) (g := isHTTP) fun _ _ hv =>
    hv.alike.elim (congrArg isHTTP) fun hsecret => hsecret.2.2 rfl
  cases hurl : cfg.get? "url" <;> cases hurl' : cfg'.get? "url" <;> simp_all

private theorem twinResult_map {typ : String} {f f' : Dict String String → Channel}
    {r r' : Except String (Dict String String)}
    (hr : (∃ err, r = .error err ∧ r' = .error err) ∨
      ∃ cfg cfg', r = .ok cfg ∧ r' = .ok cfg' ∧ TwinConfig typ cfg cfg')
    (hf : ∀ cfg cfg', TwinConfig typ cfg cfg' → TwinChannel (f cfg) (f' cfg')) :
    TwinResult (r.map f) (r'.map f') := by
  rcases hr with ⟨err, rfl, rfl⟩ | ⟨cfg, cfg', rfl, rfl, hcfg⟩
  · exact rfl
  · exact hf cfg cfg' hcfg

/-- **The checks of a config** do not tell twins apart. -/
theorem checkConfig_twin {typ : String} {cfg cfg' : Dict String String}
    (h : TwinConfig typ cfg cfg') :
    (∃ err, checkConfig typ cfg = .error err ∧ checkConfig typ cfg' = .error err) ∨
      ∃ d d', checkConfig typ cfg = .ok d ∧ checkConfig typ cfg' = .ok d' ∧
        TwinConfig typ d d' := by
  unfold checkConfig
  by_cases hemail : typ = "email"
  · subst hemail
    rw [if_pos rfl, if_pos rfl, ← h.get?_eq "host" rfl, ← h.get?_eq "to" rfl,
      ← h.get?_eq "from" rfl]
    split_ifs
    · exact .inl ⟨_, rfl, rfl⟩
    · exact .inr ⟨_, _, rfl, rfl, twinConfig_setDefault h rfl⟩
  · rw [if_neg hemail, if_neg hemail]
    by_cases hntfy : typ = "ntfy"
    · subst hntfy
      rw [if_pos rfl, if_pos rfl, ← h.get?_eq "topic" rfl]
      split_ifs
      · exact .inl ⟨_, rfl, rfl⟩
      · exact .inr ⟨_, _, rfl, rfl, twinConfig_setDefault h rfl⟩
    · rw [if_neg hntfy, if_neg hntfy, ← h.isHTTP_eq]
      split_ifs
      · exact .inr ⟨_, _, rfl, rfl, h⟩
      · exact .inl ⟨_, rfl, rfl⟩

/-- The channels agree on everything but their configs. -/
structure SameButConfig (c c' : Channel) : Prop where
  id : c.id = c'.id
  type : c.type = c'.type
  name : c.name = c'.name
  enabled : c.enabled = c'.enabled
  createdAt : c.createdAt = c'.createdAt

/-- **Validation** does not tell twins apart. -/
theorem validateChannel_twin {c c' : Channel} (h : SameButConfig c c')
    (hconfig : ∀ keys, channelTypes.lookup c.type = some keys →
      TwinConfig c.type (c.clean keys) (c'.clean keys)) :
    TwinResult (validateChannel c) (validateChannel c') := by
  unfold validateChannel
  rw [← h.type]
  cases hkeys : channelTypes.lookup c.type with
  | none => exact rfl
  | some keys =>
    refine twinResult_map (checkConfig_twin (hconfig keys hkeys)) fun cfg cfg' hcfg => ?_
    exact ⟨h.id, rfl, by simp only [h.name], hcfg, h.enabled, h.createdAt⟩

/-- The trimmed values of alike configs. -/
theorem twinConfig_clean {typ : String} {c c' : Channel} {keys : List String}
    (h : ∀ key ∈ keys, Alike typ key (trimSpace ((c.config.get? key).getD ""))
      (trimSpace ((c'.config.get? key).getD ""))) :
    TwinConfig typ (c.clean keys) (c'.clean keys) := by
  intro key
  rw [get?_clean, get?_clean]
  split_ifs with hkey
  · exact .some (h key hkey).twin_trim
  · exact .none

/-! ### Twin calls -/

/-- The values entered for a new channel are alike. -/
def CreatesAlike (typ key v v' : String) : Prop := Alike typ key (trimSpace v) (trimSpace v')

instance (typ key v v' : String) : Decidable (CreatesAlike typ key v v') :=
  inferInstanceAs (Decidable (Alike ..))

/-- The values entered by an update keep the stored value, or are alike. -/
def PatchesAlike (typ key v v' : String) : Prop :=
  isMasked v = isMasked v' ∧ (isMasked v = false → Alike typ key (trimSpace v) (trimSpace v'))

instance (typ key v v' : String) : Decidable (PatchesAlike typ key v v') :=
  inferInstanceAs (Decidable (_ ∧ _))

/-- The inputs differ at most in the values of secret keys, which are alike. -/
structure TwinInput (P : String → String → String → Prop) (inp inp' : ChannelInput) : Prop where
  type : inp.type = inp'.type
  name : inp.name = inp'.name
  enabled : inp.enabled = inp'.enabled
  config : inp.config.Related P inp'.config

private theorem TwinInput.refl {P : String → String → String → Prop} (hP : ∀ key v, P key v v)
    (inp : ChannelInput) : TwinInput P inp inp :=
  ⟨rfl, rfl, rfl, List.forall₂_same.mpr fun e _ => ⟨rfl, hP e.1 e.2⟩⟩

private theorem patchesAlike_rfl (typ key v : String) : PatchesAlike typ key v v :=
  ⟨rfl, fun _ => .inl rfl⟩

/-- The update turns a slack or webhook channel into an ntfy one and keeps the stored URL. -/
def Exposes (c : Channel) (inp : ChannelInput) : Prop :=
  isSecret c.type "url" = true ∧ (c.patched inp).type = "ntfy" ∧
    (∀ v ∈ inp.config.get? "url", isMasked v = true) ∧
    trimSpace (((c.patched inp).config.get? "topic").getD "") ≠ ""

instance (c : Channel) (inp : ChannelInput) : Decidable (Exposes c inp) :=
  inferInstanceAs (Decidable (_ ∧ _))

theorem get?_mergeConfig (cfg patch : Dict String String) (key : String) :
    (mergeConfig cfg patch).get? key =
      (patch.get? key).elim (cfg.get? key) fun v =>
        if isMasked v then cfg.get? key else some v := by
  refine Dict.get?_foldl (g := fun _ v old => if isMasked v then old else some v)
    (fun m e k => ?_) cfg patch.sorted key
  split_ifs with hmasked hk hk
  · rfl
  · rfl
  · rw [Dict.get?_set, if_pos hk]
  · rw [Dict.get?_set, if_neg hk]

/-- A secret key of one type is one of every other type that has it, except for the URL of an ntfy
channel. -/
theorem isSecret_of_isSecret {old typ key : String} {keys : List String}
    (hold : isSecret old key = true) (hkeys : channelTypes.lookup typ = some keys)
    (hkey : key ∈ keys) : isSecret typ key = true ∨ key = "url" ∧ typ = "ntfy" := by
  by_cases hurl : key = "url"
  · subst hurl
    have htyp : typ ∈ channelTypes.map fun e => e.1 := by
      by_contra hne
      rw [Assoc.lookup_eq_none_of_notMem hne] at hkeys
      cases hkeys
    simp only [channelTypes, List.map_cons, List.map_nil, List.mem_cons, List.not_mem_nil,
      or_false] at htyp
    rcases htyp with rfl | rfl | rfl | rfl
    · -- an email channel has no URL
      obtain rfl := Option.some.inj hkeys
      exact absurd hkey (by decide)
    · exact .inl rfl
    · exact .inl rfl
    · exact .inr ⟨rfl, rfl⟩
  · refine .inl ?_
    simpa [isSecret, hurl] using hold

/-- A stored value that is secret under the new type too. -/
theorem alike_stored {old typ key : String} {o o' : Option String}
    (h : Option.Rel (Twin old key) o o')
    (hsecret : isSecret old key = true → isSecret typ key = true) :
    Alike typ key (trimSpace (o.getD "")) (trimSpace (o'.getD "")) := by
  cases h with
  | none => exact .inl rfl
  | some hv =>
    rcases hv with rfl | ⟨halike, htrim, htrim'⟩
    · exact .inl rfl
    · rw [Option.getD_some, Option.getD_some, htrim, htrim']
      exact halike.imp_right fun ⟨hkey, hrest⟩ => ⟨hsecret hkey, hrest⟩

/-- **The values that an update validates** are alike, but for the URL that it exposes. -/
theorem alike_patched {c c' : Channel} {inp inp' : ChannelInput} {keys : List String} {key : String}
    (h : TwinChannel c c') (hinp : TwinInput (PatchesAlike (c.patched inp).type) inp inp')
    (hkeys : channelTypes.lookup (c.patched inp).type = some keys) (hkey : key ∈ keys)
    (hurl : isSecret c.type "url" = true → (c.patched inp).type = "ntfy" → key = "url" →
      ∃ v ∈ inp.config.get? "url", isMasked v = false) :
    Alike (c.patched inp).type key (trimSpace (((c.patched inp).config.get? key).getD ""))
      (trimSpace (((c'.patched inp').config.get? key).getD "")) := by
  have hconfig : ∀ (c : Channel) (inp : ChannelInput), (c.patched inp).config.get? key =
      (inp.config.get? key).elim (c.config.get? key) fun v =>
        if isMasked v then c.config.get? key else some v :=
    fun c inp => get?_mergeConfig c.config inp.config key
  have hstored : (∀ v ∈ inp.config.get? key, isMasked v = true) →
      Alike (c.patched inp).type key (trimSpace ((c.config.get? key).getD ""))
        (trimSpace ((c'.config.get? key).getD "")) := fun hkept => by
    refine alike_stored (h.config key) fun hold => ?_
    rcases isSecret_of_isSecret hold hkeys hkey with hsecret | ⟨rfl, hntfy⟩
    · exact hsecret
    · obtain ⟨v, hv, hentered⟩ := hurl hold hntfy rfl
      exact absurd (hkept v hv) (by simp [hentered])
  -- both patches leave the stored value, or both enter one
  have hrel := hinp.config.get? key
  rw [hconfig, hconfig]
  generalize inp.config.get? key = o at hrel hstored
  generalize inp'.config.get? key = o' at hrel
  cases hrel with
  | none => exact hstored (by simp)
  | @some v v' hv =>
    simp only [Option.elim_some, ← hv.1]
    split_ifs with hmasked
    · exact hstored (by simpa using hmasked)
    · exact hv.2 (by simpa using hmasked)

private theorem validateChannel_noTopic {c : Channel} (htype : c.type = "ntfy")
    (htopic : trimSpace ((c.config.get? "topic").getD "") = "") :
    validateChannel c = .error "ntfy needs a topic" := by
  have hclean : (c.clean ["url", "topic", "token"]).get? "topic" = some "" := by
    rw [get?_clean, if_pos (by decide), htopic]
  have hkeys : channelTypes.lookup c.type = some ["url", "topic", "token"] := by
    rw [htype]
    rfl
  rw [validateChannel, hkeys]
  simp [checkConfig, htype, hclean, Except.map]

/-- **An update** that exposes nothing does not tell twins apart. -/
theorem validateChannel_patched {c c' : Channel} {inp inp' : ChannelInput}
    (h : TwinChannel c c') (hinp : TwinInput (PatchesAlike (c.patched inp).type) inp inp')
    (hexposes : ¬ Exposes c inp) :
    TwinResult (validateChannel (c.patched inp)) (validateChannel (c'.patched inp')) := by
  have hsame : SameButConfig (c.patched inp) (c'.patched inp') :=
    ⟨h.id, by simp only [Channel.patched, hinp.type, h.type],
      by simp only [Channel.patched, hinp.name, h.name],
      by simp only [Channel.patched, hinp.enabled, h.enabled], h.createdAt⟩
  by_cases hshown : isSecret c.type "url" = true ∧ (c.patched inp).type = "ntfy" ∧
      ∀ v ∈ inp.config.get? "url", isMasked v = true
  · -- there is no topic, and neither update is stored
    obtain ⟨hold, hntfy, hkept⟩ := hshown
    have htopic : trimSpace (((c.patched inp).config.get? "topic").getD "") = "" := by
      by_contra htopic
      exact hexposes ⟨hold, hntfy, hkept, htopic⟩
    have hkeys : channelTypes.lookup (c.patched inp).type = some ["url", "topic", "token"] := by
      rw [hntfy]
      rfl
    have hkey : "topic" ∈ ["url", "topic", "token"] := by decide
    have halike := alike_patched h hinp hkeys hkey fun _ _ heq => absurd heq (by decide)
    have htopic' := (halike.eq (by rw [hntfy]; rfl)).symm.trans htopic
    rw [validateChannel_noTopic hntfy htopic,
      validateChannel_noTopic (hsame.type.symm.trans hntfy) htopic']
    exact rfl
  · refine validateChannel_twin hsame fun keys hkeys => twinConfig_clean fun key hkey => ?_
    refine alike_patched h hinp hkeys hkey fun hold hntfy _ => ?_
    by_contra hkept
    refine hshown ⟨hold, hntfy, fun v hv => ?_⟩
    by_contra hentered
    exact hkept ⟨v, hv, by simpa using hentered⟩

/-! ### Twin runs -/

namespace Channels

variable {ν : Type} {box : Box ν}

/-- Two calls that differ at most in the values of secret keys, which are alike. Which keys are
secret depends on the type that the channel has after the call. -/
def TwinCall (box : Box ν) (s : Channels) : ChannelCall ν → ChannelCall ν → Prop
  | .create id createdAt inp _, .create id' createdAt' inp' _ =>
    id = id' ∧ createdAt = createdAt' ∧ TwinInput (CreatesAlike (inp.type.getD "")) inp inp'
  | .update id inp _, .update id' inp' _ =>
    id = id' ∧ ∀ c ∈ s.getChannel box id, TwinInput (PatchesAlike (c.patched inp).type) inp inp'
  | _, _ => False

/-- The call exposes no stored URL. -/
def KeepsSecret (box : Box ν) (s : Channels) : ChannelCall ν → Prop
  | .create .. => True
  | .update id inp _ => ∀ c ∈ s.getChannel box id, ¬ Exposes c inp

instance (box : Box ν) (s : Channels) : (call : ChannelCall ν) → Decidable (s.KeepsSecret box call)
  | .create .. => isTrue trivial
  | .update .. => inferInstanceAs (Decidable (∀ c ∈ _, _))

/-- Two tables that look the same, and the same answers. -/
structure TwinState (box : Box ν) (s s' : Channels) : Prop where
  rows : List.Forall₂ (fun r r' => TwinChannel (r.decoded box) (r'.decoded box)) s.rows s'.rows
  replies : s.replies = s'.replies

variable {s s' : Channels}

private theorem TwinState.views_eq (h : TwinState box s s') : s.views box = s'.views box := by
  have hrows := h.rows
  unfold views
  generalize s.rows = rows, s'.rows = rows' at hrows
  induction hrows with
  | nil => rfl
  | cons hr _ ih => rw [List.map_cons, List.map_cons, hr.view_eq, ih]

theorem TwinState.getChannel (h : TwinState box s s') (id : String) :
    Option.Rel TwinChannel (s.getChannel box id) (s'.getChannel box id) := by
  have hrows := h.rows
  unfold Channels.getChannel
  generalize s.rows = rows, s'.rows = rows' at hrows
  induction hrows with
  | nil => exact .none
  | @cons r r' rows rows' hr _ ih =>
    have hid : r.id = r'.id := hr.id
    rw [List.find?_cons, List.find?_cons, ← hid]
    cases hfound : decide (r.id = id) with
    | true => exact .some hr
    | false => exact ih

theorem TwinState.answer (h : TwinState box s s') (err : Except String View) :
    TwinState box (s.answer err) (s'.answer err) :=
  ⟨h.rows, congrArg (· ++ [err]) h.replies⟩

/-- **A create.** -/
theorem TwinState.create (h : TwinState box s s') {inp inp' : ChannelInput}
    (hinp : TwinInput (CreatesAlike (inp.type.getD "")) inp inp') (id : String) (createdAt : ℕ)
    (draw draw' : String → ν) :
    TwinState box (s.createChannel box id createdAt inp draw)
      (s'.createChannel box id createdAt inp' draw') := by
  have hsame : SameButConfig (inp.channel id createdAt) (inp'.channel id createdAt) :=
    ⟨rfl, by simp only [ChannelInput.channel, hinp.type],
      by simp only [ChannelInput.channel, hinp.name],
      by simp only [ChannelInput.channel, hinp.enabled], rfl⟩
  have hresult := validateChannel_twin hsame fun keys _ => twinConfig_clean fun key _ => by
    have hrel := hinp.config.get? key
    simp only [ChannelInput.channel]
    generalize inp.config.get? key = o, inp'.config.get? key = o' at hrel
    cases hrel with
    | none => exact .inl rfl
    | some hv => exact hv
  unfold createChannel
  cases hv : validateChannel (inp.channel id createdAt) <;>
    cases hv' : validateChannel (inp'.channel id createdAt) <;> rw [hv, hv'] at hresult
  · obtain rfl := hresult
    exact h.answer _
  · cases hresult
  · cases hresult
  · rename_i c c'
    have hrows := List.rel_append h.rows
      (.cons (TwinChannel.decoded_encoded box hresult draw draw') .nil)
    have hreplies : s.replies ++ [.ok c.view] = s'.replies ++ [.ok c'.view] := by
      rw [h.replies, TwinChannel.view_eq hresult]
    exact ⟨hrows, hreplies⟩

/-- **An update.** -/
theorem TwinState.update (h : TwinState box s s') {inp inp' : ChannelInput} {id : String}
    (hinp : ∀ c ∈ s.getChannel box id, TwinInput (PatchesAlike (c.patched inp).type) inp inp')
    (hexposes : ∀ c ∈ s.getChannel box id, ¬ Exposes c inp) (draw draw' : String → ν) :
    TwinState box (s.updateChannel box id inp draw) (s'.updateChannel box id inp' draw') := by
  have hstored := h.getChannel id
  unfold updateChannel
  generalize s.getChannel box id = o, s'.getChannel box id = o' at hstored hinp hexposes
  cases hstored with
  | none => exact h.answer _
  | @some c c' hc =>
    have hresult := validateChannel_patched hc (hinp c rfl) (hexposes c rfl)
    simp only
    cases hv : validateChannel (c.patched inp) <;>
      cases hv' : validateChannel (c'.patched inp') <;> rw [hv, hv'] at hresult
    · obtain rfl := hresult
      exact h.answer _
    · cases hresult
    · cases hresult
    · rename_i d d'
      have hd := TwinChannel.decoded_encoded box hresult draw draw'
      have hreplies : s.replies ++ [.ok d.view] = s'.replies ++ [.ok d'.view] := by
        rw [h.replies, TwinChannel.view_eq hresult]
      refine ⟨List.forall₂_map_left_iff.mpr (List.forall₂_map_right_iff.mpr (h.rows.imp ?_)),
        hreplies⟩
      -- the row with the id is replaced in both tables
      intro r r' hr
      have hid : r.id = r'.id := hr.id
      have hnew : (d.encoded box draw).id = (d'.encoded box draw').id := hd.id
      by_cases hmatch : r'.id = (d'.encoded box draw').id
      · rw [if_pos (hid.trans (hmatch.trans hnew.symm)), if_pos hmatch]
        exact ⟨hd.id, hd.type, hd.name, hd.config, hd.enabled, hr.createdAt⟩
      · rw [if_neg fun heq => hmatch (hid.symm.trans (heq.trans hnew)), if_neg hmatch]
        exact hr

/-- **One call.** -/
theorem TwinState.step {call call' : ChannelCall ν} {t : Channels} (h : TwinState box s s')
    (hcall : s.TwinCall box call call') (hkeeps : s.KeepsSecret box call)
    (hs : s.step box call = some t) : ∃ t', s'.step box call' = some t' ∧ TwinState box t t' := by
  cases call with
  | create id createdAt inp draw =>
    cases call' with
    | create id' createdAt' inp' draw' =>
      obtain ⟨rfl, rfl, hinp⟩ := hcall
      obtain rfl := Option.some.inj hs
      exact ⟨_, rfl, h.create hinp id createdAt draw draw'⟩
    | update => cases hcall
  | update id inp draw =>
    cases call' with
    | create => cases hcall
    | update id' inp' draw' =>
      obtain ⟨rfl, hinp⟩ := hcall
      obtain rfl := Option.some.inj hs
      exact ⟨_, rfl, h.update hinp hkeeps draw draw'⟩

/-- **Views depend on a secret through its mask only**: two runs that differ in secret values masked
alike answer the same and list the same views, if no update exposes a stored URL. -/
theorem views_eq_of_paired {calls calls' : List (ChannelCall ν)}
    (hpaired : Paired (step box) (TwinCall box) {} calls calls')
    (hkeeps : Along (step box) (KeepsSecret box) {} calls)
    (hrun : exec (step box) {} calls = some s) (hrun' : exec (step box) {} calls' = some s') :
    s.views box = s'.views box ∧ s.replies = s'.replies := by
  have hstep : ∀ s t call call' s', TwinState box s t → TwinCall box s call call' →
      KeepsSecret box s call → step box s call = some s' →
        ∃ t', step box t call' = some t' ∧ TwinState box s' t' :=
    fun _ _ _ _ _ h hcall hkeeps hs => h.step hcall hkeeps hs
  obtain ⟨t, ht, h⟩ := exec_paired hstep ⟨.nil, rfl⟩ hpaired hkeeps hrun
  obtain rfl := Option.some.inj (ht.symm.trans hrun')
  exact ⟨h.views_eq, h.replies⟩

end Channels

/-! ### A webhook that becomes a topic -/

namespace Example

/-- A box that puts its random character before the value. -/
def box : Box Char where
  encrypt n v := String.ofList (n :: v.toList)
  decrypt s := some (String.ofList s.toList.tail)
  decrypt_encrypt n v _ := by simp

/-- A channel for an incoming webhook. -/
def create (url : String) : ChannelCall Char :=
  .create "1" 0 { type := some "slack", config := ⟨[("url", url)], by simp [Assoc.Sorted]⟩ }
    fun _ => 'r'

/-- The channel becomes an ntfy one. -/
def toNtfy (config : Dict String String) : ChannelCall Char :=
  .update "1" { type := some "ntfy", config } fun _ => 's'

/-- The webhook is created, and becomes a topic that keeps its URL. -/
def urlKept (url : String) : List (ChannelCall Char) :=
  [create url, toNtfy ⟨[("topic", "nas")], by decide⟩]

/-- The webhook is created and renamed, and becomes a topic at another URL. -/
def urlReplaced (url : String) : List (ChannelCall Char) :=
  [create url, .update "1" { name := some "nas" } fun _ => 't',
    toNtfy ⟨[("topic", "nas"), ("url", "https://ntfy.sh")], by decide⟩]

private theorem twinCall_create (s : Channels) :
    s.TwinCall box (create "https://hooks.example/T0/3f9c-1234")
      (create "https://hooks.example/T0/aa07-1234") :=
  ⟨rfl, rfl, rfl, rfl, rfl, .cons ⟨rfl, by decide +kernel⟩ .nil⟩

private theorem twinCall_update (s : Channels) (id : String) (inp : ChannelInput)
    (draw : String → Char) :
    s.TwinCall box (.update id inp draw) (.update id inp draw) :=
  ⟨rfl, fun _ _ => .refl (patchesAlike_rfl _) inp⟩

private theorem paired_urlReplaced :
    Paired (Channels.step box) (Channels.TwinCall box) {}
      (urlReplaced "https://hooks.example/T0/3f9c-1234")
      (urlReplaced "https://hooks.example/T0/aa07-1234") :=
  ⟨twinCall_create _, fun _ _ => ⟨twinCall_update .., fun _ _ => ⟨twinCall_update ..,
    fun _ _ => trivial⟩⟩⟩

end Example

/-- Two URLs that are masked alike can be told apart when their channel has become an ntfy one. -/
theorem Channels.not_views_eq :
    Paired (Channels.step Example.box) (Channels.TwinCall Example.box) {}
        (Example.urlKept "https://hooks.example/T0/3f9c-1234")
        (Example.urlKept "https://hooks.example/T0/aa07-1234") ∧
      (exec (Channels.step Example.box) {} (Example.urlKept
        "https://hooks.example/T0/3f9c-1234")).map
          (Channels.views Example.box) ≠
        (exec (Channels.step Example.box) {} (Example.urlKept
          "https://hooks.example/T0/aa07-1234")).map
          (Channels.views Example.box) :=
  ⟨⟨Example.twinCall_create _, fun _ _ => ⟨Example.twinCall_update ..,
    fun _ _ => trivial⟩⟩, by decide +kernel⟩

/-- Two webhook URLs that end alike, in a channel that is renamed and then given another type. -/
theorem Channels.views_eq_of_paired_urlReplaced :
    ∃ s ∈ exec (Channels.step Example.box) {}
      (Example.urlReplaced "https://hooks.example/T0/3f9c-1234"),
      ∃ s' ∈ exec (Channels.step Example.box) {}
        (Example.urlReplaced "https://hooks.example/T0/aa07-1234"),
        s.views Example.box = s'.views Example.box ∧ s.replies = s'.replies := by
  obtain ⟨s, hs⟩ := Option.isSome_iff_exists.mp (by decide +kernel :
    (exec (Channels.step Example.box) {} (Example.urlReplaced
      "https://hooks.example/T0/3f9c-1234")).isSome)
  obtain ⟨s', hs'⟩ := Option.isSome_iff_exists.mp (by decide +kernel :
    (exec (Channels.step Example.box) {} (Example.urlReplaced
      "https://hooks.example/T0/aa07-1234")).isSome)
  exact ⟨s, hs, s', hs',
    Channels.views_eq_of_paired Example.paired_urlReplaced (by decide +kernel) hs hs'⟩

end Dockhand.Alerts
