import Dockhand.Alerts.Secrecy

/-!
# The codec of notification channels

A channel that has been validated is to be read back as it was stored, and an update with what the
API shows of it is to leave its config as it is. Encrypted and plain values stand in one map, and
only the prefix `enc:` tells them apart. So both hold exactly of the channels in which no plain
value begins with this prefix: `codec_iff`.
-/

namespace Dockhand.Alerts

open Go

section Codec

variable {ν : Type} (box : Box ν)

/-- What is decrypted is no longer than its text, which is the base64 code of the nonce and the
sealed value. -/
def Box.Shrinks : Prop :=
  ∀ s v, box.decrypt s = some v → v.toList.length ≤ s.toList.length

/-- No plain value looks like an encrypted one. -/
def Channel.Unmarked (c : Channel) : Prop :=
  ∀ k v, c.config.get? k = some v → isSecret c.type k = false → hasPrefix v "enc:" = false

/-- The stored config reads back, whatever random numbers are drawn. -/
def Channel.RoundTrips (c : Channel) : Prop :=
  ∀ draw, decodeConfig box (encodeConfig box draw c.type c.config) = c.config

/-! ### An update with the own view -/

/-- The text `bs` of a view comes back in a request as `s`. In JSON a string is kept, but `mask` can
cut within a character, and then the bytes that are left of it are replaced. -/
structure Returns (bs : List UInt8) (s : String) : Prop where
  kept : ∀ v, bs = bytes v → s = v
  begins : ∀ p r, bs = bytes p ++ r → hasPrefix s p = true

/-- The bytes of a string begin with those of its beginnings only. -/
theorem toList_prefix_of_bytes {p v : String} {r : List UInt8} (h : bytes v = bytes p ++ r) :
    p.toList <+: v.toList := by
  have hv : v.toList.utf8Encode = v.toByteArray := by simp
  have hp : p.toList.utf8Encode = p.toByteArray := by simp
  refine List.isPrefix_of_utf8Encode_append_eq_utf8Encode ⟨r.toArray⟩ ?_
  rw [hv, hp]
  refine ByteArray.ext (Array.toList_inj.mp ?_)
  rw [ByteArray.data_append, Array.toList_append]
  exact h.symm

/-- The text of a whole string comes back as this string. -/
theorem returns_bytes (v : String) : Returns (bytes v) v where
  kept w h := by
    have hvw := toList_prefix_of_bytes (h.symm.trans (List.append_nil _).symm)
    have hwv := toList_prefix_of_bytes (h.trans (List.append_nil _).symm)
    exact String.toList_injective (hwv.eq_of_length_le hvw.length_le).symm
  begins p r h := List.isPrefixOf_iff_prefix.mpr (toList_prefix_of_bytes h)

/-- The request sends what the view shows. -/
structure Echoes (view : View) (inp : ChannelInput) : Prop where
  type : inp.type = some view.type
  name : inp.name = some view.name
  config : ∀ k, Option.Rel Returns (view.config.get? k) (inp.config.get? k)
  enabled : inp.enabled = some view.enabled

/-- An update of the stored channel with its own view leaves it as it is. -/
def Channel.KeepsOwnView (c : Channel) : Prop :=
  ∀ (s : Channels) (draw draw' : String → ν) (inp : ChannelInput),
    s.rows.find? (fun r => r.id = c.id) = some (c.encoded box draw) →
    Echoes ((c.encoded box draw).decoded box).view inp →
    (s.updateChannel box c.id inp draw').getChannel box c.id = some c

/-! ### Values -/

variable {box}

private theorem decodeValue_eq_self_iff (hbox : box.Shrinks) {v : String} :
    decodeValue box v = v ↔ hasPrefix v "enc:" = false := by
  cases hmark : hasPrefix v "enc:" with
  | false => simp [decodeValue, hmark]
  | true =>
    refine iff_of_false (fun heq => ?_) (by simp)
    obtain ⟨r, hr⟩ := List.isPrefixOf_iff_prefix.mp hmark
    have hv : v = "enc:" ++ String.ofList r := String.toList_injective (by simp [← hr])
    rw [decodeValue, if_pos hmark, hv, trimPrefix_append] at heq
    cases hdecrypt : box.decrypt (String.ofList r) with
    | none =>
      rw [hdecrypt] at heq
      exact absurd (congrArg String.toList heq) (by simp)
    | some d =>
      -- the decrypted value is shorter than the marked one
      have hlen := hbox _ _ hdecrypt
      rw [hdecrypt, Option.getD_some] at heq
      rw [heq, String.toList_append, List.length_append] at hlen
      have hfour : "enc:".toList.length = 4 := by decide
      omega

private theorem roundTrips_iff (hbox : box.Shrinks) [Nonempty ν] {c : Channel} :
    c.RoundTrips box ↔ c.Unmarked := by
  have hvalue : ∀ (draw : String → ν) (k : String),
      (decodeConfig box (encodeConfig box draw c.type c.config)).get? k =
        (c.config.get? k).map fun v => if isSecret c.type k then v else decodeValue box v := by
    intro draw k
    simp only [decodeConfig, encodeConfig, Dict.get?_mapVals, Option.map_map, Function.comp_def,
      decodeValue_encoded]
  constructor
  · intro h k v hv hplain
    have hget := hvalue (fun _ => Classical.arbitrary ν) k
    rw [h, hv, Option.map_some, hplain, if_neg Bool.false_ne_true, Option.some.injEq] at hget
    exact (decodeValue_eq_self_iff hbox).mp hget.symm
  · intro h draw
    refine Dict.ext_get? fun k => ?_
    rw [hvalue]
    cases hv : c.config.get? k with
    | none => rfl
    | some v =>
      rw [Option.map_some]
      cases hplain : isSecret c.type k with
      | true => rfl
      | false => simp [(decodeValue_eq_self_iff hbox).mpr (h k v hv hplain)]

/-! ### A validated channel -/

/-- The config has the given keys, with trimmed values. -/
def Trimmed (keys : List String) (cfg : Dict String String) : Prop :=
  ∀ k, if k ∈ keys then ∃ v, cfg.get? k = some v ∧ trimSpace v = v else cfg.get? k = none

private theorem trimmed_clean (c : Channel) (keys : List String) : Trimmed keys (c.clean keys) := by
  intro k
  rw [get?_clean]
  split_ifs
  · exact ⟨_, rfl, trimSpace_trimSpace _⟩
  · rfl

private theorem Trimmed.clean_eq {keys : List String} {c : Channel} (h : Trimmed keys c.config) :
    c.clean keys = c.config := by
  refine Dict.ext_get? fun k => ?_
  have hk := h k
  rw [get?_clean]
  split_ifs at hk ⊢
  · obtain ⟨v, hv, htrim⟩ := hk
    rw [hv, Option.getD_some, htrim]
  · exact hk.symm

private theorem get?_setDefault (cfg : Dict String String) (key value k : String) :
    (setDefault cfg key value).get? k =
      if k = key ∧ cfg.get? key = some "" then some value else cfg.get? k := by
  rw [setDefault]
  split_ifs with hempty hand hand
  · rw [Dict.get?_set, if_pos hand.1]
  · rw [Dict.get?_set, if_neg fun hk => hand ⟨hk, hempty⟩]
  · exact absurd hand.2 hempty
  · rfl

private theorem setDefault_setDefault {cfg : Dict String String} {key value : String}
    (h : value ≠ "") :
    setDefault (setDefault cfg key value) key value = setDefault cfg key value := by
  have hfilled : (setDefault cfg key value).get? key ≠ some "" := by
    rw [get?_setDefault]
    split_ifs with hand
    · simpa using h
    · exact fun hempty => hand ⟨rfl, hempty⟩
  rw [setDefault, if_neg hfilled]

theorem Trimmed.setDefault {keys : List String} {cfg : Dict String String} {key value : String}
    (h : Trimmed keys cfg) (hvalue : trimSpace value = value) :
    Trimmed keys (setDefault cfg key value) := by
  intro k
  have hk := h k
  rw [get?_setDefault]
  split_ifs at hk ⊢ with hkeys hand hand
  · exact ⟨value, rfl, hvalue⟩
  · exact hk
  · rw [hand.1, hand.2] at hk
    cases hk
  · exact hk

theorem Trimmed.checkConfig {keys : List String} {typ : String} {cfg cfg' : Dict String String}
    (h : Trimmed keys cfg) (hcheck : checkConfig typ cfg = .ok cfg') : Trimmed keys cfg' := by
  unfold Alerts.checkConfig at hcheck
  split_ifs at hcheck
  · obtain rfl := Except.ok.inj hcheck
    exact h.setDefault (by decide)
  · obtain rfl := Except.ok.inj hcheck
    exact h.setDefault (by decide)
  · obtain rfl := Except.ok.inj hcheck
    exact h

/-- A config that has been checked passes again, with nothing left to fill in. -/
theorem checkConfig_checked {typ : String} {cfg cfg' : Dict String String}
    (h : checkConfig typ cfg = .ok cfg') : checkConfig typ cfg' = .ok cfg' := by
  unfold checkConfig at h ⊢
  split_ifs at h with hemail hempty hntfy htopic hhttp
  · obtain rfl := Except.ok.inj h
    have hsame : ∀ k, k ≠ "port" → (setDefault cfg "port" "587").get? k = cfg.get? k := by
      intro k hk
      rw [get?_setDefault, if_neg fun hand => hk hand.1]
    rw [if_pos hemail, hsame "host" (by decide), hsame "to" (by decide), hsame "from" (by decide),
      if_neg hempty, setDefault_setDefault (by decide)]
  · obtain rfl := Except.ok.inj h
    have hsame : (setDefault cfg "url" "https://ntfy.sh").get? "topic" = cfg.get? "topic" := by
      rw [get?_setDefault, if_neg fun hand => absurd hand.1 (by decide)]
    rw [if_neg hemail, if_pos hntfy, hsame, if_neg htopic, setDefault_setDefault (by decide)]
  · obtain rfl := Except.ok.inj h
    rw [if_neg hemail, if_neg hntfy, if_pos hhttp]

/-- A channel that has been validated passes again as it is. -/
theorem validateChannel_validated {c₀ c : Channel} (h : validateChannel c₀ = .ok c) :
    validateChannel c = .ok c := by
  unfold validateChannel at h
  cases hkeys : channelTypes.lookup c₀.type with
  | none =>
    rw [hkeys] at h
    cases h
  | some keys =>
    cases hcheck : checkConfig c₀.type (c₀.clean keys) with
    | error err =>
      simp only [hkeys, hcheck] at h
      cases h
    | ok cfg =>
      simp only [hkeys, hcheck] at h
      obtain rfl := Except.ok.inj h
      have htrimmed := (trimmed_clean c₀ keys).checkConfig hcheck
      have hclean := htrimmed.clean_eq
        (c := { c₀ with
          name := if trimSpace c₀.name = "" then c₀.type else c₀.name
          config := cfg })
      simp only [validateChannel, hkeys, hclean, checkConfig_checked hcheck, Except.map]
      split_ifs <;> rfl

/-- The own view leaves nothing to patch: what is masked is skipped, and the rest is the same. -/
theorem Echoes.patched_eq {c : Channel} {inp : ChannelInput} (h : Echoes c.view inp) :
    c.patched inp = c := by
  have hconfig : mergeConfig c.config inp.config = c.config := by
    refine Dict.ext_get? fun k => ?_
    have hk := h.config k
    rw [get?_mergeConfig]
    rw [Channel.view, Dict.get?_mapVals] at hk
    generalize inp.config.get? k = o at hk ⊢
    cases hv : c.config.get? k with
    | none =>
      rw [hv, Option.map_none] at hk
      cases hk
      rfl
    | some v =>
      rw [hv, Option.map_some] at hk
      cases hk with
      | @some _ s hs =>
        rw [Option.elim_some]
        by_cases hmasked : isMasked s = true
        · rw [if_pos hmasked]
        · rw [if_neg hmasked]
          cases hsecret : isSecret c.type k with
          | false =>
            rw [hsecret, if_neg Bool.false_ne_true] at hs
            rw [hs.kept v rfl]
          | true =>
            rw [hsecret, if_pos rfl, mask] at hs
            split_ifs at hs with hempty hshort
            · rw [hempty, hs.kept "" (by decide)]
            · exact absurd (hs.begins maskPrefix [] (by simp)) hmasked
            · exact absurd (hs.begins maskPrefix _ rfl) hmasked
  simp only [Channel.patched, h.type, h.name, h.enabled, Option.getD_some, hconfig]
  rfl

private theorem keepsOwnView {c₀ c : Channel} (hvalid : validateChannel c₀ = .ok c)
    (h : c.RoundTrips box) : c.KeepsOwnView box := by
  intro s draw draw' inp hrow hecho
  have hdecoded : ∀ draw, (c.encoded box draw).decoded box = c := by
    intro draw
    simp only [Channel.encoded, Channel.decoded, h draw]
  have hstored : s.getChannel box c.id = some c := by
    rw [Channels.getChannel, hrow, Option.map_some, hdecoded]
  rw [hdecoded] at hecho
  rw [Channels.updateChannel, hstored]
  simp only [hecho.patched_eq, validateChannel_validated hvalid, Channels.answer,
    Channels.getChannel, Channels.write, List.find?_map]
  have hsame : ((fun r : Channel => decide (r.id = c.id)) ∘ fun r : Channel =>
      if r.id = (c.encoded box draw').id then { c.encoded box draw' with createdAt := r.createdAt }
      else r) = fun r => decide (r.id = c.id) := by
    funext r
    by_cases hr : r.id = c.id
    · simp [hr, Channel.encoded]
    · simp [hr, Channel.encoded]
  rw [hsame, hrow, Option.map_some, Option.map_some]
  have hwritten : (c.encoded box draw).id = (c.encoded box draw').id := rfl
  rw [if_pos hwritten]
  exact congrArg some (hdecoded draw')

/-- **The codec** of a validated channel loses nothing, and an update with the own view changes
nothing, exactly when no plain value begins with `enc:`. -/
theorem codec_iff [Nonempty ν] (hbox : box.Shrinks) {c₀ c : Channel}
    (hvalid : validateChannel c₀ = .ok c) :
    c.RoundTrips box ∧ c.KeepsOwnView box ↔ c.Unmarked := by
  rw [← roundTrips_iff hbox]
  exact and_iff_left_of_imp (keepsOwnView hvalid)

end Codec

/-! ### Two email channels -/

namespace Email

/-- A box that seals a value with a word of its own, and opens nothing else. -/
def box : Box Unit where
  encrypt _ v := "sealed" ++ v
  decrypt s := if s = "" then some "" else
    if hasPrefix s "sealed" then some (trimPrefix s "sealed") else none
  decrypt_encrypt _ v _ := by
    have hprefix : hasPrefix ("sealed" ++ v) "sealed" = true := by simp [hasPrefix]
    have hne : "sealed" ++ v ≠ "" := fun h => absurd (congrArg String.toList h) (by simp)
    rw [if_neg hne, if_pos hprefix, trimPrefix_append]

private theorem box_shrinks : box.Shrinks := by
  intro s v h
  simp only [box] at h
  split_ifs at h with hempty hprefix
  · obtain rfl := Option.some.inj h
    simp
  · obtain rfl := Option.some.inj h
    rw [trimPrefix, if_pos hprefix, String.toList_ofList, List.length_drop]
    omega

/-- The channel that an administrator enters. -/
def entered (username : String) : Channel where
  id := "1"
  type := "email"
  name := ""
  config := ((((Dict.set ∅ "host" "mail").set "username" username).set "password" "k3y").set
    "from" "nas@lan").set "to" "me@lan"
  enabled := true
  createdAt := 0

/-- The channel as it has been validated. -/
def validated (username : String) : Channel where
  id := "1"
  type := "email"
  name := "email"
  config := (entered username).config.set "port" "587"
  enabled := true
  createdAt := 0

end Email

open Email in
/-- A channel whose secrets are entered as they are: they come back, and an update that sends the
view keeps them. -/
theorem codec_of_nas : (validated "nas").RoundTrips box ∧ (validated "nas").KeepsOwnView box :=
  (codec_iff box_shrinks (by decide +kernel :
      validateChannel (entered "nas") = .ok (validated "nas"))).mpr fun k v hv _ => by
    have hall : (validated "nas").config.entries.all (fun e => !hasPrefix e.2 "enc:") = true := by
      decide +kernel
    simpa using List.all_eq_true.mp hall _ (Dict.get?_eq_some_iff.mp hv)

open Email in
/-- A user name that begins with `enc:` does not read back. -/
theorem not_codec_of_marked : ¬ ∀ (c₀ c : Channel), validateChannel c₀ = .ok c →
    c.RoundTrips box ∧ c.KeepsOwnView box := by
  intro h
  have hlost := (h (entered "enc:nas") (validated "enc:nas") (by decide +kernel)).1 fun _ => ()
  exact absurd hlost (by decide +kernel)

end Dockhand.Alerts
