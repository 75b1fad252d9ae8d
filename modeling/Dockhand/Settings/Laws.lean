import Dockhand.Settings.Store

/-!
# What the settings operations compute, section by section

`deepMerge` acts key by key (`lookup_deepMerge`), `fromMap` decodes section by section
(`fromMap_eq_some_iff`), and overlaying the encoding of a section on the encoding of another
one decodes to the overlaid section (`Section.decode_overlay`) as long as nothing of the other
one shows through: the tools it names are all mentioned, and it holds no secret.

`validate` accepts a settings value only after trimming it (`validate_eq_ok`), `normalize` is
idempotent under the server's defaults (`normalize_normalize`), and both rewrite each section
from that section alone (`tidy_congr`).
-/

namespace Dockhand.Settings

open Go

/-! ### `deepMerge` -/

private theorem mergeValue_of_not_obj {v : Json} (h : v.asObj? = none) (o : Option Json) :
    mergeValue o v = v := by
  cases v with
  | obj m => cases h
  | _ => cases o with
    | none => rw [mergeValue]; simp
    | some w => cases w <;> rfl

theorem sorted_deepMerge {base : Obj} (h : Assoc.Sorted base) (patch : Obj) :
    Assoc.Sorted (deepMerge base patch) := by
  induction patch generalizing base with
  | nil => simpa [deepMerge] using h
  | cons e patch ih =>
    rw [deepMerge]
    exact ih (h.set _ _)

/-- Merging acts on every key by itself. -/
theorem lookup_deepMerge {patch : Obj} (hp : (patch.map fun e => e.1).Nodup) (base : Obj)
    (k : String) :
    (deepMerge base patch).lookup k =
      (patch.lookup k).elim (base.lookup k) fun v => some (mergeValue (base.lookup k) v) := by
  induction patch generalizing base with
  | nil => simp [deepMerge]
  | cons e patch ih =>
    obtain ⟨he, hp'⟩ := List.nodup_cons.mp hp
    rw [deepMerge, ih hp', Assoc.lookup_set, Assoc.lookup_cons]
    by_cases hk : k = e.1
    · rw [if_pos hk, if_pos hk, hk, Assoc.lookup_eq_none_of_notMem he]
      rfl
    · rw [if_neg hk, if_neg hk]

/-- A merged map has no keys but those of the two maps. -/
theorem key_of_mem_deepMerge {base patch : Obj} {e : String × Json}
    (h : e ∈ deepMerge base patch) :
    (∃ e' ∈ base, e'.1 = e.1) ∨ ∃ e' ∈ patch, e'.1 = e.1 := by
  induction patch generalizing base with
  | nil =>
    rw [deepMerge] at h
    exact .inl ⟨e, h, rfl⟩
  | cons a patch ih =>
    rw [deepMerge] at h
    rcases ih h with ⟨e', he', hkey⟩ | ⟨e', he', hkey⟩
    · rcases Assoc.mem_of_mem_set he' with rfl | he'
      · exact .inr ⟨a, List.mem_cons_self, hkey⟩
      · exact .inl ⟨e', he', hkey⟩
    · exact .inr ⟨e', List.mem_cons_of_mem _ he', hkey⟩

/-! ### Overlaying an encoded struct on another one -/

section Overlay

variable {S : Type} {fs : List (StructField S)} {f : StructField S}

/-- The value of a field's tag after the encoding of `b` is merged over the encoding of `a`
decodes to `b`. -/
def Overlays (f : StructField S) (zero a b : f.Part) : Prop :=
  ((f.enc b).elim (f.enc a) fun v => some (mergeValue (f.enc a) v)).elim (b = zero)
    fun v => f.dec v zero = some b

/-- A field that is always written, and never as a map, replaces what is below it. -/
theorem Overlays.of_roundTrips {zero a b : f.Part} {v : Json} (hrt : f.RoundTrips zero b)
    (henc : f.enc b = some v) (hv : v.asObj? = none) : Overlays f zero a b := by
  rw [StructField.RoundTrips, StructField.reread, henc] at hrt
  rw [Overlays, henc, Option.elim_some, mergeValue_of_not_obj hv]
  exact hrt

private theorem decodeStruct_overlay (h : LawfulFields fs) {z a b : S}
    (hover : ∀ f ∈ fs, Overlays f (f.get z) (f.get a) (f.get b)) :
    decodeStruct fs (deepMerge (encodeStruct fs a) (encodeStruct fs b)) z = some b := by
  refine h.decodeStruct_eq_some_iff.mpr fun f hf => ?_
  have hexact : ∀ e ∈ deepMerge (encodeStruct fs a) (encodeStruct fs b),
      f.Matches e.1 → e.1 = f.name := fun e he hfe => by
    obtain ⟨g, hg, hge⟩ : ∃ g ∈ fs, g.name = e.1 := by
      rcases key_of_mem_deepMerge he with ⟨e', he', hkey⟩ | ⟨e', he', hkey⟩
      all_goals
        obtain ⟨g, hg, hge⟩ := mem_of_mem_encodeStruct he'
        exact ⟨g, hg, hge.trans hkey⟩
    rw [← hge, h.eq_of_matches hf hg hfe (congrArg Json.foldName hge)]
  rw [decodeField_of_exact (sorted_deepMerge (sorted_encodeStruct fs a) _) hexact,
    lookup_deepMerge (sorted_encodeStruct fs b).nodup, lookup_encodeStruct h.nodup hf,
    lookup_encodeStruct h.nodup hf]
  have hf' := hover f hf
  rw [Overlays] at hf'
  revert hf'
  cases (f.enc (f.get b)).elim (f.enc (f.get a)) fun v => some (mergeValue (f.enc (f.get a)) v) with
  | none => exact fun hzero => congrArg some hzero.symm
  | some v => exact id

end Overlay

theorem ToolPref.decode_overlay (a b : ToolPref) :
    decodeStruct ToolPref.fields
      (deepMerge (encodeStruct ToolPref.fields a) (encodeStruct ToolPref.fields b)) {} =
        some b := by
  refine decodeStruct_overlay ToolPref.lawful ?_
  simp only [ToolPref.fields, List.forall_mem_cons]
  exact ⟨.of_roundTrips StructField.bool_roundTrips rfl rfl,
    .of_roundTrips StructField.bool_roundTrips rfl rfl,
    by simp⟩

/-- Tools overlay when the upper map mentions every tool of the lower one. -/
theorem MCP.tools_overlay {a b : Dict String ToolPref}
    (hsub : ∀ k, (a.get? k).isSome → (b.get? k).isSome) :
    Overlays MCP.toolsField (∅ : Dict String ToolPref) a b := by
  show StructField.decMap ToolPref.fields {}
    (mergeValue (some (.obj (StructField.encMap ToolPref.fields a)))
      (.obj (StructField.encMap ToolPref.fields b))) ∅ = some b
  rw [mergeValue, StructField.decMap_eq_some_iff
    (sorted_deepMerge (StructField.sorted_encMap ..) _)]
  intro k
  rw [lookup_deepMerge (StructField.sorted_encMap ..).nodup, StructField.lookup_encMap,
    StructField.lookup_encMap]
  have hk := hsub k
  cases hb : b.get? k with
  | none =>
    rw [hb] at hk
    cases ha : a.get? k with
    | none => rfl
    | some t => simp [ha] at hk
  | some t =>
    cases ha : a.get? k with
    | none =>
      refine ⟨t, ?_, rfl⟩
      rw [Option.map_none, mergeValue]
      · exact ToolPref.roundTrips t
      · simp
    | some t₀ =>
      refine ⟨t, ?_, rfl⟩
      rw [Option.map_some, mergeValue]
      exact ToolPref.decode_overlay t₀ t

/-- Nothing of the lower section shows through when `b` is written over it. -/
def Section.Covers : (k : Section) → k.Val → k.Val → Prop
  | .github, a, _ => a.secretEnc = ""
  | .mcp, a, b => ∀ name, (a.tools.get? name).isSome → (b.tools.get? name).isSome
  | _, _, _ => True

/-- **Overlaying a section** whose ints survive a float64. -/
theorem Section.decode_overlay (k : Section) {a b : k.Val} (h : k.Covers a b) (hb : k.Exact b) :
    decodeStruct k.fields (deepMerge (encodeStruct k.fields a) (encodeStruct k.fields b)) k.zero =
      some b := by
  refine decodeStruct_overlay k.lawful ?_
  have hrt := k.fields_roundTrip hb
  clear hb
  cases k <;>
    simp only [Section.fields, General.fields, Uptime.fields, GitHub.fields, MCP.fields,
      Updates.fields, Notifications.fields, Registry.fields, List.forall_mem_cons,
      List.not_mem_nil, false_imp_iff, implies_true, and_true] at hrt ⊢
  case general => exact ⟨.of_roundTrips hrt.1 rfl rfl, .of_roundTrips hrt.2 rfl rfl⟩
  case github =>
    refine ⟨.of_roundTrips hrt.1 rfl rfl, .of_roundTrips hrt.2.1 rfl rfl,
      .of_roundTrips hrt.2.2.1 rfl rfl, ?_⟩
    have ha : (a : GitHub).secretEnc = "" := h
    by_cases hb : (b : GitHub).secretEnc = ""
    · simp [Overlays, GitHub.secretField, StructField.stringOmitEmpty, ha, hb, Section.zero]
    · refine .of_roundTrips (v := .str (b : GitHub).secretEnc) hrt.2.2.2 ?_ rfl
      simp [GitHub.secretField, StructField.stringOmitEmpty, hb]
  case mcp =>
    exact ⟨.of_roundTrips hrt.1 rfl rfl, .of_roundTrips hrt.2.1 rfl rfl,
      .of_roundTrips hrt.2.2.1 rfl rfl, MCP.tools_overlay h⟩
  case registry => exact ⟨.of_roundTrips hrt.1 rfl rfl, .of_roundTrips hrt.2 rfl rfl⟩
  case uptime =>
    obtain ⟨h₁, h₂, h₃, h₄, h₅, h₆⟩ := hrt
    exact ⟨.of_roundTrips h₁ rfl rfl, .of_roundTrips h₂ rfl rfl, .of_roundTrips h₃ rfl rfl,
      .of_roundTrips h₄ rfl rfl, .of_roundTrips h₅ rfl rfl, .of_roundTrips h₆ rfl rfl⟩
  case updates =>
    obtain ⟨h₁, h₂, h₃, h₄, h₅, h₆, h₇, h₈, h₉⟩ := hrt
    exact ⟨.of_roundTrips h₁ rfl rfl, .of_roundTrips h₂ rfl rfl, .of_roundTrips h₃ rfl rfl,
      .of_roundTrips h₄ rfl rfl, .of_roundTrips h₅ rfl rfl, .of_roundTrips h₆ rfl rfl,
      .of_roundTrips h₇ rfl rfl, .of_roundTrips h₈ rfl rfl, .of_roundTrips h₉ rfl rfl⟩
  case notifications =>
    obtain ⟨h₁, h₂, h₃, h₄, h₅, h₆, h₇⟩ := hrt
    exact ⟨.of_roundTrips h₁ rfl rfl, .of_roundTrips h₂ rfl rfl, .of_roundTrips h₃ rfl rfl,
      .of_roundTrips h₄ rfl rfl, .of_roundTrips h₅ rfl rfl, .of_roundTrips h₆ rfl rfl,
      .of_roundTrips h₇ rfl rfl⟩

/-! ### `fromMap` and the rows -/

/-- The settings with the given sections. -/
def ofSec (x : (k : Section) → k.Val) : Settings :=
  ⟨x .general, x .uptime, x .github, x .mcp, x .updates, x .notifications, x .registry⟩

@[simp] theorem sec_ofSec (x : (k : Section) → k.Val) (k : Section) : (ofSec x).sec k = x k := by
  cases k <;> rfl

/-- `fromMap` decodes section by section. -/
theorem fromMap_eq_some_iff {m : Section → Obj} {s : Settings} :
    fromMap m = some s ↔ ∀ k, decodeStruct k.fields (m k) k.zero = some (s.sec k) := by
  simp only [fromMap, Option.bind_eq_bind, Option.bind_eq_some_iff, Option.pure_def,
    Option.some.injEq]
  constructor
  · rintro ⟨_, h₁, _, h₂, _, h₃, _, h₄, _, h₅, _, h₆, _, h₇, rfl⟩ k
    cases k
    exacts [h₁, h₂, h₃, h₄, h₅, h₆, h₇]
  · intro h
    exact ⟨_, h .general, _, h .uptime, _, h .github, _, h .mcp, _, h .updates, _,
      h .notifications, _, h .registry, rfl⟩

/-- What a stored row stands for in its section, before normalization. -/
def readRow (d : Settings) (k : Section) (row : Option Row) : Option k.Val :=
  decodeStruct k.fields (overlay (toMap d k) row) k.zero

theorem readRows_eq_some_iff {d s : Settings} {rows : Rows} :
    readRows d rows = some s ↔
      ∃ x : (k : Section) → k.Val, (∀ k, readRow d k (rows k) = some (x k)) ∧
        s = normalize (ofSec x) d := by
  simp only [readRows, Option.map_eq_some_iff, fromMap_eq_some_iff]
  constructor
  · rintro ⟨t, ht, rfl⟩
    refine ⟨t.sec, ht, congrArg (normalize · d) (ext_sec fun k => ?_)⟩
    rw [sec_ofSec]
  · rintro ⟨x, hx, rfl⟩
    exact ⟨ofSec x, fun k => by rw [sec_ofSec]; exact hx k, rfl⟩

/-- A row written from a section that covers the default one stands for that section. -/
theorem readRow_written {d s : Settings} {k : Section} (h : k.Covers (d.sec k) (s.sec k))
    (hexact : k.Exact (s.sec k)) (now : ℕ) :
    readRow d k (some ⟨.obj (toMap s k), now⟩) = some (s.sec k) :=
  k.decode_overlay h hexact

/-! ### Validation and normalization -/

/-- What `validate` does to the settings it accepts. -/
def trim (s : Settings) : Settings :=
  { s with
    registry := { s.registry with address := trimAddress s.registry.address }
    updates := { s.updates with timezone := trimSpace s.updates.timezone }
    general :=
      { publicURL := trimURL s.general.publicURL, domain := trimSpace s.general.domain } }

private theorem ok_of_ite_error {c : Prop} [Decidable c] {msg : String}
    {x : Except String Settings} {s : Settings} (h : (if c then .error msg else x) = .ok s) :
    ¬ c ∧ x = .ok s := by
  by_cases hc : c
  · rw [if_pos hc] at h
    cases h
  · rw [if_neg hc] at h
    exact ⟨hc, h⟩

/-- Validated settings are trimmed, and their ints are small. -/
theorem validate_eq_ok {env : Env} {s s' : Settings} (h : validate env s = .ok s') :
    s' = trim s ∧ ∀ k : Section, k.Small (s.sec k) := by
  unfold validate at h
  obtain ⟨hinterval, h⟩ := ok_of_ite_error h
  obtain ⟨hretries, h⟩ := ok_of_ite_error h
  obtain ⟨-, h⟩ := ok_of_ite_error h
  obtain ⟨hport, h⟩ := ok_of_ite_error h
  constructor
  · -- the channel and the build, then the address and the time zone
    iterate 4 replace h := (ok_of_ite_error h).2
    split at h
    · cases h
    · exact (Except.ok.inj h).symm
  · intro k
    cases k with
    | uptime =>
      refine ⟨?_, ?_⟩
      · show s.uptime.intervalSec.toInt.natAbs < 2 ^ 53
        rcases not_not.mp hinterval with h | h | h <;> rw [h] <;> decide
      · show s.uptime.retries.toInt.natAbs < 2 ^ 53
        simp only [not_or, gt_iff_lt, Int64.lt_iff_toInt_lt] at hretries
        have h₁ : (1 : Int64).toInt = 1 := rfl
        have h₃ : (3 : Int64).toInt = 3 := rfl
        omega
    | mcp =>
      show s.mcp.port.toInt.natAbs < 2 ^ 53
      by_cases hzero : s.mcp.port = 0
      · rw [hzero]
        decide
      · simp only [hzero, ne_eq, not_false_eq_true, true_and, not_or, gt_iff_lt,
          Int64.lt_iff_toInt_lt] at hport
        have hlo : (1024 : Int64).toInt = 1024 := rfl
        have hhi : (65535 : Int64).toInt = 65535 := rfl
        omega
    | general => trivial
    | github => trivial
    | updates => trivial
    | notifications => trivial
    | registry => trivial

private theorem get?_fillTools (t d : Dict String ToolPref) (k : String) :
    (fillTools t d).get? k = (t.get? k).or (d.get? k) := by
  have hfold : ∀ (es : List (String × ToolPref)) (t : Dict String ToolPref),
      (es.foldl (fun t e => if (t.get? e.1).isSome then t else t.set e.1 e.2) t).get? k =
        (t.get? k).or (es.lookup k) := by
    intro es
    induction es with
    | nil => simp
    | cons e es ih =>
      intro t
      rw [List.foldl_cons, ih, Assoc.lookup_cons]
      by_cases hk : k = e.1
      · subst hk
        cases ht : t.get? e.1 <;> simp [ht]
      · by_cases ht : (t.get? e.1).isSome
        · rw [if_pos ht, if_neg hk]
        · rw [if_neg ht, if_neg hk, Dict.get?_set, if_neg hk]
  exact hfold d.entries t

private theorem fillTools_fillTools (t d : Dict String ToolPref) :
    fillTools (fillTools t d) d = fillTools t d :=
  Dict.ext_get? fun k => by
    simp only [get?_fillTools]
    cases t.get? k <;> cases d.get? k <;> rfl

/-- The server's defaults: no stored secret, and an update repo that normalization keeps. -/
structure ServerDefaults (d : Settings) : Prop where
  secretEnc : d.github.secretEnc = ""
  repo : ¬ (d.updates.repo = "" ∨ d.updates.repo = "dockhand-app/dockhand")

theorem serverDefaults_serverDefaults (publicURL : String) (tools : List ToolInfo)
    (mcpPort : Int64) : ServerDefaults (serverDefaults publicURL tools mcpPort) :=
  ⟨rfl, by simp [serverDefaults, defaults]⟩

/-- `normalize` is idempotent under the server's defaults. -/
theorem normalize_normalize {d : Settings} (hd : ServerDefaults d) (s : Settings) :
    normalize (normalize s d) d = normalize s d := by
  by_cases hu : s.general.publicURL = "" <;>
  by_cases hr : s.updates.repo = "" ∨ s.updates.repo = "dockhand-app/dockhand" <;>
    simp [normalize, fillTools_fillTools, hu, hr, hd.repo]

/-- What a patch does to the settings it decodes. -/
def tidy (d s : Settings) : Settings := normalize (trim s) d

private theorem tidy_uptime (d s : Settings) : (tidy d s).uptime = s.uptime := by
  rw [tidy, normalize, trim]

private theorem tidy_port (d s : Settings) : (tidy d s).mcp.port = s.mcp.port := by
  rw [tidy, normalize, trim]

/-- It leaves the ints alone. -/
theorem small_tidy {s : Settings} (d : Settings) {k : Section} (h : k.Small (s.sec k)) :
    k.Small ((tidy d s).sec k) := by
  cases k with
  | uptime =>
    simp only [Section.Small, sec, tidy_uptime] at h ⊢
    exact h
  | mcp =>
    simp only [Section.Small, sec, tidy_port] at h ⊢
    exact h
  | general => trivial
  | github => trivial
  | updates => trivial
  | notifications => trivial
  | registry => trivial

/-- Normalization rewrites a section from that section alone. -/
theorem normalize_congr {s t : Settings} (d : Settings) {k : Section} (h : s.sec k = t.sec k) :
    (normalize s d).sec k = (normalize t d).sec k := by
  cases k <;> simp_all [sec, normalize]

/-- So does the trimming of validation followed by normalization. -/
theorem tidy_congr {s t : Settings} (d : Settings) {k : Section} (h : s.sec k = t.sec k) :
    (tidy d s).sec k = (tidy d t).sec k := by
  refine normalize_congr d ?_
  cases k <;> simp_all [sec, trim]

/-- A normalized section covers the default one. -/
theorem covers_normalize {d : Settings} (hd : ServerDefaults d) (s : Settings) (k : Section) :
    k.Covers (d.sec k) ((normalize s d).sec k) := by
  cases k with
  | github => exact hd.secretEnc
  | mcp =>
    intro name hname
    rw [show ((normalize s d).sec .mcp : MCP).tools = fillTools s.mcp.tools d.mcp.tools from rfl,
      get?_fillTools]
    simp only [Option.isSome_or, Bool.or_eq_true]
    exact .inr hname
  | _ => trivial

/-! ### The merge loop and the save loop -/

/-- A merge loop that succeeds merges its first entry into the section it names. -/
theorem mergePatch_cons_ok {cur m : Section → Obj} {e : String × GoMap String Json}
    {patch : List (String × GoMap String Json)} {changed : List Section}
    (h : mergePatch cur (e :: patch) = .ok (m, changed)) :
    ∃ k changed', Section.ofKey? e.1 = some k ∧ changed = k :: changed' ∧
      mergePatch (Function.update cur k (deepMerge (cur k) (stripReadOnly k e.2.entries))) patch =
        .ok (m, changed') := by
  simp only [mergePatch] at h
  split at h
  · cases h
  · rename_i k hk
    split at h
    · cases h
    · rename_i hrec
      obtain ⟨rfl, rfl⟩ := Prod.mk.inj (Except.ok.inj h)
      exact ⟨k, _, hk, rfl, hrec⟩

/-- The merge loop touches only the sections it reports. -/
theorem mergePatch_frame {cur m : Section → Obj} {patch : List (String × GoMap String Json)}
    {changed : List Section} (h : mergePatch cur patch = .ok (m, changed)) {k : Section}
    (hk : k ∉ changed) : m k = cur k := by
  induction patch generalizing cur changed with
  | nil =>
    obtain ⟨rfl, -⟩ := Prod.mk.inj (Except.ok.inj h)
    rfl
  | cons e patch ih =>
    obtain ⟨k', changed', -, rfl, hrec⟩ := mergePatch_cons_ok h
    obtain ⟨hne, hnot⟩ := not_or.mp (mt List.mem_cons.mpr hk)
    rw [ih hrec hnot, Function.update_of_ne hne]

/-- The merge loop reports the sections that the patch names. -/
theorem mem_changed_iff {cur m : Section → Obj} {patch : List (String × GoMap String Json)}
    {changed : List Section} (h : mergePatch cur patch = .ok (m, changed)) (k : Section) :
    k ∈ changed ↔ k.key ∈ patch.map fun e => e.1 := by
  induction patch generalizing cur changed with
  | nil =>
    obtain ⟨-, rfl⟩ := Prod.mk.inj (Except.ok.inj h)
    simp
  | cons e patch ih =>
    obtain ⟨k', changed', hk', rfl, hrec⟩ := mergePatch_cons_ok h
    rw [List.mem_cons, List.map_cons, List.mem_cons, ih hrec]
    refine or_congr_left ⟨?_, fun hkey => ?_⟩
    · rintro rfl
      exact Section.key_of_ofKey? hk'
    · have hsome := Section.ofKey?_key k
      rw [hkey, hk'] at hsome
      exact (Option.some.inj hsome).symm

/-- A section the patch names once gets its values merged in, the read-only ones left out. -/
theorem mergePatch_merged {cur m : Section → Obj} {patch : List (String × GoMap String Json)}
    {changed : List Section} (h : mergePatch cur patch = .ok (m, changed))
    (hnd : (patch.map fun e => e.1).Nodup) {k : Section} {vals : GoMap String Json}
    (hk : (k.key, vals) ∈ patch) : m k = deepMerge (cur k) (stripReadOnly k vals.entries) := by
  induction patch generalizing cur changed with
  | nil => exact absurd hk List.not_mem_nil
  | cons e patch ih =>
    obtain ⟨k', changed', hk', rfl, hrec⟩ := mergePatch_cons_ok h
    obtain ⟨hnot, hnd'⟩ := List.nodup_cons.mp hnd
    rcases List.mem_cons.mp hk with rfl | hk
    · obtain rfl : k = k' := Option.some.inj ((Section.ofKey?_key k).symm.trans hk')
      have hrest : k ∉ changed' := fun hmem => hnot ((mem_changed_iff hrec k).mp hmem)
      rw [mergePatch_frame hrec hrest, Function.update_self]
    · have hne : k ≠ k' := by
        rintro rfl
        exact hnot (List.mem_map.mpr ⟨_, hk, Section.key_of_ofKey? hk'⟩)
      rw [ih hrec hnd' hk, Function.update_of_ne hne]

/-- The sections that the save loop writes before its first failing write. -/
def written (writes : ℕ → Bool) : ℕ → List Section → List Section
  | _, [] => []
  | i, k :: ks => if writes i then k :: written writes (i + 1) ks else []

section SaveLoop

variable {final : Section → Obj} {now : ℕ → ℕ} {writes : ℕ → Bool} {i : ℕ} {ks : List Section}
  {rows : Rows} {k : Section}

/-- The save loop leaves the rows of all other sections alone. -/
theorem saveAll_of_notMem (final : Section → Obj) (now : ℕ → ℕ) (rows : Rows)
    (hk : k ∉ written writes i ks) : (saveAll final now writes i ks rows).1 k = rows k := by
  induction ks generalizing i rows with
  | nil => rfl
  | cons k' ks ih =>
    rw [written] at hk
    rw [saveAll]
    by_cases hw : writes i
    · rw [if_pos hw] at hk ⊢
      obtain ⟨hne, hnot⟩ := not_or.mp (mt List.mem_cons.mpr hk)
      rw [ih _ hnot, save, Function.update_of_ne hne]
    · rw [if_neg hw]

/-- The save loop writes the rows of these sections. -/
theorem saveAll_of_mem (final : Section → Obj) (now : ℕ → ℕ) (rows : Rows)
    (hk : k ∈ written writes i ks) :
    ∃ j, (saveAll final now writes i ks rows).1 k = some ⟨.obj (final k), now j⟩ := by
  induction ks generalizing i rows with
  | nil => cases hk
  | cons k' ks ih =>
    rw [written] at hk
    by_cases hw : writes i
    · rw [if_pos hw] at hk
      rw [saveAll, if_pos hw]
      by_cases hlater : k ∈ written writes (i + 1) ks
      · exact ih _ hlater
      · obtain rfl := (List.mem_cons.mp hk).resolve_right hlater
        exact ⟨i, by rw [saveAll_of_notMem _ _ _ hlater, save, Function.update_self]⟩
    · rw [if_neg hw] at hk
      cases hk

/-- A save loop that reports success has written every section. -/
theorem written_of_ok (h : (saveAll final now writes i ks rows).2 = true) :
    written writes i ks = ks := by
  induction ks generalizing i rows with
  | nil => rfl
  | cons k ks ih =>
    rw [saveAll] at h
    by_cases hw : writes i
    · rw [if_pos hw] at h
      rw [written, if_pos hw, ih h]
    · rw [if_neg hw] at h
      cases h

end SaveLoop

/-- **What a successful patch does.** It prepares the new settings, caches them and writes the
rows of the sections it names. -/
theorem Store.patch_ok {env : Env} {now : ℕ → ℕ} {writes : ℕ → Bool} {st st' : Store}
    {out : Settings} {patch : SettingsPatch} (h : st.patch env now writes patch = (st', .ok out)) :
    ∃ changed, st.prepare env patch = .ok (out, changed) ∧ st'.defaults = st.defaults ∧
      st'.cur = out ∧ (∀ k ∈ changed, ∃ t, st'.rows k = some ⟨.obj (toMap out k), t⟩) ∧
      ∀ k, k ∉ changed → st'.rows k = st.rows k := by
  rw [Store.patch] at h
  split at h
  · cases h
  · rename_i out' changed hprep
    split at h
    · rename_i rows hsave
      obtain ⟨rfl, hout⟩ := Prod.mk.inj h
      obtain rfl := Except.ok.inj hout
      have hwritten := written_of_ok (congrArg Prod.snd hsave)
      refine ⟨changed, hprep, rfl, rfl, fun k hk => ?_, fun k hk => ?_⟩
      · obtain ⟨j, hj⟩ := saveAll_of_mem (toMap out') now st.rows (hwritten.symm ▸ hk)
        exact ⟨now j, by rwa [hsave] at hj⟩
      · have hkept := saveAll_of_notMem (toMap out') now st.rows (hwritten.symm ▸ hk)
        rwa [hsave] at hkept
    · cases h

/-- **What preparing a patch computes.** The settings decoded from the merged maps, tidied; the
sections it reports are the ones it names, and the others decode to the cached ones, since the ints
of validated settings are small. -/
theorem Store.prepare_ok {env : Env} {st : Store} {out : Settings} {changed : List Section}
    {patch : SettingsPatch} (h : st.prepare env patch = .ok (out, changed)) :
    ∃ m dec, mergePatch (toMap st.cur) patch.entries = .ok (m, changed) ∧
      fromMap m = some dec ∧ out = tidy st.defaults dec ∧
      (∀ k : Section, k.Small (dec.sec k)) ∧
      ∀ k, k ∉ changed → dec.sec k = st.cur.sec k := by
  rw [Store.prepare] at h
  split at h
  · cases h
  · rename_i m changed' hmerge
    split at h
    · cases h
    · rename_i dec hdec
      split at h
      · cases h
      · rename_i out' hval
        obtain ⟨rfl, rfl⟩ := Prod.mk.inj (Except.ok.inj h)
        obtain ⟨htrim, hsmall⟩ := validate_eq_ok hval
        refine ⟨m, dec, hmerge, hdec, by rw [htrim, tidy], hsmall, fun k hk => ?_⟩
        have hk' := fromMap_eq_some_iff.mp hdec k
        rw [mergePatch_frame hmerge hk, toMap] at hk'
        exact (k.eq_of_decode_encode hk' (hsmall k)).symm

end Dockhand.Settings
