import Dockhand.Settings.Coherence

/-!
# The webhook secret and the read-only guard

`Patch` removes the read-only keys from the github section before it merges, but it removes them
in their exact spelling, and the decoder takes any spelling that folds to a tag. What a patch
leaves of the stored secret is therefore decided by the spellings it gives the key `secretEnc`:
`Store.patch_secret` computes it and `Store.patch_keepsSecret_iff` says when it is the old one.
-/

namespace Dockhand.Settings

open Go Transition

/-- The secret that the github row stands for. -/
def Store.rowSecret (st : Store) : Option String :=
  (readRow st.defaults .github (st.rows .github)).map fun g : GitHub => g.secretEnc

/-- The github row holds the cached secret. -/
def Store.SecretStored (st : Store) : Prop := st.rowSecret = some st.cur.github.secretEnc

instance (st : Store) : Decidable st.SecretStored :=
  inferInstanceAs (Decidable (st.rowSecret = some st.cur.github.secretEnc))

/-- The secret is the same in the cache and in the saved row. -/
structure Store.KeepsSecret (st st' : Store) : Prop where
  cache : st'.cur.github.secretEnc = st.cur.github.secretEnc
  row : st'.rowSecret = st.rowSecret

/-- The entries of a patch that are decoded into the secret but are not spelled `secretEnc`, in
key order. -/
def spellings (vals : Obj) : Obj :=
  (Json.inKeyOrder vals).filter fun e => GitHub.secretField.Matches e.1 ∧ e.1 ≠ "secretEnc"

/-- The strings that they carry: all of them when no secret is stored, else those of the entries
that are decoded after the stored secret. -/
def respelled (old : String) (vals : Obj) : List String :=
  ((spellings vals).filter fun e => old = "" ∨ "secretEnc" < e.1).filterMap fun e => e.2.asString?

/-- The last of them, if there is one, carries the stored secret. -/
def SparesSecret (old : String) (vals : Obj) : Prop := ∀ s ∈ (respelled old vals).getLast?, s = old

/-! ### What the merged section decodes to -/

private theorem lookup_stripReadOnly (k : Section) (vals : Obj) (key : String) :
    (stripReadOnly k vals).lookup key = if key ∈ readOnly k then none else vals.lookup key := by
  rw [stripReadOnly]
  induction readOnly k generalizing vals with
  | nil => simp
  | cons key' keys ih =>
    rw [List.foldl_cons, ih, Assoc.lookup_del]
    by_cases hkeys : key ∈ keys
    · simp [hkeys]
    · by_cases hkey : key = key' <;> simp [hkeys, hkey]

private theorem nodup_stripReadOnly (k : Section) {vals : Obj} (h : (vals.map fun e => e.1).Nodup) :
    ((stripReadOnly k vals).map fun e => e.1).Nodup := by
  rw [stripReadOnly]
  induction readOnly k generalizing vals with
  | nil => exact h
  | cons key keys ih =>
    rw [List.foldl_cons]
    exact ih (h.sublist (List.filter_sublist.map _))

/-- Of the read-only keys, only `secretEnc` itself is decoded into the secret. -/
theorem mem_readOnly_iff {key : String} (h : GitHub.secretField.Matches key) :
    key ∈ readOnly .github ↔ key = "secretEnc" := by
  constructor
  · intro hmem
    simp only [readOnly, List.mem_cons, List.not_mem_nil, or_false] at hmem
    rcases hmem with rfl | rfl | rfl | rfl | rfl | rfl
    · exact absurd h (by decide)
    · exact absurd h (by decide)
    · exact absurd h (by decide)
    · exact absurd h (by decide)
    · exact absurd h (by decide)
    · rfl
  · rintro rfl
    decide

private theorem sorted_spellings (vals : Obj) : Assoc.Sorted (spellings vals) :=
  (Json.sorted_inKeyOrder vals).filter _

private theorem lookup_spellings (vals : GoMap String Json) {key : String}
    (hkey : GitHub.secretField.Matches key) :
    (spellings vals.entries).lookup key =
      if key = "secretEnc" then none else vals.entries.lookup key := by
  have hfilter := Assoc.lookup_filter_fst
    (fun key => GitHub.secretField.Matches key ∧ key ≠ "secretEnc") key
    (Json.inKeyOrder vals.entries)
  rw [Json.lookup_inKeyOrder vals.nodup] at hfilter
  by_cases hexact : key = "secretEnc"
  · rw [spellings, hfilter, if_neg fun h => h.2 hexact, if_pos hexact]
  · rw [spellings, hfilter, if_pos ⟨hkey, hexact⟩, if_neg hexact]

/-- The encoding of the stored secret. -/
def storedSecret (g : GitHub) : Option Json :=
  if g.secretEnc = "" then none else some (.str g.secretEnc)

/-- The value under a key that is decoded into the secret: the stored secret under its own key,
what the patch has under another spelling. -/
theorem lookup_merged (g : GitHub) (vals : GoMap String Json) {key : String}
    (hkey : GitHub.secretField.Matches key) :
    (deepMerge (encodeStruct GitHub.fields g) (stripReadOnly .github vals.entries)).lookup key =
      if key = "secretEnc" then storedSecret g else vals.entries.lookup key := by
  have hlawful : LawfulFields GitHub.fields := Section.lawful .github
  have hsecret : GitHub.secretField ∈ GitHub.fields := by simp [GitHub.fields]
  rw [lookup_deepMerge (nodup_stripReadOnly .github vals.nodup), lookup_stripReadOnly]
  by_cases hexact : key = "secretEnc"
  · rw [if_pos ((mem_readOnly_iff hkey).mpr hexact), if_pos hexact, hexact]
    exact lookup_encodeStruct hlawful.nodup hsecret g
  · have hother : ∀ f ∈ GitHub.fields, f.name ≠ key := by
      rintro f hf rfl
      exact hexact (congrArg StructField.name (hlawful.eq_of_matches hf hsecret rfl hkey))
    rw [if_neg (mt (mem_readOnly_iff hkey).mp hexact), if_neg hexact,
      lookup_encodeStruct_of_notMem g hother]
    cases vals.entries.lookup key with
    | none => rfl
    | some v => simp [mergeValue]

/-- The entries of the merged section that are decoded into the secret: the other spellings in
the patch, with the stored secret in its place among them. -/
theorem filter_merged (g : GitHub) (vals : GoMap String Json) :
    ((deepMerge (encodeStruct GitHub.fields g) (stripReadOnly .github vals.entries)).filter
        fun e => GitHub.secretField.Matches e.1) =
      (storedSecret g).elim (spellings vals.entries)
        fun v => Assoc.set "secretEnc" v (spellings vals.entries) := by
  have hsorted := sorted_spellings vals.entries
  refine Assoc.Sorted.ext ((sorted_deepMerge (sorted_encodeStruct ..) _).filter _) ?_
    fun key => ?_
  · cases storedSecret g with
    | none => exact hsorted
    | some v => exact hsorted.set _ _
  · rw [Assoc.lookup_filter_fst fun key => GitHub.secretField.Matches key]
    by_cases hkey : GitHub.secretField.Matches key
    · rw [if_pos hkey, lookup_merged g vals hkey]
      by_cases hexact : key = "secretEnc"
      · subst hexact
        cases storedSecret g <;> simp [Assoc.lookup_set, lookup_spellings vals hkey]
      · cases storedSecret g <;> simp [hexact, Assoc.lookup_set, lookup_spellings vals hkey]
    · have hne : key ≠ "secretEnc" := by
        rintro rfl
        exact hkey (by decide)
      have hnone : (spellings vals.entries).lookup key = none := by
        rw [spellings, Assoc.lookup_filter_fst fun key =>
          GitHub.secretField.Matches key ∧ key ≠ "secretEnc", if_neg fun h => hkey h.1]
      cases storedSecret g <;> simp [Assoc.lookup_set, hkey, hne, hnone]

/-- **The secret after a merge.** The last of the other spellings that are decoded after the
stored secret, or the stored secret when there are none. -/
theorem secretEnc_of_decode {g g' : GitHub} {vals : GoMap String Json}
    (h : decodeStruct GitHub.fields
      (deepMerge (encodeStruct GitHub.fields g) (stripReadOnly .github vals.entries)) {} =
        some g') :
    g'.secretEnc = (respelled g.secretEnc vals.entries).getLast?.getD g.secretEnc := by
  have hlawful : LawfulFields GitHub.fields := Section.lawful .github
  have hfield := hlawful.decodeStruct_eq_some_iff.mp h GitHub.secretField (by simp [GitHub.fields])
  rw [decodeField, Json.inKeyOrder_eq_self (sorted_deepMerge (sorted_encodeStruct ..) _),
    filter_merged] at hfield
  have hlast : g'.secretEnc = (List.filterMap (fun e => e.2.asString?)
      ((storedSecret g).elim (spellings vals.entries)
        fun v => Assoc.set "secretEnc" v (spellings vals.entries))).getLast?.getD "" :=
    StructField.foldlM_decString hfield
  rw [hlast]
  by_cases hold : g.secretEnc = ""
  · have hnone : storedSecret g = none := if_pos hold
    simp only [hnone, Option.elim_none, respelled, hold, true_or, decide_true, List.filter_true]
  · have hsome : storedSecret g = some (.str g.secretEnc) := if_neg hold
    simp only [hsome, Option.elim_some, respelled, hold, false_or,
      (sorted_spellings vals.entries).set_eq, List.filterMap_append, List.filterMap_cons,
      Json.asString?, List.getLast?_append, List.getLast?_cons, Option.some_or, Option.getD_some]

/-! ### Patches -/

variable {env : Env} {st st' : Store}

/-- Validation and normalization do not touch the github section. -/
@[simp] theorem tidy_github (d s : Settings) : (tidy d s).github = s.github := by
  rw [tidy, normalize, trim]

/-- What a successful patch that names the github section makes of the secret. -/
theorem Store.patch_secret {now : ℕ → ℕ} {writes : ℕ → Bool} {out : Settings}
    {patch : SettingsPatch} (h : st.patch env now writes patch = (st', .ok out))
      {vals : GoMap String Json}
    (hvals : (Section.github.key, vals) ∈ patch.entries) :
    st'.cur.github.secretEnc =
      (respelled st.cur.github.secretEnc vals.entries).getLast?.getD st.cur.github.secretEnc := by
  obtain ⟨changed, hprep, -, hcur, -⟩ := Store.patch_ok h
  obtain ⟨m, dec, hmerge, hdec, rfl, -, -⟩ := Store.prepare_ok hprep
  have hgithub := fromMap_eq_some_iff.mp hdec .github
  rw [mergePatch_merged hmerge patch.nodup hvals] at hgithub
  rw [hcur, tidy_github]
  exact secretEnc_of_decode hgithub

/-- A successful patch that does not name the github section leaves it alone. -/
theorem Store.patch_github_of_notMem {now : ℕ → ℕ} {writes : ℕ → Bool} {out : Settings}
    {patch : SettingsPatch} (h : st.patch env now writes patch = (st', .ok out))
    (hnot : Section.github.key ∉ patch.entries.map fun e => e.1) :
    st'.cur.github = st.cur.github := by
  obtain ⟨changed, hprep, -, hcur, -⟩ := Store.patch_ok h
  obtain ⟨m, dec, hmerge, -, rfl, -, hsec⟩ := Store.prepare_ok hprep
  rw [hcur, tidy_github]
  exact hsec .github (mt (mem_changed_iff hmerge .github).mp hnot)

/-- A written github row stands for the secret it was written with. -/
theorem secret_written {d s : Settings} (hd : d.github.secretEnc = "") (now : ℕ) :
    (readRow d .github (some ⟨.obj (toMap s .github), now⟩)).map (fun g : GitHub => g.secretEnc) =
      some s.github.secretEnc := by
  have hcovers : Section.github.Covers (d.sec .github) (s.sec .github) := hd
  rw [readRow_written hcovers trivial]
  rfl

/-- A successful patch keeps the github row in step with the cached secret. -/
theorem Store.SecretStored.patch {now : ℕ → ℕ} {writes : ℕ → Bool} {out : Settings}
    {patch : SettingsPatch} (hst : st.SecretStored) (hd : st.defaults.github.secretEnc = "")
    (h : st.patch env now writes patch = (st', .ok out)) : st'.SecretStored := by
  obtain ⟨changed, hprep, hdef, hcur, hwritten, hleft⟩ := Store.patch_ok h
  obtain ⟨m, dec, hmerge, -, rfl, -, hsec⟩ := Store.prepare_ok hprep
  rw [Store.SecretStored, Store.rowSecret, hdef, hcur]
  by_cases hk : Section.github ∈ changed
  · obtain ⟨t, ht⟩ := hwritten .github hk
    rw [ht, secret_written hd]
  · have hkept : dec.github = st.cur.github := hsec .github hk
    rw [hleft .github hk, tidy_github, hkept]
    exact hst

/-- After `Load` the github row holds the cached secret. -/
theorem Store.SecretStored.load (h : st.load = some st') : st'.SecretStored := by
  obtain ⟨out, hout, rfl⟩ := Option.map_eq_some_iff.mp h
  obtain ⟨x, hx, rfl⟩ := readRows_eq_some_iff.mp hout
  rw [Store.SecretStored, Store.rowSecret, hx .github]
  rfl

/-- An update that saves another section does not touch the github one. -/
def Store.SavesGitHub (st : Store) : Op → Prop
  | .update _ k fn => k = .github ∨ (fn st.cur).github = st.cur.github
  | _ => True

theorem Store.SecretStored.step {op : Op} (hst : st.SecretStored)
    (hd : st.defaults.github.secretEnc = "") (hsaves : st.SavesGitHub op)
    (h : st.step env op = some st') : st'.SecretStored := by
  cases op with
  | load => exact Store.SecretStored.load h
  | patch now p =>
    rw [Store.step] at h
    split at h
    · rename_i hpatch
      obtain rfl := Option.some.inj h
      exact hst.patch hd hpatch
    · cases h
  | update now k fn =>
    obtain rfl := Option.some.inj h
    rcases eq_or_ne k .github with rfl | hk
    · have hrow : (st.update now true .github fn).1.rows .github =
          some ⟨.obj (toMap (fn st.cur) .github), now⟩ := by simp [Store.update, save]
      rw [Store.SecretStored, Store.rowSecret, hrow]
      exact secret_written hd now
    · have hrow : (st.update now true k fn).1.rows .github = st.rows .github := by
        simp [Store.update, save, hk.symm]
      have hkept : (st.update now true k fn).1.cur.github = st.cur.github :=
        hsaves.resolve_left hk
      rw [Store.SecretStored, Store.rowSecret, hrow, hkept]
      exact hst

/-- After `Load` and any successful calls the github row holds the cached secret. -/
theorem Store.secretStored_of_run {ops : List Op} (hd : st.defaults.github.secretEnc = "")
    (hsaves : Along (Store.step env) Store.SavesGitHub st (.load :: ops))
    (hrun : exec (Store.step env) st (.load :: ops) = some st') : st'.SecretStored := by
  obtain ⟨st₁, hload, hrest⟩ := exec_cons_eq_some.mp hrun
  have hinv : st'.SecretStored ∧ st'.defaults.github.secretEnc = "" := by
    refine exec_invariant_along
      (I := fun st => st.SecretStored ∧ st.defaults.github.secretEnc = "")
      ?_ ⟨Store.SecretStored.load hload, ?_⟩ (hsaves.2 st₁ hload) hrest
    · intro s op s' hs hC hstep
      exact ⟨hs.1.step hs.2 hC hstep, (Store.step_defaults hstep).symm ▸ hs.2⟩
    · rw [Store.step_defaults hload, hd]
  exact hinv.1

/-- **When a patch leaves the secret alone.** A successful patch keeps the stored secret, in the
cache and in the row, exactly when no other spelling of its key carries another one past it;
`Load` always keeps it. -/
theorem Store.patch_keepsSecret_iff {now : ℕ → ℕ} {writes : ℕ → Bool} {out : Settings}
    {patch : SettingsPatch} (hst : st.SecretStored) (hd : st.defaults.github.secretEnc = "")
    (h : st.patch env now writes patch = (st', .ok out)) :
    (st.KeepsSecret st' ↔ ∀ vals, (Section.github.key, vals) ∈ patch.entries →
        SparesSecret st.cur.github.secretEnc vals.entries) ∧
      ∀ loaded, st.load = some loaded → st.KeepsSecret loaded := by
  have hst' : st'.SecretStored := hst.patch hd h
  constructor
  · have hcache : st.KeepsSecret st' ↔ st'.cur.github.secretEnc = st.cur.github.secretEnc :=
      ⟨fun hk => hk.cache, fun heq => ⟨heq, by rw [hst', hst, heq]⟩⟩
    rw [hcache]
    by_cases hnamed : Section.github.key ∈ patch.entries.map fun e => e.1
    · obtain ⟨⟨key, vals⟩, hvals, hkey⟩ := List.mem_map.mp hnamed
      obtain rfl : key = Section.github.key := hkey
      have huniq : ∀ vals', (Section.github.key, vals') ∈ patch.entries → vals' = vals :=
        fun vals' hvals' => congrArg Prod.snd
          (List.inj_on_of_nodup_map patch.nodup hvals' hvals rfl)
      rw [Store.patch_secret h hvals]
      constructor
      · rintro hlast vals' hvals' s hs
        rw [huniq vals' hvals', Option.mem_def] at hs
        rwa [hs] at hlast
      · intro hspares
        have hvals' := hspares vals hvals
        rw [SparesSecret] at hvals'
        cases hlast : (respelled st.cur.github.secretEnc vals.entries).getLast? with
        | none => rfl
        | some s => exact hvals' s hlast
    · have hkept := Store.patch_github_of_notMem h hnamed
      refine ⟨fun _ vals hvals => absurd (List.mem_map.mpr ⟨_, hvals, rfl⟩) hnamed, fun _ => ?_⟩
      rw [hkept]
  · intro loaded hload
    have hloaded := Store.SecretStored.load hload
    obtain ⟨out, -, rfl⟩ := Option.map_eq_some_iff.mp hload
    have hrow : some st.cur.github.secretEnc = some out.github.secretEnc := hst.symm.trans hloaded
    exact ⟨(Option.some.inj hrow).symm, rfl⟩

/-! ### A patch that spells the key in lower case -/

namespace Example

/-- An installation that has generated its webhook secret. -/
def withSecret : Store :=
  (fresh.update 7 true .github fun s => { s with github := { s.github with secretEnc := "v1" } }).1

/-- `{"github": {"secretenc": "v0"}}` -/
def lowerCase : SettingsPatch :=
  ⟨[("github", ⟨[("secretenc", .str "v0")], by decide⟩)], by decide⟩

/-- `{"github": {"secretEnc": "v0"}}` -/
def exactCase : SettingsPatch :=
  ⟨[("github", ⟨[("secretEnc", .str "v0")], by decide⟩)], by decide⟩

/-- The store after the patch, and what the patch returns. -/
def patched (patch : SettingsPatch) : Store × Except PatchError Settings :=
  withSecret.patch Example.env ticks (fun _ => true) patch

end Example

/-- The patch succeeds and replaces the secret in the cache and in the row. -/
theorem Store.patch_not_keepsSecret :
    Example.withSecret.SecretStored ∧
      (Example.patched Example.lowerCase).2.toOption.isSome = true ∧
      ¬ Example.withSecret.KeepsSecret (Example.patched Example.lowerCase).1 := by
  refine ⟨by decide +kernel, by decide +kernel, fun h => ?_⟩
  exact absurd h.cache (by decide +kernel)

/-- A patch that names the key in its own case, which is taken out. -/
theorem Store.patch_keepsSecret_iff_exactCase :
    (Example.withSecret.KeepsSecret (Example.patched Example.exactCase).1 ↔
      ∀ vals, (Section.github.key, vals) ∈ Example.exactCase.entries →
        SparesSecret Example.withSecret.cur.github.secretEnc vals.entries) ∧
      ∀ loaded, Example.withSecret.load = some loaded →
        Example.withSecret.KeepsSecret loaded := by
  have hok : (Example.patched Example.exactCase).2 = .ok Example.withSecret.cur := by
    decide +kernel
  exact Store.patch_keepsSecret_iff (by decide +kernel) (by decide +kernel) (Prod.ext rfl hok)

end Dockhand.Settings
