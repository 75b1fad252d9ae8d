import Dockhand.Settings.Atomicity
import Dockhand.Transition.Exec

/-!
# Coherence of the settings cache

The cache is coherent when it is what a fresh `Load` would read from the rows. `Load` makes it
so. A patch rewrites fields of all seven sections (`validate` trims, `normalize` fills in) but
saves only the sections it names, so it keeps the cache coherent when the rewriting leaves the
sections it does not name alone; the trimming is not idempotent, so this can fail even for
settings that went through it. An update keeps the cache coherent when its function changes only
the section it saves and leaves that section normalized, with ints that survive the float64s of the
map it is saved from. (What a patch makes of the settings is validated, so its ints are small.)
-/

namespace Dockhand.Settings

open Go Transition

/-- A call of the store, with the times of its writes. -/
inductive Op
  | load
  | patch (now : ℕ → ℕ) (p : SettingsPatch)
  | update (now : ℕ) (k : Section) (fn : Settings → Settings)

/-- A successful call. -/
def Store.step (env : Env) (st : Store) : Op → Option Store
  | .load => st.load
  | .patch now p =>
    match st.patch env now (fun _ => true) p with
    | (st', .ok _) => some st'
    | (_, .error _) => none
  | .update now k fn => some (st.update now true k fn).1

/-- The cache is what the rows stand for. -/
def Store.Coherent (st : Store) : Prop := readRows st.defaults st.rows = some st.cur

instance (st : Store) : Decidable st.Coherent :=
  inferInstanceAs (Decidable (readRows st.defaults st.rows = some st.cur))

/-- A patch finds the sections it does not name as its trimming and normalization leave them;
an update changes only its own section and leaves it normalized, with ints that survive a
float64. -/
def Store.KeepsOthers (st : Store) : Op → Prop
  | .load => True
  | .patch _ p => ∀ k : Section, k.key ∉ (p.entries.map fun e => e.1) →
      (tidy st.defaults st.cur).sec k = st.cur.sec k
  | .update _ k fn =>
      (∀ k' ≠ k, (fn st.cur).sec k' = st.cur.sec k') ∧
        (normalize (fn st.cur) st.defaults).sec k = (fn st.cur).sec k ∧ k.Exact ((fn st.cur).sec k)

variable {env : Env} {st st' : Store}

/-- Writing some sections of normalized settings `s` over coherent rows gives rows that stand
for `s`, when `s` agrees with the old settings on the sections that are not written. -/
theorem readRows_written {d cur s : Settings} {rows rows' : Rows} (hd : ServerDefaults d)
    (hold : readRows d rows = some cur) (hnorm : normalize s d = s)
    (hrow : ∀ k, (∃ now, rows' k = some ⟨.obj (toMap s k), now⟩ ∧ k.Exact (s.sec k)) ∨
      rows' k = rows k ∧ s.sec k = cur.sec k) :
    readRows d rows' = some s := by
  obtain ⟨x, hx, hcur⟩ := readRows_eq_some_iff.mp hold
  -- a section decodes to itself where it was written, and to what it was elsewhere
  have hread : ∀ k, ∃ v, readRow d k (rows' k) = some v ∧
      ∀ t : Settings, t.sec k = v → (normalize t d).sec k = s.sec k := by
    intro k
    rcases hrow k with ⟨now, hwritten, hexact⟩ | ⟨hkept, hsec⟩
    · have hcovers : k.Covers (d.sec k) (s.sec k) := hnorm ▸ covers_normalize hd s k
      refine ⟨s.sec k, by rw [hwritten, readRow_written hcovers hexact], fun t ht => ?_⟩
      rw [normalize_congr d ht, hnorm]
    · refine ⟨x k, hkept ▸ hx k, fun t ht => ?_⟩
      rw [hsec, hcur, normalize_congr d (t := ofSec x) (by rw [sec_ofSec, ht])]
  choose y hy hfinal using hread
  exact readRows_eq_some_iff.mpr
    ⟨y, hy, ext_sec fun k => (hfinal k (ofSec y) (sec_ofSec y k)).symm⟩

/-- A coherent cache is normalized. -/
theorem Store.Coherent.normalize_eq (h : st.Coherent) (hd : ServerDefaults st.defaults) :
    normalize st.cur st.defaults = st.cur := by
  obtain ⟨x, -, hcur⟩ := readRows_eq_some_iff.mp h
  rw [hcur, normalize_normalize hd]

theorem Store.Coherent.load (h : st.load = some st') : st'.Coherent := by
  obtain ⟨out, hout, rfl⟩ := Option.map_eq_some_iff.mp h
  exact hout

theorem Store.Coherent.patch {now : ℕ → ℕ} {writes : ℕ → Bool} {p : SettingsPatch}
    {out : Settings} (hst : st.Coherent) (hd : ServerDefaults st.defaults)
    (hkeep : st.KeepsOthers (.patch now p)) (h : st.patch env now writes p = (st', .ok out)) :
    st'.Coherent := by
  obtain ⟨changed, hprep, hdef, hcur, hwritten, hkept⟩ := Store.patch_ok h
  obtain ⟨m, dec, hmerge, -, rfl, hsmall, hdec⟩ := Store.prepare_ok hprep
  rw [Store.Coherent, hdef, hcur]
  refine readRows_written hd hst (normalize_normalize hd _) fun k => ?_
  by_cases hk : k ∈ changed
  · obtain ⟨t, ht⟩ := hwritten k hk
    exact .inl ⟨t, ht, (small_tidy _ (hsmall k)).exact⟩
  · refine .inr ⟨hkept k hk, ?_⟩
    rw [tidy_congr st.defaults (hdec k hk)]
    exact hkeep k fun hkey => hk ((mem_changed_iff hmerge k).mpr hkey)

theorem Store.Coherent.update {now : ℕ} {k : Section} {fn : Settings → Settings}
    (hst : st.Coherent) (hd : ServerDefaults st.defaults)
    (hkeep : st.KeepsOthers (.update now k fn)) : (st.update now true k fn).1.Coherent := by
  obtain ⟨hothers, hown, hexact⟩ := hkeep
  have hnorm : normalize (fn st.cur) st.defaults = fn st.cur := ext_sec fun k' => by
    by_cases hk : k' = k
    · rw [hk, hown]
    · rw [normalize_congr st.defaults (hothers k' hk), hst.normalize_eq hd, hothers k' hk]
  refine readRows_written hd hst hnorm fun k' => ?_
  by_cases hk : k' = k
  · subst hk
    exact .inl ⟨now, by simp [Store.update, save], hexact⟩
  · exact .inr ⟨by simp [Store.update, save, hk], hothers k' hk⟩

/-- No call changes the defaults. -/
theorem Store.step_defaults {op : Op} (h : st.step env op = some st') :
    st'.defaults = st.defaults := by
  cases op with
  | load =>
    obtain ⟨out, -, rfl⟩ := Option.map_eq_some_iff.mp h
    rfl
  | patch now p =>
    rw [Store.step] at h
    split at h
    · rename_i hpatch
      obtain rfl := Option.some.inj h
      obtain ⟨_, -, hdef, -⟩ := Store.patch_ok hpatch
      exact hdef
    · cases h
  | update now k fn =>
    obtain rfl := Option.some.inj h
    rfl

/-- One call keeps the cache coherent. -/
theorem Store.Coherent.step {op : Op} (hst : st.Coherent) (hd : ServerDefaults st.defaults)
    (hkeep : st.KeepsOthers op) (h : st.step env op = some st') : st'.Coherent := by
  cases op with
  | load => exact Store.Coherent.load h
  | patch now p =>
    rw [Store.step] at h
    split at h
    · rename_i hpatch
      obtain rfl := Option.some.inj h
      exact hst.patch hd hkeep hpatch
    · cases h
  | update now k fn =>
    obtain rfl := Option.some.inj h
    exact hst.update hd hkeep

/-- **Cache coherence over whole runs.** After `Load` and any successful calls that leave the
sections they do not save alone, the cache is what a fresh `Load` would read. -/
theorem Store.coherent_of_run (env : Env) (publicURL : String) (tools : List ToolInfo)
    (mcpPort : Int64) (cur : Settings) (rows : Rows) (ops : List Op) (st : Store)
    (hkeep : Along (Store.step env) Store.KeepsOthers
      ⟨serverDefaults publicURL tools mcpPort, cur, rows⟩ (.load :: ops))
    (hrun : exec (Store.step env)
      ⟨serverDefaults publicURL tools mcpPort, cur, rows⟩ (.load :: ops) = some st) :
    st.Coherent := by
  obtain ⟨st₁, hload, hrest⟩ := exec_cons_eq_some.mp hrun
  have hd : ServerDefaults st₁.defaults :=
    Store.step_defaults hload ▸ serverDefaults_serverDefaults publicURL tools mcpPort
  have hinv : st.Coherent ∧ ServerDefaults st.defaults := by
    refine exec_invariant_along (I := fun st => st.Coherent ∧ ServerDefaults st.defaults)
      ?_ ⟨Store.Coherent.load hload, hd⟩ (hkeep.2 st₁ hload) hrest
    intro s op s' hs hC hstep
    exact ⟨hs.1.step hs.2 hC hstep, (Store.step_defaults hstep).symm ▸ hs.2⟩
  exact hinv.1

/-! ### Trimming is not idempotent -/

namespace Example

/-- `{"general": {"publicUrl": "http://x /"}}`, which is stored as `"http://x "`. -/
def setURL : SettingsPatch :=
  ⟨[("general", ⟨[("publicUrl", .str "http://x /")], by decide⟩)], by decide⟩

/-- `{"uptime": {"notify": false}}` -/
def muteUptime : SettingsPatch :=
  ⟨[("uptime", ⟨[("notify", .bool false)], List.nodup_singleton "notify"⟩)], by decide⟩

/-- Sets the port of the MCP server. -/
def setPort (port : Int64) (s : Settings) : Settings := { s with mcp := { s.mcp with port } }

/-- The store after a run from a new installation. -/
def after (ops : List Op) : Option Store := exec (Store.step Example.env) fresh ops

end Example

/-- The second patch trims the stored URL once more, in the cache only. -/
theorem Store.not_coherent_after_trim :
    ∃ st, Example.after [.load, .patch Example.ticks Example.setURL,
      .patch Example.ticks Example.muteUptime] = some st ∧ ¬ st.Coherent := by
  have hany : (Example.after [.load, .patch Example.ticks Example.setURL,
      .patch Example.ticks Example.muteUptime]).any
      (fun st => decide (¬ st.Coherent)) = true := by decide +kernel
  simpa [Option.any_eq_true] using hany

/-- A port that is no float64 is another one in the row. -/
example : (Example.after [.load, .update 0 .mcp (Example.setPort 9007199254740993)]).any
    (fun st => decide (¬ st.Coherent)) = true := by
  decide +kernel

/-- An update and a patch that is followed by another one. -/
theorem Store.coherent_of_run_muteUptime :
    let ops : List Op := [.load, .update 7 .mcp (Example.setPort 6000),
      .patch Example.ticks Example.muteUptime]
    (Example.after ops).isSome = true ∧
      (Example.after ops).all (fun st => decide st.Coherent) = true := by
  intro ops
  have hload : Example.fresh.load = some Example.fresh := by
    have hcoh : Example.fresh.Coherent := by decide +kernel
    rw [Store.load, show readRows _ _ = _ from hcoh]
    rfl
  refine ⟨by decide +kernel, (Option.all_eq_true ..).mpr fun st hst => decide_eq_true ?_⟩
  refine Store.coherent_of_run Example.env "http://localhost:5773" [] 0 Example.fresh.cur
    Example.fresh.rows [.update 7 .mcp (Example.setPort 6000), .patch Example.ticks
      Example.muteUptime] st ⟨trivial, fun st₁ hst₁ => ?_⟩ hst
  obtain rfl := Option.some.inj (hload.symm.trans hst₁)
  refine ⟨⟨fun k hk => ?_, by decide +kernel, ?_⟩, fun st₂ hst₂ => ⟨?_, fun _ _ => trivial⟩⟩
  · cases k with
    | mcp => exact absurd rfl hk
    | general | uptime | github | updates | notifications | registry => rfl
  · show Float64.through (6000 : Int64).toInt = (6000 : Int64).toInt
    decide +kernel
  · obtain rfl := Option.some.inj hst₂
    intro k
    cases k <;> decide +kernel

end Dockhand.Settings
