import Dockhand.Mcp.Tools

/-!
# What a key may do

The runs of a tool from two sessions are compared that agree in all that the key may see. What the
tool performs and what it answers is the same in both, and each operation is one that the key
allows.
-/

namespace Dockhand.Mcp

open Go Transition Prog

variable {γ δ α β : Type} {F : Fmt} {sv : Services γ δ} {c : CallCtx} {k : Key} {t : Tool}

/-! ### What a key sees of the hosts -/

/-- The id and the name of a host, and whether a key may use it. -/
def ident (k : Key) (r : Record) : String × String × Bool := (r.id, r.name, hostAllowed k r)

/-- The table as a key sees it. -/
def HostTable.seen (k : Key) (T : HostTable) : List (String × String × Bool) :=
  T.records.map (ident k)

/-- Of a host that it may use a key sees the whole record. -/
theorem eq_of_ident_eq {r r' : Record} (h : ident k r = ident k r') (hr : hostAllowed k r = true) :
    r = r' := by
  simp only [ident, Prod.mk.injEq] at h
  obtain ⟨hid, hname, hallowed⟩ := h
  have hr' : hostAllowed k r' = true := hallowed ▸ hr
  simp only [hostAllowed, Bool.and_eq_true] at hr hr'
  obtain ⟨id, name, mcpExposed⟩ := r
  obtain ⟨id', name', mcpExposed'⟩ := r'
  simp_all

private theorem mem_seen {T : HostTable} {r : Record} (hr : r ∈ T.records)
    (h : hostAllowed k r = true) :
    (r.id, r.name, true) ∈ T.seen k :=
  List.mem_map.mpr ⟨r, hr, by simp [ident, h]⟩

namespace HostTable

variable {T T' : HostTable}

private theorem unambiguous_iff_seen :
    T.Unambiguous ↔ ∀ a ∈ T.seen k, ∀ b ∈ T.seen k, a.2.1 = b.1 → a.1 = b.1 := by
  simp only [seen, List.forall_mem_map, ident, Unambiguous]

private theorem Unambiguous.of_seen_eq (h : T.seen k = T'.seen k) (hT : T.Unambiguous) :
    T'.Unambiguous := by
  rw [unambiguous_iff_seen (k := k), ← h]
  exact unambiguous_iff_seen.mp hT

/-- A search by id and name finds hosts that look alike. -/
theorem map_find?_of_seen_eq (h : T.seen k = T'.seen k) (p : String → String → Bool) :
    (T.records.find? fun r => p r.id r.name).map (ident k) =
      (T'.records.find? fun r => p r.id r.name).map (ident k) := by
  have hfind : ∀ T : HostTable, (T.records.find? fun r => p r.id r.name).map (ident k) =
      (T.seen k).find? fun a => p a.1 a.2.1 := fun T => by
    rw [seen, List.find?_map]
    rfl
  rw [hfind, hfind, h]

/-- The hosts that the key may use are the same. -/
theorem filter_of_seen_eq (h : T.seen k = T'.seen k) :
    (T.records.filter fun r => hostAllowed k r) = T'.records.filter fun r => hostAllowed k r := by
  have hfilter : ∀ l l' : List Record, l.map (ident k) = l'.map (ident k) →
      (l.filter fun r => hostAllowed k r) = l'.filter fun r => hostAllowed k r := by
    intro l
    induction l with
    | nil =>
      intro l' h
      rw [List.map_eq_nil_iff.mp h.symm]
    | cons r l ih =>
      intro l' h
      obtain ⟨r', l', rfl, hr, hl⟩ := List.map_eq_cons_iff.mp h.symm
      have hallowed : hostAllowed k r' = hostAllowed k r := congrArg (·.2.2) hr
      rw [List.filter_cons, List.filter_cons, hallowed, ih l' hl.symm]
      by_cases hk : hostAllowed k r = true
      · rw [if_pos hk, if_pos hk, eq_of_ident_eq hr.symm hk]
      · rw [if_neg hk, if_neg hk]
  exact hfilter T.records T'.records h

/-- An allowed host is found by its id. -/
theorem exists_get {id name : String} (hT : T.Unambiguous) (h : (id, name, true) ∈ T.seen k) :
    ∃ r, T.get id = some r ∧ ident k r = (id, name, true) := by
  obtain ⟨r, hr, heq⟩ := List.mem_map.mp h
  have hid : r.id = id := congrArg (·.1) heq
  exact ⟨r, hid ▸ get_id hT hr, heq⟩

end HostTable

/-- `host` resolves a name alike in tables that look alike. -/
theorem resolve_of_seen_eq {T T' : HostTable} (h : T.seen k = T'.seen k) (ref : String) :
    resolve F k ref T = resolve F k ref T' := by
  have hfind : ((T.get ref).or (T.records.find? fun r => equalFold F r.name ref)).map (ident k) =
      ((T'.get ref).or (T'.records.find? fun r => equalFold F r.name ref)).map (ident k) := by
    rw [Option.map_or, Option.map_or]
    congr 1
    · exact HostTable.map_find?_of_seen_eq h fun id name => id = ref ∨ name = ref
    · exact HostTable.map_find?_of_seen_eq h fun _ name => equalFold F name ref
  rw [resolve, resolve]
  generalize (T.get ref).or _ = o at hfind ⊢
  generalize (T'.get ref).or _ = o' at hfind ⊢
  cases o with
  | none =>
    rw [Option.map_eq_none_iff.mp hfind.symm]
  | some r =>
    obtain ⟨r', rfl, hr⟩ := Option.map_eq_some_iff.mp hfind.symm
    have hname : r'.name = r.name := congrArg (·.2.1) hr
    have hallowed : hostAllowed k r' = hostAllowed k r := congrArg (·.2.2) hr
    by_cases hk : hostAllowed k r = true
    · rw [eq_of_ident_eq hr.symm hk]
    · simp only [hname, hallowed]
      rw [if_neg hk, if_neg hk]

/-- A host that `host` returns may be used. -/
theorem of_resolve_eq_ok {T : HostTable} {ref : String} {r : Record}
    (h : resolve F k ref T = .ok r) : r ∈ T.records ∧ hostAllowed k r = true := by
  rw [resolve] at h
  split at h
  · cases h
  · split at h
    · cases h
    next r' hfind =>
      split at h
      next hk =>
        cases h
        refine ⟨?_, hk⟩
        rcases Option.or_eq_some_iff.mp hfind with hget | ⟨-, hfold⟩
        · exact List.mem_of_find?_eq_some hget
        · exact List.mem_of_find?_eq_some hfold
      · cases h

/-! ### Runs side by side -/

/-- An operation that a tool may perform for a key that sees the hosts `T`. -/
structure Allowed (t : Tool) (T : List (String × String × Bool)) (e : Performed) : Prop where
  host : ∃ name, (e.host, name, true) ∈ T
  changes : e.op.changes = true → t.writes = true

/-- Two sessions in which the key `k` sees the same, after allowed operations of the tool `t`. -/
structure Related (k : Key) (t : Tool) (T : List (String × String × Bool)) (s s' : Session γ δ) :
    Prop where
  seen : s.hosts.seen k = T
  seen' : s'.hosts.seen k = T
  unambiguous : s.hosts.Unambiguous
  shared : s.shared = s'.shared
  trace : s.trace = s'.trace
  data : ∀ id name, (id, name, true) ∈ T → s.data id = s'.data id
  allowed : ∀ e ∈ s.trace, Allowed t T e

variable {T : List (String × String × Bool)} {s s' : Session γ δ} {op : HostOp} {id ref : String}

/-- An operation on an allowed host keeps sessions related. -/
theorem Related.after (h : Related k t T s s') (hid : ∃ name, (id, name, true) ∈ T)
    (hop : op.changes = true → t.writes = true) (shared : γ) (d : δ) :
    Related k t T (s.after op id shared d) (s'.after op id shared d) where
  seen := h.seen
  seen' := h.seen'
  unambiguous := h.unambiguous
  shared := rfl
  trace := by rw [Session.after_trace, Session.after_trace, h.trace]
  data id' name hid' := by
    rw [Session.after_data, Session.after_data]
    by_cases heq : id' = id
    · rw [heq, Function.update_self, Function.update_self]
    · rw [Function.update_of_ne heq, Function.update_of_ne heq]
      exact h.data id' name hid'
  allowed e he := by
    rcases List.mem_append.mp he with he | he
    · exact h.allowed e he
    · rw [List.mem_singleton.mp he]
      exact ⟨hid, hop⟩

/-- Both sessions find an allowed host by its id, and it is the same record. -/
theorem Related.get_eq (h : Related k t T s s') {name : String} (hmem : (id, name, true) ∈ T) :
    ∃ r, s.hosts.get id = some r ∧ s'.hosts.get id = some r ∧ ident k r = (id, name, true) := by
  have hT : s'.hosts.Unambiguous := h.unambiguous.of_seen_eq (h.seen.trans h.seen'.symm)
  obtain ⟨r, hget, hr⟩ := HostTable.exists_get h.unambiguous (h.seen ▸ hmem)
  obtain ⟨r', hget', hr'⟩ := HostTable.exists_get hT (h.seen' ▸ hmem)
  have hk : hostAllowed k r = true := congrArg (·.2.2) hr
  obtain rfl : r = r' := eq_of_ident_eq (hr.trans hr'.symm) hk
  exact ⟨r, hget, hget', hr⟩

private theorem perform_alike {act : Action γ δ α} (hop : op.changes = true → t.writes = true)
    (hid : ∃ name, (id, name, true) ∈ T) : Alike (Related k t T) (perform op act id) fun _ =>
      True := by
  intro s s' h
  obtain ⟨name, hmem⟩ := hid
  obtain ⟨r, hget, hget', hr⟩ := h.get_eq hmem
  have hrid : r.id = id := congrArg (·.1) hr
  rw [perform_apply hget, perform_apply hget', hrid, ← h.data id name hmem, ← h.shared]
  exact ⟨h.after ⟨name, hmem⟩ hop _ _, rfl, fun _ _ => trivial⟩

private theorem view_alike {r : Record} (hr : (r.id, r.name, true) ∈ T) :
    Alike (Related k t T) (view sv r) fun _ => True := by
  intro s s' h
  rw [view, view, ← h.data r.id r.name hr, ← h.shared]
  exact ⟨h.after ⟨r.name, hr⟩ (fun hview => absurd hview (by decide)) _ _, rfl, fun _ _ => trivial⟩

private theorem inspect_alike {owner repo : String} :
    Alike (Related k t T) (inspect sv owner repo ref) fun _ => True := by
  intro s s' h
  rw [inspect, inspect, ← h.shared]
  refine ⟨?_, rfl, fun _ _ => trivial⟩
  exact ⟨h.seen, h.seen', h.unambiguous, rfl, h.trace, h.data, h.allowed⟩

private theorem host_alike : Alike (Related c.key t T)
    (host F c ref : Prog CallError (Session γ δ) Record)
    fun r => (r.id, r.name, true) ∈ T :=
  .reads (fun _ _ h => resolve_of_seen_eq (h.seen.trans h.seen'.symm) ref) fun _ _ h _ hr =>
    h.seen ▸ mem_seen (of_resolve_eq_ok hr).1 (of_resolve_eq_ok hr).2

private theorem allowedHosts_alike :
    Alike (Related k t T) (allowedHosts k : Prog CallError (Session γ δ) (List Record))
      fun rs => ∀ r ∈ rs, (r.id, r.name, true) ∈ T := by
  refine .reads (fun s s' h => ?_) fun s s' h rs hrs r hr => ?_
  · exact congrArg Except.ok (HostTable.filter_of_seen_eq (h.seen.trans h.seen'.symm))
  · obtain rfl := Except.ok.inj hrs
    obtain ⟨hmem, hk⟩ := List.mem_filter.mp hr
    exact h.seen ▸ mem_seen hmem hk

private theorem storeGet_alike (hid : ∃ name, (id, name, true) ∈ T) :
    Alike (Related k t T) (storeGet id : Prog CallError (Session γ δ) Record)
      fun r => (r.id, r.name, true) ∈ T := by
  obtain ⟨name, hmem⟩ := hid
  have hget : ∀ s s' : Session γ δ, Related k t T s s' → ∃ r,
      (s.hosts.get id).elim (.error (.other "host not found")) .ok =
        (.ok r : Except CallError Record) ∧
      (s'.hosts.get id).elim (.error (.other "host not found")) .ok =
        (.ok r : Except CallError Record) ∧
      (r.id, r.name, true) ∈ T := fun s s' h => by
    obtain ⟨r, hget, hget', hr⟩ := h.get_eq hmem
    refine ⟨r, by rw [hget, Option.elim_some], by rw [hget', Option.elim_some], ?_⟩
    obtain ⟨hid, hname, -⟩ : r.id = id ∧ r.name = name ∧ _ := by simpa [ident] using hr
    rw [hid, hname]
    exact hmem
  refine .reads (fun s s' h => ?_) fun s s' h a ha => ?_
  · obtain ⟨r, hr, hr', -⟩ := hget s s' h
    exact hr.trans hr'.symm
  · obtain ⟨r, hr, -, hmem'⟩ := hget s s' h
    exact Except.ok.inj (hr.symm.trans ha) ▸ hmem'

/-! ### The tools -/

/-- The common shape of the tools: an operation on the host that is named. -/
theorem hostOp_alike {act : Action γ δ α} {f : Record → α → β}
    (hop : op.changes = true → t.writes = true) :
    Alike (Related c.key t T) (do
      let r ← host F c ref
      let a ← perform op act r.id
      return f r a) fun _ => True :=
  host_alike.bind fun r hr => (perform_alike hop ⟨r.name, hr⟩).bind fun _ _ => .pure trivial

private theorem containerRows_alike {r : Record} (hr : (r.id, r.name, true) ∈ T) :
    Alike (Related k t T) (containerRows F sv c r) fun _ => True := by
  have hop : HostOp.containers.changes = true → t.writes = true := fun h => absurd h (by decide)
  refine (perform_alike hop ⟨r.name, hr⟩).attempt.bind fun res _ => ?_
  cases res with
  | error e => exact .pure trivial
  | ok ctrs => exact .pure trivial

private theorem listedHosts_alike : Alike (Related c.key t T)
    (listedHosts F c : Prog CallError (Session γ δ) (List Record))
    fun rs => ∀ r ∈ rs, (r.id, r.name, true) ∈ T := by
  refine .ite (fun _ => ?_) fun _ => allowedHosts_alike
  refine host_alike.bind fun r hr => .pure ?_
  simpa using hr

private theorem pullHosts_alike : Alike (Related c.key t T)
    (pullHosts F c : Prog CallError (Session γ δ) (List String))
    fun ids => ∀ id ∈ ids, ∃ name, (id, name, true) ∈ T := by
  refine (Alike.each (P := fun _ => True) (fun _ _ => trivial) fun _ _ => host_alike).bind
    fun hs hhs => ?_
  refine .ite (fun _ => ?_) fun _ => ?_
  · refine host_alike.bind fun r hr => .pure ?_
    simpa using ⟨r.name, hr⟩
  · refine .pure fun id hid => ?_
    obtain ⟨r, hr, rfl⟩ := List.mem_map.mp hid
    exact ⟨r.name, hhs r hr⟩

private theorem pullJob_alike {image : String} {ids : List String} (ht : t.writes = true)
    (hids : ∀ id ∈ ids, ∃ name, (id, name, true) ∈ T) :
    Alike (Related k t T) (pullJob sv c image ids) fun _ => True := by
  refine .ite (fun _ => .throw) fun _ => .ite (fun _ => .throw) fun _ => ?_
  refine (Alike.each hids fun _ => storeGet_alike).bind fun targets htargets => ?_
  refine (Alike.each (Q := fun _ => True) htargets fun r hr => ?_).bind fun logs _ => ?_
  · exact (perform_alike (fun _ => ht) ⟨r.name, hr⟩).attempt.bind fun _ _ => .pure trivial
  · exact .reads (fun s s' h => by rw [h.shared]) fun _ _ _ _ _ => trivial

private theorem composeFile_alike {owner repo : String} :
    Alike (Related k t T) (composeFile F sv c owner repo) fun _ => True := by
  refine .ite (fun _ => ?_) fun _ => .pure trivial
  refine inspect_alike.bind fun files _ => ?_
  cases files with
  | nil => exact .throw
  | cons cf _ => exact .pure trivial

private theorem logs_alike {search : Bool} : Alike (Related c.key t T)
    (logs F sv c search) fun _ => True := by
  refine host_alike.bind fun r hr => .ite (fun _ => .throw) fun _ => ?_
  have hop : HostOp.logs.changes = true → t.writes = true := fun h => absurd h (by decide)
  exact (perform_alike hop ⟨r.name, hr⟩).bind fun _ _ => .pure trivial

/-- **A tool runs alike** in sessions in which the key sees the same, and what it performs is
allowed. -/
theorem run_alike (t : Tool) : Alike (Related c.key t T) (run F sv c t) fun _ => True := by
  cases t with
  | listHosts =>
    refine allowedHosts_alike.bind fun list hlist => ?_
    refine (Alike.each (Q := fun _ => True) hlist fun r hr => ?_).bind fun _ _ => .pure trivial
    exact (view_alike hr).bind fun _ _ => .pure trivial
  | hostStats => exact host_alike.bind fun r hr => (view_alike hr).bind fun _ _ => .pure trivial
  | rebootHost => exact hostOp_alike fun _ => rfl
  | listContainers =>
    refine listedHosts_alike.bind fun hs hhs => ?_
    exact (Alike.each hhs fun r hr => containerRows_alike hr).bind fun _ _ => .pure trivial
  | inspectContainer => exact hostOp_alike fun h => absurd h (by decide)
  | startContainer => exact hostOp_alike fun _ => rfl
  | stopContainer => exact hostOp_alike fun _ => rfl
  | restartContainer => exact hostOp_alike fun _ => rfl
  | removeContainer => exact hostOp_alike fun _ => rfl
  | updateContainer => exact hostOp_alike fun _ => rfl
  | getLogs => exact logs_alike
  | searchLogs => exact logs_alike
  | listStacks => exact hostOp_alike fun h => absurd h (by decide)
  | getCompose => exact hostOp_alike fun h => absurd h (by decide)
  | stackAction => exact hostOp_alike fun _ => rfl
  | pullAndRebuild => exact hostOp_alike fun _ => rfl
  | updateCompose => exact hostOp_alike fun _ => rfl
  | listImages => exact hostOp_alike fun h => absurd h (by decide)
  | pullImage =>
    refine pullHosts_alike.bind fun ids hids => ?_
    exact (pullJob_alike rfl hids).bind fun _ _ => .pure trivial
  | pruneImages => exact hostOp_alike fun _ => rfl
  | deployFromGithub =>
    refine host_alike.bind fun r hr => ?_
    split
    · exact .throw
    · refine .ite (fun _ => .throw) fun _ => ?_
      refine composeFile_alike.bind fun cf _ => ?_
      exact (perform_alike (fun _ => rfl) ⟨r.name, hr⟩).bind fun _ _ => .pure trivial
  | runContainer =>
    refine host_alike.bind fun r hr => ?_
    refine (Alike.ofExcept fun _ _ => trivial).bind fun volumes (_ : True) => ?_
    exact (perform_alike (fun _ => rfl) ⟨r.name, hr⟩).bind fun _ _ => .pure trivial

/-! ### Calls -/

/-- The argument `confirm` says yes. -/
def Affirmed (args : Obj) : Prop :=
  args.lookup "confirm" = some (.bool true) ∨
    ∃ x ∈ ["true", "1", "yes"], args.lookup "confirm" = some (.str x)

private theorem affirmed_iff : Affirmed c.args ↔ c.boolean "confirm" = true := by
  rw [Affirmed, CallCtx.boolean]
  split
  next b hb => cases b <;> simp [hb]
  next x hx => simp [hx, or_assoc]
  next hbool hstr =>
    simp only [Bool.false_eq_true, iff_false]
    rintro (h | ⟨x, -, h⟩)
    · exact hbool _ h
    · exact hstr _ h

namespace Provider

variable {P : Provider γ δ} {keyID keyName params : String} {args : Obj}

/-- The key, the settings and the arguments allow a call of a tool. -/
structure Grants (P : Provider γ δ) (k : Key) (t : Tool) (args : Obj) : Prop where
  revoked : k.revoked = false
  enabled : enabled P.prefs t = true
  scope : k.scope = "full" ∨ (k.scope = "custom" ∧ t.group.text ∈ k.groups) ∨
    (k.scope ≠ "full" ∧ k.scope ≠ "custom" ∧ t.writes = false)
  confirmed : t.writes = true → (P.pref t).confirm = true → Affirmed args

/-- The call may perform an operation: it is granted, an operation that changes a host is one of a
tool that writes, and the host is exposed and one of the key's. -/
structure Permits (P : Provider γ δ) (k : Key) (t : Tool) (args : Obj) (T : HostTable)
    (e : Performed) : Prop extends P.Grants k t args where
  changes : e.op.changes = true → t.writes = true
  host : ∃ r ∈ T.records, r.id = e.host ∧ r.mcpExposed = true ∧ (k.hostIDs = [] ∨ r.id ∈ k.hostIDs)

private theorem allowedByKey_iff : allowedByKey k t = true ↔ k.scope = "full" ∨
    (k.scope = "custom" ∧ t.group.text ∈ k.groups) ∨
    (k.scope ≠ "full" ∧ k.scope ≠ "custom" ∧ t.writes = false) := by
  rw [allowedByKey]
  split
  next h => simp [h]
  next h =>
    split
    next h' => simp [h']
    next h' => simp [h, h']

/-- A call by a key that may use the tool asks for a confirmation or runs the tool. -/
theorem call_cases (keyName : String) (args : Obj) (hk : P.keys keyID = some k)
    (hrevoked : k.revoked = false) (hallowed : allowedByKey k t = true) :
    (∃ a, ∀ s, P.call keyID keyName t.name args s = (a, s)) ∨
    (t.writes = true → (P.pref t).confirm = true → Affirmed args) ∧
      ∀ s, P.call keyID keyName t.name args s =
        answer (run P.fmt P.services (ctx k keyName args) t s) := by
  have hkey : (P.keys keyID).filter (fun k => !k.revoked && allowedByKey k t) = some k := by
    rw [hk, Option.filter_some, hrevoked, hallowed]
    rfl
  have hconfirm : (ctx k keyName args).boolean "confirm" = true ↔ Affirmed args :=
    (affirmed_iff (c := ctx k keyName args)).symm
  by_cases hask : (t.writes && (P.pref t).confirm && !(ctx k keyName args).boolean "confirm") = true
  · refine .inl ⟨P.confirmationRequired (ctx k keyName args) t, fun s => ?_⟩
    rw [call, Tool.ofName?_eq_some.mpr rfl]
    simp only [hkey]
    exact if_pos hask
  · refine .inr ⟨fun hwrites hpref => hconfirm.mp ?_, fun s => ?_⟩
    · simpa [hwrites, hpref] using hask
    · rw [call, Tool.ofName?_eq_some.mpr rfl]
      simp only [hkey]
      exact if_neg hask

/-- **What a message leads to**: an answer that depends on no session, or the run of a tool that is
granted. -/
theorem toolsCall_cases (P : Provider γ δ) (keyID keyName params : String) :
    (∃ a, ∀ s, P.toolsCall keyID keyName params s = (a, s)) ∨
    ∃ k t args, P.keys keyID = some k ∧ P.fmt.decodeParams params = .ok (t.name, args) ∧
      P.Grants k t (args.getD []) ∧ ∀ s, P.toolsCall keyID keyName params s =
        answer (run P.fmt P.services (ctx k keyName (args.getD [])) t s) := by
  by_cases hparams : params = ""
  · exact .inl ⟨_, fun s => by rw [toolsCall, if_pos hparams]⟩
  cases hdecode : P.fmt.decodeParams params with
  | error e => exact .inl ⟨_, fun s => by rw [toolsCall, if_neg hparams, hdecode]⟩
  | ok call =>
    obtain ⟨name, args⟩ := call
    by_cases hname : name = ""
    · refine .inl ⟨missingName, fun s => ?_⟩
      rw [toolsCall, if_neg hparams, hdecode]
      exact if_pos hname
    by_cases htool : name ∈ (tools (P.keys keyID) P.prefs).map Tool.name
    · have hcall : ∀ s : Session γ δ, P.toolsCall keyID keyName params s =
          P.call keyID keyName name (args.getD []) s := fun s => by
        rw [toolsCall, if_neg hparams, hdecode]
        exact (if_neg hname).trans (if_pos htool)
      obtain ⟨t, ht, rfl⟩ := List.mem_map.mp htool
      obtain ⟨k, hk, hrevoked, henabled, hallowed⟩ := mem_tools.mp ht
      rcases call_cases keyName (args.getD []) hk hrevoked hallowed with ⟨a, ha⟩ | ⟨hconfirm, hrun⟩
      · exact .inl ⟨a, fun s => (hcall s).trans (ha s)⟩
      · exact .inr ⟨k, t, args, hk, rfl, ⟨hrevoked, henabled, allowedByKey_iff.mp hallowed,
          hconfirm⟩,
          fun s => (hcall s).trans (hrun s)⟩
    · refine .inl ⟨P.unknownTool name, fun s => ?_⟩
      rw [toolsCall, if_neg hparams, hdecode]
      exact (if_neg hname).trans (if_neg htool)

/-- Two sessions differ at most in hosts that the key may not use, and there not in the id or the
name: what belongs to no host is the same, and so are the data of every host of the key. -/
structure Agree (P : Provider γ δ) (keyID : String) (s s' : Session γ δ) : Prop where
  shared : s.shared = s'.shared
  trace : s.trace = s'.trace
  seen : ∀ k, P.keys keyID = some k → s.hosts.seen k = s'.hosts.seen k
  data : ∀ k, P.keys keyID = some k → ∀ r ∈ s.hosts.records, hostAllowed k r = true →
    s.data r.id = s'.data r.id

theorem Agree.related {s s' : Session γ δ} (h : P.Agree keyID s s') (hk : P.keys keyID = some k)
    (htrace : s.trace = []) (hT : s.hosts.Unambiguous) : Related k t (s.hosts.seen k) s s' where
  seen := rfl
  seen' := (h.seen k hk).symm
  unambiguous := hT
  shared := h.shared
  trace := h.trace
  data id name hid := by
    obtain ⟨r, hr, heq⟩ := List.mem_map.mp hid
    obtain ⟨rfl, -, hallowed⟩ : r.id = id ∧ r.name = name ∧ hostAllowed k r = true := by
      simpa [ident] using heq
    exact h.data k hk r hr hallowed
  allowed e he := by
    rw [htrace] at he
    cases he

private theorem answer_snd (x : Except CallError String × Session γ δ) : (answer x).2 = x.2 := by
  obtain ⟨_ | _, s⟩ := x <;> rfl

private theorem answer_fst {x y : Except CallError String × Session γ δ} (h : x.1 = y.1) :
    (answer x).1 = (answer y).1 := by
  obtain ⟨r, s⟩ := x
  obtain ⟨r', s'⟩ := y
  obtain rfl : r = r' := h
  cases r <;> rfl

/-- An operation that is allowed for the hosts that a key sees is one that the call may perform. -/
theorem Grants.permits {T : HostTable} {e : Performed} (h : P.Grants k t args)
    (he : Allowed t (T.seen k) e) : P.Permits k t args T e := by
  refine ⟨h, he.changes, ?_⟩
  obtain ⟨name, hname⟩ := he.host
  obtain ⟨r, hr, heq⟩ := List.mem_map.mp hname
  obtain ⟨hid, -, hallowed⟩ : r.id = e.host ∧ r.name = name ∧ hostAllowed k r = true := by
    simpa [ident] using heq
  exact ⟨r, hr, hid, by simpa [hostAllowed] using hallowed⟩

/-- **Authorization.** Where no host bears the id of another one as its name, a call performs only
what the key, the settings and its arguments permit, nothing that changes a host with the scope to
read, and its answer is the same in a session that differs in other hosts than the key's, when
their ids and names are the same. -/
theorem authorized (P : Provider γ δ) (keyID keyName params : String) (s s' : Session γ δ)
    (htrace : s.trace = []) (hT : s.hosts.Unambiguous) (h : P.Agree keyID s s') :
    (∀ e ∈ (P.toolsCall keyID keyName params s).2.trace, ∃ k t args, P.keys keyID = some k ∧
      P.fmt.decodeParams params = .ok (t.name, args) ∧ P.Permits k t (args.getD []) s.hosts e) ∧
    (∀ k, P.keys keyID = some k → k.scope = "read" →
      ∀ e ∈ (P.toolsCall keyID keyName params s).2.trace, e.op.changes = false) ∧
    (P.toolsCall keyID keyName params s).1 = (P.toolsCall keyID keyName params s').1 := by
  rcases P.toolsCall_cases keyID keyName params with ⟨a, ha⟩ | ⟨k, t, args, hk, hdecode, hgrants,
    hrun⟩
  · rw [ha, ha, htrace]
    exact ⟨fun e he => (List.not_mem_nil he).elim, fun _ _ _ e he => (List.not_mem_nil he).elim,
      rfl⟩
  · have halike : Alike (Related k t (s.hosts.seen k))
        (run P.fmt P.services (ctx k keyName (args.getD [])) t) fun _ => True :=
      run_alike (c := ctx k keyName (args.getD [])) t
    obtain ⟨hrelated, hres, -⟩ := halike s s' (h.related hk htrace hT)
    have hpermits : ∀ e ∈ (P.toolsCall keyID keyName params s).2.trace,
        P.Permits k t (args.getD []) s.hosts e := fun e he => by
      rw [hrun, answer_snd] at he
      exact hgrants.permits (hrelated.allowed e he)
    refine ⟨fun e he => ⟨k, t, args, hk, hdecode, hpermits e he⟩, fun k' hk' hread e he => ?_, ?_⟩
    · obtain rfl : k = k' := Option.some.inj (hk.symm.trans hk')
      have hwrites : t.writes = false := by simpa [hread] using hgrants.scope
      exact Bool.eq_false_iff.mpr fun hop =>
        Bool.false_ne_true (hwrites.symm.trans ((hpermits e he).changes hop))
    · rw [hrun, hrun]
      exact answer_fst hres

end Provider

/-! ### A key of one host -/

namespace OneHost

/-- A call of a service that is not there: it changes nothing. -/
def unavailable {α : Type} : Action Unit Unit α := fun g d => (.error (.other "unavailable"), g, d)

/-- Services that only stop containers. -/
def services : Services Unit Unit where
  hostView := unavailable
  reboot := unavailable
  containers := unavailable
  detail _ := unavailable
  action ctr _ _ g d := (.ok ⟨ctr, "nginx", "exited", "Exited (0)", "", "", [], 0, 0, false⟩, g, d)
  remove _ _ _ := unavailable
  updateContainer _ _ := unavailable
  logs _ _ := unavailable
  stackList := unavailable
  getCompose _ := unavailable
  stackAction _ _ _ := unavailable
  pullAndRebuild _ _ _ := unavailable
  putCompose _ _ _ := unavailable
  images := unavailable
  pull _ := unavailable
  pullJob ref _ _ _ := ⟨"1", "Pull " ++ ref, "failed", [], []⟩
  pruneImages := unavailable
  inspect _ _ _ g := (.error (.other "unavailable"), g)
  deploy _ _ := unavailable
  run _ _ := unavailable

/-- The parameters of a call that reads. -/
def statsParams : String :=
  "\x7b\"name\":\"host_stats\",\"arguments\":\x7b\"host\":\"2\"\x7d\x7d"

/-- The parameters of a call that writes, and confirms. -/
def stopParams : String :=
  "\x7b\"name\":\"stop_container\",\"arguments\":\x7b\"host\":\"alpha\",\"container\":\"web\"," ++
    "\"confirm\":\"yes\"\x7d\x7d"

/-- The decoder at the two calls of the example. -/
def decode (params : String) : Except String (String × Option Obj) :=
  if params = statsParams then .ok ("host_stats", some [("host", .str "2")])
  else if params = stopParams then
    .ok ("stop_container", some [("host", .str "alpha"), ("container", .str "web"),
      ("confirm", .str "yes")])
  else .error "EOF"

/-- Formats that suffice for the calls of the example. -/
def fmt : Fmt where
  orbit n := n
  toLower := toLower
  sprint _ := ""
  sscan _ := none
  quote s := "\"" ++ s ++ "\""
  js _ := ""
  mapOrder m := m
  humanBytes n := toString n ++ "B"
  duration n := toString n ++ "s"
  lastBytes n s := String.ofList (s.toList.drop (s.toList.length - n))
  decodeParams := decode

/-- A key for the first host with the full scope. -/
def key : Key := ⟨"full", [], ["1"], false⟩

/-- A provider with that key, where a container is stopped only with a confirmation. -/
def provider : Provider Unit Unit where
  fmt := fmt
  services := services
  keys id := if id = "k" then some key else none
  prefs := (∅ : Dict String Settings.ToolPref).set "stop_container" ⟨true, true⟩

/-- A host of the key, and another one with a name. -/
def beta : HostTable where
  records := [⟨"1", "alpha", true⟩, ⟨"2", "beta", true⟩]
  ids := by decide
  names := by decide

/-- The same hosts, the second under another name. -/
def gamma : HostTable where
  records := [⟨"1", "alpha", true⟩, ⟨"2", "gamma", true⟩]
  ids := by decide
  names := by decide

/-- The other host is not exposed. -/
def withdrawn : HostTable where
  records := [⟨"1", "alpha", true⟩, ⟨"2", "beta", false⟩]
  ids := by decide
  names := by decide

/-- A session over these hosts in which nothing has been called. -/
def session (T : HostTable) : Session Unit Unit := ⟨T, (), fun _ => (), []⟩

theorem agree : provider.Agree "k" (session beta) (session withdrawn) where
  shared := rfl
  trace := rfl
  seen k hk := by
    obtain rfl : key = k := Option.some.inj hk
    decide +kernel
  data _ _ _ _ _ := rfl

end OneHost

open OneHost in
/-- The key stops a container of its host, and is answered alike whether the other host is exposed
or not. -/
theorem Provider.authorized_stop :
    (provider.toolsCall "k" "cli" stopParams (session beta)).2.trace = [⟨.action, "1"⟩] ∧
    (∃ k t args, provider.keys "k" = some k ∧ provider.fmt.decodeParams stopParams =
      .ok (t.name, args) ∧
      provider.Permits k t (args.getD []) beta ⟨.action, "1"⟩) ∧
    (provider.toolsCall "k" "cli" stopParams (session beta)).1 =
      (provider.toolsCall "k" "cli" stopParams (session withdrawn)).1 := by
  have htrace : (provider.toolsCall "k" "cli" stopParams (session beta)).2.trace =
      [⟨.action, "1"⟩] := by
    decide +kernel
  have h :=
    authorized provider "k" "cli" stopParams (session beta) (session withdrawn) rfl (by decide)
    agree
  exact ⟨htrace, h.1 _ (htrace ▸ List.mem_cons_self), h.2.2⟩

open OneHost in
/-- The name of a host that the key may not use is part of an answer, and the argument `confirm`
need not be `true`. -/
theorem Provider.not_sealed :
    hostAllowed key ⟨"2", "beta", true⟩ = false ∧ hostAllowed key ⟨"2", "gamma", true⟩ = false ∧
    (provider.toolsCall "k" "cli" statsParams (session beta)).1 ≠
      (provider.toolsCall "k" "cli" statsParams (session gamma)).1 ∧
    provider.fmt.decodeParams stopParams = .ok (Tool.stopContainer.name,
      some [("host", .str "alpha"), ("container", .str "web"), ("confirm", .str "yes")]) ∧
    Tool.stopContainer.writes = true ∧ (provider.pref .stopContainer).confirm = true ∧
    (provider.toolsCall "k" "cli" stopParams (session beta)).2.trace = [⟨.action, "1"⟩] :=
  ⟨by decide, by decide, by decide +kernel, rfl, rfl, by decide +kernel, by decide +kernel⟩

end Dockhand.Mcp
