import Dockhand.Machines.Compliance

/-!
# The order in which a baseline is applied

`ApplyBaseline` collects a task for every failing rule of every machine, in whatever order the cells
of a row come, and sorts the tasks by the names of the machines alone. A reboot is started in the
background and comes where it happens to stand among the tasks of its machine. `applies_iff` says
when every order is a good one: no machine with something to fix is named twice, and none that has
to be rebooted has anything else to fix.
-/

namespace Dockhand.Machines

open Data Go Hosts

/-! ### Tasks -/

/-- A cell of a baseline that is not met, as the list of tasks shows it. -/
structure Task where
  hostID : String
  host : String
  rule : String
  deriving DecidableEq

/-- A rule that fails and has a command. -/
def fixable (rule : String) (st : CheckStatus) : Bool :=
  st.fails && ((fixCommand rule {}).1 ≠ "" || rule = "security-updates")

/-- The tasks of a row whose cells come in some order. -/
def rowTasks (row : ComplianceRow) (cells : List (String × CheckStatus)) : List Task :=
  if row.status = .offline ∨ row.status = .pending then []
  else (cells.filter fun e => fixable e.1 e.2).map fun e => ⟨row.hostID, row.name, e.1⟩

/-- The tasks of all rows, whose cells come in some order. -/
def Collected (rows : List ComplianceRow) (ts : List Task) : Prop :=
  ∃ orders, List.Forall₂ (fun row cells => cells.Perm row.cells.entries) rows orders ∧
    ts = (List.zipWith rowTasks rows orders).flatten

/-- The tasks of `ApplyBaseline`, in an order in which they may be run. The sort is not stable. -/
def Ordered (ms : Inventory) (b : Baseline) (ts : List Task) : Prop :=
  ∃ us, Collected (fillCompliance ms b).rows us ∧ ts.Perm us ∧
    ts.Pairwise fun t u => ¬ u.host < t.host

/-! ### The job -/

/-- What a task does: it reads the facts of its machine, and runs a command there. -/
inductive Event where
  | read (t : Task)
  | run (t : Task) (cmd : String)

/-- The command of a task, from the facts that it has read. -/
def Task.command (t : Task) (m : Machine) : String :=
  if t.rule = "security-updates" then
    if m.securityNames.isEmpty then "" else installCommand m.securityNames
  else (fixCommand t.rule m).1

/-- The events of a task, which is left when its machine cannot be read or there is nothing to do.
-/
def Task.events (get : Task → Except String Machine) (t : Task) : List Event :=
  match get t with
  | .error _ => [.read t]
  | .ok m => if t.command m = "" then [.read t] else [.read t, .run t (t.command m)]

/-- The events of the job. Later tasks are run whether or not the ones before fail. -/
def trace (get : Task → Except String Machine) (ts : List Task) : List Event :=
  ts.flatMap (·.events get)

/-! ### What it is for -/

/-- The event starts the reboot of a machine. -/
def Event.reboots (hostID : String) : Event → Prop
  | .read _ => False
  | .run t _ => t.hostID = hostID ∧ t.rule = "reboot"

/-- The event belongs to another fix of a machine: its command, or the packages that it reads. -/
def Event.fixes (hostID : String) : Event → Prop
  | .read t => t.hostID = hostID ∧ t.rule = "security-updates"
  | .run t _ => t.hostID = hostID ∧ t.rule ≠ "reboot"

/-- The host can be worked on: it is neither offline nor waiting for its first connection. -/
def Stored.reachable (m : Stored) : Prop := m.record.status ≠ .offline ∧ m.record.status ≠ .pending

/-- Every rule that can be fixed on a machine that can be reached is a task once. -/
def Covers (ms : Inventory) (b : Baseline) (ts : List Task) : Prop :=
  ∀ m ∈ ms.list, m.id ∈ b.hostIDs → m.reachable → ∀ r ∈ b.rules, fixable r (m.status r) = true →
    (ts.countP fun t => t.hostID = m.id ∧ t.rule = r) = 1

/-- No fix of a machine comes after its reboot. -/
def RebootLast (events : List Event) : Prop :=
  events.Pairwise fun e e' => ∀ hostID, e.reboots hostID → ¬ e'.fixes hostID

/-- In every order, whatever the machines answer. -/
def Applies (ms : Inventory) (b : Baseline) : Prop :=
  ∀ ts, Ordered ms b ts → Covers ms b ts ∧ ∀ get, RebootLast (trace get ts)

/-! ### The tasks up to their order -/

section Tasks

variable (ms : Inventory) (b : Baseline)

/-- The tasks of all rows. -/
def allTasks : List Task :=
  (fillCompliance ms b).rows.flatMap fun row => rowTasks row row.cells.entries

private theorem rowTasks_perm (row : ComplianceRow) {cells cells' : List (String × CheckStatus)}
    (h : cells.Perm cells') : (rowTasks row cells).Perm (rowTasks row cells') := by
  rw [rowTasks, rowTasks]
  split_ifs
  · exact List.Perm.refl _
  · exact (h.filter _).map _

private theorem collected_perm {rows : List ComplianceRow} {ts : List Task}
    (h : Collected rows ts) :
    ts.Perm (rows.flatMap fun row => rowTasks row row.cells.entries) := by
  obtain ⟨orders, horders, rfl⟩ := h
  induction horders with
  | nil => exact List.Perm.refl _
  | cons hrow _ ih =>
    rw [List.zipWith_cons_cons, List.flatten_cons, List.flatMap_cons]
    exact (rowTasks_perm _ hrow).append ih

private theorem collected_all (rows : List ComplianceRow) :
    Collected rows (rows.flatMap fun row => rowTasks row row.cells.entries) := by
  refine ⟨rows.map (·.cells.entries), ?_, ?_⟩
  · induction rows with
    | nil => exact List.Forall₂.nil
    | cons row rows ih => exact List.Forall₂.cons (List.Perm.refl _) ih
  · induction rows with
    | nil => rfl
    | cons row rows ih => rw [List.flatMap_cons, ih]; rfl

private theorem ordered_iff {ts : List Task} :
    Ordered ms b ts ↔ ts.Perm (allTasks ms b) ∧ ts.Pairwise fun t u => ¬ u.host < t.host := by
  constructor
  · rintro ⟨us, hus, hperm, hsorted⟩
    exact ⟨hperm.trans (collected_perm hus), hsorted⟩
  · rintro ⟨hperm, hsorted⟩
    exact ⟨_, collected_all _, hperm, hsorted⟩

private theorem allTasks_eq :
    allTasks ms b = (named ms b.hostIDs).flatMap fun m =>
      rowTasks (m.row b.rules) (m.row b.rules).cells.entries := by
  rw [allTasks, fillCompliance_eq, List.flatMap_map]

/-- The tasks of a machine. -/
theorem rowTasks_row (m : Stored) (rules : List String) :
    (rowTasks (m.row rules) (m.row rules).cells.entries).Perm
      (if m.record.status = .offline ∨ m.record.status = .pending then []
        else (rules.dedup.filter fun r => fixable r (m.status r)).map fun r =>
          ⟨m.id, m.record.name, r⟩) := by
  obtain ⟨hid, hname, hstatus⟩ := row_fields m rules
  rw [rowTasks, hid, hname, hstatus]
  split_ifs
  · exact List.Perm.refl _
  · have hperm := ((perm_row_cells m rules).filter fun e => fixable e.1 e.2).map
      fun e => (⟨m.id, m.record.name, e.1⟩ : Task)
    rwa [List.filter_map, List.map_map] at hperm

private theorem mem_allTasks {t : Task} : t ∈ allTasks ms b ↔
    ∃ m ∈ ms.list, m.id ∈ b.hostIDs ∧ m.reachable ∧ t.rule ∈ b.rules ∧
      fixable t.rule (m.status t.rule) = true ∧ t.hostID = m.id ∧ t.host = m.record.name := by
  rw [allTasks_eq, List.mem_flatMap]
  constructor
  · rintro ⟨m, hm, ht⟩
    obtain ⟨hlist, hid⟩ := (mem_named ms).mp hm
    rw [(rowTasks_row m b.rules).mem_iff] at ht
    split_ifs at ht with hdown
    · exact absurd ht List.not_mem_nil
    · obtain ⟨r, hr, rfl⟩ := List.mem_map.mp ht
      obtain ⟨hmem, hfix⟩ := List.mem_filter.mp hr
      exact ⟨m, hlist, hid, not_or.mp hdown, List.mem_dedup.mp hmem, hfix, rfl, rfl⟩
  · rintro ⟨m, hlist, hid, hup, hr, hfix, hhost, hname⟩
    refine ⟨m, (mem_named ms).mpr ⟨hlist, hid⟩, ?_⟩
    rw [(rowTasks_row m b.rules).mem_iff, if_neg (not_or.mpr hup), List.mem_map]
    refine ⟨t.rule, List.mem_filter.mpr ⟨List.mem_dedup.mpr hr, hfix⟩, ?_⟩
    rw [← hhost, ← hname]

/-- A rule is a task of a machine as often as the machine is named. -/
theorem countP_allTasks {m : Stored} (hm : m ∈ ms.list) (hup : m.reachable) {r : String}
    (hr : r ∈ b.rules)
    (hfix : fixable r (m.status r) = true) :
    ((allTasks ms b).countP fun t => t.hostID = m.id ∧ t.rule = r) = b.hostIDs.count m.id := by
  have hrow : ∀ m' ∈ ms.list, ((rowTasks (m'.row b.rules) (m'.row b.rules).cells.entries).countP
      fun t => t.hostID = m.id ∧ t.rule = r) = if m'.id = m.id then 1 else 0 := by
    intro m' hm'
    rw [(rowTasks_row m' b.rules).countP_eq]
    split_ifs with hdown hid hid
    · exact absurd hdown (not_or.mpr (List.inj_on_of_nodup_map ms.nodup hm' hm hid ▸ hup))
    · rfl
    · obtain rfl := List.inj_on_of_nodup_map ms.nodup hm' hm hid
      have hone : (b.rules.dedup.filter fun s => fixable s (m'.status s)).count r = 1 := by
        rw [List.count_filter (p := fun s => fixable s (m'.status s)) hfix]
        exact List.count_eq_one_of_mem (List.nodup_dedup _) (List.mem_dedup.mpr hr)
      rw [List.countP_map, ← hone, List.count]
      refine List.countP_congr fun s _ => ?_
      simp
    · rw [List.countP_eq_zero]
      intro t ht
      obtain ⟨s, -, rfl⟩ := List.mem_map.mp ht
      simp [hid]
  rw [allTasks_eq]
  induction b.hostIDs with
  | nil => rfl
  | cons hid hids ih =>
    rw [List.count_cons, ← ih]
    cases hfind : ms.list.find? (·.id = hid) with
    | none =>
      have hne : hid ≠ m.id := by
        rintro rfl
        simpa using List.find?_eq_none.mp hfind m hm
      simp [named, hfind, hne]
    | some m' =>
      have hid' : m'.id = hid := by simpa using List.find?_some hfind
      have hnamed : named ms (hid :: hids) = m' :: named ms hids := by simp [named, hfind]
      rw [hnamed, List.flatMap_cons, List.countP_append, hrow m' (List.mem_of_find?_eq_some hfind),
        hid', Nat.add_comm]
      simp

end Tasks

/-- The hosts of a fleet with what is stored of them. -/
def Fleet.inventory (s : Fleet) (h : (s.hosts.map (·.id)).Nodup) : Inventory where
  list := s.hosts.map fun h => ⟨h.id, h.record, h.listed⟩
  nodup := by rwa [List.map_map]

/-- The tasks of a fleet are those of its inventory. -/
theorem perm_tasks (s : Fleet) (h : (s.hosts.map (·.id)).Nodup) (b : Baseline) :
    ((s.tasks b).map fun t => (⟨t.1.id, t.1.record.name, t.2⟩ : Task)).Perm
      (allTasks (s.inventory h) b) := by
  have hnamed : named (s.inventory h) b.hostIDs =
      (b.hostIDs.filterMap s.host).map fun h => ⟨h.id, h.record, h.listed⟩ := by
    rw [named, List.map_filterMap]
    refine List.filterMap_congr fun hid _ => ?_
    rw [Fleet.inventory, List.find?_map]
    rfl
  rw [allTasks_eq, hnamed, List.flatMap_map, Fleet.tasks, List.map_flatMap]
  refine List.Perm.flatMap_left _ fun host _ => ?_
  refine List.Perm.trans ?_ (rowTasks_row _ b.rules).symm
  rw [List.map_map, Fleet.rulesToFix]
  simp only [Bool.or_eq_true, decide_eq_true_eq]
  split_ifs with hdown
  · exact List.Perm.refl _
  · exact List.Perm.refl _

/-! ### An order with the reboots first -/

/-- By the names of the machines, and for one machine the reboot first. -/
def rebootFirst (t u : Task) : Bool :=
  t.host < u.host || (t.host = u.host && (t.rule = "reboot" || u.rule ≠ "reboot"))

private theorem exists_ordered (ms : Inventory) (b : Baseline) :
    ∃ ts, Ordered ms b ts ∧ ts.Pairwise fun t u => rebootFirst t u = true := by
  have htrans : ∀ t u v, rebootFirst t u = true → rebootFirst u v = true →
      rebootFirst t v = true := by
    intro t u v htu huv
    simp only [rebootFirst, Bool.or_eq_true, Bool.and_eq_true, decide_eq_true_eq] at htu huv ⊢
    rcases htu with htu | ⟨htu, hrule⟩
    · rcases huv with huv | ⟨huv, -⟩
      · exact Or.inl (htu.trans huv)
      · exact Or.inl (huv ▸ htu)
    · rcases huv with huv | ⟨huv, hrule'⟩
      · exact Or.inl (htu ▸ huv)
      · exact Or.inr ⟨htu.trans huv, by tauto⟩
  have htotal : ∀ t u, (rebootFirst t u || rebootFirst u t) = true := by
    intro t u
    simp only [rebootFirst, Bool.or_eq_true, Bool.and_eq_true, decide_eq_true_eq]
    rcases lt_trichotomy t.host u.host with h | h | h
    · exact Or.inl (Or.inl h)
    · by_cases hrule : t.rule = "reboot"
      · exact Or.inl (Or.inr ⟨h, Or.inl hrule⟩)
      · exact Or.inr (Or.inr ⟨h.symm, Or.inr hrule⟩)
    · exact Or.inr (Or.inl h)
  refine ⟨(allTasks ms b).mergeSort rebootFirst,
    (ordered_iff ms b).mpr ⟨List.mergeSort_perm _ _, ?_⟩,
    List.pairwise_mergeSort htrans htotal _⟩
  refine (List.pairwise_mergeSort htrans htotal _).imp fun {t u} h => ?_
  simp only [rebootFirst, Bool.or_eq_true, Bool.and_eq_true, decide_eq_true_eq] at h
  rcases h with h | ⟨h, -⟩
  · exact h.asymm
  · exact h ▸ lt_irrefl _

/-! ### The events of a task -/

section Events

variable {get : Task → Except String Machine} {t u : Task} {e : Event} {hostID : String}

private theorem host_of_reboots (he : e ∈ t.events get) (h : e.reboots hostID) :
    t.hostID = hostID ∧ t.rule = "reboot" := by
  rw [Task.events] at he
  split at he
  · rw [List.mem_singleton.mp he] at h
    exact h.elim
  · split_ifs at he
    · rw [List.mem_singleton.mp he] at h
      exact h.elim
    · simp only [List.mem_cons, List.not_mem_nil, or_false] at he
      rcases he with rfl | rfl
      · exact h.elim
      · exact h

private theorem host_of_fixes (he : e ∈ t.events get) (h : e.fixes hostID) :
    t.hostID = hostID ∧ t.rule ≠ "reboot" := by
  have hread : Event.fixes hostID (.read t) → t.hostID = hostID ∧ t.rule ≠ "reboot" := by
    rintro ⟨hhost, hrule⟩
    exact ⟨hhost, by rw [hrule]; decide⟩
  rw [Task.events] at he
  split at he
  · rw [List.mem_singleton.mp he] at h
    exact hread h
  · split_ifs at he
    · rw [List.mem_singleton.mp he] at h
      exact hread h
    · simp only [List.mem_cons, List.not_mem_nil, or_false] at he
      rcases he with rfl | rfl
      · exact hread h
      · exact h

/-- On a machine that can be read a reboot is started. -/
theorem exists_reboots (hrule : t.rule = "reboot") :
    ∃ e ∈ t.events fun _ => .ok {}, e.reboots t.hostID := by
  have hcmd : t.command {} = rebootFix := by
    rw [Task.command, hrule]
    rfl
  have hne : rebootFix ≠ "" := by decide
  refine ⟨.run t rebootFix, ?_, rfl, hrule⟩
  simp [Task.events, hcmd, hne]

/-- So is every other fix, or it reads the packages. -/
theorem exists_fixes {st : CheckStatus} (hfix : fixable t.rule st = true)
    (hrule : t.rule ≠ "reboot") :
    ∃ e ∈ t.events fun _ => .ok {}, e.fixes t.hostID := by
  by_cases hsec : t.rule = "security-updates"
  · refine ⟨.read t, ?_, rfl, hsec⟩
    simp only [Task.events]
    split_ifs <;> simp
  · have hcmd : t.command {} ≠ "" := by
      rw [Task.command, if_neg hsec]
      simp only [fixable, hsec, decide_false, Bool.or_false, Bool.and_eq_true,
        decide_eq_true_eq] at hfix
      exact hfix.2
    refine ⟨.run t (t.command {}), ?_, rfl, hrule⟩
    simp [Task.events, hcmd]

end Events

/-- **Applying a baseline.** Whatever the order, each rule is fixed once and no fix comes after a
reboot, exactly when of the machines that can be reached none with something to fix is named twice,
and none that has to be rebooted has another rule to fix. -/
theorem applies_iff (ms : Inventory) (b : Baseline) :
    Applies ms b ↔ ∀ m ∈ ms.list, m.id ∈ b.hostIDs → m.reachable → ∀ r ∈ b.rules,
      fixable r (m.status r) = true → b.hostIDs.count m.id = 1 ∧
        ("reboot" ∈ b.rules → m.fails "reboot" = true → r = "reboot") := by
  constructor
  · intro h m hm hid hup r hr hfix
    obtain ⟨ts, hts, hfirst⟩ := exists_ordered ms b
    obtain ⟨hcovers, hlast⟩ := h ts hts
    have hperm := ((ordered_iff ms b).mp hts).1
    refine ⟨?_, fun hreboot hfails => ?_⟩
    · rw [← countP_allTasks ms b hm hup hr hfix, ← hperm.countP_eq]
      exact hcovers m hm hid hup r hr hfix
    · by_contra hne
      have hfix' : fixable "reboot" (m.status "reboot") = true :=
        Bool.and_eq_true_iff.mpr ⟨hfails, by decide⟩
      have ht : (⟨m.id, m.record.name, "reboot"⟩ : Task) ∈ ts :=
        hperm.mem_iff.mpr ((mem_allTasks ms b).mpr ⟨m, hm, hid, hup, hreboot, hfix', rfl, rfl⟩)
      have hu : (⟨m.id, m.record.name, r⟩ : Task) ∈ ts :=
        hperm.mem_iff.mpr ((mem_allTasks ms b).mpr ⟨m, hm, hid, hup, hr, hfix, rfl, rfl⟩)
      obtain ⟨before, after, rfl⟩ := List.append_of_mem ht
      have hpairs := (List.pairwise_flatMap.mp (hlast fun _ => .ok {})).2
      rcases List.mem_append.mp hu with hu | hu
      · -- the order has the reboot first
        have hcmp := (List.pairwise_append.mp hfirst).2.2 _ hu _ List.mem_cons_self
        simp [rebootFirst, hne] at hcmp
      · obtain hu | hu := List.mem_cons.mp hu
        · exact hne (congrArg Task.rule hu)
        · obtain ⟨e, he, hreboots⟩ := exists_reboots (t := ⟨m.id, m.record.name, "reboot"⟩) rfl
          obtain ⟨e', he', hfixes⟩ := exists_fixes (t := ⟨m.id, m.record.name, r⟩) hfix hne
          have hafter := (List.pairwise_cons.mp (List.pairwise_append.mp hpairs).2.1).1 _ hu
          exact hafter e he e' he' m.id hreboots hfixes
  · intro h ts hts
    have hperm := ((ordered_iff ms b).mp hts).1
    refine ⟨fun m hm hid hup r hr hfix => ?_, fun get => ?_⟩
    · rw [hperm.countP_eq, countP_allTasks ms b hm hup hr hfix]
      exact (h m hm hid hup r hr hfix).1
    · refine List.pairwise_of_forall_mem_list fun e he e' he' hostID hreboots hfixes => ?_
      obtain ⟨t, ht, het⟩ := List.mem_flatMap.mp he
      obtain ⟨u, hu, heu⟩ := List.mem_flatMap.mp he'
      obtain ⟨hhost, hrule⟩ := host_of_reboots het hreboots
      obtain ⟨hhost', hrule'⟩ := host_of_fixes heu hfixes
      obtain ⟨m, hm, hid, hup, hr, hfix, hmt, -⟩ := (mem_allTasks ms b).mp (hperm.mem_iff.mp ht)
      obtain ⟨m', hm', hid', hup', hr', hfix', hmu, -⟩ :=
        (mem_allTasks ms b).mp (hperm.mem_iff.mp hu)
      obtain rfl := List.inj_on_of_nodup_map ms.nodup hm hm' (by rw [← hmt, ← hmu, hhost, hhost'])
      rw [hrule] at hr hfix
      exact hrule' ((h m hm hid' hup' u.rule hr' hfix').2 hr (Bool.and_eq_true_iff.mp hfix).1)

/-- A machine that has to be rebooted, and whose firewall is off. -/
theorem reboot_before_firewall : ¬ ∀ ms b, Applies ms b := by
  intro h
  let m : Stored := ⟨"a", { name := "web", address := "", status := .online },
    { checks := [⟨"firewall", "network", "", "", .bad, "", "", false⟩,
      ⟨"reboot", "updates", "", "", .warn, "", "", false⟩] }⟩
  let b : Baseline := ⟨"b", ["firewall", "reboot"], ["a"]⟩
  let ts : List Task := [⟨"a", "web", "reboot"⟩, ⟨"a", "web", "firewall"⟩]
  have hts : Ordered ⟨[m], by decide⟩ b ts := by
    refine (ordered_iff _ b).mpr ⟨?_, by decide⟩
    exact List.isPerm_iff.mp (by decide +kernel)
  have hlast := (List.pairwise_flatMap.mp ((h _ b ts hts).2 fun _ => .ok {})).2
  have hreboot := (List.pairwise_cons.mp hlast).1 _ List.mem_cons_self
  obtain ⟨e, he, hreboots⟩ := exists_reboots (t := ⟨"a", "web", "reboot"⟩) rfl
  obtain ⟨e', he', hfixes⟩ := exists_fixes (t := ⟨"a", "web", "firewall"⟩)
    (show fixable "firewall" .bad = true by decide) (by decide)
  exact hreboot e he e' he' "a" hreboots hfixes

end Dockhand.Machines
