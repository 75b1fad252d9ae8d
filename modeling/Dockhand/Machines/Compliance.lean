import Dockhand.Data.Sums
import Dockhand.Machines.Fixes

/-!
# Drift

A machine drifts from a baseline by every rule whose check fails. `List` counts the drift of a
machine over the baselines that name it, and `fillCompliance` that of a baseline over the machines
that it names. A baseline may name a machine or a rule more than once. `accounted_iff` says that the
two counts, and the cells that are shown, agree as long as nothing that drifts is named twice.
-/

namespace Dockhand.Machines

open Data Go Hosts

/-! ### Baselines that are taken -/

/-- A rule that a baseline can contain. -/
structure Rule where
  id : String
  title : String
  group : String

/-- `RuleTitles`: the rules that a baseline can ask for, in the order in which they are listed. -/
def ruleTitles : List Rule :=
  [⟨"ssh-password", "Password login off", "ssh"⟩, ⟨"ssh-root", "Root login restricted", "ssh"⟩,
    ⟨"fail2ban", "Brute-force protection", "ssh"⟩, ⟨"firewall", "Firewall active", "network"⟩,
    ⟨"exposed-ports", "Exposed ports reviewed", "network"⟩,
    ⟨"auto-updates", "Automatic security updates", "updates"⟩,
    ⟨"security-updates", "No pending security updates", "updates"⟩,
    ⟨"reboot", "No reboot pending", "updates"⟩]

/-- The body of a request for a baseline. -/
structure BaselineInput where
  name : String
  description : String
  color : String
  rules : List String
  hostIDs : List String
  deriving DecidableEq

/-- `validBaseline`: the normalised input, or the message. -/
def validBaseline (input : BaselineInput) : Except String BaselineInput :=
  if trimSpace input.name = "" then .error "give the baseline a name"
  else
    match input.rules.find? fun r => !(ruleTitles.map (·.id)).contains r with
    | some r => .error ("unknown rule " ++ r)
    | none =>
      .ok { input with
        name := trimSpace input.name
        description := trimSpace input.description
        color := if input.color = "" then "#2f6fed" else input.color }

/-! ### What is stored of a machine -/

/-- A host with the facts that are stored of it, if any. -/
structure Stored where
  id : String
  record : Record
  facts : Machine

/-- The hosts, whose ids are a primary key. -/
structure Inventory where
  list : List Stored
  nodup : (list.map (·.id)).Nodup

namespace Stored

variable (m : Stored)

/-- The status of a rule: of checks with the same id the last one counts. -/
def status (rule : String) : CheckStatus :=
  ((m.facts.checks.filter (·.id = rule)).getLast?.map (·.status)).getD .unknown

/-- The machine does not meet the rule: its check is bad or a warning. -/
def fails (rule : String) : Bool := m.status rule = .bad || m.status rule = .warn

/-- The loop of `List` over the baselines: their names, and the drift. -/
def driftStep (acc : ℕ) (b : Baseline) : ℕ :=
  if b.hostIDs.contains m.id then b.rules.foldl (fun n r => if m.fails r then n + 1 else n) acc else
    acc

/-- The drift of a machine, as `List` has it. -/
def drift (bases : List Baseline) : ℕ := bases.foldl m.driftStep 0

end Stored

/-! ### The compliance of a baseline -/

/-- `ComplianceRow`: a host of the baseline with the results of the rules. -/
structure ComplianceRow where
  hostID : String
  name : String
  color : String
  status : Status
  cells : Dict String CheckStatus
  drift : ℕ

/-- A row, and what `fillCompliance` counts for all rows. -/
structure Tally where
  row : ComplianceRow
  total : ℕ
  ok : ℕ

/-- The loop of `fillCompliance` over the rules. What could not be determined does not count. -/
def cellStep (m : Stored) (t : Tally) (r : String) : Tally :=
  let row := { t.row with cells := t.row.cells.set r (m.status r) }
  match m.status r with
  | .ok => ⟨row, t.total + 1, t.ok + 1⟩
  | .bad | .warn => ⟨{ row with drift := row.drift + 1 }, t.total + 1, t.ok⟩
  | .unknown => ⟨row, t.total, t.ok⟩

/-- A baseline with its compliance filled in. -/
structure Compliance where
  rows : List ComplianceRow := []
  drift : ℕ := 0
  total : ℕ := 0
  ok : ℕ := 0

/-- The share of the cells that are met, rounded down; none, if there are no cells. -/
def Compliance.pct (c : Compliance) : ℕ := if 0 < c.total then c.ok * 100 / c.total else 0

/-- The loop of `fillCompliance` over the hosts of a baseline. One that is gone is left out. -/
def rowStep (ms : Inventory) (rules : List String) (c : Compliance) (hid : String) : Compliance :=
  match ms.list.find? (·.id = hid) with
  | none => c
  | some m =>
    let start : ComplianceRow := ⟨hid, m.record.name, m.record.color, m.record.status, ∅, 0⟩
    let t := rules.foldl (cellStep m) ⟨start, c.total, c.ok⟩
    ⟨c.rows ++ [t.row], c.drift + t.row.drift, t.total, t.ok⟩

/-- `fillCompliance` adds a row for each host of the baseline, in the order of the baseline. -/
def fillCompliance (ms : Inventory) (b : Baseline) : Compliance :=
  b.hostIDs.foldl (rowStep ms b.rules) {}

/-! ### The accounts -/

/-- The result counts against the host. -/
def CheckStatus.fails (st : CheckStatus) : Bool := st = .bad || st = .warn

/-- The accounts of the drift agree. -/
structure Accounted (ms : Inventory) (bases : List Baseline) : Prop where
  sums : (ms.list.map fun m => m.drift bases).sum =
    (bases.map fun b => (fillCompliance ms b).drift).sum
  rows : ∀ b ∈ bases, (fillCompliance ms b).drift = ((fillCompliance ms b).rows.map (·.drift)).sum
  cells : ∀ b ∈ bases, ∀ row ∈ (fillCompliance ms b).rows,
    row.drift = row.cells.entries.countP fun e => e.2.fails
  pct : ∀ b ∈ bases, (fillCompliance ms b).pct = 100 ↔
    (∃ row ∈ (fillCompliance ms b).rows, ∃ e ∈ row.cells.entries, e.2 ≠ .unknown) ∧
      ∀ row ∈ (fillCompliance ms b).rows, ∀ e ∈ row.cells.entries, e.2.fails = false

/-! ### What the loops count -/

section Loops

variable (m : Stored) (rules : List String)

private theorem foldl_countP (p : String → Bool) (l : List String) (n : ℕ) :
    l.foldl (fun n r => if p r then n + 1 else n) n = n + l.countP p := by
  induction l generalizing n with
  | nil => rfl
  | cons r l ih =>
    rw [List.foldl_cons, ih, List.countP_cons]
    split_ifs <;> omega

private theorem drift_eq (bases : List Baseline) :
    m.drift bases = (bases.map fun b => if m.id ∈ b.hostIDs then b.rules.countP m.fails else
      0).sum := by
  suffices hfold : ∀ acc, bases.foldl m.driftStep acc =
      acc + (bases.map fun b => if m.id ∈ b.hostIDs then b.rules.countP m.fails else 0).sum by
    rw [Stored.drift, hfold, Nat.zero_add]
  induction bases with
  | nil => exact fun acc => rfl
  | cons b bases ih =>
    intro acc
    rw [List.foldl_cons, ih, List.map_cons, List.sum_cons, Stored.driftStep, foldl_countP,
      ← Nat.add_assoc]
    by_cases hb : m.id ∈ b.hostIDs <;> simp [hb]

/-- What the loop over the rules does to a tally. -/
theorem foldl_cellStep (t : Tally) : ∃ cells,
    rules.foldl (cellStep m) t =
      ⟨{ t.row with cells := cells, drift := t.row.drift + rules.countP m.fails },
        t.total + rules.countP (m.status · ≠ .unknown), t.ok + rules.countP (m.status · = .ok)⟩ ∧
    ∀ r, cells.get? r = if r ∈ rules then some (m.status r) else t.row.cells.get? r := by
  induction rules generalizing t with
  | nil => exact ⟨t.row.cells, rfl, fun r => rfl⟩
  | cons r rules ih =>
    obtain ⟨cells, hfold, hget⟩ := ih (cellStep m t r)
    have hcells : (cellStep m t r).row.cells = t.row.cells.set r (m.status r) := by
      rw [cellStep]
      split <;> rfl
    refine ⟨cells, ?_, fun r' => ?_⟩
    · rw [List.foldl_cons, hfold, List.countP_cons, List.countP_cons, List.countP_cons]
      cases hst : m.status r <;> simp [cellStep, hst, Stored.fails] <;> omega
    · rw [hget, hcells, Dict.get?_set]
      by_cases hr : r' = r
      · subst hr
        simp
      · simp [hr]

end Loops

/-- The row of a machine. -/
def Stored.row (m : Stored) (rules : List String) : ComplianceRow :=
  (rules.foldl (cellStep m) ⟨⟨m.id, m.record.name, m.record.color, m.record.status, ∅, 0⟩, 0,
    0⟩).row

section Row

variable (m : Stored) (rules : List String)

private theorem row_drift : (m.row rules).drift = rules.countP m.fails := by
  obtain ⟨cells, hfold, -⟩ := foldl_cellStep m rules
    ⟨⟨m.id, m.record.name, m.record.color, m.record.status, ∅, 0⟩, 0, 0⟩
  rw [Stored.row, hfold]
  exact Nat.zero_add _

theorem row_fields : (m.row rules).hostID = m.id ∧ (m.row rules).name = m.record.name ∧
    (m.row rules).status = m.record.status := by
  obtain ⟨cells, hfold, -⟩ := foldl_cellStep m rules
    ⟨⟨m.id, m.record.name, m.record.color, m.record.status, ∅, 0⟩, 0, 0⟩
  rw [Stored.row, hfold]
  exact ⟨rfl, rfl, rfl⟩

private theorem get?_row (r : String) :
    (m.row rules).cells.get? r = if r ∈ rules then some (m.status r) else none := by
  obtain ⟨cells, hfold, hget⟩ := foldl_cellStep m rules
    ⟨⟨m.id, m.record.name, m.record.color, m.record.status, ∅, 0⟩, 0, 0⟩
  rw [Stored.row, hfold]
  exact hget r

private theorem mem_row_cells {e : String × CheckStatus} :
    e ∈ (m.row rules).cells.entries ↔ e.1 ∈ rules ∧ e.2 = m.status e.1 := by
  rw [← Dict.get?_eq_some_iff, get?_row]
  split_ifs with hr <;> simp [hr, eq_comm]

/-- The cells of a row are one for each rule. -/
theorem perm_row_cells :
    (m.row rules).cells.entries.Perm (rules.dedup.map fun r => (r, m.status r)) := by
  have hcells : (m.row rules).cells.entries.Nodup := (m.row rules).cells.sorted.nodup.of_map _
  have hrules : (rules.dedup.map fun r => (r, m.status r)).Nodup :=
    (List.nodup_dedup rules).map fun r s h => (Prod.mk.inj h).1
  refine (List.perm_ext_iff_of_nodup hcells hrules).mpr fun e => ?_
  rw [mem_row_cells, List.mem_map]
  constructor
  · rintro ⟨hr, hst⟩
    exact ⟨e.1, List.mem_dedup.mpr hr, by rw [← hst]⟩
  · rintro ⟨r, hr, rfl⟩
    exact ⟨List.mem_dedup.mp hr, rfl⟩

private theorem countP_row_cells :
    ((m.row rules).cells.entries.countP fun e => e.2.fails) = rules.dedup.countP m.fails := by
  rw [(perm_row_cells m rules).countP_eq, List.countP_map]
  rfl

end Row

section Fill

variable (ms : Inventory) (b : Baseline)

/-- The row of a tally does not depend on what has been counted before. -/
theorem foldl_cellStep_row (m : Stored) (rules : List String) {t t' : Tally} (h : t.row = t'.row) :
    (rules.foldl (cellStep m) t).row = (rules.foldl (cellStep m) t').row := by
  induction rules generalizing t t' with
  | nil => exact h
  | cons r rules ih =>
    refine ih ?_
    rw [cellStep, cellStep, h]
    cases m.status r <;> rfl

private theorem rowStep_eq (rules : List String) (c : Compliance) {hid : String} {m : Stored}
    (hm : ms.list.find? (·.id = hid) = some m) :
    rowStep ms rules c hid =
      ⟨c.rows ++ [m.row rules], c.drift + rules.countP m.fails,
        c.total + rules.countP (m.status · ≠ .unknown),
          c.ok + rules.countP (m.status · = .ok)⟩ := by
  have hid' : m.id = hid := by simpa using List.find?_some hm
  subst hid'
  obtain ⟨cells, hfold, -⟩ := foldl_cellStep m rules
    ⟨⟨m.id, m.record.name, m.record.color, m.record.status, ∅, 0⟩, c.total, c.ok⟩
  have hrow : (rules.foldl (cellStep m)
      ⟨⟨m.id, m.record.name, m.record.color, m.record.status, ∅, 0⟩, c.total, c.ok⟩).row =
        m.row rules :=
    foldl_cellStep_row m rules rfl
  simp only [rowStep, hm, hrow, row_drift]
  rw [hfold]

/-- The machines of a baseline, each as often as it is named. -/
def named (ms : Inventory) (hostIDs : List String) : List Stored :=
  hostIDs.filterMap fun hid => ms.list.find? (·.id = hid)

theorem fillCompliance_eq :
    fillCompliance ms b =
      ⟨(named ms b.hostIDs).map (·.row b.rules),
        ((named ms b.hostIDs).map fun m => b.rules.countP m.fails).sum,
        ((named ms b.hostIDs).map fun m => b.rules.countP (m.status · ≠ .unknown)).sum,
        ((named ms b.hostIDs).map fun m => b.rules.countP (m.status · = .ok)).sum⟩ := by
  suffices hfold : ∀ (hids : List String) (c : Compliance), hids.foldl (rowStep ms b.rules) c =
      ⟨c.rows ++ (named ms hids).map (·.row b.rules),
        c.drift + ((named ms hids).map fun m => b.rules.countP m.fails).sum,
        c.total + ((named ms hids).map fun m => b.rules.countP (m.status · ≠ .unknown)).sum,
        c.ok + ((named ms hids).map fun m => b.rules.countP (m.status · = .ok)).sum⟩ by
    rw [fillCompliance, hfold]
    simp
  intro hids
  induction hids with
  | nil => simp [named]
  | cons hid hids ih =>
    intro c
    rw [List.foldl_cons, ih]
    cases hm : ms.list.find? (·.id = hid) with
    | none => simp [rowStep, named, hm]
    | some m =>
      rw [rowStep_eq ms b.rules c hm]
      simp [named, hm, Nat.add_assoc]

theorem mem_named {m : Stored} {hids : List String} : m ∈ named ms hids ↔ m ∈ ms.list ∧
    m.id ∈ hids := by
  rw [named, List.mem_filterMap]
  constructor
  · rintro ⟨hid, hmem, hm⟩
    have hid' : m.id = hid := by simpa using List.find?_some hm
    exact ⟨List.mem_of_find?_eq_some hm, hid' ▸ hmem⟩
  · rintro ⟨hm, hmem⟩
    refine ⟨m.id, hmem, ?_⟩
    obtain ⟨m', hm'⟩ := Option.isSome_iff_exists.mp
      (List.find?_isSome (p := fun m' : Stored => m'.id = m.id).mpr ⟨m, hm, decide_eq_true rfl⟩)
    have hid : m'.id = m.id := by simpa using List.find?_some hm'
    rw [hm', List.inj_on_of_nodup_map ms.nodup (List.mem_of_find?_eq_some hm') hm hid]

/-! ### The accounts one by one -/

private theorem fillCompliance_drift :
    (fillCompliance ms b).drift = ((fillCompliance ms b).rows.map (·.drift)).sum := by
  rw [fillCompliance_eq, List.map_map]
  simp only [Function.comp_def, row_drift]

/-- The cells of a machine are as many as it has drift when no rule that fails is named twice. -/
theorem cells_iff : (∀ row ∈ (fillCompliance ms b).rows,
      row.drift = row.cells.entries.countP fun e => e.2.fails) ↔
    ∀ m ∈ ms.list, m.id ∈ b.hostIDs → ∀ r ∈ b.rules, m.fails r = true → b.rules.count r = 1 := by
  rw [fillCompliance_eq, List.forall_mem_map]
  simp only [row_drift, countP_row_cells, mem_named, and_imp,
    eq_comm (b := List.countP _ b.rules.dedup), countP_dedup_iff]

/-- The sums agree when no machine that drifts from a baseline is named twice by it. -/
theorem sums_iff (bases : List Baseline) :
    (ms.list.map fun m => m.drift bases).sum =
      (bases.map fun b => (fillCompliance ms b).drift).sum ↔
      ∀ b ∈ bases, ∀ m ∈ ms.list, m.id ∈ b.hostIDs → ∀ r ∈ b.rules, m.fails r = true →
        b.hostIDs.count m.id = 1 := by
  have hdrift : ∀ b : Baseline, (fillCompliance ms b).drift =
      (ms.list.map fun m => b.hostIDs.count m.id * b.rules.countP m.fails).sum := fun b => by
    rw [fillCompliance_eq]
    exact sum_filterMap_find? ms.nodup b.hostIDs fun m => b.rules.countP m.fails
  have hle : ∀ (b : Baseline) (m : Stored), (if m.id ∈ b.hostIDs then b.rules.countP m.fails else
    0) ≤
      b.hostIDs.count m.id * b.rules.countP m.fails := by
    intro b m
    split_ifs with hm
    · exact Nat.le_mul_of_pos_left _ (List.count_pos_iff.mpr hm)
    · exact Nat.zero_le _
  simp only [drift_eq, hdrift]
  rw [sum_sum_comm, sum_eq_sum_iff fun b _ => List.sum_le_sum fun m _ => hle b m]
  refine forall₂_congr fun b _ => ?_
  rw [sum_eq_sum_iff fun m _ => hle b m]
  refine forall₂_congr fun m _ => ?_
  by_cases hm : m.id ∈ b.hostIDs
  · have hcount : 0 < b.hostIDs.count m.id := List.count_pos_iff.mpr hm
    rw [if_pos hm]
    constructor
    · intro heq _ r hr hfails
      have hpos : 0 < b.rules.countP m.fails := List.countP_pos_iff.mpr ⟨r, hr, hfails⟩
      exact Nat.eq_of_mul_eq_mul_right hpos (by rw [one_mul, ← heq])
    · intro h
      by_cases hpos : 0 < b.rules.countP m.fails
      · obtain ⟨r, hr, hfails⟩ := List.countP_pos_iff.mp hpos
        rw [h hm r hr hfails, one_mul]
      · rw [Nat.eq_zero_of_not_pos hpos, Nat.mul_zero]
  · rw [if_neg hm, List.count_eq_zero_of_not_mem hm, Nat.zero_mul]
    exact iff_of_true rfl fun h => absurd h hm

private theorem countP_status (m : Stored) (rules : List String) :
    rules.countP (m.status · ≠ .unknown) = rules.countP (m.status · = .ok) + rules.countP
      m.fails := by
  induction rules with
  | nil => rfl
  | cons r rules ih =>
    simp only [List.countP_cons, ih]
    cases hst : m.status r <;> simp [Stored.fails, hst] <;> omega

private theorem pct_iff : (fillCompliance ms b).pct = 100 ↔
    (∃ row ∈ (fillCompliance ms b).rows, ∃ e ∈ row.cells.entries, e.2 ≠ .unknown) ∧
      ∀ row ∈ (fillCompliance ms b).rows, ∀ e ∈ row.cells.entries, e.2.fails = false := by
  have htotal : (fillCompliance ms b).total = (fillCompliance ms b).ok +
      (fillCompliance ms b).drift := by
    rw [fillCompliance_eq, ← sum_map_add]
    simp only [countP_status]
  have hcells : ∀ q : CheckStatus → Bool, (∀ row ∈ (fillCompliance ms b).rows,
    ∀ e ∈ row.cells.entries,
      q e.2 = false) ↔
        ((named ms b.hostIDs).map fun m => b.rules.countP fun r => q (m.status r)).sum = 0 := by
    intro q
    rw [fillCompliance_eq, List.forall_mem_map, List.sum_eq_zero_iff, List.forall_mem_map]
    refine forall₂_congr fun m _ => ?_
    rw [List.countP_eq_zero]
    constructor
    · intro h r hr
      rw [h (r, m.status r) ((mem_row_cells m b.rules).mpr ⟨hr, rfl⟩)]
      exact Bool.false_ne_true
    · intro h e he
      obtain ⟨hr, hst⟩ := (mem_row_cells m b.rules).mp he
      rw [hst]
      exact Bool.eq_false_iff.mpr (h e.1 hr)
  have hpos : 0 < (fillCompliance ms b).total ↔
      ∃ row ∈ (fillCompliance ms b).rows, ∃ e ∈ row.cells.entries, e.2 ≠ .unknown := by
    have hno := hcells (· ≠ .unknown)
    have htot : (fillCompliance ms b).total =
        ((named ms b.hostIDs).map fun m => b.rules.countP (m.status · ≠ .unknown)).sum := by
      rw [fillCompliance_eq]
    rw [Nat.pos_iff_ne_zero, htot, ne_eq, ← hno]
    simp
  have hzero : (fillCompliance ms b).drift = 0 ↔
      ∀ row ∈ (fillCompliance ms b).rows, ∀ e ∈ row.cells.entries, e.2.fails = false := by
    rw [hcells, fillCompliance_eq]
    rfl
  rw [← hpos, ← hzero, Compliance.pct]
  generalize (fillCompliance ms b).total = total at *
  generalize (fillCompliance ms b).ok = ok at *
  generalize (fillCompliance ms b).drift = drift at *
  split_ifs with h
  · rw [Nat.div_eq_iff h]
    omega
  · simp [h]

end Fill

/-- **Accounts of the drift.** They agree for baselines that name no machine twice that drifts from
them, and no rule twice that fails on one of their machines. -/
theorem accounted_iff (ms : Inventory) (bases : List Baseline) :
    Accounted ms bases ↔ ∀ b ∈ bases, ∀ m ∈ ms.list, m.id ∈ b.hostIDs → ∀ r ∈ b.rules,
      m.fails r = true → b.hostIDs.count m.id = 1 ∧ b.rules.count r = 1 := by
  constructor
  · intro h b hb m hm hid r hr hfails
    exact ⟨(sums_iff ms bases).mp h.sums b hb m hm hid r hr hfails,
      (cells_iff ms b).mp (h.cells b hb) m hm hid r hr hfails⟩
  · intro h
    refine ⟨(sums_iff ms bases).mpr fun b hb m hm hid r hr hfails => ?_,
      fun b _ => fillCompliance_drift ms b, fun b hb =>
        (cells_iff ms b).mpr fun m hm hid r hr hfails => ?_,
      fun b _ => pct_iff ms b⟩
    · exact (h b hb m hm hid r hr hfails).1
    · exact (h b hb m hm hid r hr hfails).2

/-- One machine whose firewall is off, named twice by a baseline that is taken. -/
theorem named_twice : ¬ ∀ (ms : Inventory) (bases : List Baseline),
    (∀ b ∈ bases, ∃ input out, validBaseline input = .ok out ∧ b.rules = out.rules ∧
      b.hostIDs = out.hostIDs) → Accounted ms bases := by
  intro h
  let m : Stored := ⟨"a", { name := "web", address := "" },
    { checks := [⟨"firewall", "network", "", "", .bad, "", "", false⟩] }⟩
  let b : Baseline := ⟨"b", ["firewall"], ["a", "a"]⟩
  have hvalid : validBaseline ⟨"Base", "", "", ["firewall"], ["a", "a"]⟩ =
      .ok ⟨"Base", "", "#2f6fed", ["firewall"], ["a", "a"]⟩ := by decide +kernel
  have hacc := (h ⟨[m], by decide⟩ [b] fun b' hb' => by
    obtain rfl := List.mem_singleton.mp hb'
    exact ⟨_, _, hvalid, rfl, rfl⟩).sums
  revert hacc
  decide +kernel

end Dockhand.Machines
