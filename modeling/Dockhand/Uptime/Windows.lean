import Dockhand.Data.Grouping
import Dockhand.Uptime.Service
import Mathlib.Order.Monotone.Basic

/-!
# Uptime over a window

What the pages show about the last day, week or month. One query groups the check results by
monitor and by bar; `loadWindow` adds its rows up, in whatever order they come. `bars_view` says
what a bar shows: the checks between its two ends, so that each check is shown by one bar.

Percentages and average latencies are quotients of these counts as floating-point numbers, and are
left out. Times are in microseconds.
-/

namespace Dockhand.Uptime

open Go Data

/-! ### Counts -/

/-- `Counts`. -/
@[ext] structure Counts where
  up : ℕ := 0
  degraded : ℕ := 0
  down : ℕ := 0
  latencySum : ℕ := 0
  latencyN : ℕ := 0
  deriving DecidableEq

namespace Counts

/-- `Counts.Total`: the checks of a bar. -/
def total (c : Counts) : ℕ := c.up + c.degraded + c.down

/-- `Counts.Add`. -/
def plus (c o : Counts) : Counts where
  up := c.up + o.up
  degraded := c.degraded + o.degraded
  down := c.down + o.down
  latencySum := c.latencySum + o.latencySum
  latencyN := c.latencyN + o.latencyN

instance : Add Counts := ⟨plus⟩

instance : Zero Counts := ⟨{}⟩

instance : AddCommMonoid Counts where
  add_assoc a b c := by
    ext <;> exact Nat.add_assoc ..
  zero_add a := by
    ext <;> exact Nat.zero_add _
  add_zero _ := rfl
  add_comm a b := by
    ext <;> exact Nat.add_comm ..
  nsmul := nsmulRec

/-- `BucketStatus`; `none` when there is no check. -/
def bucketStatus (c : Counts) : Option Verdict :=
  if c.total = 0 then none
  else if c.down = c.total then some .down
  else if c.down > 0 ∨ c.degraded > 0 then some .degraded
  else some .up

end Counts

/-! ### The window -/

/-- `NumBars`. -/
def numBars : ℕ := 30

/-- The microseconds of an hour. -/
def hour : ℕ := 3600000000

/-- `WindowDuration`. -/
def windowDuration (w : String) : String × ℕ :=
  if w = "7d" then (w, 7 * 24 * hour)
  else if w = "30d" then (w, 30 * 24 * hour)
  else ("24h", 24 * hour)

/-- `BucketIndex`; `none` outside of the window. -/
def bucketIndex (t start size n : ℕ) : Option ℕ :=
  if t < start then none
  else
    let i := (t - start) / size
    if i ≥ n then if i = n ∧ t - start = size * n then some (n - 1) else none
    else some i

/-- A row of `check_results`. -/
structure CheckResult where
  monitorID : String
  time : ℕ
  verdict : Verdict
  latency : ℕ
  deriving DecidableEq

/-- What a check adds to the counts of its group. -/
def CheckResult.counts (r : CheckResult) : Counts where
  up := if r.verdict = .up then 1 else 0
  degraded := if r.verdict = .degraded then 1 else 0
  down := if r.verdict = .down then 1 else 0
  latencySum := if r.verdict ≠ .down ∧ r.latency > 0 then r.latency else 0
  latencyN := if r.verdict ≠ .down ∧ r.latency > 0 then 1 else 0

/-- An incident, as far as the window counts it. -/
structure IncidentRow where
  monitorID : String
  startedAt : ℕ
  endedAt : Option ℕ
  deriving DecidableEq

/-- `windowData`. -/
structure WindowData where
  start : ℕ
  size : ℕ
  buckets : Dict String (Dict ℕ Counts) := ∅
  totals : Dict String Counts := ∅
  incidents : Dict String ℕ := ∅

/-- The query of `loadWindow`: the checks since the start of the window, of one monitor or of all,
grouped by monitor and by number of bars since the start. -/
def windowRows (rs : List CheckResult) (start size : ℕ) (monitorID : String) :
    List ((String × ℕ) × Counts) :=
  groups (fun r => (r.monitorID, (r.time - start) / size)) CheckResult.counts
    (rs.filter fun r => start ≤ r.time ∧ (monitorID = "" ∨ r.monitorID = monitorID))

/-- The second query of `loadWindow`: how many incidents of a monitor reach into the window. -/
def incidentRows (is : List IncidentRow) (start : ℕ) : List (String × ℕ) :=
  groups IncidentRow.monitorID (fun _ => 1)
    (is.filter fun i => start ≤ i.startedAt ∨ ∀ t ∈ i.endedAt, start ≤ t)

namespace WindowData

/-- The counts of one bar of a monitor. -/
def bucket (wd : WindowData) (id : String) (b : ℕ) : Counts :=
  (((wd.buckets.get? id).getD ∅).get? b).getD 0

/-- The counts of a monitor over the window. -/
def monitorTotal (wd : WindowData) (id : String) : Counts := (wd.totals.get? id).getD 0

/-- The loop of `loadWindow`. -/
def addRow (wd : WindowData) (row : (String × ℕ) × Counts) : WindowData :=
  let id := row.1.1
  let b := if row.1.2 ≥ numBars then numBars - 1 else row.1.2
  { wd with
    buckets := wd.buckets.set id (((wd.buckets.get? id).getD ∅).set b (wd.bucket id b + row.2))
    totals := wd.totals.set id (wd.monitorTotal id + row.2) }

end WindowData

/-- `loadWindow`, from the rows that its queries return. -/
def loadWindow (start size : ℕ) (rows : List ((String × ℕ) × Counts)) (irows : List (String × ℕ)) :
    WindowData :=
  let wd := rows.foldl WindowData.addRow { start, size }
  { wd with incidents := irows.foldl (fun m row => m.set row.1 row.2) ∅ }

/-- `model.UptimeBar`, with the counts that its percentage is computed from. -/
structure Bar where
  status : Option Verdict
  counts : Counts
  start : ℕ
  stop : ℕ
  deriving DecidableEq

/-- `BuildBars`. -/
def buildBars (buckets : ℕ → Counts) (start size n : ℕ) : List Bar :=
  (List.range n).map fun i =>
    { status := (buckets i).bucketStatus, counts := buckets i, start := start + size * i,
      stop := start + size * (i + 1) }

/-- The bar that a check is added to. -/
def barOf (start size t : ℕ) : ℕ :=
  if (t - start) / size ≥ numBars then numBars - 1 else (t - start) / size

/-- A time between the two ends of a bar. The last bar is open. -/
def InBar (start size i t : ℕ) : Prop :=
  start + size * i ≤ t ∧ (i + 1 < numBars → t < start + size * (i + 1))

instance (start size i t : ℕ) : Decidable (InBar start size i t) :=
  inferInstanceAs (Decidable (_ ∧ _))

/-! ### Views -/

/-- A row of `monitors`, with its id. -/
structure MonitorRow extends Monitor where
  id : String
  deriving DecidableEq

/-- `model.MonitorView`, with the counts that its percentage and its latency are computed from. -/
structure MonitorView where
  id : String
  name : String
  type : MonitorType
  hostID : Option String
  hostName : String
  target : String
  enabled : Bool
  status : Status
  counts : Counts
  incidents : ℕ
  bars : List Bar
  deriving DecidableEq

/-- `windowData.view`. -/
def WindowData.view (wd : WindowData) (m : MonitorRow) : MonitorView :=
  { m with
    status := if !m.enabled then .paused else m.status
    counts := wd.monitorTotal m.id
    incidents := (wd.incidents.get? m.id).getD 0
    bars := buildBars (wd.bucket m.id) wd.start wd.size numBars }

/-- The statistics of `Overview`, with the counts that they are computed from. -/
structure Stats where
  monitorsTotal : ℕ := 0
  monitorsUp : ℕ := 0
  incidents : ℕ := 0
  all : Counts := 0
  deriving DecidableEq

/-- The loop of `Overview`. -/
def WindowData.addStats (wd : WindowData) (st : Stats) (m : MonitorRow) : Stats :=
  let v := wd.view m
  if !m.enabled then st
  else
    { monitorsTotal := st.monitorsTotal + 1
      monitorsUp := st.monitorsUp + if v.status = .up ∨ v.status = .degraded then 1 else 0
      incidents := st.incidents + v.incidents
      all := st.all + wd.monitorTotal m.id }

/-- `WindowData.Stats`: the sums over the monitors that are enabled. -/
def WindowData.stats (wd : WindowData) (ms : List MonitorRow) : Stats :=
  ms.foldl wd.addStats {}

/-- The order of statuses on the public page. -/
def rank : Status → ℕ
  | .degraded => 1
  | .down => 2
  | _ => 0

/-- `PublicStatus`. -/
structure PublicStatus where
  status : Status := .up
  all : Counts := 0
  monitors : List MonitorView := []
  deriving DecidableEq

/-- The loop of `Public`. -/
def WindowData.addPublic (wd : WindowData) (p : PublicStatus) (m : MonitorRow) : PublicStatus :=
  let v := wd.view m
  { status := if rank p.status < rank v.status then v.status else p.status
    all := p.all + wd.monitorTotal m.id
    monitors := p.monitors ++ [v] }

/-- `Public`, over the monitors that are enabled. -/
def WindowData.publicStatus (wd : WindowData) (ms : List MonitorRow) : PublicStatus :=
  let p := (ms.filter fun m => m.enabled).foldl wd.addPublic {}
  { p with monitors := p.monitors.mergeSort fun a b => a.name ≤ b.name }

/-! ### Adding up the rows -/

section

variable {wd : WindowData} {row : (String × ℕ) × Counts} {id : String} {b : ℕ}

private theorem bucket_addRow : (wd.addRow row).bucket id b =
    wd.bucket id b + if row.1.1 = id ∧ (if row.1.2 ≥ numBars then numBars - 1 else row.1.2) = b then
      row.2 else 0 := by
  obtain ⟨⟨rid, rb⟩, c⟩ := row
  by_cases hid : id = rid
  · subst hid
    by_cases hb : b = if rb ≥ numBars then numBars - 1 else rb
    · simp [WindowData.addRow, WindowData.bucket, hb]
    · simp [WindowData.addRow, WindowData.bucket, hb, Ne.symm hb]
  · simp [WindowData.addRow, WindowData.bucket, hid, Ne.symm hid]

private theorem monitorTotal_addRow : (wd.addRow row).monitorTotal id =
    wd.monitorTotal id + if row.1.1 = id then row.2 else 0 := by
  obtain ⟨⟨rid, rb⟩, c⟩ := row
  by_cases hid : id = rid
  · simp [WindowData.addRow, WindowData.monitorTotal, hid]
  · simp [WindowData.addRow, WindowData.monitorTotal, hid, Ne.symm hid]

private theorem bucket_foldl (rows : List ((String × ℕ) × Counts)) :
    (rows.foldl WindowData.addRow wd).bucket id b = wd.bucket id b +
      sumOver (fun row => row.1.1 = id ∧
        (if row.1.2 ≥ numBars then numBars - 1 else row.1.2) = b) Prod.snd rows := by
  refine (foldl_add (g := WindowData.addRow) (F := fun wd => wd.bucket id b)
    (fun _ _ => bucket_addRow) wd rows).trans ?_
  rw [sum_map_ite]

private theorem monitorTotal_foldl (rows : List ((String × ℕ) × Counts)) :
    (rows.foldl WindowData.addRow wd).monitorTotal id = wd.monitorTotal id +
      sumOver (fun row => row.1.1 = id) Prod.snd rows := by
  refine (foldl_add (g := WindowData.addRow) (F := fun wd => wd.monitorTotal id)
    (fun _ _ => monitorTotal_addRow) wd rows).trans ?_
  rw [sum_map_ite]

end

section

variable {start size : ℕ} {mid : String} {rs : List CheckResult}
  {rows : List ((String × ℕ) × Counts)} {irows : List (String × ℕ)} {id : String}

/-- What `loadWindow` counts in a bar. -/
theorem bucket_loadWindow (hrows : rows.Perm (windowRows rs start size mid))
    (hmid : mid = "" ∨ id = mid) (b : ℕ) :
    (loadWindow start size rows irows).bucket id b =
      sumOver (fun r => (start ≤ r.time ∧ r.monitorID = id) ∧ barOf start size r.time = b)
        CheckResult.counts rs := by
  have hfold : (loadWindow start size rows irows).bucket id b =
      0 + sumOver (fun row => row.1.1 = id ∧
        (if row.1.2 ≥ numBars then numBars - 1 else row.1.2) = b) Prod.snd rows :=
    bucket_foldl rows
  rw [hfold, zero_add, sumOver_perm _ hrows, windowRows,
    sum_groups fun k : String × ℕ => k.1 = id ∧ (if k.2 ≥ numBars then numBars - 1 else k.2) = b,
    sumOver_filter]
  refine sumOver_congr _ fun r _ => ?_
  simp only [barOf]
  constructor
  · rintro ⟨⟨htime, -⟩, hid, hb⟩
    exact ⟨⟨htime, hid⟩, hb⟩
  · rintro ⟨⟨htime, rfl⟩, hb⟩
    exact ⟨⟨htime, hmid⟩, rfl, hb⟩

private theorem monitorTotal_loadWindow (hrows : rows.Perm (windowRows rs start size mid))
    (hmid : mid = "" ∨ id = mid) :
    (loadWindow start size rows irows).monitorTotal id =
      sumOver (fun r => start ≤ r.time ∧ r.monitorID = id) CheckResult.counts rs := by
  have hfold : (loadWindow start size rows irows).monitorTotal id =
      0 + sumOver (fun row => row.1.1 = id) Prod.snd rows :=
    monitorTotal_foldl rows
  rw [hfold, zero_add, sumOver_perm _ hrows, windowRows, sum_groups fun k : String × ℕ => k.1 = id,
    sumOver_filter]
  refine sumOver_congr _ fun r _ => ?_
  constructor
  · rintro ⟨⟨htime, -⟩, hid⟩
    exact ⟨htime, hid⟩
  · rintro ⟨htime, rfl⟩
    exact ⟨⟨htime, hmid⟩, rfl⟩

private theorem barOf_lt (start size t : ℕ) : barOf start size t < numBars := by
  rw [barOf]
  split_ifs <;> simp_all [numBars]

private theorem barOf_eq_iff {i t : ℕ} (hsize : 0 < size) (hi : i < numBars) (ht : start ≤ t) :
    barOf start size t = i ↔ InBar start size i t := by
  have hlow : i ≤ (t - start) / size ↔ start + size * i ≤ t := by
    rw [Nat.le_div_iff_mul_le hsize, Nat.mul_comm]
    omega
  have hhigh : (t - start) / size < i + 1 ↔ t < start + size * (i + 1) := by
    rw [Nat.div_lt_iff_lt_mul hsize, Nat.mul_comm]
    omega
  rw [InBar, ← hlow, ← hhigh, barOf]
  split_ifs <;> omega

/-- Up to the end of the window, the bars of the query are those of `BucketIndex`. -/
theorem bucketIndex_eq {t : ℕ} (hlow : start ≤ t)
    (hhigh : t ≤ start + size * numBars) :
    bucketIndex t start size numBars = some (barOf start size t) := by
  have hend : (t - start) / size = numBars → t - start = size * numBars := by
    intro hdiv
    have hle : numBars * size ≤ t - start := by
      rw [← hdiv]
      exact Nat.div_mul_le_self ..
    rw [Nat.mul_comm] at hle
    omega
  have hle : (t - start) / size ≤ numBars := by
    refine Nat.div_le_of_le_mul ?_
    omega
  rw [bucketIndex, if_neg (not_lt.mpr hlow), barOf]
  dsimp only
  split_ifs with hge hboth
  · rfl
  · exact absurd ⟨le_antisymm hle hge, hend (le_antisymm hle hge)⟩ hboth
  · rfl

private theorem fixed_foldl (wd : WindowData) : (rows.foldl WindowData.addRow wd).start = wd.start ∧
    (rows.foldl WindowData.addRow wd).size = wd.size := by
  induction rows generalizing wd with
  | nil => exact ⟨rfl, rfl⟩
  | cons row rows ih => exact ih (wd.addRow row)

private theorem start_loadWindow : (loadWindow start size rows irows).start = start :=
  (fixed_foldl { start, size }).1

private theorem size_loadWindow : (loadWindow start size rows irows).size = size :=
  (fixed_foldl { start, size }).2

/-- The start of the window that ends now, and the size of its bars. -/
def windowOf (now : ℕ) (w : String) : ℕ × ℕ :=
  (now - (windowDuration w).2, (windowDuration w).2 / numBars)

private theorem windowOf_size_pos (now : ℕ) (w : String) : 0 < (windowOf now w).2 := by
  rw [windowOf, windowDuration]
  split_ifs <;> exact Nat.div_pos (by simp only [numBars, hour]; omega) (Nat.succ_pos _)

namespace Example

/-- Half past ten. -/
def now : ℕ := 1000 * hour + hour / 2

/-- An HTTP monitor, and a disabled one. -/
def site : MonitorRow where
  name := "web"
  target := "https://example.test"
  status := .degraded
  id := "m1"

/-- A monitor that is disabled, and was down before. -/
def old : MonitorRow where
  name := "old"
  target := "https://old.test"
  enabled := false
  status := .down
  id := "m2"

/-- Checks of two monitors, the first of them before the window. -/
def checks : List CheckResult :=
  [⟨"m1", 900 * hour, .down, 0⟩, ⟨"m1", 999 * hour, .up, 40⟩, ⟨"m2", 1000 * hour, .down, 0⟩,
    ⟨"m1", 1000 * hour, .degraded, 2100⟩]

/-- An incident that began before the window. -/
def incidents : List IncidentRow := [⟨"m1", 900 * hour, some (1000 * hour)⟩]

/-- The rows of the query for the last day, the last one first. -/
def lastDay : List ((String × ℕ) × Counts) :=
  (windowRows checks (windowOf now "24h").1 (windowOf now "24h").2 "").reverse

end Example

/-- **Bars.** Whatever order the rows of the query come in, a bar shows the checks between its two
ends, and the bars add up to the window: each check of the window is shown in one bar. -/
theorem bars_view (now : ℕ) (w : String) (m : MonitorRow)
    (hrows : rows.Perm (windowRows rs (windowOf now w).1 (windowOf now w).2 mid))
    (hmid : mid = "" ∨ m.id = mid) :
    let v := (loadWindow (windowOf now w).1 (windowOf now w).2 rows irows).view m
    let shown (i : ℕ) := sumOver (fun r => r.monitorID = m.id ∧
      InBar (windowOf now w).1 (windowOf now w).2 i r.time) CheckResult.counts rs
    v.bars = (List.range numBars).map (fun i =>
        { status := (shown i).bucketStatus
          counts := shown i
          start := (windowOf now w).1 + (windowOf now w).2 * i
          stop := (windowOf now w).1 + (windowOf now w).2 * (i + 1) }) ∧
      v.counts = (v.bars.map Bar.counts).sum ∧
      v.counts = sumOver (fun r => r.monitorID = m.id ∧ (windowOf now w).1 ≤ r.time)
        CheckResult.counts rs := by
  have hsize := windowOf_size_pos now w
  generalize windowOf now w = win at hrows hsize
  obtain ⟨start, size⟩ := win
  dsimp only at hrows hsize ⊢
  have hshown : ∀ i < numBars, (loadWindow start size rows irows).bucket m.id i =
      sumOver (fun r => r.monitorID = m.id ∧ InBar start size i r.time) CheckResult.counts rs := by
    intro i hi
    rw [bucket_loadWindow hrows hmid]
    refine sumOver_congr _ fun r _ => ?_
    constructor
    · rintro ⟨⟨htime, hid⟩, hbar⟩
      exact ⟨hid, (barOf_eq_iff hsize hi htime).mp hbar⟩
    · rintro ⟨hid, hbar⟩
      have htime : start ≤ r.time := (Nat.le_add_right ..).trans hbar.1
      exact ⟨⟨htime, hid⟩, (barOf_eq_iff hsize hi htime).mpr hbar⟩
  have htotal : (loadWindow start size rows irows).monitorTotal m.id =
      sumOver (fun r => start ≤ r.time ∧ r.monitorID = m.id) CheckResult.counts rs :=
    monitorTotal_loadWindow hrows hmid
  refine ⟨?_, ?_, ?_⟩
  · refine List.map_congr_left fun i hi => ?_
    simp only [hshown i (List.mem_range.mp hi), start_loadWindow, size_loadWindow]
  · -- a check of the window is in the one bar that it was added to
    have hbars := sum_sumOver (f := CheckResult.counts) (List.nodup_range (n := numBars))
      (fun _ => True) (l := rs.filter fun r => start ≤ r.time ∧ r.monitorID = m.id)
      (fun r _ _ => List.mem_range.mpr (barOf_lt start size r.time))
    simp only [decide_true, List.filter_true, sumOver_filter, and_true] at hbars
    refine htotal.trans (hbars.symm.trans ?_)
    simp only [WindowData.view, buildBars, List.map_map, Function.comp_def, start_loadWindow,
      size_loadWindow, bucket_loadWindow hrows hmid]
  · exact htotal.trans (sumOver_congr _ fun r _ => and_comm)

/-- The bars of a monitor over the last day, with a check from before. -/
theorem bars_view_lastDay :
    let v :=
      (loadWindow (windowOf Example.now "24h").1 (windowOf Example.now "24h").2 Example.lastDay
      []).view Example.site
    let shown (i : ℕ) := sumOver (fun r => r.monitorID = Example.site.id ∧
      InBar (windowOf Example.now "24h").1 (windowOf Example.now "24h").2 i r.time)
        CheckResult.counts Example.checks
    v.bars = (List.range numBars).map (fun i =>
        { status := (shown i).bucketStatus
          counts := shown i
          start := (windowOf Example.now "24h").1 + (windowOf Example.now "24h").2 * i
          stop := (windowOf Example.now "24h").1 + (windowOf Example.now "24h").2 * (i + 1) }) ∧
      v.counts = (v.bars.map Bar.counts).sum ∧
      v.counts = sumOver (fun r => r.monitorID = Example.site.id ∧ (windowOf Example.now "24h").1 ≤
        r.time)
        CheckResult.counts Example.checks :=
  bars_view Example.now "24h" Example.site (List.reverse_perm _) (.inl rfl)

/-! ### Incidents -/

/-- A loop that stores what it reads, under keys that do not repeat. -/
theorem get?_foldl_set {l : List (String × ℕ)} (hl : (l.map Prod.fst).Nodup) {d : Dict String ℕ}
    (hd : ∀ e ∈ l, d.get? e.1 = none) :
    ((l.foldl (fun m e => m.set e.1 e.2) d).get? id).getD 0 =
      (d.get? id).getD 0 + sumOver (·.1 = id) Prod.snd l := by
  induction l generalizing d with
  | nil => simp
  | cons e l ih =>
    obtain ⟨hnot, hl⟩ := List.nodup_cons.mp hl
    obtain ⟨he, hd⟩ := List.forall_mem_cons.mp hd
    have hfresh : ∀ e' ∈ l, (d.set e.1 e.2).get? e'.1 = none := by
      intro e' he'
      have hne : e'.1 ≠ e.1 := fun h => hnot (h ▸ List.mem_map_of_mem he')
      rw [Dict.get?_set, if_neg hne, hd e' he']
    rw [List.foldl_cons, ih hl hfresh, sumOver_cons, Dict.get?_set, ← Nat.add_assoc]
    by_cases hid : id = e.1
    · subst hid
      simp [he]
    · simp [hid, Ne.symm hid]

private theorem incidents_loadWindow {is : List IncidentRow}
    (hirows : irows.Perm (incidentRows is start))
    (id : String) : ((loadWindow start size rows irows).incidents.get? id).getD 0 =
      sumOver (fun i => (start ≤ i.startedAt ∨ ∀ t ∈ i.endedAt, start ≤ t) ∧ i.monitorID = id)
        (fun _ => 1) is := by
  have hnodup : (irows.map Prod.fst).Nodup := (hirows.map _).nodup_iff.mpr (nodup_groups _)
  refine (get?_foldl_set hnodup fun _ _ => rfl).trans ?_
  rw [Dict.get?_empty, Option.getD_none, Nat.zero_add, sumOver_perm _ hirows, incidentRows,
    sum_groups (· = id), sumOver_filter]

/-! ### All monitors -/

private theorem all_addStats (wd : WindowData) (st : Stats) (m : MonitorRow) :
    (wd.addStats st m).all = st.all + if m.enabled then wd.monitorTotal m.id else 0 := by
  cases hm : m.enabled <;> simp [WindowData.addStats, hm]

private theorem incidents_addStats (wd : WindowData) (st : Stats) (m : MonitorRow) :
    (wd.addStats st m).incidents =
      st.incidents + if m.enabled then (wd.incidents.get? m.id).getD 0 else 0 := by
  cases hm : m.enabled <;> simp [WindowData.addStats, hm, WindowData.view]

private theorem monitorsUp_addStats (wd : WindowData) (st : Stats) (m : MonitorRow) :
    (wd.addStats st m).monitorsUp = st.monitorsUp +
      if m.enabled ∧ (m.status = .up ∨ m.status = .degraded) then 1 else 0 := by
  cases hm : m.enabled <;> simp [WindowData.addStats, hm, WindowData.view]

/-- Over the monitors that are enabled, sums by monitor are the sum over what belongs to one of
them. -/
theorem sum_enabled {α M : Type} [AddCommMonoid M] {ms : List MonitorRow}
    (hms : (ms.map MonitorRow.id).Nodup) (key : α → String) (f : α → M) (l : List α) :
    (ms.map fun m => if m.enabled then sumOver (key · = m.id) f l else 0).sum =
      sumOver (fun a => ∃ m ∈ ms, m.enabled ∧ key a = m.id) f l := by
  have hnodup : ((ms.filter fun m => m.enabled).map MonitorRow.id).Nodup :=
    hms.sublist (List.filter_sublist.map _)
  have hsum : (ms.map fun m => if m.enabled then sumOver (key · = m.id) f l else 0).sum =
      (((ms.filter fun m => m.enabled).map MonitorRow.id).map fun k =>
        sumOver (key · = k) f l).sum := by
    rw [sum_map_ite, sumOver]
    simp [List.map_map, Function.comp_def]
  rw [hsum, sum_sumOver_mem hnodup]
  refine sumOver_congr _ fun a _ => ⟨fun h => ?_, fun h => ?_⟩
  · obtain ⟨m, hm, hid⟩ := List.mem_map.mp h
    obtain ⟨hm, henabled⟩ := List.mem_filter.mp hm
    exact ⟨m, hm, henabled, hid.symm⟩
  · obtain ⟨m, hm, henabled, hid⟩ := h
    exact List.mem_map.mpr ⟨m, List.mem_filter.mpr ⟨hm, henabled⟩, hid.symm⟩

/-- **The overview.** Its counts are those of all checks in the window whose monitor is enabled,
and its incidents those that reach into the window. -/
theorem stats_loadWindow {is : List IncidentRow} {ms : List MonitorRow}
    (hrows : rows.Perm (windowRows rs start size "")) (hirows : irows.Perm (incidentRows is start))
    (hms : (ms.map MonitorRow.id).Nodup) :
    let st := (loadWindow start size rows irows).stats ms
    st.all = sumOver (fun r => start ≤ r.time ∧ ∃ m ∈ ms, m.enabled ∧ r.monitorID = m.id)
        CheckResult.counts rs ∧
      st.incidents = sumOver (fun i => (start ≤ i.startedAt ∨ ∀ t ∈ i.endedAt, start ≤ t) ∧
        ∃ m ∈ ms, m.enabled ∧ i.monitorID = m.id) (fun _ => 1) is ∧
      st.monitorsUp =
        ms.countP fun m => m.enabled ∧ (m.status = .up ∨ m.status = .degraded) := by
  refine ⟨?_, ?_, ?_⟩
  · refine (foldl_add (F := Stats.all) (all_addStats _) {} ms).trans ?_
    simp only [monitorTotal_loadWindow hrows (.inl rfl)]
    refine (zero_add _).trans (Eq.trans ?_ ((sum_enabled hms CheckResult.monitorID
      CheckResult.counts (rs.filter fun r => start ≤ r.time)).trans (sumOver_filter ..)))
    simp only [sumOver_filter]
  · refine (foldl_add (F := Stats.incidents) (incidents_addStats _) {} ms).trans ?_
    simp only [incidents_loadWindow hirows]
    refine (zero_add _).trans (Eq.trans ?_ ((sum_enabled hms IncidentRow.monitorID (fun _ => 1)
      (is.filter fun i => start ≤ i.startedAt ∨ ∀ t ∈ i.endedAt, start ≤ t)).trans
        (sumOver_filter ..)))
    simp only [sumOver_filter]
  · refine (foldl_add (F := Stats.monitorsUp) (monitorsUp_addStats _) {} ms).trans ?_
    rw [sum_map_ite, List.countP_eq_length_filter]
    simp [sumOver]

/-- The sums over the same checks, where the disabled monitor does not count. -/
theorem stats_loadWindow_lastDay :
    let start := (windowOf Example.now "24h").1
    let st := (loadWindow start (windowOf Example.now "24h").2 Example.lastDay
      (incidentRows Example.incidents start)).stats [Example.site, Example.old]
    st.all = sumOver (fun r => start ≤ r.time ∧
      ∃ m ∈ [Example.site, Example.old], m.enabled ∧ r.monitorID = m.id)
        CheckResult.counts Example.checks ∧
      st.incidents = sumOver (fun i => (start ≤ i.startedAt ∨ ∀ t ∈ i.endedAt, start ≤ t) ∧
        ∃ m ∈ [Example.site, Example.old], m.enabled ∧ i.monitorID = m.id) (fun _ => 1)
          Example.incidents ∧
      st.monitorsUp =
        [Example.site, Example.old].countP fun m => m.enabled ∧
          (m.status = .up ∨ m.status = .degraded) :=
  stats_loadWindow (List.reverse_perm _) (List.Perm.refl _) (by decide)

/-! ### The public page -/

/-- A status that the page shows as trouble. -/
def Bad (st : Status) : Prop := st = .degraded ∨ st = .down

instance (st : Status) : Decidable (Bad st) := inferInstanceAs (Decidable (_ ∨ _))

private theorem status_addPublic (wd : WindowData) (p : PublicStatus) (m : MonitorRow) :
    ((wd.addPublic p m).status = .down ↔ p.status = .down ∨ (wd.view m).status = .down) ∧
      (Bad (wd.addPublic p m).status ↔ Bad p.status ∨ Bad (wd.view m).status) ∧
      (¬ Bad (wd.view m).status → (wd.addPublic p m).status = p.status) := by
  simp only [WindowData.addPublic]
  generalize (wd.view m).status = b
  generalize p.status = a
  cases a <;> cases b <;> decide

private theorem status_foldl (wd : WindowData) (p : PublicStatus) (ms : List MonitorRow) :
    let st := (ms.foldl wd.addPublic p).status
    (st = .down ↔ p.status = .down ∨ ∃ m ∈ ms, (wd.view m).status = .down) ∧
      (Bad st ↔ Bad p.status ∨ ∃ m ∈ ms, Bad (wd.view m).status) ∧
      ((∀ m ∈ ms, ¬ Bad (wd.view m).status) → st = p.status) := by
  induction ms generalizing p with
  | nil => simp
  | cons m ms ih =>
    obtain ⟨hdown, hbad, hsame⟩ := ih (wd.addPublic p m)
    obtain ⟨hdown', hbad', hsame'⟩ := status_addPublic wd p m
    simp only [List.foldl_cons, List.exists_mem_cons_iff, List.forall_mem_cons]
    refine ⟨?_, ?_, fun ⟨hm, hms⟩ => (hsame hms).trans (hsame' hm)⟩
    · rw [hdown, hdown', or_assoc]
    · rw [hbad, hbad', or_assoc]

private theorem monitors_foldl (wd : WindowData) (p : PublicStatus) (ms : List MonitorRow) :
    (ms.foldl wd.addPublic p).monitors = p.monitors ++ ms.map wd.view := by
  induction ms generalizing p with
  | nil => simp
  | cons m ms ih =>
    rw [List.foldl_cons, ih, List.map_cons]
    simp [WindowData.addPublic]

/-- **The public page.** It shows the monitors that are enabled, by name; its status is the worst
of theirs, where only trouble counts; and its counts are those of all their checks. -/
theorem publicStatus_loadWindow {ms : List MonitorRow}
    (hrows : rows.Perm (windowRows rs start size "")) (hms : (ms.map MonitorRow.id).Nodup) :
    let wd := loadWindow start size rows irows
    let p := wd.publicStatus ms
    (p.status = .down ↔ ∃ m ∈ ms, m.enabled ∧ m.status = .down) ∧
      (p.status = .degraded ↔ (∃ m ∈ ms, m.enabled ∧ m.status = .degraded) ∧
        ∀ m ∈ ms, m.enabled → m.status ≠ .down) ∧
      (p.status = .up ↔ ∀ m ∈ ms, m.enabled → m.status ≠ .degraded ∧ m.status ≠ .down) ∧
      p.monitors.Perm ((ms.filter fun m => m.enabled).map wd.view) ∧
      p.monitors.Pairwise (fun a b => a.name ≤ b.name) ∧
      p.all = sumOver (fun r => start ≤ r.time ∧ ∃ m ∈ ms, m.enabled ∧ r.monitorID = m.id)
        CheckResult.counts rs := by
  intro wd p
  have hstatus : ∀ m ∈ ms.filter fun m => m.enabled, (wd.view m).status = m.status := by
    intro m hm
    have henabled := (List.mem_filter.mp hm).2
    simp [WindowData.view, henabled]
  obtain ⟨hdown, hbad, hsame⟩ := status_foldl wd {} (ms.filter fun m => m.enabled)
  have hdown' : p.status = .down ↔ ∃ m ∈ ms, m.enabled ∧ m.status = .down := by
    refine hdown.trans ⟨?_, ?_⟩
    · rintro (hup | ⟨m, hm, hst⟩)
      · cases hup
      · rw [hstatus m hm] at hst
        exact ⟨m, (List.mem_filter.mp hm).1, (List.mem_filter.mp hm).2, hst⟩
    · rintro ⟨m, hm, henabled, hst⟩
      have hmem := (List.mem_filter (p := fun m => m.enabled)).mpr ⟨hm, henabled⟩
      exact .inr ⟨m, hmem, (hstatus m hmem).trans hst⟩
  have hbad' : Bad p.status ↔ ∃ m ∈ ms, m.enabled ∧ Bad m.status := by
    refine hbad.trans ⟨?_, ?_⟩
    · rintro (hup | ⟨m, hm, hst⟩)
      · rcases hup with hup | hup <;> cases hup
      · rw [hstatus m hm] at hst
        exact ⟨m, (List.mem_filter.mp hm).1, (List.mem_filter.mp hm).2, hst⟩
    · rintro ⟨m, hm, henabled, hst⟩
      have hmem := (List.mem_filter (p := fun m => m.enabled)).mpr ⟨hm, henabled⟩
      exact .inr ⟨m, hmem, by rwa [hstatus m hmem]⟩
  have hup : ¬ Bad p.status → p.status = .up := by
    intro hnot
    refine hsame fun m hm hst => hnot (hbad.mpr (.inr ⟨m, hm, hst⟩))
  refine ⟨hdown', ?_, ?_, ?_, ?_, ?_⟩
  · have hiff : p.status = .degraded ↔ Bad p.status ∧ p.status ≠ .down := by
      rw [Bad]
      generalize p.status = st
      cases st <;> decide
    rw [hiff, hbad', Ne, hdown']
    constructor
    · rintro ⟨⟨m, hm, henabled, hst⟩, hnot⟩
      refine ⟨⟨m, hm, henabled, hst.resolve_right fun h => hnot ⟨m, hm, henabled, h⟩⟩, ?_⟩
      exact fun m' hm' henabled' h => hnot ⟨m', hm', henabled', h⟩
    · rintro ⟨⟨m, hm, henabled, hst⟩, hall⟩
      exact ⟨⟨m, hm, henabled, .inl hst⟩, fun ⟨m', hm', henabled', h⟩ => hall m' hm' henabled' h⟩
  · constructor
    · intro hst m hm henabled
      have hnot : ¬ Bad p.status := by rw [hst]; decide
      rw [hbad'] at hnot
      exact ⟨fun h => hnot ⟨m, hm, henabled, .inl h⟩, fun h => hnot ⟨m, hm, henabled, .inr h⟩⟩
    · intro hall
      refine hup fun hnot => ?_
      obtain ⟨m, hm, henabled, hst⟩ := hbad'.mp hnot
      exact hst.elim (hall m hm henabled).1 (hall m hm henabled).2
  · refine (List.mergeSort_perm _ _).trans ?_
    rw [monitors_foldl]
    rfl
  · have hsorted : p.monitors.Pairwise fun a b => decide (a.name ≤ b.name) = true :=
      List.pairwise_mergeSort
        (fun a b c hab hbc => decide_eq_true ((of_decide_eq_true hab).trans
          (of_decide_eq_true hbc)))
        (fun a b => by simpa using le_total a.name b.name) _
    exact hsorted.imp of_decide_eq_true
  · have hall : p.all = 0 + ((ms.filter fun m => m.enabled).map fun m =>
      wd.monitorTotal m.id).sum :=
      foldl_add (F := PublicStatus.all) (fun _ _ => rfl) {} _
    have hsum : ((ms.filter fun m => m.enabled).map fun m => wd.monitorTotal m.id).sum =
        (ms.map fun m => if m.enabled then wd.monitorTotal m.id else 0).sum := by
      rw [sum_map_ite, sumOver]
      simp
    rw [hall, hsum, zero_add, ← sumOver_filter, ← sum_enabled hms]
    simp only [wd, monitorTotal_loadWindow hrows (.inl rfl), sumOver_filter]

/-- The page of the same monitors: the disabled one, which was down, does not count. -/
theorem publicStatus_loadWindow_lastDay :
    let start := (windowOf Example.now "24h").1
    let wd := loadWindow start (windowOf Example.now "24h").2 Example.lastDay []
    let p := wd.publicStatus [Example.site, Example.old]
    (p.status = .down ↔ ∃ m ∈ [Example.site, Example.old], m.enabled ∧ m.status = .down) ∧
      (p.status = .degraded ↔
        (∃ m ∈ [Example.site, Example.old], m.enabled ∧ m.status = .degraded) ∧
        ∀ m ∈ [Example.site, Example.old], m.enabled → m.status ≠ .down) ∧
      (p.status = .up ↔
        ∀ m ∈ [Example.site, Example.old], m.enabled → m.status ≠ .degraded ∧ m.status ≠ .down) ∧
      p.monitors.Perm (([Example.site, Example.old].filter fun m => m.enabled).map wd.view) ∧
      p.monitors.Pairwise (fun a b => a.name ≤ b.name) ∧
      p.all = sumOver (fun r => start ≤ r.time ∧
        ∃ m ∈ [Example.site, Example.old], m.enabled ∧ r.monitorID = m.id) CheckResult.counts
          Example.checks :=
  publicStatus_loadWindow (List.reverse_perm _) (by decide)

end

end Dockhand.Uptime
