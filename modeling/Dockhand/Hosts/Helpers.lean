import Mathlib.Data.List.Basic
import Mathlib.Data.List.Nodup
import Mathlib.Data.Int.Order.Basic
import Mathlib.Tactic.Linarith

/-!
# Helper containers

Dockhand starts short-lived containers for host shells, commands on the host, volume backups, git
reads and self-updates. `sweepHelpers` removes those that an earlier process has left on a host.
Whose a helper is, the sweep infers from the creation time, which the daemon reports in whole
seconds, from the shells that are open and from the kind of the helper, which its label says.
-/

namespace Dockhand.Hosts.Helpers

/-- What the daemon reports of a container with the label `dockhand.helper`. -/
structure Summary where
  id : String
  helper : String
  state : String
  /-- In seconds. -/
  created : ℤ
  deriving DecidableEq, Repr

/-- The nanoseconds of a second. -/
def second : ℤ := 1000000000

/-- The nanoseconds of a minute. -/
def minute : ℤ := 60 * second

/-- `time.Unix(c.Created, 0)`, in nanoseconds as every other time. -/
def Summary.createdAt (c : Summary) : ℤ := c.created * second

/-- The helper of a task that its process waits for. -/
def Summary.IsTask (c : Summary) : Prop := c.helper = "backup" ∨ c.helper = "git"

instance : DecidablePred Summary.IsTask := fun _ => inferInstanceAs (Decidable (_ ∨ _))

section Sweep

variable (processStart : ℤ) (now : Summary → ℤ) (activeShells : List String)

/-- The helper is removed by the rule of its kind. The time `now c` is read when the sweep comes
to the container. -/
def orphan (c : Summary) : Bool :=
  if c.helper = "host-shell" then
    !(decide (c.id ∈ activeShells)) &&
      (decide (c.createdAt < processStart) || decide (minute < now c - c.createdAt))
  else if c.helper = "backup" ∨ c.helper = "git" then c.createdAt < processStart
  else false

/-- The updater outlives the API it replaces. Those that do not run are collected. -/
def stoppedUpdater (c : Summary) : Bool := c.helper = "self-update" && c.state ≠ "running"

/-- `sweepHelpers` removes orphaned helper containers on one host. The value is the containers it
removes, in this order, for a list of the daemon or an error. -/
def sweepHelpers (sort : List Summary → List Summary) : Option (List Summary) → List Summary
  | none => []
  | some list =>
    list.filter (orphan processStart now activeShells) ++ (sort (list.filter stoppedUpdater)).tail

end Sweep

/-- What `sort.Slice` does, which need not keep the order of equal elements. -/
structure SortsNewestFirst (sort : List Summary → List Summary) : Prop where
  perm : ∀ l, (sort l).Perm l
  sorted : ∀ l, (sort l).Pairwise fun a b => b.created ≤ a.created

/-- The kinds of helper that Dockhand creates. -/
def helperKinds : List String := ["host-shell", "host-exec", "backup", "git", "self-update"]

/-- The helpers of a host with what the sweep has to find out of them. -/
structure World where
  list : List Summary
  activeShells : List String
  /-- The current process has started the helper. -/
  mine : Summary → Bool
  /-- A backup, a git read or a command still runs in the helper. -/
  busy : Summary → Bool
  ids : (list.map Summary.id).Nodup
  kinds : ∀ c ∈ list, c.helper ∈ helperKinds
  /-- The shells are those of the current process. -/
  shells_mine : ∀ c ∈ list, c.id ∈ activeShells → mine c = true

namespace World

/-- The current process has started the helper and still uses it. -/
def InUse (w : World) (c : Summary) : Prop :=
  w.mine c = true ∧
    if c.helper = "host-shell" then c.id ∈ w.activeShells
    else if c.helper = "self-update" then c.state = "running"
    else w.busy c = true

/-- The helper is the one stopped updater that is kept, and none is newer. -/
def NewestStopped (w : World) (removed : List Summary) (c : Summary) : Prop :=
  stoppedUpdater c = true ∧ ∀ u ∈ w.list, stoppedUpdater u = true →
    u.created ≤ c.created ∧ (u ≠ c → u ∈ removed)

/-- Exactly the orphans are removed. -/
structure Swept (w : World) (removed : List Summary) : Prop where
  keeps : ∀ c ∈ w.list, w.InUse c → c ∉ removed
  removes : ∀ c ∈ w.list, w.mine c = false → c ∉ removed →
    (c.helper = "self-update" ∧ c.state = "running") ∨ w.NewestStopped removed c

/-- The reported times tell whose the helpers are, and no command of an earlier process is left. -/
structure Told (w : World) (processStart : ℤ) (now : Summary → ℤ) : Prop where
  exec : ∀ c ∈ w.list, w.mine c = false → c.helper ≠ "host-exec"
  left : ∀ c ∈ w.list, w.mine c = false → c.IsTask → c.createdAt < processStart
  shell : ∀ c ∈ w.list, w.mine c = false → c.helper = "host-shell" →
    c.createdAt < processStart ∨ minute < now c - c.createdAt
  used : ∀ c ∈ w.list, w.mine c = true → w.busy c = true → c.IsTask → processStart ≤ c.createdAt

/-! ### What is removed -/

variable {w : World} {processStart : ℤ} {now : Summary → ℤ} {sort : List Summary → List Summary}

/-- The containers that a sweep of the host removes. -/
def removed (w : World) (processStart : ℤ) (now : Summary → ℤ)
    (sort : List Summary → List Summary) : List Summary :=
  sweepHelpers processStart now w.activeShells sort (some w.list)

private theorem mem_removed_of_not_updater {c : Summary} (hsort : SortsNewestFirst sort)
    (hc : c ∈ w.list) (hkind : stoppedUpdater c = false) :
    c ∈ w.removed processStart now sort ↔ orphan processStart now w.activeShells c = true := by
  have hupdater : c ∉ (sort (w.list.filter stoppedUpdater)).tail := by
    intro hmem
    have hstopped := (hsort.perm _).subset (List.mem_of_mem_tail hmem)
    rw [List.mem_filter, hkind] at hstopped
    exact Bool.false_ne_true hstopped.2
  simp [removed, sweepHelpers, hupdater, hc]

private theorem mem_removed_of_updater {c : Summary} (hkind : stoppedUpdater c = true) :
    c ∈ w.removed processStart now sort ↔ c ∈ (sort (w.list.filter stoppedUpdater)).tail := by
  have horphan : orphan processStart now w.activeShells c = false := by
    rw [stoppedUpdater, Bool.and_eq_true, decide_eq_true_eq] at hkind
    simp [orphan, hkind.1]
  simp [removed, sweepHelpers, horphan]

private theorem nodup (w : World) : w.list.Nodup := w.ids.of_map _

/-- Of the stopped updaters all but one are removed, and the one that stays is the newest. -/
theorem newestStopped_of_not_mem {c : Summary} (hsort : SortsNewestFirst sort) (hc : c ∈ w.list)
    (hkind : stoppedUpdater c = true) (hkept : c ∉ w.removed processStart now sort) :
    w.NewestStopped (w.removed processStart now sort) c := by
  have hnodup : (sort (w.list.filter stoppedUpdater)).Nodup :=
    (hsort.perm _).nodup_iff.mpr (w.nodup.filter _)
  have hsorted := hsort.sorted (w.list.filter stoppedUpdater)
  have hmem : ∀ u, u ∈ sort (w.list.filter stoppedUpdater) ↔ u ∈ w.list ∧ stoppedUpdater u = true :=
    fun u => (hsort.perm _).mem_iff.trans List.mem_filter
  rw [mem_removed_of_updater hkind] at hkept
  refine ⟨hkind, fun u hu hstopped => ?_⟩
  rw [mem_removed_of_updater hstopped]
  have hcmem := (hmem c).mpr ⟨hc, hkind⟩
  have humem := (hmem u).mpr ⟨hu, hstopped⟩
  cases hsorting : sort (w.list.filter stoppedUpdater) with
  | nil =>
    rw [hsorting] at hcmem
    cases hcmem
  | cons newest rest =>
    rw [hsorting, List.tail_cons] at hkept
    rw [hsorting, List.mem_cons] at hcmem humem
    rw [hsorting, List.pairwise_cons] at hsorted
    obtain rfl : c = newest := hcmem.resolve_right hkept
    rw [List.tail_cons]
    rcases humem with rfl | hrest
    · exact ⟨le_refl _, fun hne => absurd rfl hne⟩
    · exact ⟨hsorted.1 u hrest, fun _ => hrest⟩

/-! ### The sweep of a host -/

private theorem ne_of_isTask {c : Summary} (h : c.IsTask) :
    c.helper ≠ "host-shell" ∧ c.helper ≠ "self-update" := by
  rcases h with h | h <;> rw [h] <;> decide

private theorem stoppedUpdater_of_ne {c : Summary} (h : c.helper ≠ "self-update") :
    stoppedUpdater c = false := by
  simp [stoppedUpdater, h]

/-- The kinds that the sweep tells apart by time alone. -/
theorem mem_removed_of_task {c : Summary} (hsort : SortsNewestFirst sort) (hc : c ∈ w.list)
    (hkind : c.IsTask) : c ∈ w.removed processStart now sort ↔ c.createdAt < processStart := by
  obtain ⟨hshell, hupdater⟩ := ne_of_isTask hkind
  have htask : c.helper = "backup" ∨ c.helper = "git" := hkind
  rw [mem_removed_of_not_updater hsort hc (stoppedUpdater_of_ne hupdater), orphan, if_neg hshell,
    if_pos htask, decide_eq_true_eq]

private theorem mem_removed_of_shell {c : Summary} (hsort : SortsNewestFirst sort) (hc : c ∈ w.list)
    (hkind : c.helper = "host-shell") :
    c ∈ w.removed processStart now sort ↔ c.id ∉ w.activeShells ∧
      (c.createdAt < processStart ∨ minute < now c - c.createdAt) := by
  have hupdater : c.helper ≠ "self-update" := by
    rw [hkind]
    decide
  rw [mem_removed_of_not_updater hsort hc (stoppedUpdater_of_ne hupdater)]
  simp [orphan, hkind]

/-- No rule removes the container of a command. -/
theorem not_mem_removed_of_exec {c : Summary} (hsort : SortsNewestFirst sort) (hc : c ∈ w.list)
    (hkind : c.helper = "host-exec") : c ∉ w.removed processStart now sort := by
  have hupdater : c.helper ≠ "self-update" := by
    rw [hkind]
    decide
  rw [mem_removed_of_not_updater hsort hc (stoppedUpdater_of_ne hupdater)]
  simp [orphan, hkind]

private theorem not_mem_removed_of_running {c : Summary} (hsort : SortsNewestFirst sort)
    (hc : c ∈ w.list)
    (hkind : c.helper = "self-update") (hrunning : c.state = "running") :
    c ∉ w.removed processStart now sort := by
  rw [mem_removed_of_not_updater hsort hc (by simp [stoppedUpdater, hrunning])]
  simp [orphan, hkind]

private theorem told_of_swept (hsort : SortsNewestFirst sort)
    (h : w.Swept (w.removed processStart now sort)) : w.Told processStart now := by
  -- what is left and is no updater has been removed
  have hleft : ∀ c ∈ w.list, w.mine c = false → c.helper ≠ "self-update" →
      c ∈ w.removed processStart now sort := by
    intro c hc hmine hkind
    by_contra hkept
    rcases h.removes c hc hmine hkept with hrunning | hnewest
    · exact hkind hrunning.1
    · rw [NewestStopped, stoppedUpdater_of_ne hkind] at hnewest
      exact Bool.false_ne_true hnewest.1
  refine ⟨?_, ?_, ?_, ?_⟩
  · intro c hc hmine hkind
    have hupdater : c.helper ≠ "self-update" := by
      rw [hkind]
      decide
    exact not_mem_removed_of_exec hsort hc hkind (hleft c hc hmine hupdater)
  · intro c hc hmine hkind
    exact (mem_removed_of_task hsort hc hkind).mp (hleft c hc hmine (ne_of_isTask hkind).2)
  · intro c hc hmine hkind
    have hupdater : c.helper ≠ "self-update" := by
      rw [hkind]
      decide
    exact ((mem_removed_of_shell hsort hc hkind).mp (hleft c hc hmine hupdater)).2
  · intro c hc hmine hbusy hkind
    obtain ⟨hshell, hupdater⟩ := ne_of_isTask hkind
    have huse : w.InUse c := ⟨hmine, by rw [if_neg hshell, if_neg hupdater]; exact hbusy⟩
    exact not_lt.mp fun hlt => h.keeps c hc huse ((mem_removed_of_task hsort hc hkind).mpr hlt)

private theorem swept_of_told (hsort : SortsNewestFirst sort) (h : w.Told processStart now) :
    w.Swept (w.removed processStart now sort) := by
  refine ⟨?_, ?_⟩
  · rintro c hc ⟨hmine, huse⟩
    have hkind := w.kinds c hc
    simp only [helperKinds, List.mem_cons, List.not_mem_nil, or_false] at hkind
    rcases hkind with hkind | hkind | hkind | hkind | hkind
    · rw [if_pos hkind] at huse
      exact fun hmem => ((mem_removed_of_shell hsort hc hkind).mp hmem).1 huse
    · exact not_mem_removed_of_exec hsort hc hkind
    · have hbusy : w.busy c = true := by simpa [hkind] using huse
      rw [mem_removed_of_task hsort hc (Or.inl hkind), not_lt]
      exact h.used c hc hmine hbusy (Or.inl hkind)
    · have hbusy : w.busy c = true := by simpa [hkind] using huse
      rw [mem_removed_of_task hsort hc (Or.inr hkind), not_lt]
      exact h.used c hc hmine hbusy (Or.inr hkind)
    · have hrunning : c.state = "running" := by simpa [hkind] using huse
      exact not_mem_removed_of_running hsort hc hkind hrunning
  · intro c hc hmine hkept
    have hkind := w.kinds c hc
    simp only [helperKinds, List.mem_cons, List.not_mem_nil, or_false] at hkind
    rcases hkind with hkind | hkind | hkind | hkind | hkind
    · have hclosed : c.id ∉ w.activeShells := by
        intro hopen
        rw [w.shells_mine c hc hopen] at hmine
        cases hmine
      exact absurd ((mem_removed_of_shell hsort hc hkind).mpr
        ⟨hclosed, h.shell c hc hmine hkind⟩) hkept
    · exact absurd hkind (h.exec c hc hmine)
    · exact absurd ((mem_removed_of_task hsort hc (Or.inl hkind)).mpr
        (h.left c hc hmine (Or.inl hkind))) hkept
    · exact absurd ((mem_removed_of_task hsort hc (Or.inr hkind)).mpr
        (h.left c hc hmine (Or.inr hkind))) hkept
    · by_cases hrunning : c.state = "running"
      · exact Or.inl ⟨hkind, hrunning⟩
      · have hstopped : stoppedUpdater c = true := by simp [stoppedUpdater, hkind, hrunning]
        exact Or.inr (newestStopped_of_not_mem hsort hc hstopped hkept)

/-- A sweep removes exactly the orphans of a host when the reported times tell whose the helpers
are and no command of an earlier process is left, and only then. -/
theorem swept_iff (hsort : SortsNewestFirst sort) :
    w.Swept (w.removed processStart now sort) ↔ w.Told processStart now :=
  ⟨told_of_swept hsort, swept_of_told hsort⟩

/-! ### An honest clock -/

/-- The containers were created at the times `t` of the clock that the process reads, which the
daemon reports without the fraction of a second. -/
structure HonestClock (w : World) (processStart : ℤ) (t : Summary → ℤ) : Prop where
  reported : ∀ c ∈ w.list, c.created = t c / second
  after : ∀ c ∈ w.list, w.mine c = true → processStart ≤ t c
  before : ∀ c ∈ w.list, w.mine c = false → t c < processStart

/-- With such a clock a helper of an earlier process is always told by its time, and a task of the
current process unless it was started in the second in which the process started. -/
theorem told_iff_of_honestClock {t : Summary → ℤ} (h : w.HonestClock processStart t) :
    w.Told processStart now ↔
      (∀ c ∈ w.list, w.mine c = false → c.helper ≠ "host-exec") ∧
      ∀ c ∈ w.list, w.mine c = true → w.busy c = true → c.IsTask → processStart ≤ c.createdAt := by
  have hleft : ∀ c ∈ w.list, w.mine c = false → c.createdAt < processStart := by
    intro c hc hmine
    have hfloor : t c / second * second ≤ t c := Int.ediv_mul_le _ (by decide)
    rw [Summary.createdAt, h.reported c hc]
    exact hfloor.trans_lt (h.before c hc hmine)
  constructor
  · exact fun told => ⟨told.exec, told.used⟩
  · rintro ⟨hexec, hused⟩
    exact ⟨hexec, fun c hc hmine _ => hleft c hc hmine,
      fun c hc hmine _ => Or.inl (hleft c hc hmine), hused⟩

end World

/-! ### Two hosts -/

private theorem sortsNewestFirst_mergeSort :
    SortsNewestFirst fun l => l.mergeSort fun a b => decide (b.created ≤ a.created) where
  perm l := List.mergeSort_perm l _
  sorted l := by
    have htrans : ∀ a b c : Summary, decide (b.created ≤ a.created) →
        decide (c.created ≤ b.created) → decide (c.created ≤ a.created) := by
      intro a b c hab hbc
      rw [decide_eq_true_eq] at hab hbc ⊢
      exact hbc.trans hab
    have htotal : ∀ a b : Summary,
        decide (b.created ≤ a.created) || decide (a.created ≤ b.created) := by
      intro a b
      rw [Bool.or_eq_true, decide_eq_true_eq, decide_eq_true_eq]
      exact le_total b.created a.created
    exact (List.pairwise_mergeSort htrans htotal l).imp of_decide_eq_true

/-- A host with one helper. -/
def World.single (c : Summary) (mine busy : Bool) (hkind : c.helper ∈ helperKinds) : World where
  list := [c]
  activeShells := []
  mine _ := mine
  busy _ := busy
  ids := List.nodup_singleton _
  kinds _ hd := (List.mem_singleton.mp hd) ▸ hkind
  shells_mine _ _ h := absurd h List.not_mem_nil

/-- A host with helpers of every kind. The process of second 20 uses a shell, a backup and a
command, and an updater still runs; an earlier process has left a shell, two tasks and two stopped
updaters. -/
def World.everyKind : World where
  list := [⟨"s1", "host-shell", "running", 10⟩, ⟨"b1", "backup", "running", 11⟩,
    ⟨"g1", "git", "exited", 12⟩, ⟨"u1", "self-update", "exited", 5⟩,
    ⟨"u2", "self-update", "exited", 14⟩, ⟨"u3", "self-update", "running", 19⟩,
    ⟨"s2", "host-shell", "running", 25⟩, ⟨"b2", "backup", "running", 26⟩,
    ⟨"x2", "host-exec", "running", 27⟩]
  activeShells := ["s2"]
  mine c := 20 ≤ c.created
  busy c := 20 ≤ c.created
  ids := by decide
  kinds := by decide
  shells_mine := by decide

/-- What an earlier process has left is removed but for the newer of the stopped updaters. -/
theorem swept_everyKind :
    World.everyKind.Swept (World.everyKind.removed (20 * second) (fun _ => 30 * second)
      fun l => l.mergeSort fun a b => decide (b.created ≤ a.created)) :=
  (World.swept_iff sortsNewestFirst_mergeSort).mpr
    ⟨by decide +kernel, by decide +kernel, by decide +kernel, by decide +kernel⟩

/-- The container of a command that an earlier process has left stays for ever. -/
theorem leftExec_not_swept : ¬ ∀ (w : World) (processStart : ℤ) (now : Summary → ℤ)
    (sort : List Summary → List Summary), SortsNewestFirst sort →
    w.Swept (w.removed processStart now sort) := by
  intro h
  have hswept := h (.single ⟨"x", "host-exec", "running", 10⟩ false false (by decide)) (20 * second)
    (fun _ => 30 * second) _ sortsNewestFirst_mergeSort
  have hkept : (⟨"x", "host-exec", "running", 10⟩ : Summary) ∉
      (World.single ⟨"x", "host-exec", "running", 10⟩ false false (by decide)).removed (20 * second)
        (fun _ => 30 * second) fun l => l.mergeSort fun a b => decide (b.created ≤ a.created) := by
    simp [World.removed, sweepHelpers, World.single, orphan, stoppedUpdater]
  rcases hswept.removes _ (List.mem_singleton_self _) rfl hkept with hrunning | hnewest
  · exact absurd hrunning.1 (by decide)
  · exact absurd hnewest.1 (by decide)

-- a backup that was started in the second in which the process started is removed while it runs
example : sweepHelpers (20 * second + 300000000) (fun _ => 30 * second) [] id
    (some [⟨"b", "backup", "running", 20⟩]) = [⟨"b", "backup", "running", 20⟩] := by
  decide

end Dockhand.Hosts.Helpers
