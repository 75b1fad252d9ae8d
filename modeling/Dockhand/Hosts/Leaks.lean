import Dockhand.Hosts.Cache

/-!
# Closed and leaked connections

The other two properties of the connection cache, and the three together. What is cached is what has
been installed last, so the `Invalidate` of a `Get` takes the connection that was dead or none as
long as nothing has been installed after that one. For the leaks the invariant is that a dial is in
flight only while nothing is cached, so that what it installs overwrites nothing.
-/

namespace Dockhand.Hosts

open Transition

namespace Manager

variable {m m' : Manager} {e : ConnEvent} {es : List ConnEvent}

/-! ### Only the dead connection is closed -/

private theorem lt_length_of_isOpen {c : ℕ} (h : m.isOpen c = true) : c < m.heap.length := by
  by_contra hge
  rw [isOpen, List.getElem?_eq_none (Nat.le_of_not_lt hge)] at h
  cases h

@[simp] theorem isOpen_touch (m : Manager) (c c' : ℕ) : (m.touch c).isOpen c' = m.isOpen c' := by
  simp only [isOpen, touch, List.getElem?_modify]
  cases m.heap[c']? with
  | none => rfl
  | some x => by_cases hc : c = c' <;> simp [hc]

@[simp] theorem isOpen_close (m : Manager) (c c' : ℕ) :
    (m.close c).isOpen c' = (m.isOpen c' && decide (c ≠ c')) := by
  simp only [isOpen, close, List.getElem?_modify]
  cases m.heap[c']? with
  | none => rfl
  | some x => by_cases hc : c = c' <;> simp [hc]

/-- The end of a probe closes nothing. -/
private theorem isOpen_probed (m : Manager) (i since c c' : ℕ) (ok : Bool) :
    (m.probed i since c ok).isOpen c' = m.isOpen c' := by
  rw [probed]
  split_ifs
  · exact isOpen_touch m c c'
  · rfl

private theorem isOpen_lookDials (m : Manager) (since c : ℕ) :
    (m.lookDials since).1.isOpen c = m.isOpen c := by
  rw [lookDials]
  split <;> rfl

/-- A `Get` that has taken a connection has taken the dead one. -/
def TakesDead : Thread → Prop
  | .closing (some g) taken _ => ∀ c ∈ taken, c = g.dead
  | _ => True

/-- The invariant: what is cached is what has been installed last, and what a `Get` has taken from
the cache is the connection that it has found dead. -/
structure CloseInv (m : Manager) : Prop where
  cached : ∀ c ∈ m.conns, m.installed.head? = some c
  taken : ∀ t ∈ m.threads, TakesDead t

private theorem CloseInv.of_new (h : m.New) : m.CloseInv where
  cached c hc := by simp [h.conns] at hc
  taken t ht := by simp [h.threads] at ht

/-- A step that installs nothing, and adds no call that has taken another connection. -/
theorem CloseInv.keep (h : m.CloseInv) (hconns : ∀ c ∈ m'.conns, c ∈ m.conns)
    (hinstalled : m'.installed = m.installed)
    (hthreads : ∀ t ∈ m'.threads, t ∈ m.threads ∨ TakesDead t) : m'.CloseInv where
  cached c hc := hinstalled ▸ h.cached c (hconns c hc)
  taken t ht := (hthreads t ht).elim (h.taken t) id

/-- A call goes on as `t`. -/
theorem CloseInv.set {i : ℕ} {old t : Thread} (h : m.CloseInv) (hi : m.threads[i]? = some old)
    (hconns : ∀ c ∈ m'.conns, c ∈ m.conns) (hinstalled : m'.installed = m.installed)
    (hthreads : m'.threads = m.threads.set i t) (ht : TakesDead t) : m'.CloseInv := by
  refine h.keep hconns hinstalled fun t' ht' => ?_
  rw [hthreads] at ht'
  rcases (mem_pool_set hi).mp ht' with rfl | hold
  · exact .inr ht
  · exact .inl (List.mem_of_mem_eraseIdx hold)

/-- A call ends. -/
theorem CloseInv.erase {i : ℕ} (h : m.CloseInv) (hconns : ∀ c ∈ m'.conns, c ∈ m.conns)
    (hinstalled : m'.installed = m.installed) (hthreads : m'.threads = m.threads.eraseIdx i) :
    m'.CloseInv :=
  h.keep hconns hinstalled fun _ ht => .inl (List.mem_of_mem_eraseIdx (hthreads ▸ ht))

/-- A new call. -/
theorem CloseInv.append {t : Thread} (h : m.CloseInv) (hconns : ∀ c ∈ m'.conns, c ∈ m.conns)
    (hinstalled : m'.installed = m.installed) (hthreads : m'.threads = m.threads ++ [t])
    (ht : TakesDead t) : m'.CloseInv := by
  refine h.keep hconns hinstalled fun t' ht' => ?_
  rw [hthreads] at ht'
  refine (List.mem_append.mp ht').imp_right fun hnew => ?_
  rwa [List.mem_singleton.mp hnew]

/-- Looking for a dial changes neither the cache nor what has been installed. -/
private theorem lookDials_frame (m : Manager) (since : ℕ) :
    (m.lookDials since).1.conns = m.conns ∧ (m.lookDials since).1.installed = m.installed ∧
      TakesDead (m.lookDials since).2 := by
  rw [lookDials]
  split <;> exact ⟨rfl, rfl, trivial⟩

theorem CloseInv.probed {i since c : ℕ} {old : Thread} (h : m.CloseInv)
    (hi : m.threads[i]? = some old) (ok : Bool) : (m.probed i since c ok).CloseInv := by
  rw [Manager.probed]
  split_ifs
  · exact h.erase (fun _ hc => hc) rfl rfl
  · exact h.set hi (fun _ hc => hc) rfl rfl trivial

/-- **The next step of a call.** -/
theorem CloseInv.advance {i : ℕ} {t : Thread} (h : m.CloseInv) (hi : m.threads[i]? = some t)
    (hcond : m.NoneInstalledSince t) (hs : m.advance i t = some m') : m'.CloseInv := by
  cases t with
  | probing since c =>
    obtain ⟨ok, rfl⟩ | rfl := advance_probing hs
    · exact h.probed hi ok
    · exact h.set hi (fun _ hc => hc) rfl rfl trivial
  | pinging since c => cases hs
  | invalidating caller =>
    obtain rfl := Option.some.inj hs
    refine h.set hi (fun _ hc => by cases hc) rfl rfl ?_
    cases caller with
    | none => trivial
    | some g =>
      -- what is cached has been installed last, and so has the dead connection
      exact fun c hc => Option.some.inj ((h.cached c hc).symm.trans hcond)
  | closing caller taken number =>
    obtain rfl := Option.some.inj hs
    have hconns : ∀ c ∈ (m.closeTaken i caller taken number).conns, c ∈ m.conns := by
      cases taken <;> exact fun _ hc => hc
    have hinstalled : (m.closeTaken i caller taken number).installed = m.installed := by
      cases taken <;> rfl
    cases caller with
    | none => exact h.erase hconns hinstalled rfl
    | some g => exact h.set hi hconns hinstalled rfl trivial
  | relocking since =>
    obtain rfl := Option.some.inj hs
    obtain ⟨hconns, hinstalled, htakes⟩ := lookDials_frame m since
    exact h.set hi (fun _ hc => hconns ▸ hc) hinstalled rfl htakes
  | waiting since d =>
    obtain ⟨c, -, rfl⟩ | rfl := advance_waiting hs
    · exact h.erase (fun _ hc => hc) rfl rfl
    · exact h.erase (fun _ hc => hc) rfl rfl
  | sweeping c =>
    obtain rfl := Option.some.inj hs
    exact h.erase (fun _ hc => hc) rfl rfl

/-- A dial puts what it installs at the head. -/
theorem CloseInv.dialStep {d : ℕ} {call : DialCall} {ok : Bool} (h : m.CloseInv)
    (hs : m.dialStep d ok call = some m') : m'.CloseInv := by
  cases call with
  | starting =>
    obtain rfl := Option.some.inj hs
    exact h.keep (fun _ hc => hc) rfl fun _ ht => .inl ht
  | connecting r readAt =>
    cases ok <;> obtain rfl := Option.some.inj hs
    · exact h.keep (fun _ hc => hc) rfl fun _ ht => .inl ht
    · exact h.keep (fun _ hc => hc) rfl fun _ ht => .inl ht
  | connected c =>
    obtain rfl := Option.some.inj hs
    exact ⟨fun c' hc' => hc', h.taken⟩
  | failed =>
    obtain rfl := Option.some.inj hs
    exact h.keep (fun _ hc => hc) rfl fun _ ht => .inl ht
  | done c => cases hs

/-- **One step.** -/
theorem CloseInv.step (h : m.CloseInv) (hcond : m.OnRun NoneInstalledSince e)
    (hs : m.step e = some m') : m'.CloseInv := by
  cases e with
  | tick t =>
    obtain rfl := Option.some.inj hs
    exact h.keep (fun _ hc => hc) rfl fun _ ht => .inl ht
  | update r =>
    obtain rfl := Option.some.inj hs
    exact h.keep (fun _ hc => hc) rfl fun _ ht => .inl ht
  | get =>
    obtain rfl := Option.some.inj hs
    rw [lookUp]
    cases hconns : m.conns with
    | none =>
      obtain ⟨hsame, hinstalled, htakes⟩ := lookDials_frame m m.completed
      exact h.append (fun _ hc => hsame ▸ hc) hinstalled rfl htakes
    | some c => exact h.append (fun _ hc => hc) rfl rfl trivial
  | invalidate =>
    obtain rfl := Option.some.inj hs
    exact h.append (fun _ hc => hc) rfl rfl trivial
  | closeIdle =>
    obtain rfl | ⟨c, -, rfl⟩ := step_sweeps (.inl rfl) hs
    · exact h
    · exact h.append (fun _ hc => by cases hc) rfl rfl trivial
  | closeAll =>
    obtain rfl | ⟨c, -, rfl⟩ := step_sweeps (.inr rfl) hs
    · exact h
    · exact h.append (fun _ hc => by cases hc) rfl rfl trivial
  | run i =>
    obtain ⟨t, hi, hs⟩ := Option.bind_eq_some_iff.mp hs
    exact h.advance hi (hcond t hi) hs
  | pong i ok =>
    obtain ⟨since, c, hi, rfl⟩ := step_pong hs
    exact h.probed hi ok
  | giveUp i =>
    obtain ⟨since, d, -, rfl⟩ := step_giveUp hs
    exact h.erase (fun _ hc => hc) rfl rfl
  | dial d ok =>
    obtain ⟨call, -, hs⟩ := Option.bind_eq_some_iff.mp hs
    exact h.dialStep hs
  | use c =>
    obtain rfl := step_use hs
    exact h.keep (fun _ hc => hc) rfl fun _ ht => .inl ht

/-- A call closes at most what it has taken. -/
theorem releases_of_advance {i c : ℕ} {t : Thread} (hs : m.advance i t = some m')
    (hopen : m.isOpen c = true) (hclosed : m'.isOpen c = false) : t.releases c = true := by
  by_contra hnot
  rw [Bool.not_eq_true] at hnot
  suffices hsame : m'.isOpen c = m.isOpen c by
    rw [hsame, hopen] at hclosed
    cases hclosed
  cases t with
  | probing since c' =>
    obtain ⟨ok, rfl⟩ | rfl := advance_probing hs
    · exact isOpen_probed ..
    · rfl
  | pinging since c' => cases hs
  | invalidating caller =>
    obtain rfl := Option.some.inj hs
    rfl
  | closing caller taken number =>
    obtain rfl := Option.some.inj hs
    cases taken with
    | none => rfl
    | some c' =>
      have hne : c' ≠ c := by simpa [Thread.releases] using hnot
      refine (isOpen_close m c' c).trans ?_
      simp [hne]
  | relocking since =>
    obtain rfl := Option.some.inj hs
    exact isOpen_lookDials m since c
  | waiting since d =>
    obtain ⟨c', -, rfl⟩ | rfl := advance_waiting hs <;> rfl
  | sweeping c' =>
    obtain rfl := Option.some.inj hs
    have hne : c' ≠ c := by simpa [Thread.releases] using hnot
    refine (isOpen_close m c' c).trans ?_
    simp [hne]

/-- A dial closes nothing. -/
theorem isOpen_of_dialStep {d c : ℕ} {call : DialCall} {ok : Bool}
    (hs : m.dialStep d ok call = some m') (hopen : m.isOpen c = true) : m'.isOpen c = true := by
  cases call with
  | starting =>
    obtain rfl := Option.some.inj hs
    exact hopen
  | connecting r readAt =>
    cases ok <;> obtain rfl := Option.some.inj hs
    · exact hopen
    · rw [isOpen, List.getElem?_append_left (lt_length_of_isOpen hopen)]
      exact hopen
  | connected c' =>
    obtain rfl := Option.some.inj hs
    exact hopen
  | failed =>
    obtain rfl := Option.some.inj hs
    exact hopen
  | done c' => cases hs

/-- **A step closes** what a call that may close it has taken, and nothing else. -/
theorem CloseInv.closesDead (h : m.CloseInv) (hs : m.step e = some m') : m.ClosesDead e m' := by
  cases e with
  | run i =>
    intro c _ hopen hclosed
    obtain ⟨t, hi, hs⟩ := Option.bind_eq_some_iff.mp hs
    have htaken := h.taken t (List.mem_of_getElem? hi)
    have hreleases := releases_of_advance hs hopen hclosed
    refine ⟨t, hi, ?_⟩
    cases t with
    | closing caller taken number =>
      obtain rfl : taken = some c := by simpa [Thread.releases] using hreleases
      cases caller with
      | none => rfl
      | some g => exact (htaken c rfl).symm
    | sweeping c' => exact of_decide_eq_true hreleases
    | probing since c' => cases hreleases
    | pinging since c' => cases hreleases
    | invalidating caller => cases hreleases
    | relocking since => cases hreleases
    | waiting since d => cases hreleases
  | tick t =>
    obtain rfl := Option.some.inj hs
    exact fun c _ hopen => hopen
  | update r =>
    obtain rfl := Option.some.inj hs
    exact fun c _ hopen => hopen
  | get =>
    obtain rfl := Option.some.inj hs
    intro c _ hopen
    rw [lookUp]
    cases m.conns with
    | none => exact (isOpen_lookDials m m.completed c).trans hopen
    | some c' => exact hopen
  | invalidate =>
    obtain rfl := Option.some.inj hs
    exact fun c _ hopen => hopen
  | closeIdle =>
    obtain rfl | ⟨c', -, rfl⟩ := step_sweeps (.inl rfl) hs <;> exact fun c _ hopen => hopen
  | closeAll =>
    obtain rfl | ⟨c', -, rfl⟩ := step_sweeps (.inr rfl) hs <;> exact fun c _ hopen => hopen
  | pong i ok =>
    obtain ⟨since, c', -, rfl⟩ := step_pong hs
    exact fun c _ hopen => (isOpen_probed ..).trans hopen
  | giveUp i =>
    obtain ⟨since, d, -, rfl⟩ := step_giveUp hs
    exact fun c _ hopen => hopen
  | dial d ok =>
    obtain ⟨call, -, hs⟩ := Option.bind_eq_some_iff.mp hs
    exact fun c _ hopen => isOpen_of_dialStep hs hopen
  | use c' =>
    obtain rfl := step_use hs
    exact fun c _ hopen => (isOpen_touch m c' c).trans hopen

private theorem closesDead_of_run (hnew : m.New)
    (hcond : Along Manager.step (OnRun NoneInstalledSince) m es) :
    AllSteps Manager.step ClosesDead m es :=
  allSteps_of_along (fun _ _ _ h hC hs => h.step hC hs) (fun _ _ _ h _ hs => h.closesDead hs)
    (CloseInv.of_new hnew) hcond

/-! ### No connection is leaked -/

/-- Nobody is about to close the connection. -/
def Unreleased (m : Manager) (c : ℕ) : Prop := ∀ t ∈ m.threads, t.releases c = false

private theorem live_iff {c : ℕ} : m.live c = true ↔ m.isOpen c = true ∧ m.Unreleased c := by
  simp [live, isOpen, Unreleased, List.any_eq_false]

/-- The invariant: a dial in flight is the one in the map, nothing is cached meanwhile, and every
live connection is in its place. -/
structure LeakInv (m : Manager) : Prop where
  inFlight : ∀ (d : ℕ) (call : DialCall), m.calls[d]? = some call → call.pending = true →
    m.dials = some d
  exclusive : ∀ d ∈ m.dials, m.conns = none
  held : ∀ c, m.live c = true → m.conns = some c ∨ .connected c ∈ m.calls

private theorem LeakInv.of_new (h : m.New) : m.LeakInv where
  inFlight d call hd := by simp [h.calls] at hd
  exclusive d hd := by simp [h.dials] at hd
  held c hc := by simp [live, h.heap] at hc

private theorem LeakInv.noLeak (h : m.LeakInv) : m.NoLeak := by
  -- a connection in the hands of its dial excludes a cached one
  have hexcl : ∀ {c c'}, m.conns = some c → .connected c' ∈ m.calls → False := fun hc hmem => by
    obtain ⟨d, hd⟩ := List.getElem?_of_mem hmem
    have hnone := h.exclusive d (h.inFlight d _ hd rfl)
    exact absurd (hc.symm.trans hnone) (by simp)
  refine ⟨fun c _ hc => h.held c hc, fun c _ c' _ hc hc' => ?_⟩
  rcases h.held c hc, h.held c' hc' with ⟨hcached | hmem, hcached' | hmem'⟩
  · exact Option.some.inj (hcached.symm.trans hcached')
  · exact (hexcl hcached hmem').elim
  · exact (hexcl hcached' hmem).elim
  · obtain ⟨d, hd⟩ := List.getElem?_of_mem hmem
    obtain ⟨d', hd'⟩ := List.getElem?_of_mem hmem'
    obtain rfl := Option.some.inj ((h.inFlight d _ hd rfl).symm.trans (h.inFlight d' _ hd' rfl))
    exact DialCall.connected.inj (Option.some.inj (hd.symm.trans hd'))

/-- A step that leaves the maps and the dials alone, and brings no connection to life. -/
theorem LeakInv.keep (h : m.LeakInv) (hcalls : m'.calls = m.calls) (hdials : m'.dials = m.dials)
    (hconns : m'.conns = m.conns) (hopen : ∀ c, m'.isOpen c = true → m.isOpen c = true)
    (hrel : ∀ c, m'.isOpen c = true → m'.Unreleased c → m.Unreleased c) : m'.LeakInv where
  inFlight := by rw [hcalls, hdials]; exact h.inFlight
  exclusive := by rw [hdials, hconns]; exact h.exclusive
  held c hc := by
    obtain ⟨ho, hr⟩ := live_iff.mp hc
    rw [hcalls, hconns]
    exact h.held c (live_iff.mpr ⟨hopen c ho, hrel c ho hr⟩)

/-- A call that has nothing to close moves on. -/
theorem unreleased_of_rest {i : ℕ} {old : Thread} {c : ℕ} (hi : m.threads[i]? = some old)
    (hold : old.releases c = false) (hsub : ∀ t ∈ m.threads.eraseIdx i, t ∈ m'.threads)
    (h : m'.Unreleased c) : m.Unreleased c := by
  intro t ht
  rcases (mem_pool hi).mp ht with rfl | hrest
  · exact hold
  · exact h t (hsub t hrest)

/-- A call that has nothing to close goes on as `t`. -/
theorem LeakInv.set {i : ℕ} {old t : Thread} (h : m.LeakInv) (hi : m.threads[i]? = some old)
    (hold : ∀ c, old.releases c = false) : LeakInv { m with threads := m.threads.set i t } :=
  h.keep rfl rfl rfl (fun _ ho => ho) fun c _ =>
    unreleased_of_rest hi (hold c) fun _ ht => (mem_pool_set hi).mpr (.inr ht)

/-- A call that has nothing to close ends. -/
theorem LeakInv.erase {i : ℕ} {old : Thread} (h : m.LeakInv) (hi : m.threads[i]? = some old)
    (hold : ∀ c, old.releases c = false) : LeakInv { m with threads := m.threads.eraseIdx i } :=
  h.keep rfl rfl rfl (fun _ ho => ho) fun c _ => unreleased_of_rest hi (hold c) fun _ ht => ht

/-- A new call. -/
theorem LeakInv.append (h : m.LeakInv) (t : Thread) :
    LeakInv { m with threads := m.threads ++ [t] } :=
  h.keep rfl rfl rfl (fun _ ho => ho) fun _ _ hr t' ht' => hr t' (List.mem_append_left _ ht')

/-- A `Get` joins the dial in flight, or starts one while nothing is cached. -/
theorem LeakInv.lookDials (h : m.LeakInv) (since : ℕ) (hnone : m.dials = none → m.conns = none)
    {ts : List Thread} (hts : ∀ c, (∀ t ∈ ts, t.releases c = false) → m.Unreleased c) :
    LeakInv { (m.lookDials since).1 with threads := ts } := by
  unfold Manager.lookDials
  cases hd : m.dials with
  | some d => exact h.keep rfl rfl rfl (fun _ ho => ho) fun c _ hr => hts c hr
  | none =>
    refine ⟨fun d call hcall hpending => ?_, fun _ _ => hnone hd, fun c hc => ?_⟩
    · -- the new dial is the only one in flight
      by_cases hlt : d < m.calls.length
      · rw [List.getElem?_append_left hlt] at hcall
        exact absurd (hd.symm.trans (h.inFlight d call hcall hpending)) (by simp)
      · have hle := (List.getElem?_eq_some_iff.mp hcall).1
        rw [List.length_append, List.length_singleton] at hle
        exact congrArg some (by omega)
    · obtain ⟨ho, hr⟩ := live_iff.mp hc
      exact (h.held c (live_iff.mpr ⟨ho, hts c hr⟩)).imp_right (List.mem_append_left _)

/-- The probe of a connection has ended. -/
theorem LeakInv.probed {i since c : ℕ} {old : Thread} (h : m.LeakInv)
    (hi : m.threads[i]? = some old) (hold : ∀ c, old.releases c = false) (ok : Bool) :
    (m.probed i since c ok).LeakInv := by
  rw [Manager.probed]
  split_ifs
  · exact h.keep rfl rfl rfl (fun c' ho => (isOpen_touch m c c').symm.trans ho) fun c' _ =>
      unreleased_of_rest hi (hold c') fun _ ht => ht
  · exact h.set hi hold

/-- A connection is closed, and the call that has taken it moves on. -/
theorem LeakInv.close {i c : ℕ} {old : Thread} {ts : List Thread} (h : m.LeakInv)
    (hi : m.threads[i]? = some old) (hold : ∀ c', c ≠ c' → old.releases c' = false)
    (hts : ∀ t ∈ m.threads.eraseIdx i, t ∈ ts) : LeakInv { m.close c with threads := ts } := by
  have hne : ∀ c', (m.close c).isOpen c' = true → m.isOpen c' = true ∧ c ≠ c' := fun c' ho => by
    simpa using ho
  exact h.keep rfl rfl rfl (fun c' ho => (hne c' ho).1) fun c' ho =>
    unreleased_of_rest hi (hold c' (hne c' ho).2) hts

/-- The end of `Invalidate`. -/
theorem LeakInv.closeTaken {i number : ℕ} {caller : Option Caller} {taken : Option ℕ}
    (h : m.LeakInv) (hi : m.threads[i]? = some (.closing caller taken number)) :
    (m.closeTaken i caller taken number).LeakInv := by
  have hts : ∀ t ∈ m.threads.eraseIdx i, t ∈ (m.closeTaken i caller none number).threads :=
      fun t ht => by
    cases caller with
    | none => exact ht
    | some g => exact (mem_pool_set hi).mpr (.inr ht)
  cases taken with
  | none => exact h.keep rfl rfl rfl (fun _ ho => ho) fun c _ => unreleased_of_rest hi rfl hts
  | some c =>
    refine (h.close hi (fun c' hne => ?_) hts).keep rfl rfl rfl (fun _ ho => ho) fun _ _ hr => hr
    simpa [Thread.releases] using hne

/-- A connection is taken from the cache by a call that is about to close it. -/
theorem LeakInv.take {t : Thread} (h : m.LeakInv) (hcalls : m'.calls = m.calls)
    (hdials : m'.dials = m.dials) (hconns : m'.conns = none)
    (hopen : ∀ c, m'.isOpen c = true → m.isOpen c = true) (ht : t ∈ m'.threads)
    (htaken : ∀ c, m.conns = some c → t.releases c = true)
    (hrel : ∀ c, m'.Unreleased c → m.Unreleased c) : m'.LeakInv where
  inFlight := by rw [hcalls, hdials]; exact h.inFlight
  exclusive _ _ := hconns
  held c hc := by
    -- the connection that was cached is not live any more: `t` is about to close it
    obtain ⟨ho, hr⟩ := live_iff.mp hc
    rcases h.held c (live_iff.mpr ⟨hopen c ho, hrel c hr⟩) with hcached | hmem
    · exact absurd (htaken c hcached) (by simp [hr t ht])
    · exact .inr (hcalls ▸ hmem)

theorem LeakInv.sweep {c : ℕ} (h : m.LeakInv) (hc : m.conns = some c) : (m.sweep c).LeakInv := by
  refine h.take (t := .sweeping c) rfl rfl rfl (fun _ ho => ho) (by simp [Manager.sweep])
    (fun c' hc' => ?_) fun c' hr t ht => hr t (List.mem_append_left _ ht)
  simpa [Thread.releases] using Option.some.inj (hc.symm.trans hc')

/-- **A step of a dial**: what it installs overwrites nothing. -/
theorem LeakInv.dialStep {d : ℕ} {call : DialCall} {ok : Bool} (h : m.LeakInv)
    (hd : m.calls[d]? = some call) (hs : m.dialStep d ok call = some m') : m'.LeakInv := by
  have hlt : d < m.calls.length := (List.getElem?_eq_some_iff.mp hd).1
  -- the dial goes on; the others are as they were
  have hflight : ∀ {call'}, call.pending = true → ∀ (d' : ℕ) (c : DialCall),
      (m.calls.set d call')[d']? = some c → c.pending = true → m.dials = some d' :=
    fun hpending d' c hc hp => by
      by_cases hdd : d = d'
      · exact hdd ▸ h.inFlight d call hd hpending
      · exact h.inFlight d' c ((List.getElem?_set_ne hdd).symm.trans hc) hp
  -- at its end no other dial is in flight
  have hended : ∀ {r}, call.pending = true → ∀ (d' : ℕ) (c : DialCall),
      (m.calls.set d (.done r))[d']? = some c → c.pending = true → (none : Option ℕ) = some d' :=
    fun hpending d' c hc hp => by
      have hdials := hflight hpending d' c hc hp
      obtain rfl := Option.some.inj ((h.inFlight d call hd hpending).symm.trans hdials)
      rw [List.getElem?_set_self hlt] at hc
      obtain rfl := Option.some.inj hc
      cases hp
  have hkept : ∀ {call' c}, .connected c ∈ m.calls → call ≠ .connected c →
      .connected c ∈ m.calls.set d call' := fun hmem hne => by
    refine (mem_pool_set hd).mpr (.inr (((mem_pool hd).mp hmem).resolve_left fun heq => ?_))
    exact hne heq.symm
  cases call with
  | starting =>
    obtain rfl := Option.some.inj hs
    exact ⟨hflight rfl, h.exclusive,
      fun c hc => (h.held c hc).imp_right fun hmem => hkept hmem (by simp)⟩
  | connecting r readAt =>
    cases ok with
    | true =>
      obtain rfl := Option.some.inj hs
      refine ⟨hflight rfl, h.exclusive, fun c hc => ?_⟩
      obtain ⟨ho, hr⟩ := live_iff.mp hc
      rcases Nat.lt_or_ge c m.heap.length with hold | hge
      · have hopen : m.isOpen c = true := by
          rwa [isOpen, List.getElem?_append_left hold] at ho
        exact (h.held c (live_iff.mpr ⟨hopen, hr⟩)).imp_right fun hmem => hkept hmem (by simp)
      · -- the new connection is in the hands of its dial
        have hnew : c = m.heap.length := by
          have hle := lt_length_of_isOpen ho
          rw [List.length_append, List.length_singleton] at hle
          omega
        exact .inr (hnew ▸ List.mem_set hlt _)
    | false =>
      obtain rfl := Option.some.inj hs
      exact ⟨hflight rfl, h.exclusive,
        fun c hc => (h.held c hc).imp_right fun hmem => hkept hmem (by simp)⟩
  | connected c =>
    -- nothing is cached while the dial is in flight, and no other dial holds a connection
    obtain rfl := Option.some.inj hs
    have hnone := h.exclusive d (h.inFlight d _ hd rfl)
    refine ⟨hended rfl, fun _ hno => (by cases hno), fun c' hc' => ?_⟩
    rcases h.held c' hc' with hcached | hmem
    · exact absurd (hcached.symm.trans hnone) (by simp)
    · obtain ⟨d', hd'⟩ := List.getElem?_of_mem hmem
      obtain rfl := Option.some.inj ((h.inFlight d _ hd rfl).symm.trans (h.inFlight d' _ hd' rfl))
      obtain rfl := DialCall.connected.inj (Option.some.inj (hd.symm.trans hd'))
      exact .inl rfl
  | failed =>
    obtain rfl := Option.some.inj hs
    exact ⟨hended rfl, fun _ hno => (by cases hno),
      fun c hc => (h.held c hc).imp_right fun hmem => hkept hmem (by simp)⟩
  | done c => cases hs

/-- **The next step of a call.** -/
theorem LeakInv.advance {i : ℕ} {t : Thread} (h : m.LeakInv) (hi : m.threads[i]? = some t)
    (hcond : m.NothingCached t) (hs : m.advance i t = some m') : m'.LeakInv := by
  cases t with
  | probing since c =>
    obtain ⟨ok, rfl⟩ | rfl := advance_probing hs
    · exact h.probed hi (fun _ => rfl) ok
    · exact h.set hi fun _ => rfl
  | pinging since c => cases hs
  | invalidating caller =>
    obtain rfl := Option.some.inj hs
    refine h.take (t := .closing caller m.conns _) rfl rfl rfl (fun _ ho => ho)
      ((mem_pool_set hi).mpr (.inl rfl)) (fun c hc => ?_) fun c => ?_
    · simp [Thread.releases, hc]
    · exact unreleased_of_rest hi rfl fun _ ht => (mem_pool_set hi).mpr (.inr ht)
  | closing caller taken number =>
    obtain rfl := Option.some.inj hs
    exact h.closeTaken hi
  | relocking since =>
    obtain rfl := Option.some.inj hs
    exact h.lookDials since hcond fun c hr =>
      have hsub : ∀ t ∈ m.threads.eraseIdx i, t ∈ m.threads.set i (m.lookDials since).2 :=
        fun _ ht => (mem_pool_set hi).mpr (.inr ht)
      fun t ht => ((mem_pool hi).mp ht).elim (· ▸ rfl) fun hrest => hr t (hsub t hrest)
  | waiting since d =>
    obtain ⟨c, -, rfl⟩ | rfl := advance_waiting hs
    · exact (h.erase hi fun _ => rfl).keep rfl rfl rfl (fun _ ho => ho) fun _ _ hr => hr
    · exact h.erase hi fun _ => rfl
  | sweeping c =>
    obtain rfl := Option.some.inj hs
    exact h.close hi (fun c' hne => by simpa [Thread.releases] using hne) fun _ ht => ht

/-- **One step.** -/
theorem LeakInv.step (h : m.LeakInv) (hcond : m.OnRun NothingCached e) (hs : m.step e = some m') :
    m'.LeakInv := by
  cases e with
  | tick t =>
    obtain rfl := Option.some.inj hs
    exact h.keep rfl rfl rfl (fun _ ho => ho) fun _ _ hr => hr
  | update r =>
    obtain rfl := Option.some.inj hs
    exact h.keep rfl rfl rfl (fun _ ho => ho) fun _ _ hr => hr
  | get =>
    obtain rfl := Option.some.inj hs
    unfold lookUp
    cases hconns : m.conns with
    | none =>
      exact h.lookDials m.completed (fun _ => hconns) fun c hr t ht =>
        hr t (List.mem_append_left _ ht)
    | some c => exact h.append (.probing m.completed c)
  | invalidate =>
    obtain rfl := Option.some.inj hs
    exact h.append _
  | closeIdle =>
    obtain rfl | ⟨c, hc, rfl⟩ := step_sweeps (.inl rfl) hs
    · exact h
    · exact h.sweep hc
  | closeAll =>
    obtain rfl | ⟨c, hc, rfl⟩ := step_sweeps (.inr rfl) hs
    · exact h
    · exact h.sweep hc
  | run i =>
    obtain ⟨t, hi, hs⟩ := Option.bind_eq_some_iff.mp hs
    exact h.advance hi (hcond t hi) hs
  | pong i ok =>
    obtain ⟨since, c, hi, rfl⟩ := step_pong hs
    exact h.probed hi (fun _ => rfl) ok
  | giveUp i =>
    obtain ⟨since, d, hi, rfl⟩ := step_giveUp hs
    exact h.erase hi fun _ => rfl
  | dial d ok =>
    obtain ⟨call, hd, hs⟩ := Option.bind_eq_some_iff.mp hs
    exact h.dialStep hd hs
  | use c =>
    obtain rfl := step_use hs
    exact h.keep rfl rfl rfl (fun c' ho => (isOpen_touch m c c').symm.trans ho) fun _ _ hr => hr

private theorem noLeak_of_run (hnew : m.New) (hcond :
    Along Manager.step (OnRun NothingCached) m es) :
    AllStates Manager.step NoLeak m es :=
  (allStates_of_along (fun _ _ _ h hC hs => h.step hC hs) (LeakInv.of_new hnew) hcond).imp
    fun _ h => h.noLeak

/-- **The cache respects `Invalidate`, closes only what is dead and leaks nothing**: each of the
three in every run without the step that breaks it. -/
theorem cache_of_run (hnew : m.New) :
    (Along Manager.step (OnRun NoDialRead) m es → AllStates Manager.step RespectsInvalidate m es) ∧
      (Along Manager.step (OnRun NoneInstalledSince) m es →
        AllSteps Manager.step ClosesDead m es) ∧
      (Along Manager.step (OnRun NothingCached) m es → AllStates Manager.step NoLeak m es) :=
  ⟨respectsInvalidate_of_run hnew, closesDead_of_run hnew, noLeak_of_run hnew⟩

end Manager

/-! ### Dials that overlap -/

namespace Example

/-- A manager with one host. -/
def manager : Manager := { record := { name := "nas", address := "a" } }

private theorem manager_new : manager.New := ⟨rfl, rfl, rfl, rfl, rfl, rfl, rfl, rfl, rfl⟩

/-- The dial `d` succeeds. -/
def dialled (d : ℕ) : List ConnEvent := [.dial d true, .dial d true, .dial d true]

/-- A `Get` that dials. -/
def firstGet : List ConnEvent := [.get] ++ dialled 0 ++ [.run 0]

/-- The host moves while a dial that has read its record is in flight, and the next `Get` joins
that dial. -/
def joinedDial : List ConnEvent :=
  [.get, .dial 0 true, .update { name := "nas", address := "b" }, .invalidate, .run 1, .run 1, .get,
    .dial 0 true, .dial 0 true, .run 1]

/-- Two `Get`s find the connection dead. The first one has dialled a new one and returned it when
the second runs `Invalidate`. -/
def closedByOther : List ConnEvent :=
  firstGet ++ [.tick freshFor, .get, .run 0, .get, .run 1, .pong 0 false, .pong 1 false,
    .run 0, .run 0, .run 0] ++ dialled 1 ++ [.run 0, .run 0, .run 0]

/-- One `Get` finds the connection dead and invalidates it; before it looks for dials, another one
has dialled. -/
def dialledTwice : List ConnEvent :=
  firstGet ++ [.tick freshFor, .get, .run 0, .pong 0 false, .run 0, .run 0, .get] ++ dialled 1 ++
    [.run 1, .run 0] ++ dialled 2

/-- A dial, a move of the host, a dial that is used, and a `Get` that finds the connection dead. -/
def redialled : List ConnEvent :=
  firstGet ++ [.update { name := "nas", address := "b" }, .invalidate, .run 0, .run 0, .get] ++
    dialled 1 ++ [.run 0, .use 1, .tick freshFor, .get, .run 0, .pong 0 false, .run 0, .run 0,
    .run 0] ++ dialled 2 ++ [.run 0]

end Example

/-- A `Get` that starts after the `Invalidate` of a move gets a connection to the old address; a
`Get` closes the new connection of another one; two connections are held and one of them is
leaked. -/
theorem Manager.not_cache :
    Example.manager.New ∧
      ¬ AllStates Manager.step RespectsInvalidate Example.manager Example.joinedDial ∧
      ¬ AllSteps Manager.step ClosesDead Example.manager Example.closedByOther ∧
      ¬ AllStates Manager.step NoLeak Example.manager Example.dialledTwice :=
  ⟨Example.manager_new, by decide +kernel, by decide +kernel, by decide +kernel⟩

/-- A host that moves, and a connection that is found dead: each is followed by another dial. -/
theorem Manager.cache_of_run_redialled :
    AllStates Manager.step RespectsInvalidate Example.manager Example.redialled ∧
      AllSteps Manager.step ClosesDead Example.manager Example.redialled ∧
      AllStates Manager.step NoLeak Example.manager Example.redialled :=
  ⟨(Manager.cache_of_run Example.manager_new).1 (by decide +kernel),
    (Manager.cache_of_run Example.manager_new).2.1 (by decide +kernel),
    (Manager.cache_of_run Example.manager_new).2.2 (by decide +kernel)⟩

end Dockhand.Hosts
