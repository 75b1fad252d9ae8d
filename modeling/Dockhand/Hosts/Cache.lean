import Dockhand.Hosts.Manager
import Dockhand.Transition.Exec
import Dockhand.Transition.Pool

/-!
# The connection cache and `Invalidate`

Three properties of the cache, each with the steps that break it.

* A `Get` that starts after an `Invalidate` has returned is to get a connection whose record was
  read after it. A dial that has read its record and is still in flight passes it by.
* A `Get` that has found a dead connection is to close that one and no other. It closes whatever the
  cache holds when it runs `Invalidate`, also what has been installed since it looked.
* A connection is to be cached, or closed, or on its way from its dial or to its closing, so that
  one at most is held. A `Get` that comes back from `Invalidate` does not look at the cache again,
  and its dial overwrites the connection that another one has installed.

Each property holds in the runs without its step: `Manager.cache_of_run`.
-/

namespace Dockhand.Hosts

open Transition

/-- The dial has read its record, and its connection is not installed yet. -/
def DialCall.hasRead : DialCall → Bool
  | .connecting .. | .connected _ => true
  | .starting | .failed | .done _ => false

/-- The dial has not ended. -/
def DialCall.pending : DialCall → Bool
  | .done _ => false
  | .starting | .connecting .. | .connected _ | .failed => true

/-- The call has taken the connection from the map and is about to close it. -/
def Thread.releases (c : ℕ) : Thread → Bool
  | .closing _ taken _ => taken = some c
  | .sweeping c' => c' = c
  | _ => false

/-- The call may close the connection: it is a `Get` that has found it dead, or the `Invalidate` of
somebody else, `CloseIdle` or `CloseAll` that has taken it. -/
def Thread.MayClose (c : ℕ) : Thread → Prop
  | .closing (some g) .. => g.dead = c
  | .closing none taken _ => taken = some c
  | .sweeping c' => c' = c
  | .probing .. | .pinging .. | .invalidating _ | .relocking _ | .waiting .. => False

instance Thread.MayClose.decidable (c : ℕ) : (t : Thread) → Decidable (t.MayClose c)
  | .closing (some g) .. => inferInstanceAs (Decidable (g.dead = c))
  | .closing none taken _ => inferInstanceAs (Decidable (taken = some c))
  | .sweeping c' => inferInstanceAs (Decidable (c' = c))
  | .probing .. | .pinging .. | .invalidating _ | .relocking _ | .waiting .. => isFalse id

namespace Manager

/-! ### The three properties -/

/-- The number of `Invalidate`s before the record of a connection was read. -/
def readAt? (m : Manager) (c : ℕ) : Option ℕ := (m.heap[c]?).map Conn.readAt

/-- The record of the connection was read after the first `k` `Invalidate`s. -/
def ReadSince (m : Manager) (c k : ℕ) : Prop := ∃ r ∈ m.readAt? c, k ≤ r

instance (m : Manager) (c k : ℕ) : Decidable (m.ReadSince c k) :=
  inferInstanceAs (Decidable (∃ r ∈ _, _))

/-- **Invalidate is respected**: every connection that a `Get` has returned was dialled from a
record read after each `Invalidate` that had returned when that `Get` started. -/
def RespectsInvalidate (m : Manager) : Prop := ∀ p ∈ m.returned, m.ReadSince p.2 p.1

instance (m : Manager) : Decidable m.RespectsInvalidate := inferInstanceAs (Decidable (∀ p ∈ _, _))

/-- The connection is not closed. -/
def isOpen (m : Manager) (c : ℕ) : Bool := (m.heap[c]?).any fun x => !x.closed

/-- **Only the dead connection is closed**: a connection that is open before a step and closed after
it has been closed by a call that may close it. -/
def ClosesDead (m : Manager) : ConnEvent → Manager → Prop
  | .run i, m' => ∀ c < m.heap.length, m.isOpen c = true → m'.isOpen c = false →
      ∃ t ∈ m.threads[i]?, t.MayClose c
  | _, m' => ∀ c < m.heap.length, m.isOpen c = true → m'.isOpen c = true

instance ClosesDead.decidable (m m' : Manager) : (e : ConnEvent) → Decidable (m.ClosesDead e m')
  | .run _ => inferInstanceAs (Decidable (∀ c < _, _ → _ → ∃ t ∈ _, _))
  | .tick _ | .update _ | .get | .invalidate | .closeIdle | .closeAll | .pong .. | .giveUp _
  | .dial .. | .use _ => inferInstanceAs (Decidable (∀ c < _, _ → _))

/-- The connection is not closed, and nobody is about to close it. -/
def live (m : Manager) (c : ℕ) : Bool :=
  (m.heap[c]?).any (fun x => !x.closed) && !m.threads.any fun t => t.releases c

/-- **No connection is leaked**: a live one is cached or about to be installed by its dial, and
there is at most one. -/
def NoLeak (m : Manager) : Prop :=
  (∀ c < m.heap.length, m.live c = true → m.conns = some c ∨ .connected c ∈ m.calls) ∧
    ∀ c < m.heap.length, ∀ c' < m.heap.length, m.live c = true → m.live c' = true → c = c'

instance (m : Manager) : Decidable m.NoLeak := inferInstanceAs (Decidable (_ ∧ _))

/-! ### The conditions -/

/-- A condition on the calls that take their next step. -/
def OnRun (C : Manager → Thread → Prop) (m : Manager) : ConnEvent → Prop
  | .run i => ∀ t ∈ m.threads[i]?, C m t
  | _ => True

instance (C : Manager → Thread → Prop) [∀ m t, Decidable (C m t)] (m : Manager) :
    (e : ConnEvent) → Decidable (m.OnRun C e)
  | .run _ => inferInstanceAs (Decidable (∀ t ∈ _, _))
  | .tick _ | .update _ | .get | .invalidate | .closeIdle | .closeAll | .pong .. | .giveUp _
  | .dial .. | .use _ => isTrue trivial

/-- `Invalidate` finds no dial in flight that has read its record. -/
def NoDialRead (m : Manager) : Thread → Prop
  | .invalidating _ => ∀ call ∈ m.calls, call.hasRead = false
  | _ => True

instance (m : Manager) : (t : Thread) → Decidable (m.NoDialRead t)
  | .invalidating _ => inferInstanceAs (Decidable (∀ call ∈ _, _))
  | .closing .. | .probing .. | .pinging .. | .relocking _ | .waiting .. | .sweeping _ =>
    isTrue trivial

/-- No dial has installed a connection after the one that the `Get` has found dead. -/
def NoneInstalledSince (m : Manager) : Thread → Prop
  | .invalidating (some g) => m.installed.head? = some g.dead
  | _ => True

instance (m : Manager) : (t : Thread) → Decidable (m.NoneInstalledSince t)
  | .invalidating (some _) => inferInstanceAs (Decidable (_ = _))
  | .invalidating none | .closing .. | .probing .. | .pinging .. | .relocking _ | .waiting ..
  | .sweeping _ => isTrue trivial

/-- A `Get` that comes back from `Invalidate` and starts a dial finds no connection cached. -/
def NothingCached (m : Manager) : Thread → Prop
  | .relocking _ => m.dials = none → m.conns = none
  | _ => True

instance (m : Manager) : (t : Thread) → Decidable (m.NothingCached t)
  | .relocking _ => inferInstanceAs (Decidable (_ → _))
  | .invalidating _ | .closing .. | .probing .. | .pinging .. | .waiting .. | .sweeping _ =>
    isTrue trivial

/-- A manager that has done nothing yet. -/
structure New (m : Manager) : Prop where
  conns : m.conns = none
  dials : m.dials = none
  heap : m.heap = []
  calls : m.calls = []
  threads : m.threads = []
  invalidations : m.invalidations = 0
  completed : m.completed = 0
  returned : m.returned = []
  installed : m.installed = []

variable {m m' : Manager} {e : ConnEvent}

@[simp] theorem readAt?_close (m : Manager) (c c' : ℕ) : (m.close c).readAt? c' = m.readAt? c' := by
  simp only [readAt?, close, List.getElem?_modify]
  cases m.heap[c']? with
  | none => rfl
  | some x => by_cases hc : c = c' <;> simp [hc]

@[simp] theorem readAt?_touch (m : Manager) (c c' : ℕ) : (m.touch c).readAt? c' = m.readAt? c' := by
  simp only [readAt?, touch, List.getElem?_modify]
  cases m.heap[c']? with
  | none => rfl
  | some x => by_cases hc : c = c' <;> simp [hc]

theorem ReadSince.mono {c k : ℕ} (h : m.ReadSince c k)
    (hread : ∀ c r, m.readAt? c = some r → m'.readAt? c = some r) : m'.ReadSince c k := by
  obtain ⟨r, hr, hk⟩ := h
  exact ⟨r, hread c r hr, hk⟩

/-! ### `Invalidate` is respected -/

/-- What a dial gives to a `Get` that has started after `since` `Invalidate`s. -/
def CallSince (m : Manager) (since : ℕ) : DialCall → Prop
  | .starting => since ≤ m.invalidations
  | .connecting _ readAt => since ≤ readAt
  | .connected c | .done (some c) => m.ReadSince c since
  | .failed | .done none => True

/-- A connection on its way to the cache has a record read after every `Invalidate`. -/
def CallCurrent (m : Manager) : DialCall → Prop
  | .connecting _ readAt => readAt = m.invalidations
  | .connected c => m.readAt? c = some m.invalidations
  | .starting | .failed | .done _ => True

/-- The connection that a `Get` has found, or waits for, was read since it started. -/
def ThreadSince (m : Manager) : Thread → Prop
  | .probing since c | .pinging since c => m.ReadSince c since ∧ since ≤ m.invalidations
  | .invalidating caller => ∀ g ∈ caller, g.since ≤ m.invalidations
  | .closing caller _ number => number ≤ m.invalidations ∧ ∀ g ∈ caller, g.since ≤ m.invalidations
  | .relocking since => since ≤ m.invalidations
  | .waiting since d => ∃ call, m.calls[d]? = some call ∧ m.CallSince since call
  | .sweeping _ => True

/-- The invariant: what is cached or will be was read after every `Invalidate` so far, and every
`Get` gets what was read since it started. -/
structure FreshInv (m : Manager) : Prop where
  completed : m.completed ≤ m.invalidations
  cached : ∀ c ∈ m.conns, m.readAt? c = some m.invalidations
  dials : ∀ d ∈ m.dials, ∃ call, m.calls[d]? = some call ∧ call.pending = true
  calls : ∀ call ∈ m.calls, m.CallCurrent call
  threads : ∀ t ∈ m.threads, m.ThreadSince t
  returned : m.RespectsInvalidate

private theorem FreshInv.of_new (h : m.New) : m.FreshInv where
  completed := by rw [h.completed]; exact Nat.zero_le _
  cached c hc := by simp [h.conns] at hc
  dials d hd := by simp [h.dials] at hd
  calls call hcall := by simp [h.calls] at hcall
  threads t ht := by simp [h.threads] at ht
  returned p hp := by simp [h.returned] at hp

/-- What a step keeps: records are read once, and a dial goes on to give what it promised. -/
structure Extends (m m' : Manager) : Prop where
  invalidations : m.invalidations ≤ m'.invalidations
  readAt : ∀ c r, m.readAt? c = some r → m'.readAt? c = some r
  calls : ∀ (d : ℕ) (call : DialCall), m.calls[d]? = some call →
    ∃ call', m'.calls[d]? = some call' ∧ ∀ since, m.CallSince since call → m'.CallSince since call'

theorem CallSince.mono {since : ℕ} {call : DialCall} (h : m.CallSince since call)
    (hinv : m.invalidations ≤ m'.invalidations)
    (hread : ∀ c r, m.readAt? c = some r → m'.readAt? c = some r) : m'.CallSince since call := by
  match call, h with
  | .starting, h => exact h.trans hinv
  | .connecting _ _, h => exact h
  | .connected _, h | .done (some _), h => exact ReadSince.mono h hread
  | .failed, _ | .done none, _ => trivial

/-- A step that leaves the dial calls alone. -/
theorem Extends.of_calls (hinv : m.invalidations ≤ m'.invalidations)
    (hread : ∀ c r, m.readAt? c = some r → m'.readAt? c = some r)
    (hcalls : m'.calls = m.calls) : m.Extends m' where
  invalidations := hinv
  readAt := hread
  calls _ call hd := ⟨call, hcalls ▸ hd, fun _ h => h.mono hinv hread⟩

/-- A step of the dial `d`. -/
theorem Extends.of_call {d : ℕ} {call call' : DialCall} (hd : m.calls[d]? = some call)
    (hinv : m'.invalidations = m.invalidations)
    (hread : ∀ c r, m.readAt? c = some r → m'.readAt? c = some r)
    (hcalls : m'.calls = m.calls.set d call')
    (hsince : ∀ since, m.CallSince since call → m'.CallSince since call') : m.Extends m' where
  invalidations := hinv.ge
  readAt := hread
  calls d' old hold := by
    rw [hcalls, List.getElem?_set]
    by_cases hdd : d = d'
    · subst hdd
      obtain rfl := Option.some.inj (hd.symm.trans hold)
      rw [if_pos rfl, if_pos (List.getElem?_eq_some_iff.mp hd).1]
      exact ⟨call', rfl, hsince⟩
    · rw [if_neg hdd]
      exact ⟨old, hold, fun _ h => h.mono hinv.ge hread⟩

theorem ThreadSince.mono {t : Thread} (h : m.ThreadSince t) (hext : m.Extends m') :
    m'.ThreadSince t := by
  have hinv := hext.invalidations
  cases t with
  | probing since c => exact ⟨h.1.mono hext.readAt, h.2.trans hinv⟩
  | pinging since c => exact ⟨h.1.mono hext.readAt, h.2.trans hinv⟩
  | invalidating caller => exact fun g hg => (h g hg).trans hinv
  | closing caller taken number => exact ⟨h.1.trans hinv, fun g hg => (h.2 g hg).trans hinv⟩
  | relocking since => exact le_trans h hinv
  | waiting since d =>
    obtain ⟨call, hd, hsince⟩ := h
    obtain ⟨call', hd', hnext⟩ := hext.calls d call hd
    exact ⟨call', hd', hnext since hsince⟩
  | sweeping c => trivial

/-- **Every step but the critical section of `Invalidate`** keeps the invariant when what it adds
keeps it. -/
theorem FreshInv.keep (h : m.FreshInv) (hext : m.Extends m')
    (hinv : m'.invalidations = m.invalidations) (hcompleted : m'.completed ≤ m.invalidations)
    (hcached : ∀ c ∈ m'.conns, m'.readAt? c = some m.invalidations)
    (hdials : ∀ d ∈ m'.dials, ∃ call, m'.calls[d]? = some call ∧ call.pending = true)
    (hcalls : ∀ call ∈ m'.calls, call ∈ m.calls ∨ m'.CallCurrent call)
    (hthreads : ∀ t ∈ m'.threads, t ∈ m.threads ∨ m'.ThreadSince t)
    (hreturned : ∀ p ∈ m'.returned, p ∈ m.returned ∨ m'.ReadSince p.2 p.1) : m'.FreshInv where
  completed := hinv ▸ hcompleted
  cached := hinv ▸ hcached
  dials := hdials
  calls call hmem := by
    rcases hcalls call hmem with hold | hnew
    · have hcurrent := h.calls call hold
      match call, hcurrent with
      | .connecting _ _, hcurrent => exact Eq.trans hcurrent hinv.symm
      | .connected c, hcurrent =>
        rw [CallCurrent, hinv]
        exact hext.readAt c _ hcurrent
      | .starting, _ | .failed, _ | .done _, _ => trivial
    · exact hnew
  threads t hmem := (hthreads t hmem).elim (fun hold => (h.threads t hold).mono hext) id
  returned p hmem :=
    (hreturned p hmem).elim (fun hold => (h.returned p hold).mono hext.readAt) id

/-- A step that leaves the dials and the records of the connections alone, and caches nothing. -/
theorem FreshInv.keepCalls (h : m.FreshInv) (hinv : m'.invalidations = m.invalidations)
    (hread : ∀ c, m'.readAt? c = m.readAt? c) (hcalls : m'.calls = m.calls)
    (hdials : m'.dials = m.dials) (hconns : ∀ c ∈ m'.conns, c ∈ m.conns)
    (hcompleted : m'.completed ≤ m.invalidations)
    (hthreads : ∀ t ∈ m'.threads, t ∈ m.threads ∨ m'.ThreadSince t)
    (hreturned : ∀ p ∈ m'.returned, p ∈ m.returned ∨ m'.ReadSince p.2 p.1) : m'.FreshInv := by
  have hext : m.Extends m' := .of_calls hinv.ge (fun c r hr => (hread c).trans hr) hcalls
  refine h.keep hext hinv hcompleted (fun c hc => ?_) ?_ (fun call hcall => ?_) hthreads hreturned
  · exact (hread c).trans (h.cached c (hconns c hc))
  · rw [hdials, hcalls]
    exact h.dials
  · exact .inl (hcalls ▸ hcall)

/-- A step that only ends a call. -/
theorem FreshInv.erase (h : m.FreshInv) (i : ℕ) :
    FreshInv { m with threads := m.threads.eraseIdx i } :=
  h.keepCalls rfl (fun _ => rfl) rfl rfl (fun _ hc => hc) h.completed
    (fun _ ht => .inl (List.mem_of_mem_eraseIdx ht)) (fun _ hp => .inl hp)

/-- A call goes on as `t`. -/
theorem FreshInv.set (h : m.FreshInv) {i : ℕ} {old t : Thread} (hi : m.threads[i]? = some old)
    (ht : m.ThreadSince t) : FreshInv { m with threads := m.threads.set i t } := by
  have hext : m.Extends { m with threads := m.threads.set i t } :=
    .of_calls le_rfl (fun _ _ hr => hr) rfl
  refine h.keepCalls rfl (fun _ => rfl) rfl rfl (fun _ hc => hc) h.completed (fun t' ht' => ?_)
    (fun _ hp => .inl hp)
  rcases (mem_pool_set hi).mp ht' with rfl | hold
  · exact .inr (ht.mono hext)
  · exact .inl (List.mem_of_mem_eraseIdx hold)

/-- A `Get` joins the dial in flight or starts one. -/
theorem FreshInv.lookDials (h : m.FreshInv) {since : ℕ} (hsince : since ≤ m.invalidations)
    {ts : List Thread} (hts : ∀ t ∈ ts, t ∈ m.threads ∨ t = (m.lookDials since).2) :
    FreshInv { (m.lookDials since).1 with threads := ts } := by
  unfold Manager.lookDials at hts ⊢
  cases hd : m.dials with
  | some d =>
    simp only [hd] at hts ⊢
    refine h.keepCalls rfl (fun _ => rfl) rfl hd.symm (fun _ hc => hc) h.completed (fun t ht => ?_)
      (fun _ hp => .inl hp)
    refine (hts t ht).imp_right fun hnew => ?_
    obtain ⟨call, hcall, hpending⟩ := h.dials d hd
    have hcurrent := h.calls call (List.mem_of_getElem? hcall)
    subst hnew
    refine ⟨call, hcall, ?_⟩
    -- what is in flight was read after every `Invalidate`, so also since this `Get` started
    match call, hcurrent, hpending with
    | .starting, _, _ => exact hsince
    | .connecting _ _, hcurrent, _ => exact hsince.trans (Eq.ge hcurrent)
    | .connected c, hcurrent, _ => exact ⟨_, hcurrent, hsince⟩
    | .failed, _, _ => trivial
  | none =>
    simp only [hd] at hts ⊢
    have hcall : (m.calls ++ [DialCall.starting])[m.calls.length]? = some .starting := by simp
    -- the new dial will read the record after every `Invalidate` so far
    refine h.keep ⟨le_rfl, fun _ _ hr => hr, fun d call hcall => ?_⟩ rfl h.completed h.cached
      (fun d hd => ?_) (fun call hcall => ?_) (fun t ht => ?_) (fun _ hp => .inl hp)
    · have hlt := (List.getElem?_eq_some_iff.mp hcall).1
      exact ⟨call, (List.getElem?_append_left hlt).trans hcall, fun _ hs => hs.mono le_rfl
        fun _ _ hr => hr⟩
    · obtain rfl := Option.some.inj hd
      exact ⟨.starting, hcall, rfl⟩
    · refine (List.mem_append.mp hcall).imp_right fun hnew => ?_
      obtain rfl := List.mem_singleton.mp hnew
      trivial
    · refine (hts t ht).imp_right fun hnew => ?_
      subst hnew
      exact ⟨.starting, hcall, hsince⟩

/-- The probe of a connection has ended. -/
theorem FreshInv.probed {i since c : ℕ} {old : Thread} (h : m.FreshInv)
    (hi : m.threads[i]? = some old) (hread : m.ReadSince c since) (hsince : since ≤ m.invalidations)
    (ok : Bool) : (m.probed i since c ok).FreshInv := by
  rw [Manager.probed]
  split_ifs
  · refine h.keepCalls rfl (fun c' => readAt?_touch m c c') rfl rfl (fun _ hc => hc) h.completed
      (fun _ ht => .inl (List.mem_of_mem_eraseIdx ht)) (fun p hp => ?_)
    rcases List.mem_cons.mp hp with rfl | hold
    · exact .inr (hread.mono fun c' r hr => (readAt?_touch m c c').trans hr)
    · exact .inl hold
  · refine h.set hi fun g hg => ?_
    obtain rfl := Option.some.inj hg
    exact hsince

/-- The end of `Invalidate`. -/
theorem FreshInv.closeTaken {i number : ℕ} {caller : Option Caller} {taken : Option ℕ}
    (h : m.FreshInv) (hi : m.threads[i]? = some (.closing caller taken number)) :
    (m.closeTaken i caller taken number).FreshInv := by
  obtain ⟨hnumber, hcaller⟩ := h.threads _ (List.mem_of_getElem? hi)
  have hread : ∀ c, (taken.elim m m.close).readAt? c = m.readAt? c := fun c => by
    cases taken with
    | none => rfl
    | some c' => exact readAt?_close m c' c
  have hclosed : (taken.elim m m.close).FreshInv := by
    cases taken with
    | none => exact h
    | some c =>
      exact h.keepCalls rfl (readAt?_close m c) rfl rfl (fun _ hc => hc) h.completed
        (fun _ ht => .inl ht) (fun _ hp => .inl hp)
  have hinv : (taken.elim m m.close).invalidations = m.invalidations := by cases taken <;> rfl
  have hthreads : (taken.elim m m.close).threads = m.threads := by cases taken <;> rfl
  refine hclosed.keepCalls rfl (fun _ => rfl) rfl rfl (fun _ hc => hc)
    (hinv ▸ max_le h.completed hnumber) (fun t ht => ?_) (fun _ hp => .inl hp)
  rw [hthreads]
  cases caller with
  | none => exact .inl (List.mem_of_mem_eraseIdx ht)
  | some g =>
    rcases (mem_pool_set hi).mp ht with rfl | hold
    · exact .inr ((hcaller g rfl).trans hinv.ge)
    · exact .inl (List.mem_of_mem_eraseIdx hold)

/-- **The critical section of `Invalidate`**: nothing is cached after it, and no dial in flight
passes it by. -/
theorem FreshInv.invalidate {i : ℕ} {caller : Option Caller} (h : m.FreshInv)
    (hi : m.threads[i]? = some (.invalidating caller))
    (hcond : ∀ call ∈ m.calls, call.hasRead = false) : (m.invalidate i caller).FreshInv := by
  have hext : m.Extends (m.invalidate i caller) :=
    .of_calls (Nat.le_succ _) (fun _ _ hr => hr) rfl
  have hcaller := h.threads _ (List.mem_of_getElem? hi)
  refine ⟨h.completed.trans (Nat.le_succ _), fun c hc => (by cases hc), h.dials,
    fun call hcall => ?_, fun t ht => ?_, h.returned⟩
  · have hnot : call.hasRead = false := hcond call hcall
    match call, hnot with
    | .starting, _ | .failed, _ | .done _, _ => trivial
  · rcases (mem_pool_set hi).mp ht with rfl | hold
    · exact ⟨le_rfl, fun g hg => (hcaller g hg).trans (Nat.le_succ _)⟩
    · exact (h.threads t (List.mem_of_mem_eraseIdx hold)).mono hext

/-- **A step of a dial.** -/
theorem FreshInv.dialStep {d : ℕ} {call : DialCall} {ok : Bool} (h : m.FreshInv)
    (hd : m.calls[d]? = some call) (hs : m.dialStep d ok call = some m') : m'.FreshInv := by
  have hlt : d < m.calls.length := (List.getElem?_eq_some_iff.mp hd).1
  -- the new phase of the dial, and the others as they were
  have hset : ∀ {call'}, call'.pending = true → ∀ d' ∈ m.dials,
      ∃ c, (m.calls.set d call')[d']? = some c ∧ c.pending = true := fun hpending d' hd' => by
    by_cases hdd : d = d'
    · subst hdd
      exact ⟨_, List.getElem?_set_self hlt, hpending⟩
    · rw [List.getElem?_set_ne hdd]
      exact h.dials d' hd'
  have hmem : ∀ {call' c}, c ∈ m.calls.set d call' → c ∈ m.calls ∨ c = call' := fun hc =>
    (List.mem_or_eq_of_mem_set hc)
  have hcurrent := h.calls call (List.mem_of_getElem? hd)
  cases call with
  | starting =>
    obtain rfl := Option.some.inj hs
    have hext : m.Extends { m with
        calls :=
          m.calls.set d (if ok then .connecting m.record m.invalidations else .failed) } := by
      refine .of_call hd rfl (fun _ _ hr => hr) rfl fun since hsince => ?_
      cases ok <;> trivial
    refine h.keep hext rfl h.completed h.cached (hset (by cases ok <;> rfl)) (fun c hc => ?_)
      (fun _ ht => .inl ht) (fun _ hp => .inl hp)
    refine (hmem hc).imp_right fun hnew => ?_
    subst hnew
    cases ok <;> trivial
  | connecting r readAt =>
    cases ok with
    | true =>
      obtain rfl := Option.some.inj hs
      -- the new connection is the last of the heap; the others keep their place
      have hheap : ∀ c k, m.readAt? c = some k →
          (m.heap ++ [Conn.mk r readAt m.now false])[c]?.map Conn.readAt = some k :=
        fun c k hc => by
          obtain ⟨x, hx, rfl⟩ := Option.map_eq_some_iff.mp hc
          rw [List.getElem?_append_left (List.getElem?_eq_some_iff.mp hx).1, hx, Option.map_some]
      have hnew : (m.heap ++ [Conn.mk r readAt m.now false])[m.heap.length]?.map Conn.readAt =
          some readAt := by simp
      refine h.keep (.of_call hd rfl hheap rfl fun since hsince => ⟨readAt, hnew, hsince⟩) rfl
        h.completed (fun c hc => hheap c _ (h.cached c hc)) (hset rfl) (fun c hc => ?_)
        (fun _ ht => .inl ht) (fun _ hp => .inl hp)
      refine (hmem hc).imp_right fun hphase => ?_
      subst hphase
      exact hnew.trans (congrArg some hcurrent)
    | false =>
      obtain rfl := Option.some.inj hs
      refine h.keep (.of_call hd rfl (fun _ _ hr => hr) rfl fun _ _ => trivial) rfl h.completed
        h.cached (hset rfl) (fun c hc => ?_) (fun _ ht => .inl ht) (fun _ hp => .inl hp)
      refine (hmem hc).imp_right fun hphase => ?_
      subst hphase
      trivial
  | connected c =>
    -- the connection becomes the cached one, and was read late enough for that
    obtain rfl := Option.some.inj hs
    refine h.keep (.of_call hd rfl (fun _ _ hr => hr) rfl fun _ hsince => hsince) rfl h.completed
      (fun c' hc' => ?_) (fun _ hno => by cases hno) (fun c' hc' => ?_) (fun _ ht => .inl ht)
      (fun _ hp => .inl hp)
    · obtain rfl := Option.some.inj hc'
      exact hcurrent
    · refine (hmem hc').imp_right fun hphase => ?_
      subst hphase
      trivial
  | failed =>
    obtain rfl := Option.some.inj hs
    refine h.keep (.of_call hd rfl (fun _ _ hr => hr) rfl fun _ _ => trivial) rfl h.completed
      h.cached (fun _ hno => by cases hno) (fun c hc => ?_) (fun _ ht => .inl ht)
      (fun _ hp => .inl hp)
    refine (hmem hc).imp_right fun hphase => ?_
    subst hphase
    trivial
  | done c => cases hs

/-- The connection leaves the cache to be closed. -/
theorem FreshInv.sweep (h : m.FreshInv) (c : ℕ) : (m.sweep c).FreshInv := by
  refine h.keepCalls rfl (fun _ => rfl) rfl rfl (fun _ hc => by cases hc) h.completed
    (fun t ht => ?_) (fun _ hp => .inl hp)
  refine (List.mem_append.mp ht).imp_right fun hnew => ?_
  obtain rfl := List.mem_singleton.mp hnew
  trivial

/-- **The next step of a call.** -/
theorem FreshInv.advance {i : ℕ} {t : Thread} (h : m.FreshInv) (hi : m.threads[i]? = some t)
    (hcond : m.NoDialRead t) (hs : m.advance i t = some m') : m'.FreshInv := by
  have ht := h.threads t (List.mem_of_getElem? hi)
  cases t with
  | probing since c =>
    obtain ⟨ok, rfl⟩ | rfl := advance_probing hs
    · exact h.probed hi ht.1 ht.2 ok
    · exact h.set hi ht
  | pinging since c => cases hs
  | invalidating caller =>
    obtain rfl := Option.some.inj hs
    exact h.invalidate hi hcond
  | closing caller taken number =>
    obtain rfl := Option.some.inj hs
    exact h.closeTaken hi
  | relocking since =>
    obtain rfl := Option.some.inj hs
    refine h.lookDials ht fun t' ht' => ?_
    exact ((mem_pool_set hi).mp ht').symm.imp_left List.mem_of_mem_eraseIdx
  | waiting since d =>
    obtain ⟨c, hdone, rfl⟩ | rfl := advance_waiting hs
    · -- the dial has kept what it promised when the `Get` began to wait
      obtain ⟨call, hd, hsince⟩ := ht
      obtain rfl := Option.some.inj (hdone.symm.trans hd)
      refine h.keepCalls rfl (fun _ => rfl) rfl rfl (fun _ hc => hc) h.completed
        (fun _ ht => .inl (List.mem_of_mem_eraseIdx ht)) (fun p hp => ?_)
      rcases List.mem_cons.mp hp with rfl | hold
      · exact .inr hsince
      · exact .inl hold
    · exact h.erase i
  | sweeping c =>
    obtain rfl := Option.some.inj hs
    exact h.keepCalls rfl (readAt?_close m c) rfl rfl (fun _ hc => hc) h.completed
      (fun _ ht => .inl (List.mem_of_mem_eraseIdx ht)) (fun _ hp => .inl hp)

/-- **One step.** -/
theorem FreshInv.step (h : m.FreshInv) (hcond : m.OnRun NoDialRead e) (hs : m.step e = some m') :
    m'.FreshInv := by
  cases e with
  | tick t =>
    obtain rfl := Option.some.inj hs
    exact h.keepCalls rfl (fun _ => rfl) rfl rfl (fun _ hc => hc) h.completed (fun _ ht => .inl ht)
      (fun _ hp => .inl hp)
  | update r =>
    obtain rfl := Option.some.inj hs
    exact h.keepCalls rfl (fun _ => rfl) rfl rfl (fun _ hc => hc) h.completed (fun _ ht => .inl ht)
      (fun _ hp => .inl hp)
  | get =>
    obtain rfl := Option.some.inj hs
    have hnew : ∀ t u, t ∈ m.threads ++ [u] → t ∈ m.threads ∨ t = u := fun t u ht =>
      (List.mem_append.mp ht).imp_right List.mem_singleton.mp
    unfold lookUp
    cases hconns : m.conns with
    | none => exact h.lookDials h.completed fun t ht => hnew t _ ht
    | some c =>
      have hread := h.cached c hconns
      refine h.keepCalls rfl (fun _ => rfl) rfl rfl (fun _ hc => hc) h.completed (fun t ht => ?_)
        (fun _ hp => .inl hp)
      refine (hnew t _ ht).imp_right fun htc => ?_
      subst htc
      exact ⟨⟨_, hread, h.completed⟩, h.completed⟩
  | invalidate =>
    obtain rfl := Option.some.inj hs
    refine h.keepCalls rfl (fun _ => rfl) rfl rfl (fun _ hc => hc) h.completed (fun t ht => ?_)
      (fun _ hp => .inl hp)
    refine (List.mem_append.mp ht).imp_right fun hnew => ?_
    obtain rfl := List.mem_singleton.mp hnew
    exact fun g hg => by cases hg
  | closeIdle =>
    obtain rfl | ⟨c, -, rfl⟩ := step_sweeps (.inl rfl) hs
    · exact h
    · exact h.sweep c
  | closeAll =>
    obtain rfl | ⟨c, -, rfl⟩ := step_sweeps (.inr rfl) hs
    · exact h
    · exact h.sweep c
  | run i =>
    obtain ⟨t, hi, hs⟩ := Option.bind_eq_some_iff.mp hs
    exact h.advance hi (hcond t hi) hs
  | pong i ok =>
    obtain ⟨since, c, hi, rfl⟩ := step_pong hs
    obtain ⟨hread, hsince⟩ := h.threads _ (List.mem_of_getElem? hi)
    exact h.probed hi hread hsince ok
  | giveUp i =>
    obtain ⟨since, d, -, rfl⟩ := step_giveUp hs
    exact h.erase i
  | dial d ok =>
    obtain ⟨call, hd, hs⟩ := Option.bind_eq_some_iff.mp hs
    exact h.dialStep hd hs
  | use c =>
    obtain rfl := step_use hs
    exact h.keepCalls rfl (readAt?_touch m c) rfl rfl (fun _ hc => hc) h.completed
      (fun _ ht => .inl ht) (fun _ hp => .inl hp)

variable {es : List ConnEvent}

theorem respectsInvalidate_of_run (hnew : m.New)
    (hcond : Along Manager.step (OnRun NoDialRead) m es) :
    AllStates Manager.step RespectsInvalidate m es :=
  (allStates_of_along (fun _ _ _ h hC hs => h.step hC hs) (FreshInv.of_new hnew) hcond).imp
    fun _ h => h.returned

end Manager

end Dockhand.Hosts
