import Dockhand.Hosts.Store
import Mathlib.Algebra.Ring.Nat
import Mathlib.Data.List.Basic

/-!
# The connection manager

What the manager does with the connections to one host: the host's entries in the maps `conns` and
`dials`, and the calls of `Get`, `Invalidate`, `CloseIdle` and `CloseAll`, one critical section or
one blocking operation at a time. Connections and dial calls are named by their indices in the
lists `heap` and `calls`, as pointers name them in the code. Times are nanoseconds.

Four things are no part of the program. `invalidations` counts the critical sections of
`Invalidate` and numbers them, `completed` is the largest number of those calls that have returned,
`returned` collects the connections that `Get` has returned, each with the value of `completed`
when that `Get` started, and `installed` those that dials have put into the cache, the last one
first. A connection carries the number of critical sections before its host record was read.
-/

namespace Dockhand.Hosts

/-- A connection and the record that it was dialled from. -/
structure Conn where
  target : Record
  readAt : ℕ
  lastUsed : ℕ
  closed : Bool := false
  deriving DecidableEq

/-- A dial that several calls of `Get` may share. -/
inductive DialCall
  | starting
  | connecting (r : Record) (readAt : ℕ)
  | connected (c : ℕ)
  | failed
  | done (c : Option ℕ)
  deriving DecidableEq

/-- A `Get` that has found a dead connection. -/
structure Caller where
  since : ℕ
  dead : ℕ
  deriving DecidableEq

/-- A running call, by what it does next. `invalidating` and `closing` belong to `Invalidate`,
which a `Get` or somebody else has called. -/
inductive Thread
  | probing (since c : ℕ)
  | pinging (since c : ℕ)
  | invalidating (caller : Option Caller)
  | closing (caller : Option Caller) (taken : Option ℕ) (number : ℕ)
  | relocking (since : ℕ)
  | waiting (since d : ℕ)
  | sweeping (c : ℕ)
  deriving DecidableEq

/-- The manager for one host: its row, the cached connection and the dial that is running as places
in the heap, and all connections that were ever made. -/
structure Manager where
  record : Record
  now : ℕ := 0
  conns : Option ℕ := none
  dials : Option ℕ := none
  heap : List Conn := []
  calls : List DialCall := []
  threads : List Thread := []
  invalidations : ℕ := 0
  completed : ℕ := 0
  returned : List (ℕ × ℕ) := []
  installed : List ℕ := []

/-- What happens next. `run i` is the next step of a call, `pong i ok` the answer to a keepalive or
its timeout, `giveUp i` the end of the context of a `Get`. `dial d ok` is the next step of a dial
and whether it succeeds, and `use c` the use of a connection by somebody who has got it. -/
inductive ConnEvent
  | tick (t : ℕ)
  | update (r : Record)
  | get
  | invalidate
  | closeIdle
  | closeAll
  | run (i : ℕ)
  | pong (i : ℕ) (ok : Bool)
  | giveUp (i : ℕ)
  | dial (d : ℕ) (ok : Bool)
  | use (c : ℕ)

/-- How long a connection counts as alive after its last use. -/
def freshFor : ℕ := 30 * 10 ^ 9

/-- How long a connection may be unused. -/
def idleTimeout : ℕ := 600 * 10 ^ 9

namespace Manager

/-- Close a connection. -/
def close (m : Manager) (c : ℕ) : Manager :=
  { m with heap := m.heap.modify c fun x => { x with closed := true } }

/-- `touch`. -/
def touch (m : Manager) (c : ℕ) : Manager :=
  { m with heap := m.heap.modify c fun x => { x with lastUsed := m.now } }

/-- `alive` without its keepalive: `none` when it takes one. -/
def alive (m : Manager) (c : ℕ) : Option Bool :=
  match m.heap[c]? with
  | none => some false
  | some x =>
    if x.closed then some false
    else if x.target.method = "local" ∨ m.now - x.lastUsed < freshFor then some true
    else none

/-- A `Get` looks for a dial in flight and starts one if there is none. -/
def lookDials (m : Manager) (since : ℕ) : Manager × Thread :=
  match m.dials with
  | some d => (m, .waiting since d)
  | none =>
    ({ m with calls := m.calls ++ [.starting], dials := some m.calls.length },
      .waiting since m.calls.length)

/-- The first critical section of a `Get`. -/
def lookUp (m : Manager) : Manager × Thread :=
  match m.conns with
  | some c => (m, .probing m.completed c)
  | none => m.lookDials m.completed

/-- The `Get` at index `i` goes on with a connection whose probe has ended. -/
def probed (m : Manager) (i since c : ℕ) (ok : Bool) : Manager :=
  if ok then
    { m.touch c with threads := m.threads.eraseIdx i, returned := (since, c) :: m.returned }
  else { m with threads := m.threads.set i (.invalidating (some ⟨since, c⟩)) }

/-- The critical section of `Invalidate`. -/
def invalidate (m : Manager) (i : ℕ) (caller : Option Caller) : Manager :=
  { m with
    conns := none
    invalidations := m.invalidations + 1
    threads := m.threads.set i (.closing caller m.conns (m.invalidations + 1)) }

/-- The end of `Invalidate`: it closes what it has taken from the map. -/
def closeTaken (m : Manager) (i : ℕ) (caller : Option Caller) (taken : Option ℕ) (number : ℕ) :
    Manager :=
  { taken.elim m m.close with
    completed := max m.completed number
    threads := match caller with
      | some g => m.threads.set i (.relocking g.since)
      | none => m.threads.eraseIdx i }

/-- The next step of the call at index `i`, `none` when it waits. -/
def advance (m : Manager) (i : ℕ) : Thread → Option Manager
  | .probing since c =>
    match m.alive c with
    | some ok => some (m.probed i since c ok)
    | none => some { m with threads := m.threads.set i (.pinging since c) }
  | .pinging .. => none
  | .invalidating caller => some (m.invalidate i caller)
  | .closing caller taken number => some (m.closeTaken i caller taken number)
  | .relocking since =>
    some { (m.lookDials since).1 with threads := m.threads.set i (m.lookDials since).2 }
  | .waiting since d =>
    match m.calls[d]? with
    | some (.done (some c)) =>
      some { m with threads := m.threads.eraseIdx i, returned := (since, c) :: m.returned }
    | some (.done none) => some { m with threads := m.threads.eraseIdx i }
    | _ => none
  | .sweeping c => some { m.close c with threads := m.threads.eraseIdx i }

/-- The next step of the dial `d`: it reads the record, connects, and installs its connection. -/
def dialStep (m : Manager) (d : ℕ) (ok : Bool) : DialCall → Option Manager
  | .starting =>
    some { m with
      calls := m.calls.set d (if ok then .connecting m.record m.invalidations else .failed) }
  | .connecting r readAt =>
    if ok then
      some { m with
        heap := m.heap ++ [{ target := r, readAt := readAt, lastUsed := m.now }]
        calls := m.calls.set d (.connected m.heap.length) }
    else some { m with calls := m.calls.set d .failed }
  | .connected c =>
    some { m with
      dials := none
      conns := some c
      calls := m.calls.set d (.done (some c))
      installed := c :: m.installed }
  | .failed => some { m with dials := none, calls := m.calls.set d (.done none) }
  | .done _ => none

/-- `CloseIdle` or `CloseAll` takes the connection from the map. -/
def sweep (m : Manager) (c : ℕ) : Manager :=
  { m with conns := none, threads := m.threads ++ [.sweeping c] }

/-- One critical section or blocking operation, or one call begun. -/
def step (m : Manager) : ConnEvent → Option Manager
  | .tick t => some { m with now := m.now + t }
  | .update r => some { m with record := r }
  | .get => some { m.lookUp.1 with threads := m.threads ++ [m.lookUp.2] }
  | .invalidate => some { m with threads := m.threads ++ [.invalidating none] }
  | .closeIdle =>
    match m.conns with
    | some c =>
      some (if (m.heap[c]?).any fun x => idleTimeout < m.now - x.lastUsed then m.sweep c else m)
    | none => some m
  | .closeAll => some (m.conns.elim m m.sweep)
  | .run i => (m.threads[i]?).bind (m.advance i)
  | .pong i ok =>
    match m.threads[i]? with
    | some (.pinging since c) => some (m.probed i since c ok)
    | _ => none
  | .giveUp i =>
    match m.threads[i]? with
    | some (.waiting ..) => some { m with threads := m.threads.eraseIdx i }
    | _ => none
  | .dial d ok => (m.calls[d]?).bind (m.dialStep d ok)
  | .use c => if c ∈ m.returned.map Prod.snd then some (m.touch c) else none

/-! ### What a step does -/

variable {m m' : Manager} {i : ℕ}

/-- A probe ends or takes a keepalive. -/
theorem advance_probing {since c : ℕ} (hs : m.advance i (.probing since c) = some m') :
    (∃ ok, m' = m.probed i since c ok) ∨
      m' = { m with threads := m.threads.set i (.pinging since c) } := by
  simp only [advance] at hs
  split at hs
  next ok _ => exact .inl ⟨ok, (Option.some.inj hs).symm⟩
  · exact .inr (Option.some.inj hs).symm

/-- A `Get` that has waited for a dial returns its connection, or fails with it. -/
theorem advance_waiting {since d : ℕ} (hs : m.advance i (.waiting since d) = some m') :
    (∃ c, m.calls[d]? = some (.done (some c)) ∧
      m' = { m with threads := m.threads.eraseIdx i, returned := (since, c) :: m.returned }) ∨
      m' = { m with threads := m.threads.eraseIdx i } := by
  simp only [advance] at hs
  split at hs
  next c hd => exact .inl ⟨c, hd, (Option.some.inj hs).symm⟩
  · exact .inr (Option.some.inj hs).symm
  · cases hs

/-- `CloseIdle` and `CloseAll` take the cached connection, or do nothing. -/
theorem step_sweeps {e : ConnEvent} (he : e = .closeIdle ∨ e = .closeAll)
    (hs : m.step e = some m') : m' = m ∨ ∃ c, m.conns = some c ∧ m' = m.sweep c := by
  rcases he with rfl | rfl
  · simp only [step] at hs
    split at hs
    next c hc =>
      obtain rfl := Option.some.inj hs
      split_ifs
      · exact .inr ⟨c, hc, rfl⟩
      · exact .inl rfl
    · exact .inl (Option.some.inj hs).symm
  · obtain rfl := Option.some.inj hs
    cases m.conns with
    | none => exact .inl rfl
    | some c => exact .inr ⟨c, rfl, rfl⟩

/-- A keepalive ends the probe that has taken it. -/
theorem step_pong {ok : Bool} (hs : m.step (.pong i ok) = some m') :
    ∃ since c, m.threads[i]? = some (.pinging since c) ∧ m' = m.probed i since c ok := by
  simp only [step] at hs
  split at hs
  next since c hi => exact ⟨since, c, hi, (Option.some.inj hs).symm⟩
  · cases hs

theorem step_use {c : ℕ} (hs : m.step (.use c) = some m') : m' = m.touch c :=
  (Option.some.inj (Option.ite_none_right_eq_some.mp hs).2).symm

/-- A `Get` gives up while it waits for a dial. -/
theorem step_giveUp (hs : m.step (.giveUp i) = some m') :
    ∃ since d, m.threads[i]? = some (.waiting since d) ∧
      m' = { m with threads := m.threads.eraseIdx i } := by
  simp only [step] at hs
  split at hs
  next since d hi => exact ⟨since, d, hi, (Option.some.inj hs).symm⟩
  · cases hs

end Manager

end Dockhand.Hosts
