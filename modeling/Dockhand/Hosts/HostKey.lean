import Dockhand.Hosts.Store
import Dockhand.Transition.Exec
import Dockhand.Transition.Pool

/-!
# The pinned host key

One host's row under `Store.Update` and under what connects to the host: a dial of the connection
manager and the host test, which do the same with the row. Both read the row, shake hands with the
server at the address and port that they have read, and pin the key that it presented when the row
they have read holds none. `Update` is its `SELECT` and its `UPDATE`.

* The stored key is to be one that a server at the stored address and port has presented. It is,
  as long as no connection pins its key after the row has moved: `HostKeys.keyPresented_of_run`.
* A stored key is to be cleared only by an `Update` that moves the host or asks for it. It is,
  exactly if no other `Update` writes back that it has read no key: `HostKeys.clearsOnPurpose_iff`.
-/

namespace Dockhand.Hosts

open Transition

/-- A key that a server has presented at an address and port. -/
structure Presented where
  address : String
  port : ℤ
  key : String
  deriving DecidableEq

/-- An `Update` between its two statements: the row that it has read and the one that it will
write. -/
structure Pending where
  cur : Record
  patch : Patch
  sealedPassword : String
  new : Record
  changed : Bool
  computed : update cur patch sealedPassword = .ok (new, changed)

/-- The `Update` changes the address or port that it has read, or resets the key. -/
def Pending.Moves (u : Pending) : Prop :=
  u.patch.resetHostKey = true ∨ u.new.address ≠ u.cur.address ∨ u.new.port ≠ u.cur.port

instance (u : Pending) : Decidable u.Moves := inferInstanceAs (Decidable (_ ∨ _ ∨ _))

/-- A connection to the host by a dial or a test, with the row that it has read. -/
inductive Dial
  | connecting (r : Record)
  | pinning (r : Record) (key : String)
  deriving DecidableEq

/-- The row of a host and what is in flight. `presented` is no part of the program: it collects
the keys of all handshakes. -/
structure HostKeys where
  row : Record
  presented : List Presented := []
  updates : List Pending := []
  dials : List Dial := []

/-- What happens next. In `handshake i key ok`, the server presents a key and lets the connection
in or not. -/
inductive KeyEvent
  | update (p : Patch) (sealedPassword : String)
  | write (i : ℕ)
  | refuse (i : ℕ)
  | dial
  | handshake (i : ℕ) (key : String) (ok : Bool)
  | hangUp (i : ℕ)
  | pin (i : ℕ)

namespace HostKeys

/-- The handshake of the connection at index `i`. -/
def shake (s : HostKeys) (i : ℕ) (r : Record) (key : String) (ok : Bool) : HostKeys :=
  { s with
    presented := ⟨r.address, r.port, key⟩ :: s.presented
    -- a server that presents another key than the pinned one is refused, and nothing is pinned
    dials := if ok ∧ r.hostKey = "" ∧ key ≠ "" then s.dials.set i (.pinning r key)
      else s.dials.eraseIdx i }

/-- One statement, one handshake or one call begun. -/
def step (s : HostKeys) : KeyEvent → Option HostKeys
  | .update p sealedPassword =>
    match h : update s.row p sealedPassword with
    | .error _ => some s
    | .ok (new, changed) =>
      some { s with updates := s.updates ++ [⟨s.row, p, sealedPassword, new, changed, h⟩] }
  | .write i =>
    (s.updates[i]?).map fun u =>
      { s with row := s.row.written u.new, updates := s.updates.eraseIdx i }
  | .refuse i => (s.updates[i]?).map fun _ => { s with updates := s.updates.eraseIdx i }
  | .dial => some { s with dials := s.dials ++ [.connecting s.row] }
  | .handshake i key ok =>
    match s.dials[i]? with
    | some (.connecting r) => if r.method = "local" then none else some (s.shake i r key ok)
    | _ => none
  | .hangUp i =>
    match s.dials[i]? with
    | some (.connecting _) => some { s with dials := s.dials.eraseIdx i }
    | _ => none
  | .pin i =>
    match s.dials[i]? with
    | some (.pinning _ key) => some { s with row := s.row.pin key, dials := s.dials.eraseIdx i }
    | _ => none

/-- **The key belongs to the address**: a stored key was presented at the stored address and
port. -/
def KeyPresented (s : HostKeys) : Prop :=
  s.row.hostKey ≠ "" → ⟨s.row.address, s.row.port, s.row.hostKey⟩ ∈ s.presented

instance (s : HostKeys) : Decidable s.KeyPresented := inferInstanceAs (Decidable (_ → _))

/-- **The key is cleared on purpose**: a step that clears a stored key is the `UPDATE` of an
`Update` that moves the host or resets the key. -/
def ClearsOnPurpose (s : HostKeys) (e : KeyEvent) (s' : HostKeys) : Prop :=
  s.row.hostKey ≠ "" → s'.row.hostKey = "" →
    match e with
    | .write i => ∃ u ∈ s.updates[i]?, u.Moves
    | _ => False

instance (s : HostKeys) (e : KeyEvent) (s' : HostKeys) : Decidable (s.ClearsOnPurpose e s') := by
  unfold ClearsOnPurpose
  cases e <;> infer_instance

/-- A connection that is about to store its key has connected to the stored address and port. -/
def DialsCurrent (s : HostKeys) : Dial → Prop
  | .connecting _ => True
  | .pinning r _ => s.row.hostKey = "" → s.row.address = r.address ∧ s.row.port = r.port

instance (s : HostKeys) : (d : Dial) → Decidable (s.DialsCurrent d)
  | .connecting _ => isTrue trivial
  | .pinning .. => inferInstanceAs (Decidable (_ → _))

/-- A connection stores its key only where it has connected to. -/
def PinsCurrent (s : HostKeys) : KeyEvent → Prop
  | .pin i => ∀ d ∈ s.dials[i]?, s.DialsCurrent d
  | _ => True

instance (s : HostKeys) : (e : KeyEvent) → Decidable (s.PinsCurrent e)
  | .pin _ => inferInstanceAs (Decidable (∀ d ∈ _, _))
  | .update .. | .refuse _ | .dial | .handshake .. | .hangUp _ | .write _ => isTrue trivial

/-- An `Update` that keeps the key it has read, and has read none, finds none. -/
def KeepsNewKey (s : HostKeys) : KeyEvent → Prop
  | .write i => ∀ u ∈ s.updates[i]?, ¬ u.Moves → u.cur.hostKey = "" → s.row.hostKey = ""
  | _ => True

instance (s : HostKeys) : (e : KeyEvent) → Decidable (s.KeepsNewKey e)
  | .write _ => inferInstanceAs (Decidable (∀ u ∈ _, _))
  | .update .. | .refuse _ | .dial | .handshake .. | .hangUp _ | .pin _ => isTrue trivial

/-! ### The key and the address -/

/-- Nothing is in flight, and the stored key belongs to the stored address. -/
structure Idle (s : HostKeys) : Prop where
  updates : s.updates = []
  dials : s.dials = []
  keyPresented : s.KeyPresented

/-- The keys that are stored, about to be written back, or about to be pinned were presented where
they belong. -/
structure KeyInv (s : HostKeys) : Prop where
  row : s.KeyPresented
  update : ∀ u ∈ s.updates, u.cur.hostKey ≠ "" →
    ⟨u.cur.address, u.cur.port, u.cur.hostKey⟩ ∈ s.presented
  dial : ∀ r key, .pinning r key ∈ s.dials → ⟨r.address, r.port, key⟩ ∈ s.presented

variable {s s' : HostKeys} {e : KeyEvent}

/-- An `Update` is refused, or begins with the row that it has computed. -/
theorem step_update {p : Patch} {sealedPassword : String}
    (hs : s.step (.update p sealedPassword) = some s') :
    s' = s ∨ ∃ u : Pending, u.cur = s.row ∧ s' = { s with updates := s.updates ++ [u] } := by
  simp only [step] at hs
  split at hs
  · exact .inl (Option.some.inj hs).symm
  · exact .inr ⟨_, rfl, (Option.some.inj hs).symm⟩

theorem step_handshake {i : ℕ} {key : String} {ok : Bool}
    (hs : s.step (.handshake i key ok) = some s') :
    ∃ r, s.dials[i]? = some (.connecting r) ∧ s' = s.shake i r key ok := by
  simp only [step] at hs
  split at hs
  next r hi =>
    obtain ⟨-, hs⟩ := Option.ite_none_left_eq_some.mp hs
    exact ⟨r, hi, (Option.some.inj hs).symm⟩
  · cases hs

private theorem step_hangUp {i : ℕ} (hs : s.step (.hangUp i) = some s') :
    s' = { s with dials := s.dials.eraseIdx i } := by
  simp only [step] at hs
  split at hs
  · exact (Option.some.inj hs).symm
  · cases hs

theorem step_pin {i : ℕ} (hs : s.step (.pin i) = some s') :
    ∃ r key, s.dials[i]? = some (.pinning r key) ∧
      s' = { s with row := s.row.pin key, dials := s.dials.eraseIdx i } := by
  simp only [step] at hs
  split at hs
  next r key hi => exact ⟨r, key, hi, (Option.some.inj hs).symm⟩
  · cases hs

private theorem KeyInv.of_idle (h : s.Idle) : s.KeyInv where
  row := h.keyPresented
  update u hu := by simp [h.updates] at hu
  dial r key hd := by simp [h.dials] at hd

/-- Calls may leave, and more keys be presented. -/
theorem KeyInv.mono (h : s.KeyInv) (hrow : s'.row = s.row)
    (hp : ∀ p ∈ s.presented, p ∈ s'.presented) (hu : ∀ u ∈ s'.updates, u ∈ s.updates)
    (hd : ∀ d ∈ s'.dials, d ∈ s.dials) : s'.KeyInv where
  row hne := by
    rw [hrow] at hne ⊢
    exact hp _ (h.row hne)
  update u hmem hne := hp _ (h.update u (hu u hmem) hne)
  dial r key hmem := hp _ (h.dial r key (hd _ hmem))

/-- An `UPDATE` writes the key with the address that it was read with. -/
theorem KeyInv.write {u : Pending} (h : s.KeyInv) (hu : u ∈ s.updates) (i : ℕ) :
    KeyInv { s with row := s.row.written u.new, updates := s.updates.eraseIdx i } := by
  refine ⟨fun hne => ?_, fun v hv => h.update v (List.mem_of_mem_eraseIdx hv), h.dial⟩
  -- an `Update` keeps the key it has read, with its address, or clears it
  rcases hostKey_of_update u.computed with ⟨hkey, -, haddress, hport⟩ | ⟨hkey, -⟩
  · change u.new.hostKey ≠ "" at hne
    change (⟨u.new.address, u.new.port, u.new.hostKey⟩ : Presented) ∈ s.presented
    rw [hkey] at hne ⊢
    rw [haddress, hport]
    exact h.update u hu hne
  · exact absurd hkey hne

/-- A handshake presents the key that is about to be pinned. -/
theorem KeyInv.shake {i : ℕ} {r : Record} {key : String} (h : s.KeyInv)
    (hi : s.dials[i]? = some (.connecting r)) (ok : Bool) : (s.shake i r key ok).KeyInv := by
  have hkept : KeyInv { s with
      presented := ⟨r.address, r.port, key⟩ :: s.presented, dials := s.dials.eraseIdx i } :=
    h.mono rfl (fun _ => List.mem_cons_of_mem _) (fun _ hu => hu)
      (fun _ => List.mem_of_mem_eraseIdx)
  rw [HostKeys.shake]
  split_ifs with hpin
  · refine ⟨hkept.row, hkept.update, fun r' key' hd => ?_⟩
    rcases (mem_pool_set hi).mp hd with hd | hd
    · obtain ⟨rfl, rfl⟩ := Dial.pinning.inj hd
      exact List.mem_cons_self
    · exact hkept.dial r' key' hd
  · exact hkept

/-- A pinned key belongs to the stored address when the connection went there. -/
theorem KeyInv.pin {i : ℕ} {r : Record} {key : String} (h : s.KeyInv)
    (hi : s.dials[i]? = some (.pinning r key))
    (hcond : s.row.hostKey = "" → s.row.address = r.address ∧ s.row.port = r.port) :
    KeyInv { s with row := s.row.pin key, dials := s.dials.eraseIdx i } := by
  refine ⟨?_, h.update, fun r' key' hd => h.dial r' key' (List.mem_of_mem_eraseIdx hd)⟩
  rw [Record.pin]
  split_ifs with hempty
  · -- the row still has the address that the dial has reached
    intro _
    obtain ⟨haddress, hport⟩ := hcond hempty
    dsimp only
    rw [haddress, hport]
    exact h.dial r key (List.mem_of_getElem? hi)
  · exact h.row

/-- **One step.** -/
theorem KeyInv.step (h : s.KeyInv) (hcond : s.PinsCurrent e) (hs : s.step e = some s') :
    s'.KeyInv := by
  cases e with
  | update p sealedPassword =>
    obtain rfl | ⟨u, hcur, rfl⟩ := step_update hs
    · exact h
    · refine ⟨h.row, fun v hv hne => ?_, h.dial⟩
      rcases List.mem_append.mp hv with hv | hv
      · exact h.update v hv hne
      · -- the key that the `Update` has read is the stored one
        obtain rfl := List.mem_singleton.mp hv
        rw [hcur] at hne ⊢
        exact h.row hne
  | write i =>
    obtain ⟨u, hi, rfl⟩ := Option.map_eq_some_iff.mp hs
    exact h.write (List.mem_of_getElem? hi) i
  | refuse i =>
    obtain ⟨u, -, rfl⟩ := Option.map_eq_some_iff.mp hs
    exact h.mono rfl (fun _ hp => hp) (fun _ => List.mem_of_mem_eraseIdx) (fun _ hd => hd)
  | dial =>
    obtain rfl := Option.some.inj hs
    refine ⟨h.row, h.update, fun r key hd => h.dial r key ?_⟩
    exact (List.mem_append.mp hd).resolve_right (by simp)
  | handshake i key ok =>
    obtain ⟨r, hi, rfl⟩ := step_handshake hs
    exact h.shake hi ok
  | hangUp i =>
    obtain rfl := step_hangUp hs
    exact h.mono rfl (fun _ hp => hp) (fun _ hu => hu) (fun _ => List.mem_of_mem_eraseIdx)
  | pin i =>
    obtain ⟨r, key, hi, rfl⟩ := step_pin hs
    exact h.pin hi (hcond _ hi)

variable {es : List KeyEvent}

/-- A stored key belongs to the stored address throughout a run in which every connection that
stores its key has connected to the stored address and port. -/
theorem keyPresented_of_run (hidle : s.Idle) (hcond : Along HostKeys.step PinsCurrent s es) :
    AllStates HostKeys.step KeyPresented s es :=
  (allStates_of_along (fun _ _ _ h hC hs => h.step hC hs) (KeyInv.of_idle hidle) hcond).imp
    fun _ h => h.row

/-! ### Clearing the key -/

/-- The `UPDATE` of an `Update` clears a stored key on purpose unless it writes back that it has
read none. -/
theorem clearsOnPurpose_write {i : ℕ} (hs : s.step (.write i) = some s') :
    s.ClearsOnPurpose (.write i) s' ↔ s.KeepsNewKey (.write i) := by
  obtain ⟨u, hi, rfl⟩ := Option.map_eq_some_iff.mp hs
  have hclear : s.ClearsOnPurpose (.write i)
      { s with row := s.row.written u.new, updates := s.updates.eraseIdx i } ↔
      (s.row.hostKey ≠ "" → u.new.hostKey = "" → u.Moves) := by
    simp [ClearsOnPurpose, hi, Record.written]
  have hkeep : s.KeepsNewKey (.write i) ↔
      (¬ u.Moves → u.cur.hostKey = "" → s.row.hostKey = "") := by
    simp [KeepsNewKey, hi]
  rw [hclear, hkeep]
  rcases hostKey_of_update u.computed with ⟨hkey, hreset, haddress, hport⟩ | ⟨-, hmoves⟩
  · have hnot : ¬ u.Moves := by simp [Pending.Moves, hreset, haddress, hport]
    rw [hkey]
    exact ⟨fun h _ hcur => by_contra fun hne => hnot (h hne hcur),
      fun h hne hcur => absurd (h hnot hcur) hne⟩
  · have hmoves : u.Moves := hmoves
    exact ⟨fun _ hnot => absurd hmoves hnot, fun _ _ _ => hmoves⟩

/-- No other step clears a key. -/
theorem hostKey_ne_of_not_write (hwrite : ∀ i, e ≠ .write i) (hs : s.step e = some s')
    (hne : s.row.hostKey ≠ "") : s'.row.hostKey ≠ "" := by
  cases e with
  | write i => exact absurd rfl (hwrite i)
  | update p sealedPassword =>
    obtain rfl | ⟨u, -, rfl⟩ := step_update hs
    · exact hne
    · exact hne
  | refuse i =>
    obtain ⟨u, -, rfl⟩ := Option.map_eq_some_iff.mp hs
    exact hne
  | dial =>
    obtain rfl := Option.some.inj hs
    exact hne
  | handshake i key ok =>
    obtain ⟨r, -, rfl⟩ := step_handshake hs
    exact hne
  | hangUp i =>
    obtain rfl := step_hangUp hs
    exact hne
  | pin i =>
    obtain ⟨r, key, -, rfl⟩ := step_pin hs
    rw [Record.pin, if_neg hne]
    exact hne

/-- **One step clears a stored key on purpose exactly if it does not write back an empty one.** -/
theorem clearsOnPurpose_step (hs : s.step e = some s') :
    s.ClearsOnPurpose e s' ↔ s.KeepsNewKey e := by
  cases e with
  | write i => exact clearsOnPurpose_write hs
  | _ =>
    refine iff_of_true (fun hne hempty => ?_) trivial
    exact hostKey_ne_of_not_write (by simp) hs hne hempty

/-- A run clears stored keys on purpose only exactly if no `Update` of it writes back that it has
read no key over a key that was pinned since. -/
theorem clearsOnPurpose_iff :
    AllSteps HostKeys.step ClearsOnPurpose s es ↔ Along HostKeys.step KeepsNewKey s es := by
  induction es generalizing s with
  | nil => exact iff_of_true trivial trivial
  | cons e es ih =>
    cases hs : s.step e with
    | none =>
      -- the run ends here; a write that nobody is about to make writes nothing back
      refine iff_of_true (by simp [AllSteps, hs]) ⟨?_, by simp [hs]⟩
      cases e with
      | write i =>
        have hnone : s.updates[i]? = none := by simpa [HostKeys.step] using hs
        simp [KeepsNewKey, hnone]
      | _ => trivial
    | some s' =>
      rw [allSteps_cons, along_cons]
      simp only [hs, Option.mem_def, Option.some.injEq, forall_eq']
      rw [clearsOnPurpose_step hs, ih]

end HostKeys

/-! ### Edits and first connections -/

namespace Example

/-- A host that was never connected to. -/
def nas : HostKeys := { row := { name := "nas", address := "a" } }

private theorem nas_idle : nas.Idle := ⟨rfl, rfl, by decide⟩

/-- The first connection to the address in the row. -/
def connect (key : String) : List KeyEvent := [.dial, .handshake 0 key true, .pin 0]

/-- The host moves while the first connection to its old address is being made. -/
def movedDuringDial : List KeyEvent :=
  [.dial, .update { address := some "b" } "", .handshake 0 "k" true, .write 0, .pin 0]

/-- The host is renamed by an edit that began before the first connection. -/
def renamedDuringDial : List KeyEvent :=
  [.update { name := some "disk" } ""] ++ connect "k" ++ [.write 0]

/-- First connection, rename, move, first connection to the new address. -/
def inTurn : List KeyEvent :=
  connect "k" ++ [.update { name := some "disk" } "", .write 0] ++
    [.update { address := some "b" } "", .write 0] ++ connect "l"

end Example

end Dockhand.Hosts
