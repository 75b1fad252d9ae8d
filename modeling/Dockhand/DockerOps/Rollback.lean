import Dockhand.DockerOps.Recreate

/-!
# What a failed `Recreate` leaves behind

When `Recreate` returns an error, the old container should be there under its old name and in its
old state, without the copy. `recreate_restored_iff` says exactly when it is.

* `startCopy_spec` says that connecting and starting the copy touch nothing but the copy, so
  removing it again gives the state before its creation (`replaceOld_error`).
* `restored_restoreOld_iff` says what the undo makes of the stopped container: it is started
  whenever it was running or paused, so a paused container ends up running, and one that was removed
  when it stopped stays away.
* The failure of the stop itself only gives the name back: a container that stopped although the
  call failed stays stopped.
-/

namespace Dockhand.DockerOps

open Go Daemon

/-- `ins` is what inspecting container `c` of `d` reports. -/
structure Inspected (d : Daemon) (ins : InspectResponse) (c : Container) : Prop where
  found : d.get? ins.id = some c
  name : ins.name = "/" ++ c.name
  running : ins.running = c.status.isRunning

/-- The original container exists under its name and in its state, and no other container is
left than were there. -/
def Restored (id : String) (c : Container) (d d' : Daemon) : Prop :=
  (∃ c', d'.get? id = some c' ∧ c'.name = c.name ∧ c'.status = c.status) ∧
    ∀ i, (d'.get? i).isSome → (d.get? i).isSome

private theorem ne_backupName (name : String) (now : ℤ) : name ≠ backupName name now := by
  intro h
  have hlen := congrArg String.length h
  simp only [backupName, String.length_append] at hlen
  have : "-dockhand-old-".length = 14 := by decide
  omega

/-! ### The copy -/

variable {r : Replies} {ins : InspectResponse} {opts : RecreateOpts} {d d' : Daemon}
  {c : Container} {id : String}

theorem call_ok {reply : Option DockerError} {f : Except DockerError Daemon}
    (h : call reply f = .ok d') : f = .ok d' := by
  cases reply with
  | none => exact h
  | some e => cases h

/-- Connecting the copy: it keeps everything else, and with no failure the copy is attached to
the networks in turn. -/
theorem connectAll_spec (ns : List String) (hc : d.get? id = some c) :
    EqOff id d (connectAll r id ns d).2 ∧
      ∃ c', (connectAll r id ns d).2.get? id = some c' ∧
        ((connectAll r id ns d).1 = none → c' = { c with networks := c.networks ++ ns }) := by
  induction ns generalizing d c with
  | nil => exact ⟨EqOff.refl, c, hc, fun _ => by rw [List.append_nil]⟩
  | cons n ns ih =>
    rw [connectAll]
    split
    · exact ⟨EqOff.refl, c, hc, fun h => by cases h⟩
    · next d₁ hd₁ =>
      obtain ⟨hoff, c₀, hc₀, hc₁⟩ := connect_ok (call_ok hd₁)
      obtain rfl := Option.some.inj (hc.symm.trans hc₀)
      obtain ⟨hoff', c', hc', hnone⟩ := ih hc₁
      refine ⟨hoff.trans hoff', c', hc', fun h => ?_⟩
      rw [hnone h, List.append_assoc, List.singleton_append]

/-- The two containers differ only in their status. -/
def SameButStatus (c c' : Container) : Prop := c' = { c with status := c'.status }

/-- Connecting and starting the copy. -/
theorem startCopy_spec (r : Replies) (ins : InspectResponse) (opts : RecreateOpts)
    (ns : List String) (hc : d.get? id = some c) :
    EqOff id d (startCopy r ins opts id ns d).2 ∧
      ∃ c', (startCopy r ins opts id ns d).2.get? id = some c' ∧
        ((startCopy r ins opts id ns d).1 = .ok () →
          SameButStatus { c with networks := c.networks ++ ns } c') := by
  obtain ⟨hoff, c₁, hc₁, hnone⟩ := connectAll_spec (r := r) ns hc
  rw [startCopy]
  split
  · next n e d₁ h =>
    rw [h] at hoff hc₁
    exact ⟨hoff, c₁, hc₁, fun h => by cases h⟩
  · next d₁ h =>
    rw [h] at hoff hc₁ hnone
    obtain rfl := hnone rfl
    split_ifs
    · split
      · exact ⟨hoff, _, hc₁, fun h => by cases h⟩
      · next d₂ hd₂ =>
        obtain ⟨hoff', c₀, hc₀, hc₂⟩ := start_ok (call_ok hd₂)
        obtain rfl := Option.some.inj (hc₁.symm.trans hc₀)
        refine ⟨hoff.trans hoff', _, hc₂, fun _ => ?_⟩
        rw [SameButStatus, started]
        cases c.status <;> rfl
    · exact ⟨hoff, _, hc₁, fun _ => rfl⟩

theorem createCopy_ok {req : CreateRequest} (h : createCopy r req d = .ok (id, d')) :
    r.create = .ok id ∧ d.get? id = none ∧ EqOff id d d' ∧
      d'.get? id = some (newContainer req) := by
  rw [createCopy] at h
  split at h
  · cases h
  · next i hi =>
    split at h
    · next d₁ hd₁ =>
      obtain ⟨rfl, rfl⟩ := Prod.mk.inj (Except.ok.inj h)
      exact ⟨hi, create_ok hd₁⟩
    · cases h

/-- **A failure from the creation on** undoes the creation: what is left is the old container
restored from the state before. -/
theorem replaceOld_error {e : String} (h : (replaceOld r ins opts d).1 = .error e) :
    (replaceOld r ins opts d).2 = restoreOld ins d := by
  rw [replaceOld] at h ⊢
  cases hcopy : createCopy r (requestFor ins opts r.oldImage).1 d with
  | error e => simp only [rollback]
  | ok p =>
    obtain ⟨id, d₁⟩ := p
    simp only [hcopy] at h ⊢
    obtain ⟨-, hnone, hoff, hnew⟩ := createCopy_ok hcopy
    obtain ⟨hoff', c', hc', -⟩ := startCopy_spec r ins opts
      ((requestFor ins opts r.oldImage).2.map fun e => e.1) hnew
    split at h
    · next e₁ d₂ hd₂ =>
      rw [hd₂] at hoff' hc'
      simp only
      rw [rollback, remove_eq_ok hc', attempt, (hoff.trans hoff').drop_eq hnone]
    · cases h

/-! ### The old container -/

section Old

variable {now : ℤ}

/-- With nothing but the old container changed, it is restored when its name and status are. -/
theorem restored_iff (hc : d.get? id = some c) (hoff : EqOff id d d') :
    Restored id c d d' ↔
      ∃ c', d'.get? id = some c' ∧ c'.name = c.name ∧ c'.status = c.status := by
  refine and_iff_left fun i hi => ?_
  by_cases h : i = id
  · rw [h, hc]
    rfl
  · rwa [hoff i h] at hi

/-- The old container gets its name back. -/
theorem attempt_rename_back {d₁ : Daemon} {c₁ : Container} (hc : d.get? id = some c)
    (hoff : EqOff id d d₁) (hc₁ : d₁.get? id = some c₁) (hne : c.name ≠ c₁.name) :
    EqOff id d (attempt (d₁.rename id c.name) d₁) ∧
      (attempt (d₁.rename id c.name) d₁).get? id = some { c₁ with name := c.name } := by
  have hfree : d₁.NameFree id c.name := nameFree_iff.mpr fun i c' hi hname => by
    by_contra h
    exact h (d.unique ((hoff i h).symm.trans hi) hc hname)
  obtain ⟨d₂, hd₂, hoff₂, hc₂⟩ := rename_eq_ok hc₁ hfree hne
  rw [hd₂]
  exact ⟨hoff.trans hoff₂, hc₂⟩

/-- A container that was removed stays away. -/
theorem attempt_rename_gone {name : String} (h : d.get? id = none) :
    attempt (d.rename id name) d = d := by
  rw [rename, h]
  rfl

private theorem attempt_start_gone (h : d.get? id = none) : attempt (d.start id) d = d := by
  rw [start]
  split
  · rfl
  · next c hc => simp [h] at hc

private theorem attempt_start (hc : d.get? id = some c) (hs : c.status ≠ .paused) :
    EqOff id d (attempt (d.start id) d) ∧ (attempt (d.start id) d).get? id = some (started c) := by
  obtain ⟨d', hd'⟩ := start_eq_ok hc hs
  obtain ⟨hoff, c₀, hc₀, hc'⟩ := start_ok hd'
  obtain rfl := Option.some.inj (hc.symm.trans hc₀)
  rw [hd']
  exact ⟨hoff, hc'⟩

/-- The name is given back to a container that is as it was. -/
theorem restored_rename_back {d₁ : Daemon} (hc : d.get? id = some c) (hoff : EqOff id d d₁)
    (hc₁ : d₁.get? id = some { c with name := backupName c.name now }) :
    Restored id c d (attempt (d₁.rename id c.name) d₁) := by
  obtain ⟨hoff', hc'⟩ := attempt_rename_back hc hoff hc₁ (ne_backupName c.name now)
  exact (restored_iff hc hoff').mpr ⟨_, hc', rfl, rfl⟩

/-- The name is given back, but the container was stopped. -/
theorem not_restored_of_stopped {d₁ : Daemon} (hc : d.get? id = some c) (hoff : EqOff id d d₁)
    (hrun : c.status.isRunning = true)
    (hc₁ : d₁.get? id = stopped { c with name := backupName c.name now }) :
    ¬ Restored id c d (attempt (d₁.rename id c.name) d₁) := by
  rw [stopped, if_pos hrun] at hc₁
  split_ifs at hc₁ with hauto
  · rw [attempt_rename_gone hc₁, restored_iff hc hoff, hc₁]
    rintro ⟨c', h, -⟩
    cases h
  · obtain ⟨hoff', hc'⟩ := attempt_rename_back hc hoff hc₁ (ne_backupName c.name now)
    rw [restored_iff hc hoff', hc']
    rintro ⟨c', h, -, hstatus⟩
    obtain rfl := Option.some.inj h
    rw [← hstatus] at hrun
    cases hrun

/-- **The shared rollback.** It restores a container that was not running, and one that was
running, not paused, and is not removed when it stops. -/
theorem restored_restoreOld_iff {d₁ : Daemon} (hins : Inspected d ins c)
    (hoff : EqOff ins.id d d₁)
    (hc₁ : d₁.get? ins.id = stopped { c with name := backupName c.name now }) :
    Restored ins.id c d (restoreOld ins d₁) ↔
      c.status.isRunning = false ∨ c.status = .running ∧ c.hostConfig.autoRemove = false := by
  obtain ⟨hc, hname, hrunning⟩ := hins
  rw [restoreOld, hname, trimPrefix_append, hrunning]
  by_cases hrun : c.status.isRunning = true
  · by_cases hauto : c.hostConfig.autoRemove = true
    · -- the stop removed the container
      have hgone : d₁.get? ins.id = none := by
        rw [hc₁, stopped, if_pos hrun, if_pos hauto]
      rw [attempt_rename_gone hgone, if_pos hrun, attempt_start_gone hgone, restored_iff hc hoff,
        hgone]
      simp [hrun, hauto]
    · have hexited : d₁.get? ins.id =
          some { c with name := backupName c.name now, status := .exited } := by
        rw [hc₁, stopped, if_pos hrun, if_neg hauto]
      obtain ⟨hoff', hc'⟩ := attempt_rename_back hc hoff hexited (ne_backupName c.name now)
      obtain ⟨hoff'', hc''⟩ := attempt_start hc' (by simp)
      rw [if_pos hrun, restored_iff hc (hoff'.trans fun i hi => hoff'' i hi), hc'']
      simp only [started, Option.some_inj, exists_eq_left', true_and, hrun, hauto]
      simp [eq_comm]
  · have hsame : d₁.get? ins.id = some { c with name := backupName c.name now } := by
      rw [hc₁, stopped, if_neg hrun]
    simp only [hrun, Bool.false_eq_true, if_false]
    exact iff_of_true (restored_rename_back hc hoff hsame) (.inl trivial)

/-- `Recreate` gives up before it stops the old container: the pull fails, or the old container
cannot be renamed. -/
def GivesUpEarly (now : ℤ) (r : Replies) (ins : InspectResponse) (opts : RecreateOpts)
    (c : Container) (d : Daemon) : Prop :=
  (opts.pull = true ∧ r.pull.isSome) ∨ r.rename.isSome ∨
    ¬ d.NameFree ins.id (backupName c.name now)

/-- The undo is right for the old container: it was not running, or `Recreate` gives up before
the stop, or the stop is refused without an effect, or it succeeds on a container that was
running, not paused, and that does not disappear when it stops. -/
def CanUndo (now : ℤ) (r : Replies) (ins : InspectResponse) (opts : RecreateOpts)
    (c : Container) (d : Daemon) : Prop :=
  c.status.isRunning = false ∨ GivesUpEarly now r ins opts c d ∨
    match r.stop with
    | .refused _ => True
    | .timedOut _ => False
    | .ok => c.status = .running ∧ c.hostConfig.autoRemove = false

private theorem rename_backup_ok (hc : d.get? id = some c)
    (h : call r.rename (d.rename id (backupName c.name now)) = .ok d') :
    r.rename = none ∧ d.NameFree id (backupName c.name now) ∧ EqOff id d d' ∧
      d'.get? id = some { c with name := backupName c.name now } := by
  cases hr : r.rename with
  | some e => simp [call, hr] at h
  | none =>
    rw [hr] at h
    obtain ⟨hoff, c₀, hc₀, -, hc'⟩ := rename_ok (call_ok h)
    obtain rfl := Option.some.inj (hc.symm.trans hc₀)
    refine ⟨rfl, ?_, hoff, hc'⟩
    rw [nameFree_iff]
    intro i c' hi hname
    by_contra hne
    exact hne (d'.unique ((hoff i hne).trans hi) hc' hname)

private theorem rename_backup_error {e : DockerError} (hc : d.get? id = some c)
    (h : call r.rename (d.rename id (backupName c.name now)) = .error e) :
    r.rename.isSome ∨ ¬ d.NameFree id (backupName c.name now) := by
  by_contra hnot
  obtain ⟨hr, hfree⟩ := not_or.mp hnot
  obtain ⟨d', hd', -⟩ := rename_eq_ok hc (not_not.mp hfree) (ne_backupName c.name now).symm
  rw [Option.not_isSome_iff_eq_none.mp hr, hd'] at h
  cases h

/-- **Rolling back.** A `Recreate` that fails leaves the old container as it was, under its name and
in its state, exactly when what it does to undo its steps is right for the container. -/
theorem recreate_restored_iff (hins : Inspected d ins c) {e : String}
    (herr : (recreate now r ins opts d).1 = .error e) :
    Restored ins.id c d (recreate now r ins opts d).2 ↔ CanUndo now r ins opts c d := by
  have hc := hins.found
  have hname : trimPrefix ins.name "/" = c.name := by rw [hins.name, trimPrefix_append]
  have hsame : Restored ins.id c d d := (restored_iff hc EqOff.refl).mpr ⟨c, hc, rfl, rfl⟩
  rw [recreate] at herr ⊢
  simp only [hname] at herr ⊢
  cases hpull : if opts.pull then r.pull else none with
  | some e =>
    have hearly : opts.pull = true ∧ r.pull.isSome := by
      split_ifs at hpull with h
      exact ⟨h, by rw [hpull]; rfl⟩
    exact iff_of_true hsame (.inr (.inl (.inl hearly)))
  | none =>
    have hnopull : ¬ (opts.pull = true ∧ r.pull.isSome) := fun ⟨h, hsome⟩ => by
      rw [if_pos h] at hpull
      rw [hpull] at hsome
      cases hsome
    simp only [hpull] at herr ⊢
    cases hrename : call r.rename (d.rename ins.id (backupName c.name now)) with
    | error e => exact iff_of_true hsame (.inr (.inl (.inr (rename_backup_error hc hrename))))
    | ok d₁ =>
      obtain ⟨hr, hfree, hoff, hc₁⟩ := rename_backup_ok hc hrename
      have hlate : ¬ GivesUpEarly now r ins opts c d := by
        rintro (h | h | h)
        · exact hnopull h
        · rw [hr] at h
          cases h
        · exact h hfree
      simp only [hrename] at herr ⊢
      rw [CanUndo, or_iff_right hlate]
      obtain ⟨d₂, hstop, hoff₂, hc₂⟩ := stop_eq_ok hc₁
      have hoff' : EqOff ins.id d d₂ := hoff.trans hoff₂
      by_cases hrun : c.status.isRunning = true
      · rw [or_iff_right (by simp [hrun])]
        have hrunning : ins.running = true := hins.running.trans hrun
        cases hs : r.stop with
        | refused e =>
          simp only [stopOld, hrunning, if_true]
          exact iff_of_true (restored_rename_back hc hoff hc₁) trivial
        | timedOut e =>
          simp only [stopOld, hrunning, if_true, hstop]
          exact iff_of_false (not_restored_of_stopped hc hoff' hrun hc₂) not_false
        | ok =>
          simp only [stopOld, hrunning, hs, if_true, hstop] at herr ⊢
          rw [replaceOld_error herr, restored_restoreOld_iff hins hoff' hc₂,
            or_iff_right (by simp [hrun])]
      · have hnotrun : ins.running = false := hins.running.trans (by simpa using hrun)
        have hsame₁ : d₁.get? ins.id = stopped { c with name := backupName c.name now } := by
          rw [stopped, if_neg hrun, hc₁]
        simp only [stopOld, hnotrun, Bool.false_eq_true, if_false] at herr ⊢
        rw [replaceOld_error herr, restored_restoreOld_iff hins hoff hsame₁]
        exact iff_of_true (.inl (by simpa using hrun)) (.inl (by simpa using hrun))

/-- A running container survives a copy that cannot be created. -/
theorem recreate_restored_createFails :
    let c : Container :=
      { name := "web", status := .running, config := {}, hostConfig := {}, networks := ["bridge"] }
    let d : Daemon := put ∅ "0123456789ab" c (by decide)
    let ins : InspectResponse :=
      { id := "0123456789ab", name := "/web", running := true, config := {}, hostConfig := {} }
    let r : Replies := { create := .error ⟨false, "no space left on device"⟩ }
    Restored ins.id c d (recreate 0 r ins {} d).2 := by
  intro c d ins r
  have hins : Inspected d ins c := ⟨get?_put.trans (if_pos rfl), by decide, rfl⟩
  have herr : (recreate 0 r ins {} d).1 =
      .error "create container: no space left on device" := by decide +kernel
  exact (recreate_restored_iff hins herr).mpr (.inr (.inr ⟨rfl, rfl⟩))

/-- **A failed `Recreate` can leave the old container stopped.** The container stops, but the
client times out and reports an error: the undo gives the name back and does not start the
container. -/
theorem recreate_not_restored :
    ¬ ∀ (now : ℤ) (r : Replies) (ins : InspectResponse) (opts : RecreateOpts) (d : Daemon)
        (c : Container) (e : String), Inspected d ins c → (recreate now r ins opts d).1 = .error e →
      Restored ins.id c d (recreate now r ins opts d).2 := by
  intro h
  let c : Container :=
    { name := "web", status := .running, config := {}, hostConfig := {}, networks := ["bridge"] }
  let d : Daemon := put ∅ "0123456789ab" c (by decide)
  let ins : InspectResponse :=
    { id := "0123456789ab", name := "/web", running := true, config := {}, hostConfig := {} }
  let r : Replies :=
    { stop := .timedOut ⟨false, "context deadline exceeded"⟩, create := .ok "ba9876543210" }
  obtain ⟨⟨c', hc', -, hstatus⟩, -⟩ := h 0 r ins {} d c
    "stop old container: context deadline exceeded" ⟨get?_put.trans (if_pos rfl), by decide, rfl⟩
    (by decide +kernel)
  have hexited : ((recreate 0 r ins {} d).2.get? ins.id).map Container.status = some .exited := by
    decide +kernel
  rw [hc', Option.map_some, hstatus] at hexited
  cases hexited

end Old

end Dockhand.DockerOps
