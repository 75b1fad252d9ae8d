import Dockhand.Jobs.Flush
import Dockhand.Transition.Pool

/-!
# What a finished job leaves in its row

`run` settles the job under the lock and then flushes it, but a flush writes only a dirty job and
settling a job that succeeded does not make it dirty. So the row ends with the final state of the
job exactly when the job failed or had an unwritten change at the moment it returned
(`System.persisted_iff`).

`Step` reads the step function as a relation, one constructor for each thing that can happen. The
invariants of `Inv` say what the four flags of a job stand for: `flushing` for the one flush that
writes, `scheduled` for the one timer that is set or about to be, and an unwritten change of a
finished job for a flush that is still to come.
-/

namespace Dockhand.Jobs

open Go Transition

variable {elapsed : ℕ → String}

/-! ### The methods of a job leave its control fields alone -/

/-- The two jobs agree on the fields that only `flush` and `run` write. -/
structure Job.SameControl (j j' : Job) : Prop where
  status : j'.status = j.status
  finished : j'.finished = j.finished
  flushing : j'.flushing = j.flushing
  scheduled : j'.scheduled = j.scheduled

namespace Job

variable {j : Job}

private theorem SameControl.refl (j : Job) : j.SameControl j := ⟨rfl, rfl, rfl, rfl⟩

private theorem SameControl.trans {j₁ j₂ j₃ : Job} (h : j₁.SameControl j₂)
    (h' : j₂.SameControl j₃) :
    j₁.SameControl j₃ :=
  ⟨h'.status.trans h.status, h'.finished.trans h.finished, h'.flushing.trans h.flushing,
    h'.scheduled.trans h.scheduled⟩

private theorem sameControl_modifyCurrent (f : JobStep → JobStep) (j : Job) :
    j.SameControl (j.modifyCurrent f) := by
  rw [modifyCurrent]
  cases j.cur <;> exact ⟨rfl, rfl, rfl, rfl⟩

private theorem sameControl_finishCurrent (elapsed : ℕ → String) (now : ℕ) (status : StepStatus)
    (j : Job) :
    j.SameControl (j.finishCurrent elapsed now status) := by
  rw [finishCurrent]
  cases j.cur <;> exact ⟨rfl, rfl, rfl, rfl⟩

theorem sameControl_writeLog (level text : String) (j : Job) :
    j.SameControl (j.writeLog level text) := by
  rw [writeLog]
  generalize splitChar (trimRight text "\n") '\n' = lines
  induction lines generalizing j with
  | nil => exact .refl j
  | cons line lines ih =>
    have hline : j.SameControl (j.appendLog level line) := ⟨rfl, rfl, rfl, rfl⟩
    exact hline.trans (ih _)

/-- No call changes the control fields. -/
theorem sameControl_apply (elapsed : ℕ → String) (now : ℕ) (j : Job) (c : Call) :
    j.SameControl (c.apply elapsed now j) := by
  cases c with
  | step label text =>
    refine (sameControl_finishCurrent elapsed now .done j).trans ?_
    rw [Call.apply, step]
    cases (j.finishCurrent elapsed now .done).pendingIdx label <;> exact ⟨rfl, rfl, rfl, rfl⟩
  | sub text =>
    rw [Call.apply, sub]
    cases j.cur
    · exact .refl j
    · exact (sameControl_modifyCurrent _ j).trans ⟨rfl, rfl, rfl, rfl⟩
  | done text =>
    have hsub : j.SameControl (if text = "" then j else j.modifyCurrent fun s =>
        { s with sub := text }) := by
      split_ifs
      · exact .refl j
      · exact sameControl_modifyCurrent _ j
    exact (hsub.trans (sameControl_finishCurrent elapsed now .done _)).trans ⟨rfl, rfl, rfl, rfl⟩
  | skip label text =>
    refine (sameControl_finishCurrent elapsed now .done j).trans ?_
    rw [Call.apply, skip]
    cases (j.finishCurrent elapsed now .done).pendingIdx label <;> exact ⟨rfl, rfl, rfl, rfl⟩
  | fail text =>
    exact ((sameControl_modifyCurrent _ j).trans
      (sameControl_finishCurrent elapsed now .failed _)).trans
      ⟨rfl, rfl, rfl, rfl⟩
  | log level text => exact sameControl_writeLog level text j
  | set k v => exact ⟨rfl, rfl, rfl, rfl⟩
  | setStack id => exact ⟨rfl, rfl, rfl, rfl⟩

/-- Settling a job keeps what its flushes and timers are doing. -/
theorem finish_control (elapsed : ℕ → String) (now : ℕ) (failure? : Option String) (j : Job) :
    (j.finish elapsed now failure?).finished = some now ∧
      (j.finish elapsed now failure?).flushing = j.flushing ∧
      (j.finish elapsed now failure?).scheduled = j.scheduled := by
  cases failure? with
  | none =>
    have h := sameControl_finishCurrent elapsed now .done j
    exact ⟨rfl, h.flushing, h.scheduled⟩
  | some message =>
    have h := (sameControl_modifyCurrent (fun s =>
      { s with sub := if s.sub = "" then truncate message 200 else s.sub }) j).trans
        (sameControl_finishCurrent elapsed now .failed _)
    exact ⟨rfl, h.flushing, h.scheduled⟩

/-- A job that succeeded is as dirty as it was, and no longer running. -/
theorem finish_success (elapsed : ℕ → String) (now : ℕ) (j : Job) :
    (j.finish elapsed now none).dirty = j.dirty ∧ (j.finish elapsed now none).status =
      .success := by
  refine ⟨?_, rfl⟩
  show (j.finishCurrent elapsed now .done).dirty = j.dirty
  rw [finishCurrent]
  cases j.cur <;> rfl

end Job

/-! ### The steps of the system -/

namespace System

/-- The step function as a relation. -/
inductive Step (elapsed : ℕ → String) (s : System) : Event → System → Prop
  | tick (d : ℕ) : Step elapsed s (.tick d) { s with now := s.now + d }
  | call (c : Call) (hrunning : s.job.finished = none) :
      Step elapsed s (.call c)
        { s with
          job := c.apply elapsed s.now s.job
          flushes := s.flushes ++ (c.flush?.map Flush.enter).toList }
  | giveUp (i : ℕ) (force : Bool) (hi : s.flushes[i]? = some (.enter force))
      (hcovered : s.job.dirty = true → s.job.scheduled = true) :
      Step elapsed s (.lock i) { s with flushes := s.flushes.eraseIdx i }
  | schedule (i : ℕ) (force : Bool) (hi : s.flushes[i]? = some (.enter force))
      (hdirty : s.job.dirty = true) (hnot : s.job.scheduled = false) :
      Step elapsed s (.lock i)
        { s with job := { s.job with scheduled := true }, flushes := s.flushes.set i .arm }
  | begin (i : ℕ) (force : Bool) (hi : s.flushes[i]? = some (.enter force))
      (hdirty : s.job.dirty = true) (hfree : s.job.flushing = false) :
      Step elapsed s (.lock i)
        { s with
          job := { s.job with flushing := true, dirty := false, lastFlush := some s.now }
          flushes := s.flushes.set i (.exec s.job.columns) }
  | arm (i : ℕ) (hi : s.flushes[i]? = some .arm) :
      Step elapsed s (.arm i)
        { s with flushes := s.flushes.eraseIdx i, timers := s.timers ++ [s.now + flushEvery] }
  | write (i : ℕ) (cols : Row) (hi : s.flushes[i]? = some (.exec cols)) :
      Step elapsed s (.write i)
        { s with row := s.row.update cols, flushes := s.flushes.set i .written }
  | again (i : ℕ) (hi : s.flushes[i]? = some .written) (hdirty : s.job.dirty = true)
      (hfin : s.job.finished.isSome) :
      Step elapsed s (.unlock i)
        { s with
          job := { s.job with flushing := false }
          flushes := s.flushes.set i (.enter true) }
  | leave (i : ℕ) (hi : s.flushes[i]? = some .written)
      (hdone : s.job.dirty = true → s.job.finished = none) :
      Step elapsed s (.unlock i)
        { s with job := { s.job with flushing := false }, flushes := s.flushes.eraseIdx i }
  | fire (i t : ℕ) (hi : s.timers[i]? = some t) (hdue : t ≤ s.now) :
      Step elapsed s (.fire i)
        { s with
          job := { s.job with scheduled := false }
          flushes := s.flushes ++ [.enter false]
          timers := s.timers.eraseIdx i }
  | finish (o : Outcome) (ctxErr rootErr : Bool) (hrunning : s.job.finished = none) :
      Step elapsed s (.finish o ctxErr rootErr)
        { s with
          job := s.job.finish elapsed s.now (o.failure? ctxErr rootErr)
          flushes := s.flushes ++ [.enter true] }

variable {s s' : System} {e : Event}

private theorem Step.of_lock {i : ℕ} {force : Bool} (hi : s.flushes[i]? = some (.enter force)) :
    Step elapsed s (.lock i) (s.lock i force) := by
  rw [lock]
  split_ifs with hskip hsched
  · exact .schedule i force hi hsched.1 (by simpa using hsched.2)
  · refine .giveUp i force hi fun hdirty => ?_
    by_contra hnot
    exact hsched ⟨hdirty, hnot⟩
  · rw [Job.skipsFlush, not_or, not_or, not_not] at hskip
    exact .begin i force hi hskip.1 (by simpa using hskip.2.1)

private theorem Step.of_unlock {i : ℕ} (hi : s.flushes[i]? = some .written) :
    Step elapsed s (.unlock i) (s.unlock i) := by
  rw [unlock]
  split_ifs with hagain
  · exact .again i hi hagain.1 hagain.2
  · refine .leave i hi fun hdirty => ?_
    by_contra hfin
    exact hagain ⟨hdirty, Option.isSome_iff_ne_none.mpr hfin⟩

/-- **Inversion.** Every step is one of the eleven above. -/
theorem step_sound (h : s.step elapsed e = some s') : Step elapsed s e s' := by
  cases e with
  | tick d =>
    obtain rfl := Option.some.inj h
    exact .tick d
  | call c =>
    rw [step] at h
    split_ifs at h with hfin
    obtain rfl := Option.some.inj h
    exact .call c (by simpa using hfin)
  | lock i =>
    rw [step] at h
    split at h
    · rename_i force hi
      obtain rfl := Option.some.inj h
      exact .of_lock hi
    · cases h
  | arm i =>
    rw [step] at h
    split at h
    · rename_i hi
      obtain rfl := Option.some.inj h
      exact .arm i hi
    · cases h
  | write i =>
    rw [step] at h
    split at h
    · rename_i cols hi
      obtain rfl := Option.some.inj h
      exact .write i cols hi
    · cases h
  | unlock i =>
    rw [step] at h
    split at h
    · rename_i hi
      obtain rfl := Option.some.inj h
      exact .of_unlock hi
    · cases h
  | fire i =>
    rw [step] at h
    split at h
    · rename_i t hi
      split_ifs at h with hdue
      obtain rfl := Option.some.inj h
      exact .fire i t hi hdue
    · cases h
  | finish o ctxErr rootErr =>
    rw [step] at h
    split_ifs at h with hfin
    obtain rfl := Option.some.inj h
    exact .finish o ctxErr rootErr (by simpa using hfin)

/-! ### What the flags stand for -/

end System

/-- The flush has set `flushing` and not reset it. -/
def Flush.writes : Flush → Bool
  | exec _ | written => true
  | _ => false

/-- The flush has set `scheduled` and is about to arm the timer. -/
def Flush.arms : Flush → Bool
  | arm => true
  | _ => false

namespace System

variable {s s' : System} {e : Event}

/-- `flushing` stands for one flush that writes, `scheduled` for one timer, and an unwritten
change of a finished job is noticed by what is still to come. -/
structure Inv (s : System) : Prop where
  writer : s.flushes.countP Flush.writes = s.job.flushing.toNat
  timer : s.flushes.countP Flush.arms + s.timers.length = s.job.scheduled.toNat
  pending : s.job.finished.isSome → s.job.dirty = true →
    s.job.flushing = true ∨ s.job.scheduled = true ∨ ∃ force, .enter force ∈ s.flushes

theorem Inv.start (spec : Spec) (now : ℕ) : Inv (System.start spec now) :=
  ⟨rfl, rfl, fun h => by cases h⟩

/-- The flushes that a call adds have not set a flag. -/
theorem countP_added (c : Call) (p : Flush → Bool) (hp : ∀ force, p (.enter force) = false) :
    (c.flush?.map Flush.enter).toList.countP p = 0 := by
  cases c.flush? <;> simp [hp]

private theorem set_of_toNat_pos {flag : Bool} (h : 0 < flag.toNat) : flag = true := by
  cases flag
  · cases h
  · rfl

theorem Inv.step (hs : s.Inv) (h : Step elapsed s e s') : s'.Inv := by
  have hwriter := hs.writer
  have htimer := hs.timer
  cases h with
  | tick d => exact ⟨hwriter, htimer, hs.pending⟩
  | call c hrunning =>
    have hc := Job.sameControl_apply elapsed s.now s.job c
    refine ⟨?_, ?_, fun hfin => ?_⟩
    · rw [List.countP_append, countP_added c _ fun _ => rfl, hc.flushing]
      exact hwriter
    · rw [List.countP_append, countP_added c _ fun _ => rfl, hc.scheduled]
      exact htimer
    · rw [hc.finished, hrunning] at hfin
      cases hfin
  | giveUp i force hi hcovered =>
    rw [countP_pool hi] at hwriter htimer
    exact ⟨hwriter, htimer, fun _ hdirty => .inr (.inl (hcovered hdirty))⟩
  | schedule i force hi hdirty hnot =>
    rw [countP_pool hi] at hwriter htimer
    refine ⟨?_, ?_, fun _ _ => .inr (.inl rfl)⟩
    · rw [countP_pool_set hi]
      exact hwriter
    · rw [countP_pool_set hi]
      simp only [hnot, Flush.arms, Bool.toNat_false, Bool.toNat_true, if_true] at htimer ⊢
      omega
  | begin i force hi hdirty hfree =>
    rw [countP_pool hi] at hwriter htimer
    refine ⟨?_, ?_, fun _ hd => by cases hd⟩
    · rw [countP_pool_set hi]
      simp only [hfree, Flush.writes, Bool.toNat_false, Bool.toNat_true, if_true] at hwriter ⊢
      omega
    · rw [countP_pool_set hi]
      exact htimer
  | arm i hi =>
    rw [countP_pool hi] at hwriter htimer
    have harmed : s.job.scheduled = true := set_of_toNat_pos (htimer ▸ by simp [Flush.arms])
    refine ⟨hwriter, ?_, fun _ _ => .inr (.inl harmed)⟩
    simp only [List.length_append, List.length_singleton, Flush.arms, if_true] at htimer ⊢
    omega
  | write i cols hi =>
    rw [countP_pool hi] at hwriter htimer
    have hwriting : s.job.flushing = true :=
      set_of_toNat_pos (hwriter ▸ by simp [Flush.writes])
    refine ⟨?_, ?_, fun _ _ => .inl hwriting⟩
    · rw [countP_pool_set hi]
      exact hwriter
    · rw [countP_pool_set hi]
      exact htimer
  | again i hi hdirty hfin =>
    rw [countP_pool hi] at hwriter htimer
    refine ⟨?_, ?_, fun _ _ => .inr (.inr ⟨true, (mem_pool_set hi).mpr (.inl rfl)⟩)⟩
    · rw [countP_pool_set hi]
      have hle := s.job.flushing.toNat_le
      simp only [Flush.writes, if_true, Bool.toNat_false] at hwriter ⊢
      simp only [Bool.false_eq_true, if_false]
      omega
    · rw [countP_pool_set hi]
      exact htimer
  | leave i hi hdone =>
    rw [countP_pool hi] at hwriter htimer
    refine ⟨?_, htimer, fun hfin hdirty => ?_⟩
    · have hle := s.job.flushing.toNat_le
      simp only [Flush.writes, if_true, Bool.toNat_false] at hwriter ⊢
      omega
    · have hnone : s.job.finished = none := hdone hdirty
      rw [show s.job.finished.isSome = false by rw [hnone]; rfl] at hfin
      cases hfin
  | fire i t hi hdue =>
    have hlen := (pool_perm hi).length_eq
    have hle := s.job.scheduled.toNat_le
    refine ⟨?_, ?_, fun _ _ => .inr (.inr ⟨false, by simp⟩)⟩
    · rw [List.countP_append]
      exact hwriter
    · rw [List.countP_append]
      simp only [List.length_cons, List.countP_singleton, Flush.arms, Bool.toNat_false] at hlen ⊢
      simp only [Bool.false_eq_true, if_false]
      omega
  | finish o ctxErr rootErr hrunning =>
    obtain ⟨-, hflushing, hscheduled⟩ :=
      s.job.finish_control elapsed s.now (o.failure? ctxErr rootErr)
    refine ⟨?_, ?_, fun _ _ => .inr (.inr ⟨true, by simp⟩)⟩
    · rw [List.countP_append, hflushing]
      exact hwriter
    · rw [List.countP_append, hscheduled]
      exact htimer

/-- When nothing is pending, every change of a finished job has been written. -/
theorem Inv.not_dirty (hs : s.Inv) (hq : s.Quiescent) (hfin : s.job.finished.isSome) :
    s.job.dirty = false := by
  by_contra hdirty
  have hwriter := hs.writer
  have htimer := hs.timer
  rw [hq.1] at hwriter htimer
  rw [hq.2] at htimer
  rcases hs.pending hfin (by simpa using hdirty) with hflushing | hscheduled | ⟨force, hmem⟩
  · simp [hflushing] at hwriter
  · simp [hscheduled] at htimer
  · simp [hq.1] at hmem

/-! ### What the row holds -/

/-- The row and every write in flight have status `running`. -/
structure WritesRunning (s : System) : Prop where
  row : s.row.status = .running
  inFlight : ∀ cols, .exec cols ∈ s.flushes → cols.status = .running

/-- The last change of the job is still to be written, is being written or has been. -/
structure Fresh (s : System) : Prop where
  inFlight : s.job.dirty = false → ∀ cols, .exec cols ∈ s.flushes → cols = s.job.columns
  settled : s.job.dirty = false → s.Persisted ∨ .exec s.job.columns ∈ s.flushes

/-- The job has succeeded, but nothing will write so. -/
structure Stale (s : System) : Prop extends WritesRunning s where
  clean : s.job.dirty = false
  status : s.job.status = .success

theorem WritesRunning.start (spec : Spec) (now : ℕ) : WritesRunning (System.start spec now) :=
  ⟨rfl, fun _ h => by cases h⟩

/-- A step keeps the writes at `running` unless it begins to write a job with another status. -/
theorem WritesRunning.step (hs : s.WritesRunning) (h : Step elapsed s e s')
    (hjob : s.job.dirty = true → s.job.status = .running) : s'.WritesRunning := by
  obtain ⟨hrow, hflight⟩ := hs
  have hkept : ∀ {i : ℕ} (cols : Row), .exec cols ∈ s.flushes.eraseIdx i →
      cols.status = .running := fun cols hmem => hflight cols (List.mem_of_mem_eraseIdx hmem)
  cases h with
  | tick d => exact ⟨hrow, hflight⟩
  | call c hrunning =>
    refine ⟨hrow, fun cols hmem => hflight cols ?_⟩
    cases hc : c.flush? with
    | none => simpa [hc] using hmem
    | some force => simpa [hc] using hmem
  | giveUp i force hi hcovered => exact ⟨hrow, hkept⟩
  | schedule i force hi hdirty hnot =>
    refine ⟨hrow, fun cols hmem => ?_⟩
    rcases (mem_pool_set hi).mp hmem with heq | hmem
    · cases heq
    · exact hkept cols hmem
  | begin i force hi hdirty hfree =>
    refine ⟨hrow, fun cols hmem => ?_⟩
    rcases (mem_pool_set hi).mp hmem with heq | hmem
    · obtain rfl := Flush.exec.inj heq
      exact hjob hdirty
    · exact hkept cols hmem
  | arm i hi => exact ⟨hrow, hkept⟩
  | write i cols hi =>
    refine ⟨hflight cols (List.mem_of_getElem? hi), fun cols' hmem => ?_⟩
    rcases (mem_pool_set hi).mp hmem with heq | hmem
    · cases heq
    · exact hkept cols' hmem
  | again i hi hdirty hfin =>
    refine ⟨hrow, fun cols hmem => ?_⟩
    rcases (mem_pool_set hi).mp hmem with heq | hmem
    · cases heq
    · exact hkept cols hmem
  | leave i hi hdone => exact ⟨hrow, hkept⟩
  | fire i t hi hdue => exact ⟨hrow, fun cols hmem => hflight cols (by simpa using hmem)⟩
  | finish o ctxErr rootErr hrunning =>
    exact ⟨hrow, fun cols hmem => hflight cols (by simpa using hmem)⟩

/-- A step of a finished job changes neither the job's columns nor its status, and makes it no
dirtier. -/
theorem Step.columns_of_finished (h : Step elapsed s e s') (hfin : s.job.finished.isSome) :
    s'.job.columns = s.job.columns ∧ (s'.job.dirty = true → s.job.dirty = true) := by
  have hrunning : s.job.finished ≠ none := Option.isSome_iff_ne_none.mp hfin
  cases h with
  | call c hnone => exact absurd hnone hrunning
  | finish o ctxErr rootErr hnone => exact absurd hnone hrunning
  | begin i force hi hdirty hfree => exact ⟨rfl, fun h => by cases h⟩
  | _ => exact ⟨rfl, id⟩

theorem Stale.step (hs : s.Stale) (hfin : s.job.finished.isSome) (h : Step elapsed s e s') :
    s'.Stale := by
  obtain ⟨hcols, hdirty⟩ := h.columns_of_finished hfin
  refine ⟨hs.toWritesRunning.step h fun hd => ?_, ?_, ?_⟩
  · rw [hs.clean] at hd
    cases hd
  · by_contra hd
    have := hdirty (by simpa using hd)
    rw [hs.clean] at this
    cases this
  · exact (congrArg Row.status hcols).trans hs.status

/-- A row that a flush has written from the present job carries its state. -/
theorem persisted_update (s : System) (flushes : List Flush) :
    Persisted { s with row := s.row.update s.job.columns, flushes } :=
  ⟨rfl, rfl, rfl, rfl, rfl⟩

theorem Fresh.step (hs : s.Fresh) (hinv : s.Inv) (hfin : s.job.finished.isSome)
    (h : Step elapsed s e s') : s'.Fresh := by
  have hrunning : s.job.finished ≠ none := Option.isSome_iff_ne_none.mp hfin
  -- a step that touches neither the row, nor the job's columns, nor a write in flight
  have hkeep : ∀ {job : Job} {now : ℕ} {flushes : List Flush} {timers : List ℕ},
      job.columns = s.job.columns → job.dirty = s.job.dirty →
      (∀ cols, .exec cols ∈ flushes ↔ .exec cols ∈ s.flushes) →
      Fresh ⟨job, now, s.row, flushes, timers⟩ := by
    intro job now flushes timers hcols hdirty hexec
    refine ⟨fun hclean cols hmem => ?_, fun hclean => ?_⟩
    · rw [hcols]
      exact hs.inFlight (hdirty ▸ hclean) cols ((hexec cols).mp hmem)
    · rcases hs.settled (hdirty ▸ hclean) with hp | hmem
      · refine .inl ⟨?_, ?_, ?_, ?_, ?_⟩
        · exact hp.steps.trans (congrArg Row.steps hcols).symm
        · exact hp.log.trans (congrArg Row.log hcols).symm
        · exact hp.result.trans (congrArg Row.result hcols).symm
        · exact hp.status.trans (congrArg Row.status hcols).symm
        · exact hp.finishedAt.trans (congrArg Row.finishedAt hcols).symm
      · exact .inr (hcols ▸ (hexec _).mpr hmem)
  cases h with
  | tick d => exact hkeep rfl rfl fun _ => Iff.rfl
  | call c hnone => exact absurd hnone hrunning
  | finish o ctxErr rootErr hnone => exact absurd hnone hrunning
  | giveUp i force hi hcovered => exact hkeep rfl rfl fun cols => by simp [mem_pool hi]
  | schedule i force hi hdirty hnot =>
    exact hkeep rfl rfl fun cols => by simp [mem_pool hi, mem_pool_set hi]
  | begin i force hi hdirty hfree =>
    refine ⟨fun _ cols hmem => ?_, fun _ => .inr ((mem_pool_set hi).mpr (.inl rfl))⟩
    rcases (mem_pool_set hi).mp hmem with heq | hmem
    · exact Flush.exec.inj heq
    · -- no other flush is writing
      have hwriter := hinv.writer
      rw [hfree, Bool.toNat_false, List.countP_eq_zero] at hwriter
      exact absurd rfl (hwriter _ (List.mem_of_mem_eraseIdx hmem))
  | arm i hi => exact hkeep rfl rfl fun cols => by simp [mem_pool hi]
  | write i cols hi =>
    by_cases hclean : s.job.dirty = false
    · obtain rfl := hs.inFlight hclean cols (List.mem_of_getElem? hi)
      refine ⟨fun _ cols' hmem => ?_, fun _ => .inl (s.persisted_update _)⟩
      rcases (mem_pool_set hi).mp hmem with heq | hmem
      · cases heq
      · exact hs.inFlight hclean cols' (List.mem_of_mem_eraseIdx hmem)
    · exact ⟨fun h => absurd h hclean, fun h => absurd h hclean⟩
  | again i hi hdirty hfin' =>
    exact hkeep rfl rfl fun cols => by simp [mem_pool hi, mem_pool_set hi]
  | leave i hi hdone => exact hkeep rfl rfl fun cols => by simp [mem_pool hi]
  | fire i t hi hdue => exact hkeep rfl rfl fun cols => by simp

/-! ### Whole runs -/

/-- A job that returns without an error has a change that no flush has taken yet. -/
def ReturnsDirty (s : System) : Event → Prop
  | .finish .ok _ _ => s.job.dirty = true
  | _ => True

/-- A step that is not the end of the job leaves it running. -/
theorem Step.running (h : Step elapsed s e s') (hnone : s.job.finished = none)
    (hstatus : s.job.status = .running) (hne : ∀ o ctxErr rootErr, e ≠ .finish o ctxErr rootErr) :
    s'.job.finished = none ∧ s'.job.status = .running := by
  cases h with
  | finish o ctxErr rootErr => exact absurd rfl (hne o ctxErr rootErr)
  | call c hrunning =>
    have hc := Job.sameControl_apply elapsed s.now s.job c
    exact ⟨hc.finished.trans hnone, hc.status.trans hstatus⟩
  | _ => exact ⟨hnone, hstatus⟩

theorem Step.finished (h : Step elapsed s e s') (hfin : s.job.finished.isSome) :
    s'.job.finished.isSome := by
  have hcols := congrArg Row.finishedAt (h.columns_of_finished hfin).1
  rwa [show s'.job.finished = s.job.finished from hcols]

variable {es : List Event} {t : System}

/-- A job ends once. -/
theorem along_of_finished (hfin : s.job.finished.isSome)
    (hrun : exec (System.step elapsed) s es = some t) :
    Along (System.step elapsed) ReturnsDirty s es := by
  induction es generalizing s with
  | nil => trivial
  | cons e es ih =>
    obtain ⟨s', hstep, hrest⟩ := exec_cons_eq_some.mp hrun
    have h := step_sound hstep
    refine ⟨?_, fun s'' hs'' => ?_⟩
    · cases h with
      | finish o ctxErr rootErr hnone => exact absurd hnone (Option.isSome_iff_ne_none.mp hfin)
      | _ => trivial
    · obtain rfl := Option.some.inj (hstep.symm.trans hs'')
      exact ih (h.finished hfin) hrest

/-- Once the last change of a finished job is due to be written, it ends up in the row. -/
theorem Fresh.persisted (hs : s.Fresh) (hinv : s.Inv) (hfin : s.job.finished.isSome)
    (hrun : exec (System.step elapsed) s es = some t) (hq : t.Quiescent) : t.Persisted := by
  obtain ⟨ht, htinv, htfin⟩ : t.Fresh ∧ t.Inv ∧ t.job.finished.isSome := by
    refine exec_invariant (I := fun s => s.Fresh ∧ s.Inv ∧ s.job.finished.isSome) ?_
      ⟨hs, hinv, hfin⟩ hrun
    rintro s e s' ⟨hs, hinv, hfin⟩ hstep
    have h := step_sound hstep
    exact ⟨hs.step hinv hfin h, hinv.step h, h.finished hfin⟩
  rcases ht.settled (htinv.not_dirty hq htfin) with hp | hmem
  · exact hp
  · rw [hq.1] at hmem
    cases hmem

/-- Otherwise the row stays at `running`. -/
theorem Stale.not_persisted (hs : s.Stale) (hfin : s.job.finished.isSome)
    (hrun : exec (System.step elapsed) s es = some t) : ¬ t.Persisted := by
  have ht : t.Stale ∧ t.job.finished.isSome := by
    refine exec_invariant (I := fun s => s.Stale ∧ s.job.finished.isSome) ?_ ⟨hs, hfin⟩ hrun
    rintro s e s' ⟨hs, hfin⟩ hstep
    have h := step_sound hstep
    exact ⟨hs.step hfin h, h.finished hfin⟩
  intro hp
  have hstatus := hp.status
  rw [ht.1.row, ht.1.status] at hstatus
  cases hstatus

private theorem Fresh.of_dirty (h : s.job.dirty = true) : s.Fresh :=
  ⟨fun hclean => by simp [h] at hclean, fun hclean => by simp [h] at hclean⟩

/-- What the row holds in the end is decided when the job returns: settled and dirty, the job is
written, settled and clean, it never is. -/
theorem persisted_iff_of_finish {o : Outcome} {ctxErr rootErr : Bool}
    (h : Step elapsed s (.finish o ctxErr rootErr) s') (hinv : s'.Inv) (hwrites : s'.WritesRunning)
    (hrun : exec (System.step elapsed) s' es = some t) (hq : t.Quiescent) :
    s'.job.finished.isSome ∧
      (t.Persisted ↔ ReturnsDirty s (.finish o ctxErr rootErr)) := by
  cases h with
  | finish o ctxErr rootErr hrunning =>
    have hfin : (s.job.finish elapsed s.now (o.failure? ctxErr rootErr)).finished.isSome := by
      rw [(s.job.finish_control elapsed s.now (o.failure? ctxErr rootErr)).1]
      rfl
    have hfresh : (s.job.finish elapsed s.now (o.failure? ctxErr rootErr)).dirty = true →
        t.Persisted := fun hdirty => (Fresh.of_dirty hdirty).persisted hinv hfin hrun hq
    refine ⟨hfin, ?_⟩
    cases o with
    | ok =>
      obtain ⟨hdirty, hsuccess⟩ := s.job.finish_success elapsed s.now
      refine ⟨fun hp => ?_, fun hreturns => hfresh (hdirty.trans hreturns)⟩
      by_contra hclean
      have hstale : Stale _ := ⟨hwrites, hdirty.trans (eq_false_of_ne_true hclean), hsuccess⟩
      exact hstale.not_persisted hfin hrun hp
    | error err =>
      have hdirty : (s.job.finish elapsed s.now
          ((Outcome.error err).failure? ctxErr rootErr)).dirty = true := by
        rw [Outcome.failure?]
        split_ifs <;> rfl
      exact ⟨fun _ => trivial, fun _ => hfresh hdirty⟩
    | panic value => exact ⟨fun _ => trivial, fun _ => hfresh rfl⟩

/-- The run from a job that has not finished yet. -/
theorem persisted_iff_of_running (hinv : s.Inv) (hwrites : s.WritesRunning)
    (hnone : s.job.finished = none) (hstatus : s.job.status = .running)
    (hrun : exec (System.step elapsed) s es = some t) (hfin : t.job.finished.isSome)
    (hq : t.Quiescent) : t.Persisted ↔ Along (System.step elapsed) ReturnsDirty s es := by
  induction es generalizing s with
  | nil =>
    obtain rfl : s = t := Option.some.inj hrun
    rw [hnone] at hfin
    cases hfin
  | cons e es ih =>
    obtain ⟨s', hstep, hrest⟩ := exec_cons_eq_some.mp hrun
    have h := step_sound hstep
    have hinv' := hinv.step h
    have hwrites' := hwrites.step h fun _ => hstatus
    have htail : (∀ s'' ∈ s.step elapsed e, Along (System.step elapsed) ReturnsDirty s'' es) ↔
        Along (System.step elapsed) ReturnsDirty s' es := by simp [hstep]
    rw [along_cons, htail]
    by_cases hend : ∃ o ctxErr rootErr, e = .finish o ctxErr rootErr
    · obtain ⟨o, ctxErr, rootErr, rfl⟩ := hend
      obtain ⟨hfin', hiff⟩ := persisted_iff_of_finish h hinv' hwrites' hrest hq
      rw [hiff, and_iff_left (along_of_finished hfin' hrest)]
    · have hne : ∀ o ctxErr rootErr, e ≠ .finish o ctxErr rootErr :=
        fun o ctxErr rootErr heq => hend ⟨o, ctxErr, rootErr, heq⟩
      obtain ⟨hnone', hstatus'⟩ := h.running hnone hstatus hne
      have hC : ReturnsDirty s e := by
        cases e with
        | finish o ctxErr rootErr => exact absurd rfl (hne o ctxErr rootErr)
        | _ => trivial
      rw [ih hinv' hwrites' hnone' hstatus' hrest]
      exact ⟨fun hrest' => ⟨hC, hrest'⟩, fun hboth => hboth.2⟩

/-- **Job persistence.** In every run of a job to its end, with every flush and timer completed,
the row carries the job's final state exactly when the job failed or returned with a change that
no flush had taken. -/
theorem persisted_iff {spec : Spec} {now : ℕ}
    (hrun : exec (System.step elapsed) (System.start spec now) es = some t)
    (hfin : t.job.finished.isSome) (hq : t.Quiescent) :
    t.Persisted ↔ Along (System.step elapsed) ReturnsDirty (System.start spec now) es :=
  persisted_iff_of_running (.start spec now) (.start spec now) rfl rfl hrun hfin hq

end System

/-! ### A job whose last change was written before it returned -/

namespace Example

/-- One step, whose flush completes, and a return: the last flush finds nothing to write. -/
def returnsClean : List Event :=
  [.call (.step "Pull image" ""), .lock 0, .write 0, .unlock 0, .finish .ok false false, .lock 0]

/-- The same job logging a line that is throttled: its last flush writes it. -/
def returnsDirty : List Event :=
  [.call (.step "Pull image" ""), .lock 0, .write 0, .unlock 0, .call (.log "ok" "done"), .lock 0,
    .arm 0, .finish .ok false false, .lock 0, .write 0, .unlock 0, .tick flushEvery, .fire 0,
    .lock 0]

/-- The state after a run of a job without a plan. -/
def after (es : List Event) : Option System :=
  exec (System.step fun _ => "0ms") (System.start {} 0) es

end Example

/-- The job has finished and nothing is pending, but the row says that it runs. -/
theorem System.not_persisted_returnsClean :
    ∃ s, Example.after Example.returnsClean = some s ∧ s.job.finished.isSome ∧ s.Quiescent ∧
      ¬ s.Persisted := by
  have hsome : (Example.after Example.returnsClean).isSome := by decide
  refine ⟨(Example.after Example.returnsClean).get hsome, (Option.some_get hsome).symm, rfl,
    ⟨rfl, rfl⟩, ?_⟩
  intro hp
  have hstatus : JobStatus.running = JobStatus.success := hp.status
  cases hstatus

/-- The run with the throttled line, whose last flush writes the end. -/
theorem System.persisted_iff_returnsDirty :
    ∃ s, Example.after Example.returnsDirty = some s ∧
      (s.Persisted ↔
        Along (System.step fun _ => "0ms") System.ReturnsDirty (System.start {} 0)
          Example.returnsDirty) := by
  have hsome : (Example.after Example.returnsDirty).isSome := by decide
  exact ⟨(Example.after Example.returnsDirty).get hsome, (Option.some_get hsome).symm,
    System.persisted_iff (Option.some_get hsome).symm rfl ⟨rfl, rfl⟩⟩

end Dockhand.Jobs
