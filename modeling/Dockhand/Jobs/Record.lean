import Dockhand.Jobs.Persistence

/-!
# What a job records: its steps and its log

Two results about every run of a job, at every moment of it.

* `System.steps_coherent`: the plan stays in place at the head of the steps, `cur` points at the
  one step that runs, what has ended stays as it ended, and when the job has finished every step
  has.
* `System.log_tail`: the log never outgrows `maxLog`; it is the whole history, or a marker and a
  suffix of the history that holds at least the newest `maxLog - 500` lines.

Both rest on `System.Step.job_cases`: a step of the system leaves the steps and the log alone, is
a call of the job's function, or settles the job.
-/

namespace Dockhand.Jobs

open Go Transition

variable {elapsed : ℕ → String}

/-! ### The steps of the system on steps and log -/

/-- The two jobs agree on the fields that only the job's function and `run` write. -/
structure Job.SameRecord (j j' : Job) : Prop where
  steps : j'.steps = j.steps
  stepStart : j'.stepStart = j.stepStart
  cur : j'.cur = j.cur
  log : j'.log = j.log
  finished : j'.finished = j.finished

/-- A step of the system on the job: nothing, a call, or the end. -/
theorem System.Step.job_cases {s s' : System} {e : Event} (h : System.Step elapsed s e s') :
    (s.job.SameRecord s'.job ∧ (∀ c, e ≠ .call c) ∧
      ∀ o ctxErr rootErr, e ≠ .finish o ctxErr rootErr) ∨
    (∃ c, e = .call c ∧ s.job.finished = none ∧ s'.job = c.apply elapsed s.now s.job) ∨
    (∃ o ctxErr rootErr, e = .finish o ctxErr rootErr ∧
      s'.job = s.job.finish elapsed s.now (o.failure? ctxErr rootErr)) := by
  cases h with
  | call c hrunning => exact .inr (.inl ⟨c, rfl, hrunning, rfl⟩)
  | finish o ctxErr rootErr hrunning => exact .inr (.inr ⟨o, ctxErr, rootErr, rfl, rfl⟩)
  | _ =>
    left
    refine ⟨⟨rfl, rfl, rfl, rfl, rfl⟩, ?_, ?_⟩
    · intro c hc
      cases hc
    · intro o ctxErr rootErr ho
      cases ho

/-! ### The step machine -/

/-- The step has ended. -/
def StepStatus.isFinal : StepStatus → Bool
  | pending | running => false
  | done | failed | skipped => true

private theorem StepStatus.isFinal_iff {st : StepStatus} :
    st.isFinal = true ↔ st ≠ .pending ∧ st ≠ .running := by
  cases st <;> simp [isFinal]

/-- Every step is still in its place under its label, and one that has ended keeps its status. -/
def Evolves (old new : List JobStep) : Prop :=
  ∀ (i : ℕ) (x : JobStep), old[i]? = some x →
    ∃ y, new[i]? = some y ∧ y.label = x.label ∧ (x.status.isFinal = true → y.status = x.status)

private theorem Evolves.refl (steps : List JobStep) : Evolves steps steps :=
  fun _ x hx => ⟨x, hx, rfl, fun _ => rfl⟩

private theorem Evolves.trans {a b c : List JobStep} (hab : Evolves a b) (hbc : Evolves b c) :
    Evolves a c := by
  intro i x hx
  obtain ⟨y, hy, hlabel, hstatus⟩ := hab i x hx
  obtain ⟨z, hz, hlabel', hstatus'⟩ := hbc i y hy
  refine ⟨z, hz, hlabel'.trans hlabel, fun hfinal => ?_⟩
  have heq := hstatus hfinal
  exact (hstatus' (heq ▸ hfinal)).trans heq

/-- Changing an open step without renaming it. -/
theorem Evolves.modify {steps : List JobStep} {i : ℕ} {x : JobStep} {f : JobStep → JobStep}
    (hx : steps[i]? = some x) (hopen : x.status.isFinal = false)
    (hf : ∀ s, (f s).label = s.label) : Evolves steps (steps.modify i f) := by
  intro k y hy
  rw [List.getElem?_modify, hy]
  by_cases hik : i = k
  · subst hik
    obtain rfl : x = y := Option.some.inj (hx.symm.trans hy)
    refine ⟨f x, by simp, hf x, fun hfinal => ?_⟩
    rw [hopen] at hfinal
    cases hfinal
  · exact ⟨y, by simp [hik], rfl, fun _ => rfl⟩

theorem Evolves.append (steps added : List JobStep) : Evolves steps (steps ++ added) :=
  fun i x hx => ⟨x, by rw [List.getElem?_append_left (List.getElem?_eq_some_iff.mp hx).1, hx],
    rfl, fun _ => rfl⟩

/-- A planned label stays where it is. -/
theorem Evolves.prefix_labels {old new : List JobStep} {plan : List String} (h : Evolves old new)
    (hplan : plan <+: old.map JobStep.label) : plan <+: new.map JobStep.label := by
  rw [List.prefix_iff_getElem?] at hplan ⊢
  intro i hi
  have hat := hplan i hi
  rw [List.getElem?_map, Option.map_eq_some_iff] at hat
  obtain ⟨x, hx, hlabel⟩ := hat
  obtain ⟨y, hy, hlabel', -⟩ := h i x hx
  rw [List.getElem?_map, hy, Option.map_some, hlabel', hlabel]

namespace Job

variable {j j' : Job}

/-- The status of step `i`. -/
def statusAt (j : Job) (i : ℕ) : Option StepStatus := j.steps[i]?.map JobStep.status

/-- Every step has a start time, and `cur` points at the one that runs. -/
structure Tracks (j : Job) : Prop where
  starts : j.stepStart.length = j.steps.length
  running : ∀ i, j.statusAt i = some .running ↔ j.cur = some i

/-- A move of the step machine. -/
structure Advances (j j' : Job) : Prop where
  tracks : j'.Tracks
  evolves : Evolves j.steps j'.steps

private theorem Advances.trans {j₁ j₂ j₃ : Job} (h : j₁.Advances j₂) (h' : j₂.Advances j₃) :
    j₁.Advances j₃ :=
  ⟨h'.tracks, h.evolves.trans h'.evolves⟩

private theorem Tracks.advances_self (hj : j.Tracks) : j.Advances j := ⟨hj, .refl _⟩

/-- Fields that the step machine does not read may change. -/
theorem Advances.congr {j'' : Job} (h : j.Advances j') (hsteps : j''.steps = j'.steps)
    (hstart : j''.stepStart = j'.stepStart) (hcur : j''.cur = j'.cur) : j.Advances j'' := by
  refine ⟨⟨?_, fun i => ?_⟩, ?_⟩
  · rw [hstart, hsteps, h.tracks.starts]
  · rw [statusAt, hsteps, hcur]
    exact h.tracks.running i
  · rw [hsteps]
    exact h.evolves

private theorem statusAt_modify {i k : ℕ} {f : JobStep → JobStep}
    (hj' : j'.steps = j.steps.modify i f) :
    j'.statusAt k = j.steps[k]?.map fun s => (if i = k then f s else s).status := by
  rw [statusAt, hj', List.getElem?_modify]
  cases j.steps[k]? <;> rfl

/-- The running step is where `cur` points. -/
theorem Tracks.get_cur (hj : j.Tracks) {i : ℕ} (hcur : j.cur = some i) :
    ∃ x, j.steps[i]? = some x ∧ x.status = .running :=
  Option.map_eq_some_iff.mp ((hj.running i).mpr hcur)

/-- Changing open step `i`, which then runs exactly when `cur` points at it. -/
theorem Tracks.advances_modify {i : ℕ} {x : JobStep} {f : JobStep → JobStep} (hj : j.Tracks)
    (hx : j.steps[i]? = some x) (hopen : x.status.isFinal = false)
    (hsteps : j'.steps = j.steps.modify i f) (hf : ∀ s, (f s).label = s.label)
    (hstart : j'.stepStart.length = j.stepStart.length)
    (hat : (f x).status = .running ↔ j'.cur = some i)
    (hcur : ∀ k, k ≠ i → (j'.cur = some k ↔ j.cur = some k)) : j.Advances j' := by
  refine ⟨⟨?_, fun k => ?_⟩, ?_⟩
  · rw [hstart, hsteps, List.length_modify, hj.starts]
  · rw [statusAt_modify hsteps]
    by_cases hik : i = k
    · subst hik
      simpa [hx] using hat
    · rw [hcur k (Ne.symm hik), ← hj.running k, statusAt]
      simp only [if_neg hik]
  · rw [hsteps]
    exact .modify hx hopen hf

/-- A new last step, which runs exactly when `cur` points at it. -/
theorem Tracks.advances_append {x : JobStep} {t : Option ℕ} (hj : j.Tracks)
    (hsteps : j'.steps = j.steps ++ [x]) (hstart : j'.stepStart = j.stepStart ++ [t])
    (hat : x.status = .running ↔ j'.cur = some j.steps.length)
    (hcur : ∀ k, k ≠ j.steps.length → (j'.cur = some k ↔ j.cur = some k)) : j.Advances j' := by
  refine ⟨⟨?_, fun k => ?_⟩, ?_⟩
  · rw [hstart, hsteps, List.length_append, List.length_append, hj.starts]
    rfl
  · rw [statusAt, hsteps]
    rcases lt_trichotomy k j.steps.length with hk | hk | hk
    · rw [List.getElem?_append_left hk, hcur k hk.ne, ← hj.running k, statusAt]
    · subst hk
      simpa using hat
    · rw [hcur k hk.ne', ← hj.running k, statusAt, List.getElem?_eq_none hk.le,
        List.getElem?_eq_none (by rw [List.length_append]; exact hk)]
  · rw [hsteps]
    exact .append _ _

/-! ### Each operation -/

private theorem Tracks.modifyCurrent (hj : j.Tracks) {f : JobStep → JobStep}
    (hlabel : ∀ s, (f s).label = s.label) (hstatus : ∀ s, (f s).status = s.status) :
    j.Advances (j.modifyCurrent f) := by
  cases hcur : j.cur with
  | none =>
    rw [Job.modifyCurrent, hcur]
    exact hj.advances_self
  | some i =>
    obtain ⟨x, hx, hrunning⟩ := hj.get_cur hcur
    have heq : j.modifyCurrent f = { j with steps := j.steps.modify i f } := by
      rw [Job.modifyCurrent, hcur]
    refine hj.advances_modify hx (by rw [hrunning]; rfl) (by rw [heq]) hlabel (by rw [heq]) ?_
      fun k _ => by rw [heq]
    rw [heq, hstatus, hrunning]
    exact iff_of_true rfl hcur

/-- Ending the running step leaves none. -/
theorem Tracks.finishCurrent (hj : j.Tracks) (elapsed : ℕ → String) (now : ℕ) {status : StepStatus}
    (hstatus : status ≠ .running) :
    j.Advances (j.finishCurrent elapsed now status) ∧
      (j.finishCurrent elapsed now status).cur = none := by
  cases hcur : j.cur with
  | none =>
    rw [Job.finishCurrent, hcur]
    exact ⟨hj.advances_self, hcur⟩
  | some i =>
    obtain ⟨x, hx, hrunning⟩ := hj.get_cur hcur
    have heq : j.finishCurrent elapsed now status =
        { j with
          steps := j.steps.modify i fun s => { s with status, t := j.elapsedAt elapsed now i }
          cur := none } := by
      rw [Job.finishCurrent, hcur]
    rw [heq]
    refine ⟨hj.advances_modify hx (by rw [hrunning]; rfl) rfl (fun _ => rfl) rfl ?_ ?_, rfl⟩
    · exact iff_of_false hstatus (by simp)
    · intro k hk
      simp [hcur, Ne.symm hk]

private theorem pendingIdx_eq_some {label : String} {i : ℕ} (h : j.pendingIdx label = some i) :
    ∃ x, j.steps[i]? = some x ∧ x.label = label ∧ x.status = .pending := by
  obtain ⟨hi, hp, -⟩ := List.findIdx?_eq_some_iff_getElem.mp h
  exact ⟨_, List.getElem?_eq_getElem hi, by simpa using hp⟩

theorem Tracks.step (hj : j.Tracks) (now : ℕ) (label text : String) :
    j.Advances (j.step elapsed now label text) := by
  obtain ⟨hadv, hnone⟩ := hj.finishCurrent elapsed now (by simp : StepStatus.done ≠ .running)
  refine hadv.trans ?_
  rw [Job.step]
  generalize j.finishCurrent elapsed now .done = j₁ at hadv hnone
  cases hidx : j₁.pendingIdx label with
  | some i =>
    obtain ⟨x, hx, -, hpending⟩ := pendingIdx_eq_some hidx
    refine hadv.tracks.advances_modify hx (by rw [hpending]; rfl) rfl (fun _ => rfl)
      List.length_set ?_ fun k hk => ?_
    · exact iff_of_true rfl rfl
    · simp [hnone, Ne.symm hk]
  | none =>
    refine hadv.tracks.advances_append rfl rfl ?_ fun k hk => ?_
    · exact iff_of_true rfl rfl
    · simp [hnone, Ne.symm hk]

theorem Tracks.sub (hj : j.Tracks) (text : String) : j.Advances (j.sub text) := by
  rw [Job.sub]
  cases j.cur with
  | none => exact hj.advances_self
  | some i =>
    exact (hj.modifyCurrent (f := fun s => { s with sub := text }) (fun _ => rfl)
      fun _ => rfl).congr rfl rfl rfl

theorem Tracks.done (hj : j.Tracks) (now : ℕ) (text : String) :
    j.Advances (j.done elapsed now text) := by
  have hsub : j.Advances (if text = "" then j else j.modifyCurrent fun s =>
      { s with sub := text }) := by
    split_ifs
    · exact hj.advances_self
    · exact hj.modifyCurrent (fun _ => rfl) fun _ => rfl
  have hfinish := hsub.tracks.finishCurrent elapsed now (by simp : StepStatus.done ≠ .running)
  exact (hsub.trans hfinish.1).congr rfl rfl rfl

theorem Tracks.skip (hj : j.Tracks) (now : ℕ) (label text : String) :
    j.Advances (j.skip elapsed now label text) := by
  obtain ⟨hadv, hnone⟩ := hj.finishCurrent elapsed now (by simp : StepStatus.done ≠ .running)
  refine hadv.trans ?_
  rw [Job.skip]
  generalize j.finishCurrent elapsed now .done = j₁ at hadv hnone
  cases hidx : j₁.pendingIdx label with
  | some i =>
    obtain ⟨x, hx, -, hpending⟩ := pendingIdx_eq_some hidx
    refine hadv.tracks.advances_modify hx (by rw [hpending]; rfl) rfl (fun _ => rfl) rfl ?_
      fun k _ => Iff.rfl
    simp [hnone]
  | none =>
    refine hadv.tracks.advances_append rfl rfl ?_ fun k _ => Iff.rfl
    simp [hnone]

theorem Tracks.fail (hj : j.Tracks) (now : ℕ) (text : String) :
    j.Advances (j.fail elapsed now text) := by
  have hsub := hj.modifyCurrent (f := fun s => { s with sub := text }) (fun _ => rfl) fun _ => rfl
  have hfinish := hsub.tracks.finishCurrent elapsed now (by simp : StepStatus.failed ≠ .running)
  exact (hsub.trans hfinish.1).congr rfl rfl rfl

private theorem writeLog_steps (level text : String) (j : Job) :
    (j.writeLog level text).steps = j.steps ∧
      (j.writeLog level text).stepStart = j.stepStart ∧ (j.writeLog level text).cur = j.cur := by
  rw [writeLog]
  generalize splitChar (trimRight text "\n") '\n' = lines
  induction lines generalizing j with
  | nil => exact ⟨rfl, rfl, rfl⟩
  | cons line lines ih =>
    rw [List.foldl_cons]
    exact ih (j.appendLog level line)

/-- Every call moves the step machine forward. -/
theorem Tracks.apply (hj : j.Tracks) (elapsed : ℕ → String) (now : ℕ) (c : Call) :
    j.Advances (c.apply elapsed now j) := by
  cases c with
  | step label text => exact hj.step now label text
  | sub text => exact hj.sub text
  | done text => exact hj.done now text
  | skip label text => exact hj.skip now label text
  | fail text => exact hj.fail now text
  | log level text =>
    obtain ⟨hsteps, hstart, hcur⟩ := writeLog_steps level text j
    exact hj.advances_self.congr hsteps hstart hcur
  | set k v => exact hj.advances_self.congr rfl rfl rfl
  | setStack id => exact hj.advances_self.congr rfl rfl rfl

/-- Skipping what never started, when nothing runs, leaves every step final. -/
theorem Tracks.skipPending (hj : j.Tracks) (hnone : j.cur = none) :
    j.Advances j.skipPending ∧ ∀ x ∈ j.skipPending.steps, x.status.isFinal = true := by
  have hget : ∀ i : ℕ, j.skipPending.steps[i]? = j.steps[i]?.map fun s : JobStep =>
      if s.status = .pending then { s with status := .skipped } else s := by
    intro i
    rw [Job.skipPending, List.getElem?_map]
  have hrun : ∀ (i : ℕ) (x : JobStep), j.steps[i]? = some x → x.status ≠ .running := by
    intro i x hx hrunning
    have hcur := (hj.running i).mp (by rw [statusAt, hx, Option.map_some, hrunning])
    rw [hnone] at hcur
    cases hcur
  have hfinal : ∀ (i : ℕ) (x : JobStep), j.steps[i]? = some x →
      (if x.status = .pending then { x with status := .skipped } else x).status.isFinal = true := by
    intro i x hx
    split_ifs with hpending
    · rfl
    · exact StepStatus.isFinal_iff.mpr ⟨hpending, hrun i x hx⟩
  refine ⟨⟨⟨?_, fun i => ?_⟩, fun i x hx => ?_⟩, fun y hy => ?_⟩
  · rw [Job.skipPending, List.length_map]
    exact hj.starts
  · refine iff_of_false ?_ (by rw [show j.skipPending.cur = none from hnone]; simp)
    rw [statusAt, hget]
    cases hx : j.steps[i]? with
    | none => simp
    | some x =>
      intro hrunning
      have hlast := hfinal i x hx
      rw [Option.map_some, Option.map_some, Option.some_inj] at hrunning
      rw [hrunning] at hlast
      cases hlast
  · refine ⟨_, by rw [hget, hx, Option.map_some], ?_, fun hold => ?_⟩
    · split_ifs <;> rfl
    · rw [if_neg (StepStatus.isFinal_iff.mp hold).1]
  · obtain ⟨i, hi⟩ := List.mem_iff_getElem?.mp hy
    rw [hget, Option.map_eq_some_iff] at hi
    obtain ⟨x, hx, rfl⟩ := hi
    exact hfinal i x hx

/-- Settling the job moves the step machine forward and ends every step. -/
theorem Tracks.finish (hj : j.Tracks) (elapsed : ℕ → String) (now : ℕ)
    (failure? : Option String) :
    j.Advances (j.finish elapsed now failure?) ∧
      ∀ x ∈ (j.finish elapsed now failure?).steps, x.status.isFinal = true := by
  cases failure? with
  | none =>
    obtain ⟨hadv, hnone⟩ := hj.finishCurrent elapsed now (by simp : StepStatus.done ≠ .running)
    obtain ⟨hskip, hfinal⟩ := hadv.tracks.skipPending hnone
    exact ⟨(hadv.trans hskip).congr rfl rfl rfl, hfinal⟩
  | some message =>
    have hsub := hj.modifyCurrent
      (f := fun s => { s with sub := if s.sub = "" then truncate message 200 else s.sub })
      (fun _ => rfl) fun _ => rfl
    obtain ⟨hadv, hnone⟩ :=
      hsub.tracks.finishCurrent elapsed now (by simp : StepStatus.failed ≠ .running)
    obtain ⟨hskip, hfinal⟩ := hadv.tracks.skipPending hnone
    exact ⟨((hsub.trans hadv).trans hskip).congr rfl rfl rfl, hfinal⟩

/-! ### The whole run -/

/-- What holds of the steps of a job with this plan at every moment. -/
structure Coherent (plan : List String) (j : Job) : Prop extends Tracks j where
  planned : plan <+: j.steps.map JobStep.label
  settled : j.finished.isSome → ∀ x ∈ j.steps, x.status ≠ .pending ∧ x.status ≠ .running

theorem Coherent.new (spec : Spec) : (Job.new spec).Coherent spec.plan where
  starts := by rw [Job.new, List.length_map, List.length_map]
  running i := by
    rw [statusAt, Job.new, List.getElem?_map]
    cases spec.plan[i]? <;> simp
  planned := by
    rw [Job.new, List.map_map, show JobStep.label ∘ _ = id from rfl, List.map_id]
  settled h := by cases h

end Job

namespace System

variable {s t : System} {e : Event} {es es' : List Event} {spec : Spec} {now : ℕ}

/-- One step of the system keeps the steps coherent and what has ended as it was. -/
theorem Step.coherent {plan : List String} (hs : s.job.Coherent plan) (h : Step elapsed s e t) :
    t.job.Coherent plan ∧ Evolves s.job.steps t.job.steps := by
  rcases h.job_cases with ⟨hsame, -, -⟩ | ⟨c, -, hrunning, hjob⟩ | ⟨o, ctxErr, rootErr, -, hjob⟩
  · have hadv := hs.toTracks.advances_self.congr hsame.steps hsame.stepStart hsame.cur
    refine ⟨⟨hadv.tracks, hadv.evolves.prefix_labels hs.planned, ?_⟩, hadv.evolves⟩
    rw [hsame.finished, hsame.steps]
    exact hs.settled
  · have hadv := hs.toTracks.apply elapsed s.now c
    rw [hjob]
    refine ⟨⟨hadv.tracks, hadv.evolves.prefix_labels hs.planned, fun hfin => ?_⟩, hadv.evolves⟩
    rw [(Job.sameControl_apply elapsed s.now s.job c).finished, hrunning] at hfin
    cases hfin
  · obtain ⟨hadv, hfinal⟩ :=
      hs.toTracks.finish elapsed s.now (o.failure? ctxErr rootErr)
    rw [hjob]
    exact ⟨⟨hadv.tracks, hadv.evolves.prefix_labels hs.planned,
      fun _ x hx => StepStatus.isFinal_iff.mp (hfinal x hx)⟩, hadv.evolves⟩

/-- The event that settles a job leaves it finished, at every later moment. -/
private theorem finished_of_mem
    (hrun : exec (System.step elapsed) (System.start spec now) es = some s)
    (hmem : ∃ o ctxErr rootErr, Event.finish o ctxErr rootErr ∈ es) : s.job.finished.isSome := by
  obtain ⟨o, ctxErr, rootErr, hmem⟩ := hmem
  obtain ⟨es₁, es₂, rfl⟩ := List.append_of_mem hmem
  obtain ⟨s₁, -, hrest⟩ := exec_append_eq_some.mp hrun
  obtain ⟨s₂, hstep, hlast⟩ := exec_cons_eq_some.mp hrest
  have hfinished : s₂.job.finished.isSome := by
    cases step_sound hstep with
    | finish _ _ _ hrunning =>
      rw [(s₁.job.finish_control elapsed s₁.now (o.failure? ctxErr rootErr)).1]
      rfl
  exact exec_invariant (I := fun u => u.job.finished.isSome)
    (fun _ _ _ hu h => (step_sound h).finished hu) hfinished hlast

/-- **The step machine.** At every moment of every run the steps are coherent, the job is finished
once it has been settled, and what has ended by then is unchanged at every later moment. -/
theorem steps_coherent (hrun : exec (System.step elapsed) (System.start spec now) es = some s)
    (hrest : exec (System.step elapsed) s es' = some t) :
    s.job.Coherent spec.plan ∧
      ((∃ o ctxErr rootErr, Event.finish o ctxErr rootErr ∈ es) → s.job.finished.isSome) ∧
      Evolves s.job.steps t.job.steps := by
  have hs : s.job.Coherent spec.plan := by
    refine exec_invariant (I := fun s => s.job.Coherent spec.plan) ?_ (.new spec) hrun
    exact fun _ _ _ hI h => (Step.coherent hI (step_sound h)).1
  refine ⟨hs, finished_of_mem hrun, ?_⟩
  have hboth : t.job.Coherent spec.plan ∧ Evolves s.job.steps t.job.steps := by
    refine exec_invariant
      (I := fun u => u.job.Coherent spec.plan ∧ Evolves s.job.steps u.job.steps) ?_
      ⟨hs, .refl _⟩ hrest
    intro u e u' hI h
    obtain ⟨hu', hev⟩ := Step.coherent hI.1 (step_sound h)
    exact ⟨hu', hI.2.trans hev⟩
  exact hboth.2

end System

/-- A job with three planned steps: the first one is done, one that is not planned takes the place
of the second, the third is skipped, and the job fails. -/
def Example.planned : Spec := { plan := ["Pull image", "Create container", "Start container"] }

/-- Its run up to the failure. -/
def Example.deviates : List Event :=
  [.call (.step "Pull image" ""), .call (.step "Copy volumes" "data"),
    .call (.skip "Start container" "not wanted"), .finish (.error { message := "no space left" })
      false false]

/-- The run of a job with a plan up to its failure, and its last flush. -/
theorem System.steps_coherent_deviates :
    ∃ s t, exec (System.step fun _ => "0ms") (System.start Example.planned 0) Example.deviates =
        some s ∧
      exec (System.step fun _ => "0ms") s [.lock 0, .write 0] = some t ∧
      s.job.Coherent ["Pull image", "Create container", "Start container"] ∧
      ((∃ o ctxErr rootErr, Event.finish o ctxErr rootErr ∈ Example.deviates) →
        s.job.finished.isSome) ∧
      Evolves s.job.steps t.job.steps := by
  have hsome : (exec (System.step fun _ => "0ms") (System.start Example.planned 0)
      Example.deviates).isSome := by decide
  have hrest : (exec (System.step fun _ => "0ms") ((exec (System.step fun _ => "0ms")
      (System.start Example.planned 0) Example.deviates).get (by decide))
      [.lock 0, .write 0]).isSome := by decide
  exact ⟨_, _, (Option.some_get hsome).symm, (Option.some_get hrest).symm,
    System.steps_coherent (Option.some_get hsome).symm (Option.some_get hrest).symm⟩

/-! ### The log -/

/-- The line that stands for what was dropped. -/
def truncated : JobLogLine := { text := "… earlier output truncated", level := "muted" }

/-- The log of a job whose history is `history`. -/
structure Tail (history log : List JobLogLine) : Prop where
  bounded : log.length ≤ maxLog
  whole_or_tail : log = history ∨
    ∃ kept, log = truncated :: kept ∧ kept <:+ history ∧ maxLog - 500 ≤ kept.length

private theorem suffix_append_singleton {α : Type} {l l' : List α} (h : l <:+ l') (a : α) :
    l ++ [a] <:+ l' ++ [a] := by
  obtain ⟨front, rfl⟩ := h
  exact ⟨front, (List.append_assoc ..).symm⟩

/-- One more line. -/
theorem Tail.appendLog {history : List JobLogLine} {j : Job} (h : Tail history j.log)
    (level text : String) :
    Tail (history ++ [⟨text, level⟩]) (j.appendLog level text).log := by
  have hbound := h.bounded
  rw [maxLog] at hbound
  by_cases hfull : maxLog ≤ j.log.length
  · -- The log has exactly `maxLog` lines, of which the chunk drops 500.
    rw [maxLog] at hfull
    have hlen : j.log.length = 5000 := le_antisymm hbound hfull
    have hlog : (j.appendLog level text).log =
        truncated :: (j.log.drop 500 ++ [⟨text, level⟩]) := by
      simp only [Job.appendLog, maxLog, hlen, ge_iff_le, le_refl, if_true]
      rfl
    have hsuffix : j.log.drop 500 <:+ history := by
      rcases h.whole_or_tail with heq | ⟨kept, heq, hkept, -⟩
      · rw [heq]
        exact List.drop_suffix 500 history
      · rw [heq, List.drop_succ_cons]
        exact (List.drop_suffix 499 kept).trans hkept
    have hkeep : (j.log.drop 500 ++ [(⟨text, level⟩ : JobLogLine)]).length = 4501 := by
      rw [List.length_append, List.length_drop, hlen]
      rfl
    refine ⟨?_, .inr ⟨_, hlog, suffix_append_singleton hsuffix _, ?_⟩⟩
    · rw [hlog, List.length_cons, hkeep]
      decide
    · rw [hkeep]
      decide
  · have hlog : (j.appendLog level text).log = j.log ++ [⟨text, level⟩] := by
      rw [Job.appendLog]
      simp only [ge_iff_le, hfull, if_false]
    refine ⟨?_, ?_⟩
    · rw [hlog, List.length_append, List.length_singleton]
      omega
    · rw [hlog]
      rcases h.whole_or_tail with heq | ⟨kept, heq, hkept, hlen⟩
      · exact .inl (by rw [heq])
      · refine .inr ⟨kept ++ [⟨text, level⟩], by rw [heq]; rfl,
          suffix_append_singleton hkept _, ?_⟩
        rw [List.length_append]
        omega

/-- The lines of a text. -/
def logLines (level text : String) : List JobLogLine :=
  (splitChar (trimRight text "\n") '\n').map fun line => { text := line, level }

theorem Tail.writeLog {history : List JobLogLine} {j : Job} (h : Tail history j.log)
    (level text : String) : Tail (history ++ logLines level text) (j.writeLog level text).log := by
  rw [Job.writeLog, logLines]
  generalize splitChar (trimRight text "\n") '\n' = lines
  induction lines generalizing history j with
  | nil => simpa using h
  | cons line lines ih =>
    have hline := ih (h.appendLog level line)
    rw [List.append_assoc] at hline
    exact hline

/-- The newest `maxLog - 500` lines of the history are the newest of the log. -/
theorem Tail.newest {history log : List JobLogLine} (h : Tail history log) :
    history.drop (history.length - (maxLog - 500)) <:+ log := by
  rcases h.whole_or_tail with heq | ⟨kept, heq, hkept, hlen⟩
  · rw [heq]
    exact List.drop_suffix _ _
  · refine List.IsSuffix.trans ?_ (heq ▸ List.suffix_cons truncated kept)
    refine List.suffix_of_suffix_length_le (List.drop_suffix _ _) hkept ?_
    rw [List.length_drop]
    omega

/-- What a call logs. -/
def Call.lines : Call → List JobLogLine
  | .log level text => logLines level text
  | _ => []

/-- What an event logs. -/
def Event.lines : Event → List JobLogLine
  | .call c => c.lines
  | .finish o ctxErr rootErr =>
    match o.failure? ctxErr rootErr with
    | some message => [{ text := message, level := "error" }]
    | none => []
  | _ => []

/-- Every line that was logged, the oldest first. -/
def history (es : List Event) : List JobLogLine := es.flatMap Event.lines

namespace Job

variable {j : Job}

private theorem modifyCurrent_log (f : JobStep → JobStep) (j : Job) :
    (j.modifyCurrent f).log = j.log := by
  rw [modifyCurrent]
  cases j.cur <;> rfl

private theorem finishCurrent_log (elapsed : ℕ → String) (now : ℕ) (status : StepStatus) (j : Job) :
    (j.finishCurrent elapsed now status).log = j.log := by
  rw [finishCurrent]
  cases j.cur <;> rfl

/-- A call logs its lines. -/
theorem apply_log (now : ℕ) (c : Call) {past : List JobLogLine} (h : Tail past j.log) :
    Tail (past ++ c.lines) (c.apply elapsed now j).log := by
  have hfinish := finishCurrent_log elapsed now .done j
  cases c with
  | log level text => exact h.writeLog level text
  | step label text =>
    have hlog : (j.step elapsed now label text).log = j.log := by
      rw [step, ← hfinish]
      cases (j.finishCurrent elapsed now .done).pendingIdx label <;> rfl
    simpa [Call.lines, Call.apply, hlog] using h
  | skip label text =>
    have hlog : (j.skip elapsed now label text).log = j.log := by
      rw [skip, ← hfinish]
      cases (j.finishCurrent elapsed now .done).pendingIdx label <;> rfl
    simpa [Call.lines, Call.apply, hlog] using h
  | sub text =>
    have hlog : (j.sub text).log = j.log := by
      rw [sub]
      cases j.cur with
      | none => rfl
      | some i => exact modifyCurrent_log _ j
    simpa [Call.lines, Call.apply, hlog] using h
  | done text =>
    have hlog : (j.done elapsed now text).log = j.log := by
      rw [done, finishCurrent_log]
      split_ifs
      · rfl
      · exact modifyCurrent_log _ j
    simpa [Call.lines, Call.apply, hlog] using h
  | fail text =>
    have hlog : (j.fail elapsed now text).log = j.log := by
      rw [fail, finishCurrent_log]
      exact modifyCurrent_log _ j
    simpa [Call.lines, Call.apply, hlog] using h
  | set k v => simpa [Call.lines, Call.apply, set] using h
  | setStack id => simpa [Call.lines, Call.apply, setStack] using h

/-- Settling a job logs its error. -/
theorem finish_log (now : ℕ) (o : Outcome) (ctxErr rootErr : Bool) {past : List JobLogLine}
    (h : Tail past j.log) :
    Tail (past ++ (Event.finish o ctxErr rootErr).lines)
      (j.finish elapsed now (o.failure? ctxErr rootErr)).log := by
  rw [Event.lines]
  cases o.failure? ctxErr rootErr with
  | none =>
    rw [List.append_nil]
    exact (finishCurrent_log elapsed now .done j).symm ▸ h
  | some message =>
    refine Tail.appendLog ?_ "error" message
    exact ((finishCurrent_log elapsed now .failed _).trans (modifyCurrent_log _ j)).symm ▸ h

end Job

namespace System

variable {s t : System} {e : Event} {es : List Event} {spec : Spec} {now : ℕ}

theorem Step.tail {past : List JobLogLine} (hs : Tail past s.job.log) (h : Step elapsed s e t) :
    Tail (past ++ e.lines) t.job.log := by
  rcases h.job_cases with
    ⟨hsame, hcall, hfinish⟩ | ⟨c, rfl, -, hjob⟩ | ⟨o, ctxErr, rootErr, rfl, hjob⟩
  · rw [hsame.log]
    cases e with
    | call c => exact absurd rfl (hcall c)
    | finish o ctxErr rootErr => exact absurd rfl (hfinish o ctxErr rootErr)
    | _ => simpa [Event.lines] using hs
  · rw [hjob]
    exact Job.apply_log s.now c hs
  · rw [hjob]
    exact Job.finish_log s.now o ctxErr rootErr hs

theorem exec_log_tail {past : List JobLogLine} (hs : Tail past s.job.log)
    (hrun : exec (System.step elapsed) s es = some t) : Tail (past ++ history es) t.job.log := by
  induction es generalizing s past with
  | nil =>
    obtain rfl : s = t := Option.some.inj hrun
    rwa [history, List.flatMap_nil, List.append_nil]
  | cons e es ih =>
    obtain ⟨s', he, hes⟩ := exec_cons_eq_some.mp hrun
    have hrest := ih (Step.tail hs (step_sound he)) hes
    rwa [List.append_assoc] at hrest

/-- **The log.** After every run it has at most `maxLog` lines, is the whole history or one marker
before a suffix of it, and ends with the newest `maxLog - 500` lines of the history. -/
theorem log_tail (hrun : exec (System.step elapsed) (System.start spec now) es = some t) :
    t.job.log.length ≤ maxLog ∧
      (t.job.log = history es ∨
        ∃ kept, t.job.log = truncated :: kept ∧ kept <:+ history es) ∧
      (history es).drop ((history es).length - (maxLog - 500)) <:+ t.job.log := by
  have hempty : Tail [] (System.start spec now).job.log := ⟨Nat.zero_le _, .inl rfl⟩
  have htail : Tail (history es) t.job.log := by
    simpa using exec_log_tail hempty hrun
  refine ⟨htail.bounded, ?_, htail.newest⟩
  rcases htail.whole_or_tail with heq | ⟨kept, heq, hkept, -⟩
  · exact .inl heq
  · exact .inr ⟨kept, heq, hkept⟩

end System

/-- A text of `n + 1` lines. -/
def Example.layers (n : ℕ) : String :=
  String.ofList ((List.replicate n ['x', '\n']).flatten ++ ['x'])

/-- A job that logs more lines at once than the log holds, and fails. -/
def Example.logsTooMuch : List Event :=
  [.call (.log "cmd" (Example.layers maxLog)),
    .finish (.error { message := "no space left" }) false false]

/-- The lines of that text. -/
private theorem length_logLines_layers (level : String) (n : ℕ) :
    (logLines level (Example.layers n)).length = n + 1 := by
  have htrim : trimRight (Example.layers n) "\n" = Example.layers n := by
    simp only [trimRight, Example.layers, String.toList_ofList]
    rw [List.rdropWhile_concat_neg _ _ _ (by decide)]
  have hsplit : ∀ n, (((List.replicate n ['x', '\n']).flatten ++ ['x']).splitOn '\n').length =
      n + 1 := by
    intro n
    induction n with
    | zero => rfl
    | succ n ih =>
      rw [List.replicate_succ, List.flatten_cons, List.append_assoc,
        show ['x', '\n'] ++ ((List.replicate n ['x', '\n']).flatten ++ ['x']) =
          ['x'] ++ '\n' :: ((List.replicate n ['x', '\n']).flatten ++ ['x']) from rfl,
        List.splitOn_append_cons_self, List.length_append, ih]
      rw [List.splitOn_eq_singleton (by decide)]
      simp [add_comm]
  rw [logLines, List.length_map, htrim, splitChar, List.length_map, Example.layers,
    String.toList_ofList, hsplit]

/-- The job can settle, as logging does not. -/
private theorem isSome_logsTooMuch (n : ℕ) :
    (Example.after [.call (.log "cmd" (Example.layers n)),
      .finish (.error { message := "no space left" }) false false]).isSome := by
  have hrunning : ((Job.new {}).writeLog "cmd" (Example.layers n)).finished = none :=
    (Job.sameControl_writeLog "cmd" (Example.layers n) (Job.new {})).finished
  have hnew : (Job.new {}).finished = none := rfl
  simp [Example.after, System.step, System.start, Call.apply, hrunning, hnew]

/-- What the job logs. -/
private theorem length_history_logsTooMuch (n : ℕ) :
    (history [.call (.log "cmd" (Example.layers n)),
      .finish (.error { message := "no space left" }) false false]).length = n + 2 := by
  have hfails : (Event.finish (.error { message := "no space left" }) false false).lines.length =
    1 :=
    rfl
  simp only [history, List.flatMap_cons, List.flatMap_nil, List.length_append, hfails]
  rw [Event.lines, Call.lines, length_logLines_layers]
  rfl

/-- The log of that job: the older lines are dropped, the newest ones are there. -/
theorem System.log_tail_logsTooMuch :
    ∃ t, Example.after Example.logsTooMuch = some t ∧ t.job.log.length ≤ maxLog ∧
      (∃ kept, t.job.log = truncated :: kept ∧ kept <:+ history Example.logsTooMuch) ∧
      (history Example.logsTooMuch).drop ((history Example.logsTooMuch).length - (maxLog - 500)) <:+
        t.job.log := by
  have hsome : (Example.after Example.logsTooMuch).isSome := isSome_logsTooMuch maxLog
  obtain ⟨t, ht⟩ := Option.isSome_iff_exists.mp hsome
  obtain ⟨hbound, hlog, hnewest⟩ := log_tail ht
  refine ⟨t, ht, hbound, hlog.resolve_left fun heq => ?_, hnewest⟩
  have hlen : (history Example.logsTooMuch).length = maxLog + 2 := length_history_logsTooMuch maxLog
  rw [heq, hlen] at hbound
  exact absurd hbound (by omega)

end Dockhand.Jobs
