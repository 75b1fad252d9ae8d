import Dockhand.Transition.Exec
import Dockhand.Transition.Pool

/-!
# Deploys of one stack that overlap

The jobs that deploy one git stack: manual deploys, the redeploy action and pull & rebuild, and the
redeploys that webhook deliveries start. Each works from parameters it got when it was created, the
row of the `stacks` table as it was then or what the user entered, fetches the branch head, extracts
it on the host, builds and starts the services, and writes the row with `Upsert`. The steps of
different jobs come in any order, between pushes to the branch, deliveries and `SetAutoDeploy`.

Three properties of the stack when its jobs have finished, each with the steps that break it.

* The auto-deploy flag and the variables are those that a user set last. A redeploy writes back what
  it read when it was created.
* The stored commit is the one that was extracted last. A job stores the commit it has extracted,
  although another job has extracted another one since and has ended, or it fails after it has
  written on the host.
* When the job of the newest delivery has succeeded, the stored commit is the branch head that the
  delivery found. A job that had fetched before stores its older commit afterwards.

Each property holds in the runs without its steps: `Deploys.deploys_of_run`.
-/

namespace Dockhand.GitDeploy

open Transition

/-! ### Deploy jobs -/

/-- What a deploy job works from. The repository and the branch are those of the stack. -/
structure DeployParams where
  accountID : String := ""
  path : String := ""
  composeFile : String := "docker-compose.yml"
  env : List (String × String) := []
  autoDeploy : Bool := false
  deriving DecidableEq

/-- The row of the stack: the parameters of its last deploy, and the commit. -/
structure StackRow extends DeployParams where
  sha : String
  deriving DecidableEq

/-- The next step of `runDeploy`, with the commit it has fetched. `starting` stands for what
follows the extraction on the host: pruning, `.env`, build and start. -/
inductive Stage where
  | fetching
  | uploading (sha : String)
  | starting (sha : String)
  | saving (sha : String)
  deriving DecidableEq

/-- The commit that the job has fetched. -/
def Stage.fetched : Stage → Option String
  | .fetching => none
  | .uploading sha | .starting sha | .saving sha => some sha

/-- The commit that the job has extracted. -/
def Stage.extracted : Stage → Option String
  | .fetching | .uploading _ => none
  | .starting sha | .saving sha => some sha

/-- The commit that the job is extracting. -/
def Stage.uploads : Stage → Option String
  | .uploading sha => some sha
  | .fetching | .starting _ | .saving _ => none

/-- The commit that the job is about to store. -/
def Stage.saves : Stage → Option String
  | .fetching | .uploading _ | .starting _ => none
  | .saving sha => some sha

/-- A deploy job. `manual` tells a deploy with the user's parameters from a redeploy. The rest is
history: the newest delivery has started it, it has fetched since that delivery, the user has set
other values since it was created, and no job has written on the host since it extracted. -/
structure DeployJob where
  params : DeployParams
  manual : Bool
  stage : Stage := .fetching
  delivered : Bool := false
  fresh : Bool := false
  outrun : Bool := false
  last : Bool := false
  deriving DecidableEq

/-- The newest push delivery: the branch head at its time, and whether its job has succeeded. -/
structure Delivery where
  head : String
  succeeded : Bool := false
  deriving DecidableEq

/-- The stack: its row, the commit last extracted on the host, the head of its branch, the pushes
whose deliveries are on their way, and the jobs. What the last completed user action has set and
the newest delivery are history. -/
structure Deploys where
  row : Option StackRow := none
  extracted : Option String := none
  head : String
  deliveries : List String := []
  jobs : List DeployJob := []
  userAuto : Bool := false
  userEnv : List (String × String) := []
  newest : Option Delivery := none

/-- What happens to the stack: pushes and their deliveries, user actions and the steps of jobs. -/
inductive DeployEvent where
  /-- The branch moves to a new commit. -/
  | push (sha : String)
  /-- A delivery arrives. `auto` is the global setting; `checksFailed` says that the deploy has to
  wait for checks and they have failed. -/
  | deliver (i : ℕ) (auto checksFailed : Bool)
  | deploy (p : DeployParams)
  | redeploy
  | setAutoDeploy (v : Bool)
  /-- The job `i` takes its next step. -/
  | run (i : ℕ)
  /-- The next step of the job `i` fails. `wrote` says of an upload that `tar` had written files
  before it failed. -/
  | fail (i : ℕ) (wrote : Bool)
  deriving DecidableEq

namespace Deploys

/-- `jobs.Start`. -/
def start (s : Deploys) (j : DeployJob) : Deploys := { s with jobs := s.jobs ++ [j] }

/-- The jobs when a new delivery is the newest. -/
def outdated (s : Deploys) : List DeployJob :=
  s.jobs.map fun j => { j with delivered := false, fresh := false }

/-- The jobs when a user action that sets these values completes. -/
def edited (s : Deploys) (auto : Bool) (env : List (String × String)) : List DeployJob :=
  s.jobs.map fun j =>
    { j with outrun := j.outrun || decide ((auto, env) ≠ (s.userAuto, s.userEnv)) }

/-- The jobs when an upload writes on the host. -/
def overwritten (s : Deploys) : List DeployJob := s.jobs.map fun j => { j with last := false }

/-- `HandleWebhook` for a push to the branch. -/
def handleWebhook (s : Deploys) (after : String) (auto checksFailed : Bool) : Deploys :=
  let s' := { s with jobs := s.outdated, newest := some { head := s.head } }
  match s.row with
  | none => s'
  | some r =>
    if !auto || !r.autoDeploy then s'
    else if r.sha = after && after ≠ "" then s'
    else if checksFailed && after ≠ "" then s'
    else s'.start { params := r.toDeployParams, manual := false, delivered := true }

/-- `Upsert` at the end of the job. With a manual one, its user's values are set. -/
def save (s : Deploys) (i : ℕ) (j : DeployJob) (sha : String) : Deploys :=
  let s' : Deploys := { s with
    row := some { j.params with sha }
    newest := s.newest.map fun d => { d with succeeded := d.succeeded || j.delivered } }
  if j.manual then
    { s' with
      jobs := (s.edited j.params.autoDeploy j.params.env).eraseIdx i
      userAuto := j.params.autoDeploy
      userEnv := j.params.env }
  else { s' with jobs := s.jobs.eraseIdx i }

/-- The next step of `runDeploy`. -/
def advance (s : Deploys) (i : ℕ) (j : DeployJob) : Deploys :=
  match j.stage with
  | .fetching =>
    { s with jobs := s.jobs.set i { j with stage := .uploading s.head, fresh := true } }
  | .uploading sha =>
    { s with
      extracted := some sha
      jobs := s.overwritten.set i { j with stage := .starting sha, last := true } }
  | .starting sha => { s with jobs := s.jobs.set i { j with stage := .saving sha } }
  | .saving sha => s.save i j sha

/-- The job ends with an error. An upload may have written files of its commit by then. -/
def abort (s : Deploys) (i : ℕ) (j : DeployJob) (wrote : Bool) : Deploys :=
  match j.stage, wrote with
  | .uploading sha, true =>
    { s with extracted := some sha, jobs := s.overwritten.eraseIdx i }
  | _, _ => { s with jobs := s.jobs.eraseIdx i }

/-- One step; `none` if there is no such delivery or job. -/
def step (s : Deploys) : DeployEvent → Option Deploys
  | .push sha => some { s with head := sha, deliveries := s.deliveries ++ [sha] }
  | .deliver i auto checksFailed =>
    (s.deliveries[i]?).map fun after =>
      { s with deliveries := s.deliveries.eraseIdx i }.handleWebhook after auto checksFailed
  | .deploy p => some (s.start { params := p, manual := true })
  | .redeploy =>
    s.row.map fun r => s.start { params := r.toDeployParams, manual := false }
  | .setAutoDeploy v =>
    s.row.map fun r =>
      { s with row := some { r with autoDeploy := v }, jobs := s.edited v s.userEnv, userAuto := v }
  | .run i => (s.jobs[i]?).map (s.advance i)
  | .fail i wrote => (s.jobs[i]?).map (s.abort i · wrote)

/-! ### The three properties -/

/-- **The user's settings are kept.** -/
def KeepsSettings (s : Deploys) : Prop :=
  s.jobs = [] → ∀ r ∈ s.row, r.autoDeploy = s.userAuto ∧ r.env = s.userEnv

instance (s : Deploys) : Decidable s.KeepsSettings := inferInstanceAs (Decidable (_ → _))

/-- **The commit on the host is stored.** -/
def StoresExtracted (s : Deploys) : Prop := s.jobs = [] → ∀ r ∈ s.row, s.extracted = some r.sha

instance (s : Deploys) : Decidable s.StoresExtracted := inferInstanceAs (Decidable (_ → _))

/-- **The commit of the newest delivery is stored**, when its job has succeeded and no delivery is
on its way. -/
def StoresHead (s : Deploys) : Prop :=
  s.jobs = [] → s.deliveries = [] → ∀ d ∈ s.newest, d.succeeded = true →
    s.row.map StackRow.sha = some d.head

instance (s : Deploys) : Decidable s.StoresHead := inferInstanceAs (Decidable (_ → _ → _))

/-! ### The conditions -/

/-- The user has set no other values between the creation of a redeploy and its `Upsert`. -/
def NoEditSince (s : Deploys) : DeployEvent → Prop
  | .run i => ∀ j ∈ s.jobs[i]?, j.manual = false → j.stage.saves.isSome → j.outrun = false
  | _ => True

instance (s : Deploys) : (e : DeployEvent) → Decidable (s.NoEditSince e)
  | .run _ => inferInstanceAs (Decidable (∀ j ∈ _, _))
  | .push _ | .deliver .. | .deploy _ | .redeploy | .setAutoDeploy _ | .fail .. => isTrue trivial

/-- The job that wrote last on the host is still running. -/
def LastRuns (s : Deploys) : Prop := ∃ j ∈ s.jobs, j.last = true

instance (s : Deploys) : Decidable s.LastRuns := inferInstanceAs (Decidable (∃ j ∈ _, _))

/-- The failing job is the one that wrote last on the host. -/
def DeployJob.WroteLast (j : DeployJob) (wrote : Bool) : Prop :=
  j.last = true ∨ wrote = true ∧ j.stage.uploads.isSome

instance (j : DeployJob) (wrote : Bool) : Decidable (DeployJob.WroteLast j wrote) :=
  inferInstanceAs (Decidable (_ ∨ _))

/-- A job stores its commit while the job that wrote last on the host, itself or another one, is
still running, and the one that wrote last does not fail unless its commit is the stored one. -/
def LastStores (s : Deploys) : DeployEvent → Prop
  | .run i => ∀ j ∈ s.jobs[i]?, j.stage.saves.isSome → s.LastRuns
  | .fail i wrote => ∀ j ∈ s.jobs[i]?, DeployJob.WroteLast j wrote →
      ∀ r ∈ s.row, j.stage.fetched = some r.sha
  | _ => True

instance (s : Deploys) : (e : DeployEvent) → Decidable (s.LastStores e)
  | .run _ | .fail .. => inferInstanceAs (Decidable (∀ j ∈ _, _))
  | .push _ | .deliver .. | .deploy _ | .redeploy | .setAutoDeploy _ => isTrue trivial

/-- Once the job of the newest delivery has succeeded, a job stores a commit that it has fetched
since that delivery, or the stored one. -/
def FetchCurrent (s : Deploys) : DeployEvent → Prop
  | .run i => ∀ j ∈ s.jobs[i]?, ∀ sha ∈ j.stage.saves, ∀ d ∈ s.newest, d.succeeded = true →
      j.fresh = true ∨ s.row.map StackRow.sha = some sha
  | _ => True

instance (s : Deploys) : (e : DeployEvent) → Decidable (s.FetchCurrent e)
  | .run _ => inferInstanceAs (Decidable (∀ j ∈ _, _))
  | .push _ | .deliver .. | .deploy _ | .redeploy | .setAutoDeploy _ | .fail .. => isTrue trivial

/-- A stack that was never deployed. -/
structure New (s : Deploys) : Prop where
  row : s.row = none
  extracted : s.extracted = none
  deliveries : s.deliveries = []
  jobs : s.jobs = []
  newest : s.newest = none

variable {s s' : Deploys} {e : DeployEvent} {es : List DeployEvent}

/-! ### What one step does -/

/-- A delivery is the newest from then on, and starts at most one job, with what the row holds. -/
private theorem handleWebhook_cases (s : Deploys) (after : String) (auto checksFailed : Bool) :
    ∃ started : List DeployJob, s.handleWebhook after auto checksFailed =
        { s with jobs := s.outdated ++ started, newest := some { head := s.head } } ∧
      ∀ j ∈ started, ∃ r ∈ s.row,
        j = { params := r.toDeployParams, manual := false, delivered := true } := by
  unfold handleWebhook
  cases s.row with
  | none => exact ⟨[], by simp, by simp⟩
  | some r =>
    simp only
    split_ifs
    · exact ⟨[], by simp, by simp⟩
    · exact ⟨[], by simp, by simp⟩
    · exact ⟨[], by simp, by simp⟩
    · exact ⟨_, rfl, by simp⟩

/-- The job that moves when an upload has marked the others. -/
private theorem overwritten_getElem? {i : ℕ} {j : DeployJob} (hj : s.jobs[i]? = some j) :
    s.overwritten[i]? = some { j with last := false } := by
  simp [overwritten, hj]

/-- A job that an upload leaves. -/
private theorem of_mem_overwritten {j : DeployJob} (hj : j ∈ s.overwritten) :
    ∃ k ∈ s.jobs, j = { k with last := false } := by
  obtain ⟨k, hk, rfl⟩ := List.mem_map.mp hj
  exact ⟨k, hk, rfl⟩

/-- A job that goes on after an edit. -/
private theorem of_mem_edited {j : DeployJob} {auto : Bool} {env : List (String × String)}
    (hj : j ∈ s.edited auto env) :
    ∃ k ∈ s.jobs, ∃ outrun, j = { k with outrun } ∧
      (outrun = false → k.outrun = false ∧ auto = s.userAuto ∧ env = s.userEnv) := by
  obtain ⟨k, hk, rfl⟩ := List.mem_map.mp hj
  exact ⟨k, hk, _, rfl, by simp⟩

section Save

variable (s : Deploys) (i : ℕ) (j : DeployJob) (sha : String)

@[simp] theorem save_row : (s.save i j sha).row = some { j.params with sha } := by
  unfold save
  split <;> rfl

@[simp] theorem save_newest : (s.save i j sha).newest =
    s.newest.map fun d => { d with succeeded := d.succeeded || j.delivered } := by
  unfold save
  split <;> rfl

@[simp] theorem save_extracted : (s.save i j sha).extracted = s.extracted := by
  unfold save
  split <;> rfl

@[simp] theorem save_head : (s.save i j sha).head = s.head := by
  unfold save
  split <;> rfl

@[simp] theorem save_deliveries : (s.save i j sha).deliveries = s.deliveries := by
  unfold save
  split <;> rfl

variable {s i j sha} {k : DeployJob}

/-- The jobs after an `Upsert` are the other ones. -/
private theorem of_mem_save (hk : k ∈ (s.save i j sha).jobs) :
    ∃ k' ∈ s.jobs.eraseIdx i, ∃ outrun, k = { k' with outrun } := by
  unfold save at hk
  split at hk
  · simp only [edited, List.eraseIdx_map] at hk
    obtain ⟨k', hk', rfl⟩ := List.mem_map.mp hk
    exact ⟨k', hk', _, rfl⟩
  · exact ⟨k, hk, k.outrun, rfl⟩

/-- The other jobs go on after an `Upsert`. -/
private theorem mem_save (hk : k ∈ s.jobs.eraseIdx i) :
    ∃ outrun, { k with outrun } ∈ (s.save i j sha).jobs := by
  unfold save
  split
  · simp only [edited, List.eraseIdx_map]
    exact ⟨_, List.mem_map.mpr ⟨k, hk, rfl⟩⟩
  · exact ⟨k.outrun, hk⟩

end Save

/-! ### The user's settings -/

/-- The invariant: the stored settings are the user's at any time, and so are those that a redeploy
has captured unless the user has set others since. -/
structure SettingsKept (s : Deploys) : Prop where
  row : ∀ r ∈ s.row, r.autoDeploy = s.userAuto ∧ r.env = s.userEnv
  jobs : ∀ j ∈ s.jobs, j.manual = false → j.outrun = false →
    j.params.autoDeploy = s.userAuto ∧ j.params.env = s.userEnv

/-- A stack without a row and jobs. -/
private theorem SettingsKept.of_new (h : s.New) : s.SettingsKept where
  row r hr := by simp [h.row] at hr
  jobs j hj := by simp [h.jobs] at hj

/-- Jobs that go on, with the row and the user's values as they were. -/
private theorem SettingsKept.mono (h : s.SettingsKept) (hrow : s'.row = s.row)
    (hauto : s'.userAuto = s.userAuto) (henv : s'.userEnv = s.userEnv)
    (hjobs : ∀ j ∈ s'.jobs, ∃ k ∈ s.jobs,
      j.params = k.params ∧ j.manual = k.manual ∧ j.outrun = k.outrun) : s'.SettingsKept where
  row := by simpa only [hrow, hauto, henv] using h.row
  jobs j hj hmanual houtrun := by
    obtain ⟨k, hk, hparams, hmanual', houtrun'⟩ := hjobs j hj
    rw [hparams, hauto, henv]
    exact h.jobs k hk (hmanual' ▸ hmanual) (houtrun' ▸ houtrun)

/-- **A job starts.** A redeploy works from the row. -/
private theorem SettingsKept.start (h : s.SettingsKept) {j : DeployJob}
    (hj : j.manual = false → ∃ r ∈ s.row, j.params = r.toDeployParams) :
    (s.start j).SettingsKept where
  row := h.row
  jobs k hk hmanual houtrun := by
    rcases List.mem_append.mp hk with hold | hnew
    · exact h.jobs k hold hmanual houtrun
    · obtain rfl := List.mem_singleton.mp hnew
      obtain ⟨r, hr, hparams⟩ := hj hmanual
      rw [hparams]
      exact h.row r hr

/-- **The user sets other values**, and whoever goes on knows the old ones. -/
private theorem SettingsKept.edited (h : s.SettingsKept) {auto : Bool}
    {env : List (String × String)} {j : DeployJob} (hj : j ∈ s.edited auto env)
    (hmanual : j.manual = false) (houtrun : j.outrun = false) :
    j.params.autoDeploy = auto ∧ j.params.env = env := by
  obtain ⟨k, hk, outrun, rfl, hsame⟩ := of_mem_edited hj
  obtain ⟨houtrun, rfl, rfl⟩ := hsame houtrun
  exact h.jobs k hk hmanual houtrun

/-- **A job stores what it works from.** -/
private theorem SettingsKept.save {i : ℕ} {j : DeployJob} {sha : String} (h : s.SettingsKept)
    (hj : s.jobs[i]? = some j) (hcond : j.manual = false → j.outrun = false) :
    (s.save i j sha).SettingsKept := by
  cases hmanual : j.manual with
  | true =>
    -- a manual deploy is itself the last thing that the user has set
    simp only [Deploys.save, hmanual, if_true]
    refine ⟨fun r hr => ?_, fun k hk => h.edited (List.mem_of_mem_eraseIdx hk)⟩
    obtain rfl := Option.some.inj hr
    exact ⟨rfl, rfl⟩
  | false =>
    -- a redeploy has captured what the user had set, and nothing else has been set since
    have hcaptured := h.jobs j (List.mem_of_getElem? hj) hmanual (hcond hmanual)
    simp only [Deploys.save, hmanual, Bool.false_eq_true, if_false]
    refine ⟨fun r hr => ?_, fun k hk => h.jobs k (List.mem_of_mem_eraseIdx hk)⟩
    obtain rfl := Option.some.inj hr
    exact hcaptured

/-- **One step.** -/
theorem SettingsKept.step (h : s.SettingsKept) (hcond : s.NoEditSince e)
    (hs : s.step e = some s') : s'.SettingsKept := by
  cases e with
  | push sha =>
    obtain rfl := Option.some.inj hs
    exact ⟨h.row, h.jobs⟩
  | deliver i auto checksFailed =>
    obtain ⟨after, -, rfl⟩ := Option.map_eq_some_iff.mp hs
    obtain ⟨started, heq, hstarted⟩ := handleWebhook_cases
      { s with deliveries := s.deliveries.eraseIdx i } after auto checksFailed
    rw [heq]
    refine ⟨h.row, fun j hj hmanual houtrun => ?_⟩
    rcases List.mem_append.mp hj with hold | hnew
    · obtain ⟨k, hk, rfl⟩ := List.mem_map.mp hold
      exact h.jobs k hk hmanual houtrun
    · obtain ⟨r, hr, rfl⟩ := hstarted j hnew
      exact h.row r hr
  | deploy p =>
    obtain rfl := Option.some.inj hs
    exact h.start fun hmanual => by cases hmanual
  | redeploy =>
    obtain ⟨r, hr, rfl⟩ := Option.map_eq_some_iff.mp hs
    exact h.start fun _ => ⟨r, hr, rfl⟩
  | setAutoDeploy v =>
    obtain ⟨r, hr, rfl⟩ := Option.map_eq_some_iff.mp hs
    refine ⟨?_, fun j hj => h.edited hj⟩
    rintro r' hr'
    obtain rfl := Option.some.inj hr'
    exact ⟨rfl, (h.row r hr).2⟩
  | run i =>
    obtain ⟨j, hj, rfl⟩ := Option.map_eq_some_iff.mp hs
    have hcond := hcond j hj
    -- up to the last step the job goes on with what it has captured
    have hgoes : ∀ k, k = j ∨ k ∈ s.jobs.eraseIdx i → k ∈ s.jobs := fun k => (mem_pool hj).mpr
    simp only [advance]
    cases hstage : j.stage with
    | fetching =>
      refine h.mono rfl rfl rfl fun k hk => ?_
      rcases (mem_pool_set hj).mp hk with rfl | hother
      · exact ⟨j, hgoes j (.inl rfl), rfl, rfl, rfl⟩
      · exact ⟨k, hgoes k (.inr hother), rfl, rfl, rfl⟩
    | uploading sha =>
      refine h.mono rfl rfl rfl fun k hk => ?_
      rcases (mem_pool_set (overwritten_getElem? hj)).mp hk with rfl | hother
      · exact ⟨j, hgoes j (.inl rfl), rfl, rfl, rfl⟩
      · obtain ⟨k', hk', rfl⟩ := of_mem_overwritten (List.mem_of_mem_eraseIdx hother)
        exact ⟨k', hk', rfl, rfl, rfl⟩
    | starting sha =>
      refine h.mono rfl rfl rfl fun k hk => ?_
      rcases (mem_pool_set hj).mp hk with rfl | hother
      · exact ⟨j, hgoes j (.inl rfl), rfl, rfl, rfl⟩
      · exact ⟨k, hgoes k (.inr hother), rfl, rfl, rfl⟩
    | saving sha => exact h.save hj fun hmanual => hcond hmanual (by rw [hstage]; rfl)
  | fail i wrote =>
    obtain ⟨j, hj, rfl⟩ := Option.map_eq_some_iff.mp hs
    unfold abort
    split
    · refine h.mono rfl rfl rfl fun k hk => ?_
      obtain ⟨k', hk', rfl⟩ := of_mem_overwritten (List.mem_of_mem_eraseIdx hk)
      exact ⟨k', hk', rfl, rfl, rfl⟩
    · exact h.mono rfl rfl rfl fun k hk => ⟨k, List.mem_of_mem_eraseIdx hk, rfl, rfl, rfl⟩

/-! ### The commit on the host -/

/-- The invariant: the commit on the host is stored, or the job that wrote it is still running, and
that job has extracted what is there. -/
structure CommitKept (s : Deploys) : Prop where
  stored : (∀ r ∈ s.row, s.extracted = some r.sha) ∨ s.LastRuns
  jobs : ∀ j ∈ s.jobs, j.last = true → j.stage.extracted.isSome ∧ s.extracted = j.stage.extracted

/-- A stack without a row and jobs. -/
private theorem CommitKept.of_new (h : s.New) : s.CommitKept where
  stored := .inl fun r hr => by simp [h.row] at hr
  jobs j hj := by simp [h.jobs] at hj

/-- Jobs that go on, and others that start, while nothing is written or stored. -/
private theorem CommitKept.mono (h : s.CommitKept)
    (hrow : s'.row.map StackRow.sha = s.row.map StackRow.sha)
    (hextracted : s'.extracted = s.extracted)
    (hgoes : ∀ j ∈ s.jobs, j.last = true → ∃ k ∈ s'.jobs, k.last = true)
    (hjobs : ∀ k ∈ s'.jobs, k.last = true →
      ∃ j ∈ s.jobs, j.last = true ∧ k.stage.extracted = j.stage.extracted) : s'.CommitKept where
  stored := by
    rcases h.stored with hstored | ⟨j, hj, hlast⟩
    · refine .inl fun r hr => ?_
      obtain ⟨r', hr', hsha⟩ := Option.map_eq_some_iff.mp
        (hrow.symm.trans (congrArg (Option.map StackRow.sha) hr))
      rw [hextracted, hstored r' hr', hsha]
    · exact .inr (hgoes j hj hlast)
  jobs k hk hlast := by
    obtain ⟨j, hj, hlast', hstage⟩ := hjobs k hk hlast
    rw [hextracted, hstage]
    exact h.jobs j hj hlast'

/-- A job starts. -/
private theorem CommitKept.start (h : s.CommitKept) {j : DeployJob} (hj : j.last = false) :
    (s.start j).CommitKept := by
  refine h.mono rfl rfl (fun k hk hlast => ⟨k, List.mem_append_left _ hk, hlast⟩)
    fun k hk hlast => ?_
  rcases List.mem_append.mp hk with hold | hnew
  · exact ⟨k, hold, hlast, rfl⟩
  · obtain rfl := List.mem_singleton.mp hnew
    rw [hj] at hlast
    cases hlast

/-- A job goes on and writes nothing. -/
private theorem CommitKept.set {i : ℕ} {j j' : DeployJob} (h : s.CommitKept)
    (hj : s.jobs[i]? = some j) (hlast : j'.last = j.last)
    (hstage : j'.stage.extracted = j.stage.extracted) :
    CommitKept { s with jobs := s.jobs.set i j' } := by
  refine h.mono rfl rfl (fun k hk hk' => ?_) fun k hk hk' => ?_
  · rcases (mem_pool hj).mp hk with rfl | hother
    · exact ⟨j', (mem_pool_set hj).mpr (.inl rfl), hlast.trans hk'⟩
    · exact ⟨k, (mem_pool_set hj).mpr (.inr hother), hk'⟩
  · rcases (mem_pool_set hj).mp hk with rfl | hother
    · exact ⟨j, List.mem_of_getElem? hj, hlast.symm.trans hk', hstage⟩
    · exact ⟨k, List.mem_of_mem_eraseIdx hother, hk', rfl⟩

/-- **A job writes its commit on the host**: no other one wrote last any more. -/
private theorem CommitKept.overwritten {i : ℕ} {j : DeployJob} {sha : String}
    (hj : s.jobs[i]? = some j) :
    CommitKept { s with
      extracted := some sha
      jobs := s.overwritten.set i { j with stage := .starting sha, last := true } } where
  stored := .inr ⟨_, (mem_pool_set (overwritten_getElem? hj)).mpr (.inl rfl), rfl⟩
  jobs k hk hlast := by
    rcases (mem_pool_set (overwritten_getElem? hj)).mp hk with rfl | hother
    · exact ⟨rfl, rfl⟩
    · obtain ⟨k', -, rfl⟩ := of_mem_overwritten (List.mem_of_mem_eraseIdx hother)
      cases hlast

/-- A job ends that was not the last one to write, so the one that was goes on. -/
private theorem CommitKept.erase {i : ℕ} {j : DeployJob} (h : s.CommitKept)
    (hj : s.jobs[i]? = some j)
    (hstored : j.last = true → ∀ r ∈ s.row, j.stage.extracted = some r.sha) :
    CommitKept { s with jobs := s.jobs.eraseIdx i } where
  stored := by
    cases hlast : j.last with
    | true =>
      refine .inl fun r hr => ?_
      rw [(h.jobs j (List.mem_of_getElem? hj) hlast).2]
      exact hstored hlast r hr
    | false =>
      refine h.stored.imp_right fun ⟨k, hk, hk'⟩ => ⟨k, ((mem_pool hj).mp hk).resolve_left ?_, hk'⟩
      rintro rfl
      rw [hlast] at hk'
      cases hk'
  jobs k hk := h.jobs k (List.mem_of_mem_eraseIdx hk)

/-- **A job stores its commit**: it is the last one to write, or that one is still running. -/
private theorem CommitKept.save {i : ℕ} {j : DeployJob} {sha : String} (h : s.CommitKept)
    (hj : s.jobs[i]? = some j) (hstage : j.stage = .saving sha) (hruns : s.LastRuns) :
    (s.save i j sha).CommitKept := by
  refine ⟨?_, fun k hk hlast => ?_⟩
  · obtain ⟨k, hk, hlast⟩ := hruns
    rcases (mem_pool hj).mp hk with rfl | hother
    · refine .inl fun r hr => ?_
      rw [save_row] at hr
      obtain rfl := Option.some.inj hr
      rw [save_extracted, (h.jobs k hk hlast).2, hstage]
      rfl
    · obtain ⟨outrun, hgoes⟩ := mem_save hother
      exact .inr ⟨_, hgoes, hlast⟩
  · obtain ⟨k, hother, outrun, rfl⟩ := of_mem_save hk
    rw [save_extracted]
    exact h.jobs k (List.mem_of_mem_eraseIdx hother) hlast

/-- **A job fails.** -/
private theorem CommitKept.abort {i : ℕ} {j : DeployJob} {wrote : Bool} (h : s.CommitKept)
    (hj : s.jobs[i]? = some j)
    (hcond : DeployJob.WroteLast j wrote → ∀ r ∈ s.row, j.stage.fetched = some r.sha) :
    (s.abort i j wrote).CommitKept := by
  unfold Deploys.abort
  split
  case h_1 sha hstage =>
    -- what `tar` had written is of the stored commit
    rw [hstage] at hcond
    refine ⟨.inl fun r hr => hcond (.inr ⟨rfl, by rw [hstage]; rfl⟩) r hr, fun k hk hlast => ?_⟩
    obtain ⟨k, -, rfl⟩ := of_mem_overwritten (List.mem_of_mem_eraseIdx hk)
    cases hlast
  case h_2 =>
    refine h.erase hj fun hlast r hr => ?_
    have hfetched := hcond (.inl hlast) r hr
    have hextracted := (h.jobs j (List.mem_of_getElem? hj) hlast).1
    cases hstage : j.stage <;> simp_all [Stage.fetched, Stage.extracted]

/-- **One step.** -/
theorem CommitKept.step (h : s.CommitKept) (hcond : s.LastStores e)
    (hs : s.step e = some s') : s'.CommitKept := by
  cases e with
  | push sha =>
    obtain rfl := Option.some.inj hs
    exact ⟨h.stored, h.jobs⟩
  | deliver i auto checksFailed =>
    obtain ⟨after, -, rfl⟩ := Option.map_eq_some_iff.mp hs
    obtain ⟨started, heq, hstarted⟩ := handleWebhook_cases
      { s with deliveries := s.deliveries.eraseIdx i } after auto checksFailed
    rw [heq]
    refine h.mono rfl rfl (fun j hj hlast => ?_) fun k hk hlast => ?_
    · exact ⟨_, List.mem_append_left _ (List.mem_map.mpr ⟨j, hj, rfl⟩), hlast⟩
    · rcases List.mem_append.mp hk with hold | hnew
      · obtain ⟨j, hj, rfl⟩ := List.mem_map.mp hold
        exact ⟨j, hj, hlast, rfl⟩
      · obtain ⟨r, -, rfl⟩ := hstarted k hnew
        cases hlast
  | deploy p =>
    obtain rfl := Option.some.inj hs
    exact h.start rfl
  | redeploy =>
    obtain ⟨r, -, rfl⟩ := Option.map_eq_some_iff.mp hs
    exact h.start rfl
  | setAutoDeploy v =>
    obtain ⟨r, hr, rfl⟩ := Option.map_eq_some_iff.mp hs
    refine h.mono (by rw [hr]; rfl) rfl (fun j hj hlast => ?_) fun k hk hlast => ?_
    · exact ⟨_, List.mem_map.mpr ⟨j, hj, rfl⟩, hlast⟩
    · obtain ⟨j, hj, outrun, rfl, -⟩ := of_mem_edited hk
      exact ⟨j, hj, hlast, rfl⟩
  | run i =>
    obtain ⟨j, hj, rfl⟩ := Option.map_eq_some_iff.mp hs
    have hcond := hcond j hj
    simp only [advance]
    cases hstage : j.stage with
    | fetching => exact h.set hj rfl (by rw [hstage]; rfl)
    | uploading sha => exact .overwritten hj
    | starting sha => exact h.set hj rfl (by rw [hstage]; rfl)
    | saving sha => exact h.save hj hstage (hcond (by rw [hstage]; rfl))
  | fail i wrote =>
    obtain ⟨j, hj, rfl⟩ := Option.map_eq_some_iff.mp hs
    exact h.abort hj (hcond j hj)

/-! ### The commit of the newest delivery -/

/-- A job has fetched the head that the newest delivery found if it has fetched since, and the job
of that delivery has. -/
structure JobCurrent (s : Deploys) (j : DeployJob) : Prop where
  fetched : s.deliveries = [] → s.newest.isSome → j.fresh = true →
    ∀ sha ∈ j.stage.fetched, sha = s.head
  delivered : j.delivered = true → ∀ _sha ∈ j.stage.fetched, j.fresh = true

/-- The invariant: with no delivery on its way, the head is the one that the newest delivery found,
and stored once its job has succeeded. -/
structure HeadKept (s : Deploys) : Prop where
  head : s.deliveries = [] → ∀ d ∈ s.newest, d.head = s.head
  jobs : ∀ j ∈ s.jobs, s.JobCurrent j
  stored : s.deliveries = [] → ∀ d ∈ s.newest, d.succeeded = true →
    s.row.map StackRow.sha = some s.head

/-- A stack without deliveries and jobs. -/
private theorem HeadKept.of_new (h : s.New) : s.HeadKept where
  head _ d hd := by simp [h.newest] at hd
  jobs j hj := by simp [h.jobs] at hj
  stored _ d hd := by simp [h.newest] at hd

/-- The head that the newest delivery found is the one that its job has stored. -/
private theorem HeadKept.storesHead (h : s.HeadKept) : s.StoresHead :=
  fun _ hnone d hd hsucceeded => (h.head hnone d hd).symm ▸ h.stored hnone d hd hsucceeded

/-- A job that has not fetched yet. -/
private theorem jobCurrent_of_fetching {j : DeployJob} (h : j.stage = .fetching) :
    s.JobCurrent j where
  fetched _ _ _ sha hsha := by simp [h, Stage.fetched] at hsha
  delivered _ sha hsha := by simp [h, Stage.fetched] at hsha

/-- What the invariant says of a job depends on what it has fetched, and when. -/
private theorem JobCurrent.mono {j k : DeployJob} (h : s.JobCurrent j)
    (hdeliveries : s'.deliveries = s.deliveries) (hhead : s'.head = s.head)
    (hnewest : s'.newest.isSome = s.newest.isSome) (hfetched : k.stage.fetched = j.stage.fetched)
    (hfresh : k.fresh = j.fresh) (hdelivered : k.delivered = j.delivered) : s'.JobCurrent k where
  fetched := by
    rw [hdeliveries, hhead, hnewest, hfetched, hfresh]
    exact h.fetched
  delivered := by
    rw [hfetched, hfresh, hdelivered]
    exact h.delivered

/-- A job starts. -/
private theorem HeadKept.start (h : s.HeadKept) {j : DeployJob} (hj : j.stage = .fetching) :
    (s.start j).HeadKept where
  head := h.head
  stored := h.stored
  jobs k hk := by
    rcases List.mem_append.mp hk with hold | hnew
    · exact (h.jobs k hold).mono rfl rfl rfl rfl rfl rfl
    · exact jobCurrent_of_fetching (List.mem_singleton.mp hnew ▸ hj)

/-- A job goes on, and the head and the row stay. -/
private theorem HeadKept.set {i : ℕ} {j j' : DeployJob} (h : s.HeadKept)
    (hj : s.jobs[i]? = some j) (hcurrent : s.JobCurrent j') :
    HeadKept { s with jobs := s.jobs.set i j' } where
  head := h.head
  stored := h.stored
  jobs k hk := by
    rcases (mem_pool_set hj).mp hk with rfl | hold
    · exact hcurrent.mono rfl rfl rfl rfl rfl rfl
    · exact (h.jobs k (List.mem_of_mem_eraseIdx hold)).mono rfl rfl rfl rfl rfl rfl

/-- An upload changes neither the head nor the row. -/
private theorem HeadKept.overwritten (h : s.HeadKept) {extracted : Option String} :
    HeadKept { s with jobs := s.overwritten, extracted } where
  head := h.head
  stored := h.stored
  jobs k hk := by
    obtain ⟨j, hj, rfl⟩ := of_mem_overwritten hk
    exact (h.jobs j hj).mono rfl rfl rfl rfl rfl rfl

/-- A job ends without storing its commit. -/
private theorem HeadKept.erase (h : s.HeadKept) (i : ℕ) :
    HeadKept { s with jobs := s.jobs.eraseIdx i } where
  head := h.head
  stored := h.stored
  jobs k hk := (h.jobs k (List.mem_of_mem_eraseIdx hk)).mono rfl rfl rfl rfl rfl rfl

/-- **A job stores its commit.** -/
private theorem HeadKept.save {i : ℕ} {j : DeployJob} {sha : String} (h : s.HeadKept)
    (hj : s.jobs[i]? = some j) (hstage : j.stage = .saving sha)
    (hcond : ∀ d ∈ s.newest, d.succeeded = true →
      j.fresh = true ∨ s.row.map StackRow.sha = some sha) : (s.save i j sha).HeadKept := by
  have hfetched : sha ∈ j.stage.fetched := by rw [hstage]; rfl
  have hcurrent := h.jobs j (List.mem_of_getElem? hj)
  have hhead : s.deliveries = [] → ∀ d ∈ s.newest, (d.succeeded || j.delivered) = true →
      sha = s.head := by
    intro hnone d hd hsucceeded
    have hnewest : s.newest.isSome = true := by rw [Option.mem_def.mp hd]; rfl
    -- the job of the delivery has succeeded before, or this is the one
    rcases Bool.or_eq_true_iff.mp hsucceeded with hbefore | hdelivered
    · rcases hcond d hd hbefore with hfresh | hsame
      · exact hcurrent.fetched hnone hnewest hfresh sha hfetched
      · exact Option.some.inj (hsame.symm.trans (h.stored hnone d hd hbefore))
    · exact hcurrent.fetched hnone hnewest (hcurrent.delivered hdelivered sha hfetched) sha hfetched
  refine ⟨fun hnone d hd => ?_, fun k hk => ?_, fun hnone d hd hsucceeded => ?_⟩
  · rw [save_newest] at hd
    obtain ⟨d', hd', rfl⟩ := Option.map_eq_some_iff.mp hd
    rw [save_deliveries] at hnone
    rw [save_head]
    exact h.head hnone d' hd'
  · obtain ⟨k, hother, outrun, rfl⟩ := of_mem_save hk
    exact (h.jobs k (List.mem_of_mem_eraseIdx hother)).mono (by simp) (by simp) (by simp) rfl rfl
      rfl
  · rw [save_newest] at hd
    obtain ⟨d', hd', rfl⟩ := Option.map_eq_some_iff.mp hd
    rw [save_deliveries] at hnone
    rw [save_row, save_head]
    exact congrArg some (hhead hnone d' hd' hsucceeded)

/-- **One step.** -/
theorem HeadKept.step (h : s.HeadKept) (hcond : s.FetchCurrent e)
    (hs : s.step e = some s') : s'.HeadKept := by
  cases e with
  | push sha =>
    obtain rfl := Option.some.inj hs
    -- the head moves, but with a delivery on its way nothing is said of it
    have hsome : s.deliveries ++ [sha] ≠ [] := by simp
    exact ⟨fun hnone => absurd hnone hsome,
      fun j hj => ⟨fun hnone => absurd hnone hsome, (h.jobs j hj).delivered⟩,
      fun hnone => absurd hnone hsome⟩
  | deliver i auto checksFailed =>
    obtain ⟨after, -, rfl⟩ := Option.map_eq_some_iff.mp hs
    obtain ⟨started, heq, hstarted⟩ := handleWebhook_cases
      { s with deliveries := s.deliveries.eraseIdx i } after auto checksFailed
    rw [heq]
    refine ⟨fun _ d hd => ?_, fun j hj => ?_, fun _ d hd hsucceeded => ?_⟩
    · obtain rfl := Option.some.inj hd
      rfl
    · rcases List.mem_append.mp hj with hold | hnew
      · -- nobody has fetched since the delivery
        obtain ⟨k, -, rfl⟩ := List.mem_map.mp hold
        exact ⟨fun _ _ hfresh => (by cases hfresh), fun hdelivered => (by cases hdelivered)⟩
      · obtain ⟨r, -, rfl⟩ := hstarted j hnew
        exact jobCurrent_of_fetching rfl
    · -- its job has not succeeded yet
      obtain rfl := Option.some.inj hd
      cases hsucceeded
  | deploy p =>
    obtain rfl := Option.some.inj hs
    exact h.start rfl
  | redeploy =>
    obtain ⟨r, -, rfl⟩ := Option.map_eq_some_iff.mp hs
    exact h.start rfl
  | setAutoDeploy v =>
    obtain ⟨r, hr, rfl⟩ := Option.map_eq_some_iff.mp hs
    refine ⟨h.head, fun j hj => ?_, fun hnone d hd hsucceeded => ?_⟩
    · obtain ⟨k, hk, outrun, rfl, -⟩ := of_mem_edited hj
      exact (h.jobs k hk).mono rfl rfl rfl rfl rfl rfl
    · have hstored := h.stored hnone d hd hsucceeded
      rwa [hr] at hstored
  | run i =>
    obtain ⟨j, hj, rfl⟩ := Option.map_eq_some_iff.mp hs
    have hcurrent := h.jobs j (List.mem_of_getElem? hj)
    simp only [advance]
    cases hstage : j.stage with
    | fetching =>
      exact h.set hj ⟨fun _ _ _ sha hsha => (Option.some.inj hsha).symm, fun _ _ _ => rfl⟩
    | uploading sha =>
      refine h.overwritten.set (overwritten_getElem? hj) ?_
      exact hcurrent.mono rfl rfl rfl (by rw [hstage]; rfl) rfl rfl
    | starting sha => exact h.set hj (hcurrent.mono rfl rfl rfl (by rw [hstage]; rfl) rfl rfl)
    | saving sha => exact h.save hj hstage (hcond j hj sha (by rw [hstage]; rfl))
  | fail i wrote =>
    obtain ⟨j, hj, rfl⟩ := Option.map_eq_some_iff.mp hs
    unfold abort
    split
    · exact h.overwritten.erase i
    · exact h.erase i

/-! ### Runs -/

/-- **Deploys do not undo each other**: each of the three in every run without the steps that break
it. -/
theorem deploys_of_run (hnew : s.New) :
    (Along Deploys.step NoEditSince s es → AllStates Deploys.step KeepsSettings s es) ∧
      (Along Deploys.step LastStores s es → AllStates Deploys.step StoresExtracted s es) ∧
      (Along Deploys.step FetchCurrent s es → AllStates Deploys.step StoresHead s es) := by
  refine ⟨fun hcond => ?_, fun hcond => ?_, fun hcond => ?_⟩
  · exact (allStates_of_along (fun _ _ _ h hC hs => SettingsKept.step h hC hs) (.of_new hnew)
      hcond).imp fun _ h _ => h.row
  · refine (allStates_of_along (fun _ _ _ h hC hs => CommitKept.step h hC hs) (.of_new hnew)
      hcond).imp fun t h hidle => h.stored.resolve_right ?_
    -- with no job left none is still running
    rintro ⟨j, hj, -⟩
    simp [hidle] at hj
  · exact (allStates_of_along (fun _ _ _ h hC hs => HeadKept.step h hC hs) (.of_new hnew) hcond).imp
      fun _ h => h.storesHead

end Deploys

/-! ### Overlaps -/

namespace Example

/-- A stack whose branch is at `a1`. -/
def stack : Deploys := { head := "a1" }

private theorem stack_new : stack.New := ⟨rfl, rfl, rfl, rfl, rfl⟩

/-- The next steps of the job `i`, up to its end. -/
def finish (i n : ℕ) : List DeployEvent := List.replicate n (.run i)

/-- The first deploy of the stack. -/
def firstDeploy : List DeployEvent := .deploy { autoDeploy := true } :: finish 0 4

/-- Auto-deploy is turned off while a redeploy runs. -/
def turnedOff : List DeployEvent :=
  firstDeploy ++ [.redeploy, .run 0, .setAutoDeploy false] ++ finish 0 3

/-- Of two redeploys, the one that extracts first stores last. -/
def crossed : List DeployEvent :=
  firstDeploy ++ [.redeploy, .run 0, .push "b2", .deliver 0 true false, .run 1,
    .run 0] ++ finish 1 3 ++ finish 0 2

/-- A redeploy that has fetched before the push extracts and stores after the job of the push. -/
def overtaken : List DeployEvent :=
  firstDeploy ++ [.redeploy, .run 0, .push "b2", .deliver 0 true false] ++ finish 1 4 ++
    finish 0 3

/-- An upload of a new commit fails after it has written files. -/
def torn : List DeployEvent :=
  firstDeploy ++ [.push "b2", .redeploy, .run 0, .fail 0 true]

/-- A deploy, a push that is deployed, auto-deploy turned off, a push that is not, two redeploys
that overlap and store in the order in which they extract, and one that fails on the same commit. -/
def inTurn : List DeployEvent :=
  firstDeploy ++ [.push "b2", .deliver 0 true false] ++ finish 0 4 ++
    [.setAutoDeploy false, .push "c3", .deliver 0 true false, .redeploy, .redeploy] ++
    finish 0 3 ++ finish 1 3 ++ finish 0 2 ++ [.redeploy, .run 0, .fail 0 true]

end Example

/-- A redeploy turns auto-deploy on again; the stored commit is not the one on the host, after two
jobs that cross and after an upload that fails; the commit of the newest push is deployed and
undone. -/
theorem Deploys.not_deploys :
    Example.stack.New ∧
      ¬ AllStates Deploys.step Deploys.KeepsSettings Example.stack Example.turnedOff ∧
      ¬ AllStates Deploys.step Deploys.StoresExtracted Example.stack Example.crossed ∧
      ¬ AllStates Deploys.step Deploys.StoresExtracted Example.stack Example.torn ∧
      ¬ AllStates Deploys.step Deploys.StoresHead Example.stack Example.overtaken :=
  ⟨Example.stack_new, by decide +kernel, by decide +kernel, by decide +kernel, by decide +kernel⟩

/-- The run with overlapping redeploys meets the three conditions. -/
theorem Deploys.deploys_of_run_inTurn :
    AllStates Deploys.step Deploys.KeepsSettings Example.stack Example.inTurn ∧
      AllStates Deploys.step Deploys.StoresExtracted Example.stack Example.inTurn ∧
      AllStates Deploys.step Deploys.StoresHead Example.stack Example.inTurn :=
  ⟨(Deploys.deploys_of_run Example.stack_new).1 (by decide +kernel),
    (Deploys.deploys_of_run Example.stack_new).2.1 (by decide +kernel),
    (Deploys.deploys_of_run Example.stack_new).2.2 (by decide +kernel)⟩

end Dockhand.GitDeploy
