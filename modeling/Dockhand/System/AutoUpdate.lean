import Dockhand.System.Versions
import Dockhand.Transition.Exec
import Dockhand.Transition.Pool

/-!
# Automatic updates

Every few minutes a tick looks for a new version and hands its installation off to a helper
container, which restarts Dockhand. The attempt is a pending row of the history. It becomes a failed
one when the helper cannot be started, or when Dockhand finds at its next start that it still runs
another version. A helper that fails before the restart leaves the row pending, and half an hour
later the same version is tried again: `not_tried_once`. So does a start that cannot read the
history, or finds a newer row, or whose checkout cannot be read afterwards. Failed versions are
found by `LIKE`, so that a failure of 1.2.10 also keeps 1.2.1 back. `triedOnce_of_run` says in which
runs neither happens: there every attempt that has ended without its version is recorded as failed
before the next tick that counts.
-/

namespace Dockhand.System

open Go Transition

/-! ### The state -/

/-- The states of a row of the update history. -/
inductive Status where
  | pending | success | failed
  deriving DecidableEq

/-- A row of the update history. -/
structure Row where
  version : String
  fromVersion : String := ""
  status : Status
  note : String
  writtenAt : ℕ
  deriving DecidableEq

/-- The head of the branch, and how many commits it is ahead of the running one. -/
structure RemoteHead where
  sha : Sha
  ahead : ℕ
  deriving DecidableEq

/-- A self-update job, with its row of the history once it is written. -/
structure Job where
  target : String
  fromVersion : String
  note : String
  row : Option ℕ := none
  deriving DecidableEq

/-- The memory of the running API. -/
structure Process where
  version : String
  bootSHA : Option Sha := none
  gitLocal : Option Sha := none
  gitRemote : Option RemoteHead := none
  gitErr : String := ""
  /-- The tag of the latest release. -/
  cache : Option String := none
  job : Option Job := none
  /-- A row that is reconciled once the checkout is read. -/
  reconcile : Option (ℕ × String) := none
  deriving DecidableEq

/-- An attempt that was handed off to a helper. -/
structure Attempt where
  row : ℕ
  target : String
  deriving DecidableEq

/-- The clock, the history, the process and the helpers. `ended` and `lost` are history: the
attempts that have ended without Dockhand running their version, and the rows of those that nothing
has looked after since: the helper failed before the restart, or the start after it could not read
the history or found a newer row, or the checkout could not be read for the row. -/
structure Installation where
  now : ℕ
  history : List Row := []
  process : Process
  /-- The attempts whose helpers run. -/
  helpers : List Attempt := []
  ended : List Attempt := []
  lost : List ℕ := []
  deriving DecidableEq

/-- What a look at the sources of updates finds. -/
structure Look where
  /-- The commit of the checkout, if there is one that can be read. -/
  checkout : Option Sha := none
  /-- Its origin is a repository on GitHub. -/
  origin : Bool := true
  /-- GitHub's answer: the head of the branch, and how many commits it is ahead of the running one
  if that is known there. -/
  remote : Option (Sha × Option ℕ) := none
  /-- The tag of the latest release. -/
  release : Option String := none
  deriving DecidableEq

/-- What happens next: to the clock, in the updater, to the helpers, and when Dockhand starts. -/
inductive Event where
  | clock (t : ℕ)
  /-- A tick inside the update window. It may look a second time; the job is started if nothing
  prevents it. -/
  | tick (look again : Look) (startable : Bool)
  /-- The checkout and its remote are read at another time. -/
  | refresh (look : Look)
  /-- The job has backed up and prepared, and its row is written; or it fails. -/
  | handOff (ok : Bool)
  /-- The helper is started, or cannot be for an error. -/
  | launch (err : Option String)
  /-- A helper fails before it restarts Dockhand. -/
  | helperFails (i : ℕ)
  /-- Dockhand starts, as this version that was built from this commit: a helper has restarted it,
  or someone else. -/
  | boot (helper : Option ℕ) (version : String) (built : Option Sha) (dbOk : Bool)
  /-- The row that the start has left is reconciled. -/
  | reconcile (look : Look)
  deriving DecidableEq

/-! ### Looking for versions -/

/-- `refreshGit` re-reads the checkout and asks GitHub for the branch head. -/
def refreshGit (p : Process) (look : Look) : Process :=
  match look.checkout with
  | none => p
  | some sha =>
    if ¬ look.origin then
      { p with gitLocal := some sha, gitErr := "The checkout's origin isn't a GitHub repository" }
    else
      let boot := p.bootSHA.getD sha
      let p := { p with bootSHA := some boot, gitLocal := some sha }
      match look.remote with
      | some (head, ahead) =>
        { p with gitRemote := some ⟨head, if boot = head then 0 else ahead.getD 0⟩, gitErr := "" }
      | none => { p with gitErr := "Couldn't reach GitHub" }

/-- What `Info` says about updates. -/
structure Info where
  latest : String
  available : Bool
  checkError : String := ""

/-- The commit that runs, as far as it is known. -/
def Process.running (p : Process) (gitLocal : Sha) : Sha := p.bootSHA.getD gitLocal

/-- `Info` on what was read last. Dockhand is in git mode when the checkout was ever read. -/
def Process.info (p : Process) : Info :=
  match p.gitLocal with
  | some l =>
    { latest := (p.gitRemote.map fun r => short r.sha.val).getD ""
      available := p.gitRemote.any fun r => r.sha ≠ p.running l && 0 < r.ahead
      checkError := p.gitErr }
  | none =>
    match p.cache with
    | some tag =>
      { latest := trimPrefix tag "v"
        available := compareVersions (trimPrefix tag "v") p.version = .gt }
    | none => { latest := "", available := false }

/-- `Info` with `force`. A failed check keeps the last good result. -/
def refresh (p : Process) (look : Look) : Process :=
  let p := refreshGit p look
  if p.gitLocal.isSome then p else { p with cache := look.release.or p.cache }

/-- The version that `Update` installs. -/
def Process.target (p : Process) : String :=
  match p.gitLocal with
  | some l => (p.gitRemote.map fun r => r.sha.val).getD l.val
  | none => if p.info.latest ≠ "" then p.info.latest else "latest"

/-- The version that `Update` records as the running one. -/
def Process.fromVersion (p : Process) : String :=
  match p.gitLocal with
  | some l => (p.running l).val
  | none => p.version

/-- The note of a row that is handed off. -/
def Process.note (p : Process) : String :=
  if p.gitLocal.isSome then "git pull + rebuild handed off to updater"
  else "Handed off to updater container"

/-- The job that `Update` starts. -/
def Process.newJob (p : Process) : Job where
  target := p.target
  fromVersion := p.fromVersion
  note := p.note

/-- The row that a job writes. -/
def Job.newRow (j : Job) (now : ℕ) : Row where
  version := j.target
  fromVersion := j.fromVersion
  status := .pending
  note := j.note
  writtenAt := now

/-! ### A tick -/

/-- What a tick has come to. -/
inductive AutoResult where
  | failed (err : String)
  | waiting
  | upToDate
  | skipped (latest : String)
  | started (latest target : String)
  deriving DecidableEq

/-- The words that the settings show for it. -/
def AutoResult.text : AutoResult → String
  | .failed err => "Failed: " ++ err
  | .waiting => "Waiting for the update in progress"
  | .upToDate => "Up to date"
  | .skipped latest =>
    "Skipped " ++ latest ++ ": it failed to install before — update from Settings → Updates"
  | .started latest _ => "Started update to " ++ latest

/-- Half an hour, in seconds. -/
def pendingAge : ℕ := 30 * 60

/-- The row stands for an update in progress. -/
def Row.inProgress (now : ℕ) (r : Row) : Bool :=
  r.status = .pending && now < r.writtenAt + pendingAge

namespace Installation

/-- The process after the look of a tick. -/
def looked (s : Installation) (look : Look) : Process := refresh s.process look

/-- The process that `Update` finds. `Info` looks again when the checkout was not read just now. -/
def lookedAgain (s : Installation) (look again : Look) : Process :=
  if look.checkout.isSome then s.looked look else refreshGit (s.looked look) again

/-- Don't overlap a running update (from the button, or one still restarting). -/
def busy (s : Installation) : Bool := s.history.any (Row.inProgress s.now) || s.process.job.isSome

/-- A version that failed once needs a person to look at it; a newer one is tried again. -/
def failedBefore (s : Installation) (latest : String) : Bool :=
  s.history.any fun r => r.status = .failed && matchesVersion latest r.version

/-- `autoUpdate` starts an update when one is available and it's safe to. -/
def autoUpdate (s : Installation) (look again : Look) (startable : Bool) : AutoResult × Process :=
  if s.busy then (.waiting, s.process)
  else
    let p := s.looked look
    if p.info.checkError ≠ "" then (.failed p.info.checkError, p)
    else if ¬ p.info.available then (.upToDate, p)
    else if s.failedBefore p.info.latest then (.skipped p.info.latest, p)
    else
      let q := s.lookedAgain look again
      if ¬ startable then (.failed "self-update is not possible", q)
      else (.started p.info.latest q.target, { q with job := some q.newJob })

end Installation

/-! ### The history -/

/-- The newest row. -/
def newest : List Row → Option ℕ
  | [] => none
  | r :: rows =>
    match newest rows with
    | none => some 0
    | some i => if rows[i]?.any fun r' => r.writtenAt ≤ r'.writtenAt then some (i + 1) else some 0

/-- `RecordBoot` reconciles update history with the running version. A row of a commit is left to
be reconciled. -/
def recordBoot (now : ℕ) (cur : String) (history : List Row) : List Row × Option (ℕ × String) :=
  match newest history with
  | none => ([⟨cur, "", .success, "Installed", now⟩], none)
  | some i =>
    match history[i]? with
    | none => (history, none)
    | some r =>
      if r.status = .pending then
        if isSha r.version then (history, some (i, r.version))
        else if trimPrefix r.version "v" = trimPrefix cur "v" ∨ r.version = "latest" then
          (history.set i ⟨cur, r.fromVersion, .success, "Update completed", r.writtenAt⟩, none)
        else
          (history.set i ⟨r.version, r.fromVersion, .failed,
            "Dockhand restarted but is still running " ++ cur, r.writtenAt⟩, none)
      else if trimPrefix r.version "v" ≠ trimPrefix cur "v" then
        (history ++ [⟨cur, r.version, .success, "Detected new version at startup", now⟩], none)
      else (history, none)

/-- Dockhand runs the version. -/
def runs (version : String) (built : Option Sha) (target : String) : Bool :=
  trimPrefix version "v" = trimPrefix target "v" || built.any (·.val = target)

namespace Installation

/-- A row gets a status. -/
def setStatus (s : Installation) (id : ℕ) (status : Status) (note : String) : Installation :=
  match s.history[id]? with
  | some r => { s with history := s.history.set id { r with status := status, note := note } }
  | none => s

/-- The helpers that go on when one of them, or someone else, restarts Dockhand. -/
def goesOn (s : Installation) (helper : Option ℕ) : List Attempt :=
  helper.elim s.helpers s.helpers.eraseIdx

/-- The attempt that ends with Dockhand restarted on another version. -/
def failedBy (s : Installation) (helper : Option ℕ) (version : String) (built : Option Sha) :
    List Attempt :=
  ((helper.bind (s.helpers[·]?)).filter fun a => !runs version built a.target).toList

/-- The rows that a start has to look after: of the attempt whose helper has restarted Dockhand, and
the one that the last start has left to be reconciled. -/
def restarting (s : Installation) (helper : Option ℕ) : List ℕ :=
  ((helper.bind (s.helpers[·]?)).map (·.row)).toList ++ (s.process.reconcile.map (·.1)).toList

/-- The next step of the system. -/
def step (s : Installation) : Event → Option Installation
  | .clock t => some { s with now := t }
  | .tick look again startable => some { s with process := (s.autoUpdate look again startable).2 }
  | .refresh look => some { s with process := refreshGit s.process look }
  | .handOff ok =>
    s.process.job.bind fun j =>
      if j.row.isSome then none
      else if ok then
        some { s with
          history := s.history ++ [j.newRow s.now]
          process := { s.process with job := some { j with row := some s.history.length } } }
      else some { s with process := { s.process with job := none } }
  | .launch err =>
    s.process.job.bind fun j => j.row.map fun id =>
      let s := { s with process := { s.process with job := none } }
      match err with
      | none => { s with helpers := s.helpers ++ [⟨id, j.target⟩] }
      | some msg => { s.setStatus id .failed msg with ended := s.ended ++ [⟨id, j.target⟩] }
  | .helperFails i =>
    (s.helpers[i]?).map fun a =>
      { s with
        helpers := s.helpers.eraseIdx i
        ended := s.ended ++ [a]
        lost := s.lost ++ [a.row] }
  | .boot helper version built dbOk =>
    if ∀ i ∈ helper, i < s.helpers.length then
      let found := if dbOk then newest s.history else none
      let booted := if dbOk then recordBoot s.now version s.history else (s.history, none)
      some { s with
        history := booted.1
        process := { version := version, reconcile := booted.2 }
        helpers := s.goesOn helper
        ended := s.ended ++ s.failedBy helper version built
        lost := (s.lost ++ s.restarting helper).filter fun id => some id ≠ found }
    else none
  | .reconcile look =>
    s.process.reconcile.map fun (id, target) =>
      let p := { refreshGit s.process look with reconcile := none }
      let s := { s with process := p }
      match p.gitLocal with
      | none => { s with lost := s.lost ++ [id] }
      | some l =>
        if l.val = target then s.setStatus id .success "Updated from git"
        else
          s.setStatus id .failed ("Restarted on " ++ short l.val ++ " instead of " ++ short target)

/-! ### The law -/

/-- What a tick answers. -/
def answer (s : Installation) (look again : Look) (startable : Bool) : AutoResult :=
  (s.autoUpdate look again startable).1

/-- An update is not started to a version that an earlier attempt has ended without, and a version
is skipped only if it has failed itself. -/
def Fair (s : Installation) (look : Look) : AutoResult → Prop
  | .started _ target => ∀ a ∈ s.ended, a.target ≠ target
  | .skipped _ => ∃ r ∈ s.history, r.status = .failed ∧ r.version = (s.looked look).target
  | _ => True

/-- The ticks answer so. -/
def TriedOnce (s : Installation) : Event → Installation → Prop
  | .tick look again startable, _ => s.Fair look (s.answer look again startable)
  | _, _ => True

/-- `RecordBoot` takes a pending row of the target for an update completed by a start as `version`.
-/
def Completes (version target : String) : Prop :=
  isSha target = false ∧ (trimPrefix target "v" = trimPrefix version "v" ∨ target = "latest")

instance (version target : String) : Decidable (Completes version target) :=
  inferInstanceAs (Decidable (_ ∧ _))

/-- The condition on a tick. If the version that it finds was tried and the attempt is lost, or left
to be reconciled, its row is less than half an hour old; the failed versions that match it are this
version; and `Update` finds the checkout only if the tick has. -/
structure Looks (s : Installation) (look again : Look) : Prop where
  early : ∀ a ∈ s.ended, a.target = (s.looked look).target →
    a.row ∈ s.lost ∨ s.process.reconcile = some (a.row, a.target) →
      ∀ r ∈ s.history[a.row]?, s.now < r.writtenAt + pendingAge
  matching : ∀ r ∈ s.history, r.status = .failed →
    matchesVersion (s.looked look).info.latest r.version = true →
      r.version = (s.looked look).target
  same : look.checkout = none → again.checkout = none

/-- The condition on the events. Dockhand is not started as the version of an attempt that has ended
without it, or whose helper still runs, while its row is the newest one and pending; nor is the
checkout at the commit of such an attempt when its row is reconciled. -/
def Sound (s : Installation) : Event → Prop
  | .tick look again _ => s.Looks look again
  | .boot helper version built _ =>
    ∀ a ∈ s.ended ++ s.failedBy helper version built ++ s.goesOn helper,
      newest s.history = some a.row → ∀ r ∈ s.history[a.row]?, r.status = .pending →
        ¬ Completes version a.target
  | .reconcile look => ∀ id ∈ s.process.reconcile, ∀ a ∈ s.ended ++ s.helpers, a.row = id.1 →
      (refreshGit s.process look).gitLocal.map (·.val) ≠ some a.target
  | _ => True

instance (s : Installation) (look : Look) : DecidablePred (s.Fair look)
  | .started _ target => inferInstanceAs (Decidable (∀ a ∈ s.ended, a.target ≠ target))
  | .skipped _ => inferInstanceAs (Decidable (∃ r ∈ s.history, _))
  | .failed _ | .waiting | .upToDate => isTrue trivial

instance (s : Installation) (e : Event) (s' : Installation) : Decidable (s.TriedOnce e s') :=
  match e with
  | .tick look _ _ => inferInstanceAs (Decidable (s.Fair look _))
  | .clock _ | .refresh _ | .handOff _ | .launch _ | .helperFails _ | .boot .. | .reconcile _ =>
    isTrue trivial

instance (s : Installation) (look again : Look) : Decidable (s.Looks look again) :=
  decidable_of_iff ((∀ a ∈ s.ended, a.target = (s.looked look).target →
      a.row ∈ s.lost ∨ s.process.reconcile = some (a.row, a.target) →
        ∀ r ∈ s.history[a.row]?, s.now < r.writtenAt + pendingAge) ∧
      (∀ r ∈ s.history, r.status = .failed →
        matchesVersion (s.looked look).info.latest r.version = true →
          r.version = (s.looked look).target) ∧ (look.checkout = none → again.checkout = none))
    ⟨fun h => ⟨h.1, h.2.1, h.2.2⟩, fun h => ⟨h.early, h.matching, h.same⟩⟩

instance (s : Installation) (e : Event) : Decidable (s.Sound e) :=
  match e with
  | .tick look again _ => inferInstanceAs (Decidable (s.Looks look again))
  | .boot helper version built _ => inferInstanceAs
      (Decidable (∀ a ∈ s.ended ++ s.failedBy helper version built ++ s.goesOn helper, _))
  | .reconcile _ => inferInstanceAs (Decidable (∀ id ∈ s.process.reconcile, _))
  | .clock _ | .refresh _ | .handOff _ | .launch _ | .helperFails _ => isTrue trivial

/-- Dockhand has just been installed. -/
structure New (s : Installation) : Prop where
  history : s.history = []
  helpers : s.helpers = []
  ended : s.ended = []
  job : s.process.job = none
  reconcile : s.process.reconcile = none

variable {s s' : Installation}

/-! ### The rows of the attempts -/

/-- The row of an attempt that has ended without its version: it is failed, or still pending because
nothing has looked after it, or because the checkout has still to be read. -/
def Recorded (s : Installation) (a : Attempt) : Prop :=
  ∃ r, s.history[a.row]? = some r ∧ r.version = a.target ∧ (r.status = .failed ∨
    r.status = .pending ∧ (a.row ∈ s.lost ∨ s.process.reconcile = some (a.row, a.target)))

/-- The row of an attempt whose helper runs is not taken for a success. -/
def Undone (s : Installation) (a : Attempt) : Prop :=
  ∃ r, s.history[a.row]? = some r ∧ r.version = a.target ∧ r.status ≠ .success

/-- The invariant. The row of a job is pending, and so is the one that is left to be reconciled,
which is another one. -/
structure Inv (s : Installation) : Prop where
  ended : ∀ a ∈ s.ended, s.Recorded a
  helpers : ∀ a ∈ s.helpers, s.Undone a
  job : ∀ j, s.process.job = some j → ∀ id, j.row = some id →
    ∃ r, s.history[id]? = some r ∧ r.version = j.target ∧ r.status = .pending
  reconcile : ∀ id version, s.process.reconcile = some (id, version) →
    ∃ r, s.history[id]? = some r ∧ r.version = version ∧ r.status = .pending
  apart : ∀ j, s.process.job = some j → ∀ id, j.row = some id → ∀ id' version,
    s.process.reconcile = some (id', version) → id ≠ id'

/-- Without a history there is nothing to keep. -/
private theorem New.inv (h : s.New) : s.Inv where
  ended a ha := by simp [h.ended] at ha
  helpers a ha := by simp [h.helpers] at ha
  job j hj := by simp [h.job] at hj
  reconcile id version hr := by simp [h.reconcile] at hr
  apart j hj := by simp [h.job] at hj

/-- A row that was written keeps its place when the history grows. -/
private theorem getElem?_concat {history : List Row} {i : ℕ} {r : Row} (h : history[i]? = some r)
    (r' : Row) : (history ++ [r'])[i]? = some r := by
  rw [List.getElem?_append_left (List.getElem?_eq_some_iff.mp h).1, h]

/-- The row of the status that is set, and the others as they were. -/
private theorem getElem?_setStatus (id : ℕ) (status : Status) (note : String) (i : ℕ) :
    (s.setStatus id status note).history[i]? = (s.history[i]?).map fun r =>
      if i = id then { r with status := status, note := note } else r := by
  unfold setStatus
  cases hid : s.history[id]? with
  | none =>
    by_cases hi : i = id
    · simp [hi, hid]
    · simp [hi]
  | some r =>
    by_cases hi : i = id
    · subst hi
      rw [List.getElem?_set_self (List.getElem?_eq_some_iff.mp hid).1, hid, Option.map_some,
        if_pos rfl]
    · simp [hi, List.getElem?_set_ne (Ne.symm hi)]

@[simp] theorem setStatus_helpers (id : ℕ) (status : Status) (note : String) :
    (s.setStatus id status note).helpers = s.helpers := by
  unfold setStatus
  split <;> rfl

@[simp] theorem setStatus_ended (id : ℕ) (status : Status) (note : String) :
    (s.setStatus id status note).ended = s.ended := by
  unfold setStatus
  split <;> rfl

@[simp] theorem setStatus_lost (id : ℕ) (status : Status) (note : String) :
    (s.setStatus id status note).lost = s.lost := by
  unfold setStatus
  split <;> rfl

@[simp] theorem setStatus_process (id : ℕ) (status : Status) (note : String) :
    (s.setStatus id status note).process = s.process := by
  unfold setStatus
  split <;> rfl

/-- A row that is marked failed, or is another one than the row that is marked. -/
private theorem getElem?_marked {id i : ℕ} (status : Status) (note : String) {r : Row}
    (hr : s.history[i]? = some r) (hid : i = id → status = .failed) :
    ∃ r', (s.setStatus id status note).history[i]? = some r' ∧ r'.version = r.version ∧
      (r'.status = .failed ∨ r' = r) := by
  refine ⟨_, by rw [getElem?_setStatus, hr, Option.map_some], ?_, ?_⟩
  · split_ifs
    · rfl
    · rfl
  · split_ifs with hi
    · exact .inl (hid hi)
    · exact .inr rfl

/-- What was recorded of an attempt still is when a row is marked, unless it is its own row and not
marked failed. -/
private theorem Recorded.setStatus {a : Attempt} {id : ℕ} {status : Status} (h : s.Recorded a)
    (note : String) (hid : a.row = id → status = .failed) :
    (s.setStatus id status note).Recorded a := by
  obtain ⟨r, hr, hversion, hstatus⟩ := h
  obtain ⟨r', hr', hsame, hfailed | rfl⟩ := getElem?_marked status note hr hid
  · exact ⟨r', hr', hsame.trans hversion, .inl hfailed⟩
  · exact ⟨r', hr', hversion, by simpa using hstatus⟩

/-- The same of an attempt whose helper runs. -/
private theorem Undone.setStatus {a : Attempt} {id : ℕ} {status : Status} (h : s.Undone a)
    (note : String) (hid : a.row = id → status = .failed) :
    (s.setStatus id status note).Undone a := by
  obtain ⟨r, hr, hversion, hstatus⟩ := h
  obtain ⟨r', hr', hsame, hfailed | rfl⟩ := getElem?_marked status note hr hid
  · exact ⟨r', hr', hsame.trans hversion, by simp [hfailed]⟩
  · exact ⟨r', hr', hversion, hstatus⟩

/-! ### What the process keeps -/

/-- The job of a process and what it has to reconcile are the same. -/
structure SameTasks (p q : Process) : Prop where
  job : q.job = p.job
  reconcile : q.reconcile = p.reconcile

private theorem SameTasks.trans {p q r : Process} (h : SameTasks p q) (h' : SameTasks q r) :
    SameTasks p r :=
  ⟨h'.job.trans h.job, h'.reconcile.trans h.reconcile⟩

private theorem sameTasks_refreshGit (p : Process) (look : Look) :
    SameTasks p (refreshGit p look) := by
  unfold refreshGit
  split
  · exact ⟨rfl, rfl⟩
  · split_ifs
    · split <;> exact ⟨rfl, rfl⟩
    · exact ⟨rfl, rfl⟩

private theorem sameTasks_refresh (p : Process) (look : Look) : SameTasks p (refresh p look) := by
  have hgit := sameTasks_refreshGit p look
  unfold refresh
  dsimp only
  split_ifs
  · exact hgit
  · exact ⟨hgit.job, hgit.reconcile⟩

private theorem sameTasks_lookedAgain (look again : Look) :
    SameTasks s.process (s.lookedAgain look again) := by
  have hlooked : SameTasks s.process (s.looked look) := sameTasks_refresh s.process look
  unfold lookedAgain
  split_ifs
  · exact hlooked
  · exact hlooked.trans (sameTasks_refreshGit _ again)

/-- A tick leaves the running job, or starts one that has no row yet. -/
theorem autoUpdate_process (look again : Look) (startable : Bool) :
    (s.autoUpdate look again startable).2.reconcile = s.process.reconcile ∧
      ∀ j, (s.autoUpdate look again startable).2.job = some j → j.row ≠ none →
        s.process.job = some j := by
  have hkeeps {q : Process} (h : SameTasks s.process q) : q.reconcile = s.process.reconcile ∧
      ∀ j, q.job = some j → j.row ≠ none → s.process.job = some j :=
    ⟨h.reconcile, fun j hj _ => h.job ▸ hj⟩
  have hlooked : SameTasks s.process (s.looked look) := sameTasks_refresh s.process look
  have hagain := sameTasks_lookedAgain (s := s) look again
  unfold autoUpdate
  dsimp only
  split_ifs with hbusy herror havailable hfailed hstart
  · exact hkeeps ⟨rfl, rfl⟩
  · exact hkeeps hlooked
  · exact hkeeps hlooked
  · refine ⟨hagain.reconcile, fun j hj hrow => ?_⟩
    obtain rfl := Option.some.inj hj
    exact absurd rfl hrow
  · exact hkeeps hagain
  · exact hkeeps hlooked

/-! ### Starts -/

section Boot

variable {now i : ℕ} {cur : String} {history : List Row} {r : Row}

/-- A start leaves every row but the newest. -/
private theorem recordBoot_other (hr : history[i]? = some r) (hi : newest history ≠ some i) :
    (recordBoot now cur history).1[i]? = some r := by
  have hlen := (List.getElem?_eq_some_iff.mp hr).1
  unfold recordBoot
  split
  next hnone =>
    cases history with
    | nil => simp at hlen
    | cons r₀ rows =>
      unfold newest at hnone
      split at hnone
      · cases hnone
      · split_ifs at hnone
  next k hk =>
    have hne : k ≠ i := fun heq => hi (heq ▸ hk)
    split
    · exact hr
    · split_ifs
      · exact hr
      · rwa [List.getElem?_set_ne hne]
      · rwa [List.getElem?_set_ne hne]
      · exact getElem?_concat hr _
      · exact hr

/-- A start leaves a row that is not pending. -/
private theorem recordBoot_settled (hr : history[i]? = some r) (hstatus : r.status ≠ .pending) :
    (recordBoot now cur history).1[i]? = some r := by
  by_cases hi : newest history = some i
  · unfold recordBoot
    simp only [hi, hr, hstatus, if_false]
    split_ifs
    · exact getElem?_concat hr _
    · exact hr
  · exact recordBoot_other hr hi

/-- A start leaves the newest row to be reconciled when it is pending for a commit. -/
private theorem recordBoot_left (now : ℕ) (cur : String) (hr : history[i]? = some r)
    (hi : newest history = some i)
    (hstatus : r.status = .pending) (hsha : isSha r.version = true) :
    recordBoot now cur history = (history, some (i, r.version)) := by
  unfold recordBoot
  simp [hi, hr, hstatus, hsha]

/-- **A start marks the newest row failed** when it is pending for another version. -/
private theorem recordBoot_failed (now : ℕ) (hr : history[i]? = some r)
    (hi : newest history = some i)
    (hstatus : r.status = .pending) (hsha : isSha r.version = false)
    (hnot : ¬ Completes cur r.version) :
    ∃ r', (recordBoot now cur history).1[i]? = some r' ∧ r'.version = r.version ∧
      r'.status = .failed := by
  have hlen := (List.getElem?_eq_some_iff.mp hr).1
  have hother : ¬ (trimPrefix r.version "v" = trimPrefix cur "v" ∨ r.version = "latest") :=
    fun h => hnot ⟨hsha, h⟩
  unfold recordBoot
  simp only [hi, hr, hstatus, hsha, hother, if_true, if_false, Bool.false_eq_true]
  exact ⟨_, List.getElem?_set_self hlen, rfl, rfl⟩

/-- A row that a start leaves to be reconciled is the newest one, and pending. -/
private theorem recordBoot_reconcile {id : ℕ} {version : String}
    (h : (recordBoot now cur history).2 = some (id, version)) :
    ∃ r, (recordBoot now cur history).1[id]? = some r ∧ r.version = version ∧
      r.status = .pending := by
  unfold recordBoot at h ⊢
  split at h
  · cases h
  next k hk =>
    split at h
    · cases h
    next r hr =>
      split_ifs at h with hpending hsha
      obtain ⟨rfl, rfl⟩ := Prod.mk.inj (Option.some.inj h)
      simp [hr, hpending, hsha]

end Boot

/-! ### Ticks -/

/-- The failures of the version that is found are found by it. -/
theorem matchesVersion_target {p : Process} (h : p.info.available = true) :
    matchesVersion p.info.latest p.target = true := by
  cases hlocal : p.gitLocal with
  | some l =>
    cases hremote : p.gitRemote with
    | none => simp [Process.info, hlocal, hremote] at h
    | some head =>
      simp only [Process.info, Process.target, hlocal, hremote, Option.map_some, Option.getD_some]
      exact matchesVersion_short head.sha
  | none =>
    by_cases hlatest : p.info.latest = ""
    · simp only [Process.target, hlocal, hlatest, ne_eq, not_true_eq_false, if_false]
      decide +kernel
    · simp only [Process.target, hlocal, ne_eq, hlatest, not_false_eq_true, if_true]
      exact matchesVersion_self _

/-- **The law of a tick.** The row of an earlier attempt at the version is failed, so that the
version is skipped, or pending for less than half an hour. -/
private theorem Inv.tick (h : s.Inv) {look again : Look} (hlooks : s.Looks look again)
    (startable : Bool) : s.Fair look (s.answer look again startable) := by
  have hsame : s.lookedAgain look again = s.looked look := by
    unfold lookedAgain
    split_ifs with hlook
    · rfl
    · have hagain := hlooks.same (by simpa using hlook)
      simp [refreshGit, hagain]
  unfold answer autoUpdate
  rw [hsame]
  dsimp only
  split_ifs with hbusy herror havailable hfailed hstart
  · trivial
  · trivial
  · simp only [failedBefore, List.any_eq_true, Bool.and_eq_true, decide_eq_true_eq] at hfailed
    obtain ⟨r, hmem, hstatus, hmatches⟩ := hfailed
    exact ⟨r, hmem, hstatus, hlooks.matching r hmem hstatus hmatches⟩
  · intro a ha heq
    obtain ⟨r, hr, hversion, hstatus | ⟨hpending, hwhy⟩⟩ := h.ended a ha
    · refine hfailed ?_
      have hmatches := matchesVersion_target havailable
      rw [← heq, ← hversion] at hmatches
      simp only [failedBefore, List.any_eq_true, Bool.and_eq_true, decide_eq_true_eq]
      exact ⟨r, List.mem_of_getElem? hr, hstatus, hmatches⟩
    · refine hbusy ?_
      have hearly := hlooks.early a ha heq hwhy r hr
      simp only [busy, Bool.or_eq_true, List.any_eq_true]
      exact .inl ⟨r, List.mem_of_getElem? hr, by simp [Row.inProgress, hpending, hearly]⟩
  · trivial
  · trivial

/-! ### Steps -/

/-- What is kept of an attempt when the history and what is left to be done for it stay. -/
private theorem Recorded.mono {a : Attempt} (h : s.Recorded a)
    (hhistory : ∀ r, s.history[a.row]? = some r → s'.history[a.row]? = some r)
    (hlost : a.row ∈ s.lost → a.row ∈ s'.lost)
    (hreconcile : s'.process.reconcile = s.process.reconcile) : s'.Recorded a := by
  obtain ⟨r, hr, hversion, hstatus⟩ := h
  refine ⟨r, hhistory r hr, hversion, hstatus.imp_right (And.imp_right ?_)⟩
  rw [hreconcile]
  exact .imp_left hlost

/-- The process does other things. -/
private theorem Inv.setProcess (h : s.Inv) {p : Process}
    (hreconcile : p.reconcile = s.process.reconcile)
    (hjob : ∀ j, p.job = some j → ∀ id, j.row = some id → s.process.job = some j) :
    Inv { s with process := p } where
  ended a ha := (h.ended a ha).mono (fun _ hr => hr) id hreconcile
  helpers := h.helpers
  job j hj id hid := h.job j (hjob j hj id hid) id hid
  reconcile id version hr := h.reconcile id version (hreconcile ▸ hr)
  apart j hj id hid id' version hr :=
    h.apart j (hjob j hj id hid) id hid id' version (hreconcile ▸ hr)

/-- **The row of a job is written.** -/
private theorem Inv.handOff (h : s.Inv) (j : Job) :
    Inv { s with
      history := s.history ++ [j.newRow s.now]
      process := { s.process with job := some { j with row := some s.history.length } } } where
  ended a ha := (h.ended a ha).mono (fun _ hr => getElem?_concat hr _) id rfl
  helpers a ha := by
    obtain ⟨r, hr, hrest⟩ := h.helpers a ha
    exact ⟨r, getElem?_concat hr _, hrest⟩
  job j' hj id hid := by
    obtain rfl := Option.some.inj hj
    obtain rfl := Option.some.inj hid
    exact ⟨j.newRow s.now, by simp, rfl, rfl⟩
  reconcile id version hr := by
    obtain ⟨r, hr, hrest⟩ := h.reconcile id version hr
    exact ⟨r, getElem?_concat hr _, hrest⟩
  apart j' hj id hid id' version hr := by
    obtain rfl := Option.some.inj hj
    obtain rfl := Option.some.inj hid
    -- the row is new
    obtain ⟨r, hr, -⟩ := h.reconcile id' version hr
    exact (List.getElem?_eq_some_iff.mp hr).1.ne'

/-- **The helper of a job is started, or cannot be**, which is recorded at once. -/
private theorem Inv.launch (h : s.Inv) {j : Job} {id : ℕ} (hj : s.process.job = some j)
    (hid : j.row = some id) (err : Option String) :
    Inv (match err with
      | none => { s with
          process := { s.process with job := none }
          helpers := s.helpers ++ [⟨id, j.target⟩] }
      | some msg =>
        { setStatus { s with process := { s.process with job := none } } id .failed msg with
          ended := s.ended ++ [⟨id, j.target⟩] }) := by
  obtain ⟨r, hr, hversion, hpending⟩ := h.job j hj id hid
  have hidle : Inv { s with process := { s.process with job := none } } :=
    h.setProcess rfl fun j hj => nomatch hj
  cases err with
  | none =>
    refine ⟨hidle.ended, fun a ha => ?_, hidle.job, hidle.reconcile, hidle.apart⟩
    rcases List.mem_append.mp ha with hold | hnew
    · exact hidle.helpers a hold
    · obtain rfl := List.mem_singleton.mp hnew
      exact ⟨r, hr, hversion, by simp [hpending]⟩
  | some msg =>
    refine ⟨fun a ha => ?_, fun a ha => ?_, fun j hj => ?_, fun id' version hrec => ?_,
      fun j hj => ?_⟩
    · rcases List.mem_append.mp ha with hold | hnew
      · have hmarked : (setStatus { s with process := { s.process with job := none } } id .failed
            msg).Recorded a := (hidle.ended a hold).setStatus msg fun _ => rfl
        exact hmarked.mono (fun _ hr => hr) (fun hlost => hlost) rfl
      · obtain rfl := List.mem_singleton.mp hnew
        refine ⟨{ r with status := .failed, note := msg }, ?_, hversion, .inl rfl⟩
        simp [getElem?_setStatus, hr]
    · exact (hidle.helpers a (by simpa using ha)).setStatus msg fun _ => rfl
    · simp at hj
    · have hrec : s.process.reconcile = some (id', version) := by simpa using hrec
      obtain ⟨r', hr', hrest⟩ := h.reconcile id' version hrec
      refine ⟨r', ?_, hrest⟩
      simp [getElem?_setStatus, hr', (h.apart j hj id hid id' version hrec).symm]
    · simp at hj

/-- **A helper fails** before the restart, and nothing has looked after its row. -/
private theorem Inv.helperFails (h : s.Inv) {i : ℕ} {a : Attempt} (hi : s.helpers[i]? = some a) :
    Inv { s with
      helpers := s.helpers.eraseIdx i
      ended := s.ended ++ [a]
      lost := s.lost ++ [a.row] } where
  ended b hb := by
    rcases List.mem_append.mp hb with hold | hnew
    · exact (h.ended b hold).mono (fun _ hr => hr) (List.mem_append_left _) rfl
    · obtain rfl := List.mem_singleton.mp hnew
      obtain ⟨r, hr, hversion, hstatus⟩ := h.helpers b (List.mem_of_getElem? hi)
      refine ⟨r, hr, hversion, ?_⟩
      cases hcase : r.status with
      | success => exact absurd hcase hstatus
      | failed => exact .inl rfl
      | pending => exact .inr ⟨rfl, .inl (List.mem_append_right _ (List.mem_singleton_self _))⟩
  helpers b hb := h.helpers b (List.mem_of_mem_eraseIdx hb)
  job := h.job
  reconcile := h.reconcile
  apart := h.apart

/-- **Dockhand starts.** What it finds of an attempt: its row is failed from then on, or left to be
reconciled, or was left alone. -/
private theorem recordBoot_undone (now : ℕ) {version : String} {a : Attempt} {r : Row}
    (hr : s.history[a.row]? = some r) (hversion : r.version = a.target)
    (hstatus : r.status ≠ .success)
    (hcond : newest s.history = some a.row → ∀ r ∈ s.history[a.row]?, r.status = .pending →
      ¬ Completes version a.target) :
    ∃ r', (recordBoot now version s.history).1[a.row]? = some r' ∧ r'.version = a.target ∧
      (r'.status = .failed ∨ r'.status = .pending ∧
        (newest s.history ≠ some a.row ∨
          (recordBoot now version s.history).2 = some (a.row, a.target))) := by
  by_cases hpending : r.status = .pending
  · by_cases hi : newest s.history = some a.row
    · cases hsha : isSha r.version with
      | true =>
        have hleft := recordBoot_left now version hr hi hpending hsha
        rw [hleft, ← hversion]
        exact ⟨r, hr, rfl, .inr ⟨hpending, .inr rfl⟩⟩
      | false =>
        have hnot := hcond hi r hr hpending
        rw [← hversion] at hnot
        obtain ⟨r', hr', hsame, hfailed⟩ := recordBoot_failed now hr hi hpending hsha hnot
        exact ⟨r', hr', hsame.trans hversion, .inl hfailed⟩
    · exact ⟨r, recordBoot_other hr hi, hversion, .inr ⟨hpending, .inl hi⟩⟩
  · refine ⟨r, recordBoot_settled hr hpending, hversion, .inl ?_⟩
    cases hcase : r.status with
    | pending => exact absurd hcase hpending
    | success => exact absurd hcase hstatus
    | failed => rfl

/-- The attempts whose helpers go on were running before. -/
private theorem mem_goesOn {helper : Option ℕ} {a : Attempt} (ha : a ∈ s.goesOn helper) :
    a ∈ s.helpers := by
  cases helper with
  | none => exact ha
  | some i => exact List.mem_of_mem_eraseIdx ha

/-- The attempt that a start has failed was running before, and the start looks after its row. -/
private theorem mem_failedBy {helper : Option ℕ} {version : String} {built : Option Sha}
    {a : Attempt} (ha : a ∈ s.failedBy helper version built) :
    a ∈ s.helpers ∧ a.row ∈ s.restarting helper := by
  obtain ⟨ha, -⟩ := Option.filter_eq_some_iff.mp (Option.mem_toList.mp ha)
  obtain ⟨i, -, hi⟩ := Option.bind_eq_some_iff.mp ha
  refine ⟨List.mem_of_getElem? hi, List.mem_append_left _ ?_⟩
  rw [Option.mem_toList, ha]
  rfl

/-- **Dockhand starts.** -/
private theorem Inv.boot (h : s.Inv) {helper : Option ℕ} {version : String} {built : Option Sha}
    {dbOk : Bool} (hcond : s.Sound (.boot helper version built dbOk))
    (hstep : s.step (.boot helper version built dbOk) = some s') : s'.Inv := by
  obtain ⟨-, hstep⟩ := Option.ite_none_right_eq_some.mp hstep
  obtain rfl := Option.some.inj hstep
  -- the attempts that have ended by now, and that the start has to look after if nobody has
  have hundone : ∀ a ∈ s.ended ++ s.failedBy helper version built, ∃ r,
      s.history[a.row]? = some r ∧ r.version = a.target ∧ r.status ≠ .success ∧
        (r.status = .pending → a.row ∈ s.lost ++ s.restarting helper) := by
    intro a ha
    rcases List.mem_append.mp ha with hended | hfailed
    · obtain ⟨r, hr, hversion, hstatus | ⟨hpending, hwhy⟩⟩ := h.ended a hended
      · exact ⟨r, hr, hversion, by simp [hstatus], by simp [hstatus]⟩
      · refine ⟨r, hr, hversion, by simp [hpending], fun _ => ?_⟩
        refine List.mem_append.mpr (hwhy.imp_right ?_)
        exact fun hreconcile => List.mem_append_right _ (by simp [hreconcile])
    · obtain ⟨hrunning, hrow⟩ := mem_failedBy hfailed
      obtain ⟨r, hr, hversion, hstatus⟩ := h.helpers a hrunning
      exact ⟨r, hr, hversion, hstatus, fun _ => List.mem_append_right _ hrow⟩
  have hcond' : ∀ a ∈ s.ended ++ s.failedBy helper version built ++ s.goesOn helper, _ := hcond
  refine ⟨fun a ha => ?_, fun a ha => ?_, fun j hj => (by cases hj), fun id v hr => ?_,
    fun j hj => (by cases hj)⟩
  · obtain ⟨r, hr, hversion, hstatus, hlost⟩ := hundone a ha
    cases dbOk with
    | true =>
      obtain ⟨r', hr', hversion', hstatus' | ⟨hpending, hwhy⟩⟩ :=
        recordBoot_undone s.now hr hversion hstatus (hcond' a (List.mem_append_left _ ha))
      · exact ⟨r', hr', hversion', .inl hstatus'⟩
      · refine ⟨r', hr', hversion', .inr ⟨hpending, hwhy.imp_left fun hnot => ?_⟩⟩
        rw [recordBoot_other hr hnot] at hr'
        obtain rfl := Option.some.inj hr'
        exact List.mem_filter.mpr ⟨hlost hpending, by simpa using Ne.symm hnot⟩
    | false =>
      refine ⟨r, hr, hversion, ?_⟩
      cases hcase : r.status with
      | success => exact absurd hcase hstatus
      | failed => exact .inl rfl
      | pending => exact .inr ⟨rfl, .inl (List.mem_filter.mpr ⟨hlost hcase, by simp⟩)⟩
  · obtain ⟨r, hr, hversion, hstatus⟩ := h.helpers a (mem_goesOn ha)
    cases dbOk with
    | true =>
      obtain ⟨r', hr', hversion', hstatus'⟩ := recordBoot_undone s.now hr hversion hstatus
        (hcond' a (List.mem_append_right _ ha))
      exact ⟨r', hr', hversion', by rcases hstatus' with h | ⟨h, -⟩ <;> simp [h]⟩
    | false => exact ⟨r, hr, hversion, hstatus⟩
  · cases dbOk with
    | true => exact recordBoot_reconcile hr
    | false => cases hr

/-- **The row that the start has left is reconciled.** If the checkout is read the row is decided,
and not for an attempt that has ended without its version. -/
private theorem Inv.reconciled (h : s.Inv) {look : Look} {id : ℕ} {target : String}
    (hr : s.process.reconcile = some (id, target)) (hcond : s.Sound (.reconcile look))
    (hstep : s.step (.reconcile look) = some s') : s'.Inv := by
  obtain ⟨row, hrow, hversion, -⟩ := h.reconcile id target hr
  have hsame := sameTasks_refreshGit s.process look
  have hcond' : ∀ a ∈ s.ended ++ s.helpers, a.row = id →
      (refreshGit s.process look).gitLocal.map (·.val) ≠ some a.target := hcond _ hr
  simp only [step, hr, Option.map_some, Option.some.injEq] at hstep
  subst hstep
  split
  next hnone =>
    refine ⟨fun a ha => ?_, h.helpers, fun j hj => h.job j (hsame.job ▸ hj),
      fun _ _ h => (by cases h), fun _ _ _ _ _ _ h => (by cases h)⟩
    obtain ⟨r, hr', hversion', hstatus⟩ := h.ended a ha
    refine ⟨r, hr', hversion', hstatus.imp_right (And.imp_right fun hwhy => .inl ?_)⟩
    refine List.mem_append.mpr (hwhy.imp_right fun hleft => ?_)
    simp [Prod.mk.inj (Option.some.inj (hleft.symm.trans hr))]
  next l hlocal =>
    -- whatever is written, for an attempt it is a failure
    have hfailed : ∀ a : Attempt, a ∈ s.ended ++ s.helpers → a.row = id → a.target = target →
        l.val ≠ target := by
      rintro a ha hid rfl heq
      exact hcond' a ha hid (by rw [hlocal, ← heq]; rfl)
    have htarget : ∀ a : Attempt, (∃ r, s.history[a.row]? = some r ∧ r.version = a.target) →
        a.row = id → a.target = target := by
      rintro a ⟨r, hr', hversion'⟩ rfl
      rw [hrow] at hr'
      obtain rfl := Option.some.inj hr'
      exact hversion'.symm.trans hversion
    have hmark : ∀ {status : Status} {note : String},
        (l.val ≠ target → status = .failed) →
        Inv (setStatus { s with
          process := { refreshGit s.process look with reconcile := none } } id status note) := by
      intro status note hstatus
      refine ⟨fun a ha => ?_, fun a ha => ?_, fun j hj id' hid => ?_, fun id' v h => ?_,
        fun j hj id' hid id'' v h => ?_⟩
      · rw [setStatus_ended] at ha
        obtain ⟨r, hr', hversion', hwhy⟩ := h.ended a ha
        by_cases hid : a.row = id
        · have hne := hfailed a (List.mem_append_left _ ha) hid (htarget a ⟨r, hr', hversion'⟩ hid)
          subst hid
          exact ⟨{ r with status := status, note := note }, by simp [getElem?_setStatus, hr'],
            hversion', .inl (hstatus hne)⟩
        · refine ⟨r, by simp [getElem?_setStatus, hr', hid], hversion', ?_⟩
          rw [setStatus_lost]
          refine hwhy.imp_right (And.imp_right fun hwhy => .inl (hwhy.resolve_right ?_))
          refine fun hleft => hid ?_
          exact (Prod.mk.inj (Option.some.inj (hleft.symm.trans hr))).1
      · rw [setStatus_helpers] at ha
        have hrunning : Undone { s with
            process := { refreshGit s.process look with reconcile := none } } a := h.helpers a ha
        refine hrunning.setStatus note fun hid => hstatus ?_
        obtain ⟨r, hr', hversion', -⟩ := hrunning
        exact hfailed a (List.mem_append_right _ ha) hid (htarget a ⟨r, hr', hversion'⟩ hid)
      · rw [setStatus_process] at hj
        have hj : s.process.job = some j := hsame.job ▸ hj
        obtain ⟨r, hr', hrest⟩ := h.job j hj id' hid
        exact ⟨r, by simp [getElem?_setStatus, hr', h.apart j hj id' hid id target hr], hrest⟩
      · rw [setStatus_process] at h
        cases h
      · rw [setStatus_process] at h
        cases h
    split_ifs with heq
    · exact hmark fun hne => absurd heq hne
    · exact hmark fun _ => rfl

/-- **One step.** The attempts keep their rows. -/
theorem Inv.step (h : s.Inv) {e : Event} (hcond : s.Sound e) (hstep : s.step e = some s') :
    s'.Inv := by
  cases e with
  | clock t =>
    obtain rfl := Option.some.inj hstep
    exact ⟨h.ended, h.helpers, h.job, h.reconcile, h.apart⟩
  | tick look again startable =>
    obtain rfl := Option.some.inj hstep
    obtain ⟨hreconcile, hjob⟩ := s.autoUpdate_process look again startable
    exact h.setProcess hreconcile fun j hj id hid => hjob j hj (by simp [hid])
  | refresh look =>
    obtain rfl := Option.some.inj hstep
    have hsame := sameTasks_refreshGit s.process look
    exact h.setProcess hsame.reconcile fun j hj _ _ => hsame.job ▸ hj
  | handOff ok =>
    obtain ⟨j, hj, hstep⟩ := Option.bind_eq_some_iff.mp hstep
    split_ifs at hstep with hrow hok
    · obtain rfl := Option.some.inj hstep
      exact h.handOff j
    · obtain rfl := Option.some.inj hstep
      exact h.setProcess rfl fun j hj => nomatch hj
  | launch err =>
    obtain ⟨j, hj, hstep⟩ := Option.bind_eq_some_iff.mp hstep
    obtain ⟨id, hid, rfl⟩ := Option.map_eq_some_iff.mp hstep
    have hlaunch := h.launch hj hid err
    cases err with
    | none => exact hlaunch
    | some msg => exact hlaunch
  | helperFails i =>
    obtain ⟨a, ha, rfl⟩ := Option.map_eq_some_iff.mp hstep
    exact h.helperFails ha
  | boot helper version built dbOk => exact h.boot hcond hstep
  | reconcile look =>
    obtain ⟨⟨id, target⟩, hr, -⟩ := Option.map_eq_some_iff.mp hstep
    exact h.reconciled hr hcond hstep

namespace Example

/-- Version 1.0.0 runs, and has been installed as a release. -/
def installation : Installation := { now := 0, process := { version := "1.0.0" } }

/-- A tick finds the release 1.1.0. -/
def tick : Event := .tick { release := some "v1.1.0" } {} true

/-- It is handed off. -/
def attempt : List Event := [tick, .handOff true, .launch none]

/-- A tick finds another release. -/
def tickAt (release : String) : Event := .tick { release := some release } {} true

/-- Attempts that fail, at three releases, and the ticks after them. -/
def failures : List Event :=
  attempt ++ [.boot (some 0) "1.0.0" none true, .clock 1800, tick] ++
    [tickAt "v1.2.0", .handOff true, .launch (some "no such image"), tickAt "v1.2.0"] ++
    [tickAt "v1.3.0", .handOff true, .launch none, .helperFails 0, .clock 2400, tickAt "v1.3.0",
      .boot none "1.0.0" none true, .clock 9000, tickAt "v1.3.0"]

end Example

/-- **A helper that fails.** Half an hour after it has failed to pull the images, the same version
is tried again. -/
theorem not_tried_once : ¬ AllSteps step TriedOnce Example.installation
    (Example.attempt ++ [.helperFails 0, .clock 1800, Example.tick]) := by
  decide +kernel

/-- **Automatic updates.** In a run in which no tick comes late to a lost attempt, no start and no
checkout takes an attempt that has ended for completed, and a version is matched only by its own
failures, no version is tried after a failure, and none is skipped for the failure of another. -/
theorem triedOnce_of_run {es : List Event} (hnew : s.New) (hC : Along step Sound s es) :
    AllSteps step TriedOnce s es := by
  refine allSteps_of_along (I := Inv) (fun t e t' h hC hstep => h.step hC hstep)
    (fun t e t' h hC _ => ?_) hnew.inv hC
  cases e with
  | tick look again startable => exact h.tick hC startable
  | clock | refresh | handOff | launch | helperFails | boot | reconcile => trivial

/-- A helper that restarts the old version, one that cannot be started for the next version, and one
that dies shortly before someone else restarts Dockhand: the failures are recorded, and later ticks
skip the versions. -/
theorem triedOnce_of_attempt :
    AllSteps step TriedOnce Example.installation Example.failures :=
  triedOnce_of_run ⟨rfl, rfl, rfl, rfl, rfl⟩ (by decide +kernel)

end Installation

end Dockhand.System
