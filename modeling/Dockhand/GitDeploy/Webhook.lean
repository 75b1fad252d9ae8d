import Dockhand.Go.Strings
import Dockhand.Stacks.Row

/-!
# Deploys of a push

A push starts a job for every stack of its branch. When the setting asks for it, `HandleWebhook`
first asks GitHub about the checks of the pushed commit and skips a stack for which they have
failed. What GitHub does not answer, what is still running and what stands on a second page does not
keep a deploy back, and the job resolves the branch once more when it runs: `not_gated`. `gated_iff`
says for which deliveries that does no harm.

What has passed is spelled out by `Conclusion.passing`, apart from the conclusions that the gate
looks for; `Gate.RedSeen.not_passed` connects the two. The answers of GitHub are a parameter, and
`GitHub.Documented` is what its documentation says of them.
-/

namespace Dockhand.GitDeploy.Webhook

open Go

/-! ### Checks -/

/-- The states of a commit status, and of all of them together. -/
inductive StatusState where
  | error | failure | pending | success
  deriving DecidableEq

/-- How far a check run is, in GitHub's words. -/
inductive RunStatus where
  | queued | inProgress | completed | waiting | requested | pending
  deriving DecidableEq

/-- How a completed check run ended, in GitHub's words. -/
inductive Conclusion where
  | actionRequired | cancelled | failure | neutral | skipped | stale | startupFailure | success
  | timedOut
  deriving DecidableEq

/-- A check run of a commit; it has a conclusion once it has completed. -/
structure CheckRun where
  status : RunStatus
  /-- Of a completed run. -/
  conclusion : Option Conclusion
  deriving DecidableEq

/-- The statuses and check runs of a commit. -/
structure Checks where
  statuses : List StatusState
  runs : List CheckRun
  deriving DecidableEq

/-- The states of a commit status that say that something is wrong. -/
def StatusState.Failing (s : StatusState) : Prop := s = .failure ∨ s = .error

instance : DecidablePred StatusState.Failing := fun _ => inferInstanceAs (Decidable (_ ∨ _))

/-- The conclusions of a run that has not failed: it succeeded, it has nothing to say, or it was
given up before it came to a result. -/
def Conclusion.passing : Conclusion → Bool
  | .success | .neutral | .skipped | .cancelled | .stale => true
  | .actionRequired | .failure | .startupFailure | .timedOut => false

/-- A run has completed, and its conclusion is not that it failed. -/
def CheckRun.Passed (r : CheckRun) : Prop :=
  r.status = .completed ∧ r.conclusion.all Conclusion.passing

instance : DecidablePred CheckRun.Passed := fun _ => inferInstanceAs (Decidable (_ ∧ _))

/-- Every status and every check run has completed without failing. -/
def Checks.Passed (c : Checks) : Prop :=
  (∀ s ∈ c.statuses, s = .success) ∧ ∀ r ∈ c.runs, r.Passed

instance : DecidablePred Checks.Passed := fun _ => inferInstanceAs (Decidable (_ ∧ _))

/-! ### What GitHub answers -/

/-- The error of a request: a status other than 2xx, or no answer at all. -/
inductive CallError where
  | api (status : ℕ)
  | network
  deriving DecidableEq

/-- The answer about the statuses: the state of all of them, their number, and the first page. -/
structure StatusAnswer where
  state : StatusState
  totalCount : ℕ
  statuses : List StatusState
  deriving DecidableEq

/-- GitHub: what it answers about the statuses of a commit, and about its check runs for
`per_page=100`. -/
structure GitHub where
  status : Checks → StatusAnswer
  checkRuns : Checks → List CheckRun

/-- What the documentation of the two requests says. The state is `failure` if a status is `error`
or `failure`, `pending` if there are no statuses or one is `pending`, and `success` otherwise; at
most as many check runs are answered as a page has. -/
structure GitHub.Documented (gh : GitHub) : Prop where
  state_failure : ∀ c : Checks, (∃ s ∈ c.statuses, s.Failing) → (gh.status c).state = .failure
  state_pending : ∀ c : Checks, (∀ s ∈ c.statuses, ¬ s.Failing) →
    c.statuses = [] ∨ .pending ∈ c.statuses → (gh.status c).state = .pending
  state_success : ∀ c : Checks, c.statuses ≠ [] → (∀ s ∈ c.statuses, s = .success) →
    (gh.status c).state = .success
  totalCount : ∀ c, (gh.status c).totalCount = c.statuses.length
  firstPage : ∀ c, gh.checkRuns c = c.runs.take 100

/-! ### The gate -/

/-- The conclusions for which the gate closes. -/
def Conclusion.failing : Conclusion → Bool
  | .failure | .timedOut | .actionRequired | .startupFailure => true
  | _ => false

/-- The run counts against the commit for the gate. -/
def CheckRun.Failing (r : CheckRun) : Prop :=
  r.status = .completed ∧ r.conclusion.any Conclusion.failing

instance : DecidablePred CheckRun.Failing := fun _ => inferInstanceAs (Decidable (_ ∧ _))

/-- Tokens without checks permission get 403/404. -/
def CallError.isDenied : CallError → Bool
  | .api status => status = 403 ∨ status = 404
  | .network => false

/-- `CombinedStatus` returns "success", "failure" or "pending", combining the commit statuses and
check runs. Any failure wins; otherwise any pending status or incomplete check run yields
"pending". -/
def combinedStatus (st : Except CallError StatusAnswer) (runs : Except CallError (List CheckRun)) :
    Except CallError StatusState := do
  let st ← st
  let counted := 0 < st.totalCount ∨ 0 < st.statuses.length
  let checks ← match runs with
    | .ok l => .ok l
    -- fall back to statuses
    | .error e => if e.isDenied then .ok [] else .error e
  let failed := (counted ∧ st.state.Failing) ∨ ∃ r ∈ checks, r.Failing
  let pending := (counted ∧ st.state = .pending) ∨ ∃ r ∈ checks, r.status ≠ .completed
  return if failed then .failure else if pending then .pending else .success

/-- A row of the stacks table that is deployed from a repository. -/
structure GitRow extends Stacks.Row where
  id : String
  hostID : String
  sha : String := ""
  autoDeploy : Bool
  deriving DecidableEq

/-- What the gate of a row meets: whether the account of the row and its token are found, the checks
of the pushed commit, the errors of the two requests, and the job that is started. -/
structure Gate where
  account : Bool := true
  token : Bool := true
  checks : Checks
  statusError : Option CallError := none
  runsError : Option CallError := none
  start : Option String

/-- `shortSHA`: the first seven characters of a commit. -/
def shortSHA (s : String) : String := String.ofList (s.toList.take 7)

/-- What is answered, or the error. -/
def answer {α : Type} (e : Option CallError) (a : α) : Except CallError α := e.elim (.ok a) .error

/-- `checksFailed` returns why the row is skipped, or the empty string. -/
def checksFailed (gh : GitHub) (g : Gate) (sha : String) : String :=
  if ¬ g.account then ""
  else if ¬ g.token then ""
  else match combinedStatus (answer g.statusError (gh.status g.checks))
      (answer g.runsError (gh.checkRuns g.checks)) with
    | .ok .failure => "checks failed for " ++ shortSHA sha
    | _ => ""

/-! ### Deliveries -/

/-- `pushEvent`: the fields of a push that `HandleWebhook` reads. -/
structure PushEvent where
  ref : String
  after : String
  deleted : Bool := false
  fullName : String

/-- A delivery. -/
structure Delivery where
  event : String
  /-- `VerifySignature` accepts the signature of the body. -/
  signed : Bool
  /-- The push that the body decodes to. -/
  push : Option PushEvent

/-- The settings that a delivery is handled with. -/
structure GitHubSettings where
  /-- The decrypted webhook secret. -/
  secret : Option String
  autoDeploy : Bool
  waitChecks : Bool

/-- What a delivery is refused for before any row is looked at. -/
inductive WebhookError where
  | notConfigured | badSignature | badRequest (msg : String) | db
  deriving DecidableEq

/-- The texts of the errors. -/
def WebhookError.error : WebhookError → String
  | .notConfigured => "webhook secret is not configured"
  | .badSignature => "invalid webhook signature"
  | .badRequest msg => msg
  | .db => "query failed"

/-- What a delivery does about a row. -/
inductive RowOutcome where
  | ignored
  | skipped (text : String)
  /-- The job could not be started. -/
  | refused
  | job (id : String)
  deriving DecidableEq

/-- What a delivery has triggered: what `HandleWebhook` returns, and the rows whose jobs run. -/
structure WebhookResult where
  jobs : List String := []
  skipped : List String := []
  started : List GitRow := []
  deriving DecidableEq

/-- `RowsByRepo`. -/
def rowsByRepo (rows : List GitRow) (fullName : String) : List GitRow :=
  rows.filter fun r => r.source = "git" && toLower r.repo = toLower fullName

/-- The body of the loop of `HandleWebhook`. -/
def handleRow (gh : GitHub) (st : GitHubSettings) (ev : PushEvent) (r : GitRow) (g : Gate) :
    RowOutcome :=
  if ¬ r.autoDeploy ∨ r.branch ≠ trimPrefix ev.ref "refs/heads/" then .ignored
  else if r.sha = ev.after ∧ ev.after ≠ "" then
    .skipped (r.name ++ ": already at " ++ shortSHA ev.after)
  else if st.waitChecks ∧ ev.after ≠ "" ∧ checksFailed gh g ev.after ≠ "" then
    .skipped (r.name ++ ": " ++ checksFailed gh g ev.after)
  else g.start.elim .refused .job

/-- The answer grows by what the delivery does about a row. -/
def WebhookResult.add (res : WebhookResult) (r : GitRow) : RowOutcome → WebhookResult
  | .ignored | .refused => res
  | .skipped text => { res with skipped := res.skipped ++ [text] }
  | .job id => { res with jobs := res.jobs ++ [id], started := res.started ++ [r] }

/-- The pushes that are about a branch. -/
def PushEvent.onBranch (ev : PushEvent) : Bool := !ev.deleted && hasPrefix ev.ref "refs/heads/"

/-- `HandleWebhook` verifies and processes a GitHub delivery. The stacks are `none` when they cannot
be read. -/
def handleWebhook (gh : GitHub) (st : GitHubSettings) (rows : Option (List GitRow))
    (gate : GitRow → Gate) (d : Delivery) : Except WebhookError WebhookResult :=
  if st.secret.getD "" = "" then .error .notConfigured
  else if ¬ d.signed then .error .badSignature
  else if d.event ≠ "push" then .ok {}
  else match d.push with
    | none => .error (.badRequest "invalid push payload")
    | some ev =>
      if ¬ ev.onBranch then .ok {}
      else if ¬ st.autoDeploy then .ok { skipped := ["auto-deploy is disabled globally"] }
      else match rows with
        | none => .error .db
        | some rows => .ok <| (rowsByRepo rows ev.fullName).foldl
            (fun res r => res.add r (handleRow gh st ev r (gate r))) {}

/-! ### The job -/

/-- What the job of a row meets when it runs: whether the account and the host are there, the head
of the branch, and whether the archive of a commit can be fetched and unpacked. -/
structure Later where
  account : Bool := true
  conn : Bool := true
  resolveRef : String → Option String
  unpacks : Bool := true

/-- `redeploy`: the commit that ends up on the host. -/
def redeploy (r : GitRow) (l : Later) : Option String :=
  if (cut r.repo "/").isNone ∨ ¬ l.account ∨ ¬ l.conn then none
  else (l.resolveRef r.branch).filter fun sha => sha ≠ "" ∧ l.unpacks

/-! ### What the gate sees -/

/-- The check runs are answered, or the token may not read them. -/
def Gate.RunsRead (g : Gate) : Prop := ∀ e ∈ g.runsError, e.isDenied

/-- GitHub shows the gate a failure: all its requests are answered, and a status has failed or one
of the first check runs. -/
structure Gate.RedSeen (g : Gate) : Prop where
  account : g.account
  token : g.token
  statuses : g.statusError = none
  runs : g.RunsRead
  red : (∃ s ∈ g.checks.statuses, s.Failing) ∨
    (g.runsError = none ∧ ∃ r ∈ g.checks.runs.take 100, r.Failing)

/-- The gate is answered all that there is to know about the commit. -/
structure Gate.Answered (g : Gate) : Prop where
  account : g.account
  token : g.token
  statuses : g.statusError = none
  runs : g.runsError = none
  page : g.checks.runs.length ≤ 100

private theorem Conclusion.failing_eq_not_passing (c : Conclusion) : c.failing = !c.passing := by
  cases c <;> rfl

/-- What the gate takes for a failure has not passed. -/
theorem CheckRun.passed_iff {r : CheckRun} : r.Passed ↔ r.status = .completed ∧ ¬ r.Failing := by
  refine and_congr_right fun hcompleted => ?_
  cases hconclusion : r.conclusion with
  | none => simp [CheckRun.Failing, hconclusion]
  | some c => simp [CheckRun.Failing, hcompleted, hconclusion, Conclusion.failing_eq_not_passing]

/-- **The gate is sound.** A commit that it shows as failed has not passed its checks. -/
theorem Gate.RedSeen.not_passed {g : Gate} (h : g.RedSeen) : ¬ g.checks.Passed := by
  rintro ⟨hstatuses, hruns⟩
  rcases h.red with ⟨s, hs, hred⟩ | ⟨-, r, hr, hred⟩
  · simp [hstatuses s hs, StatusState.Failing] at hred
  · exact (CheckRun.passed_iff.mp (hruns r (List.mem_of_mem_take hr))).2 hred

section

variable {gh : GitHub} (hgh : gh.Documented)
include hgh

/-- The state that is answered shows whether a status has failed. -/
private theorem GitHub.Documented.state_failing {c : Checks} :
    (gh.status c).state.Failing ↔ ∃ s ∈ c.statuses, s.Failing := by
  refine ⟨fun h => ?_, fun h => .inl (hgh.state_failure c h)⟩
  by_contra! hnone
  by_cases hpending : c.statuses = [] ∨ StatusState.pending ∈ c.statuses
  · rw [hgh.state_pending c hnone hpending] at h
    simp [StatusState.Failing] at h
  · have hall : ∀ s ∈ c.statuses, s = StatusState.success := by
      intro s hs
      have hred := hnone s hs
      cases s with
      | success => rfl
      | pending => exact absurd (.inr hs) hpending
      | error | failure => simp [StatusState.Failing] at hred
    rw [hgh.state_success c (fun h => hpending (.inl h)) hall] at h
    simp [StatusState.Failing] at h

private theorem statusAnswer_failing {c : Checks} :
    ((0 < (gh.status c).totalCount ∨ 0 < (gh.status c).statuses.length) ∧
      (gh.status c).state.Failing) ↔ ∃ s ∈ c.statuses, s.Failing := by
  rw [hgh.state_failing]
  refine and_iff_right_of_imp ?_
  rintro ⟨s, hs, -⟩
  exact .inl (hgh.totalCount c ▸ List.length_pos_of_mem hs)

end

/-- Any failure wins. -/
theorem combinedStatus_eq_failure {st : StatusAnswer} {runs : Except CallError (List CheckRun)} :
    combinedStatus (.ok st) runs = .ok .failure ↔ (∀ e, runs = .error e → e.isDenied) ∧
      (((0 < st.totalCount ∨ 0 < st.statuses.length) ∧ st.state.Failing) ∨
        ∃ l, runs = .ok l ∧ ∃ r ∈ l, r.Failing) := by
  have hverdict (failed pending : Prop) [Decidable failed] [Decidable pending] :
      (if failed then StatusState.failure else if pending then .pending else .success) = .failure ↔
        failed := by
    split_ifs with hf hp <;> simp [hf]
  cases runs with
  | ok l => simp [combinedStatus, bind, Except.bind, pure, Except.pure, hverdict]
  | error e =>
    by_cases he : e.isDenied = true
    · simp [combinedStatus, bind, Except.bind, pure, Except.pure, hverdict, he]
    · simp [combinedStatus, bind, Except.bind, he]

private theorem checksFailed_ne_empty {gh : GitHub} (hgh : gh.Documented) {g : Gate}
    {sha : String} :
    checksFailed gh g sha ≠ "" ↔ g.RedSeen := by
  have htext : "checks failed for " ++ shortSHA sha ≠ "" := by simp
  by_cases hstatus : g.statusError = none
  swap
  · obtain ⟨e, he⟩ := Option.ne_none_iff_exists'.mp hstatus
    refine iff_of_false ?_ fun h => hstatus h.statuses
    simp [checksFailed, he, answer, combinedStatus, bind, Except.bind]
  have hgate : g.RedSeen ↔ g.account ∧ g.token ∧
      combinedStatus (.ok (gh.status g.checks)) (answer g.runsError (gh.checkRuns g.checks)) =
        .ok .failure := by
    rw [combinedStatus_eq_failure, statusAnswer_failing hgh, hgh.firstPage]
    cases hruns : g.runsError with
    | none =>
      constructor
      · rintro ⟨haccount, htoken, -, -, hred⟩
        exact ⟨haccount, htoken, by simp [answer], hred.imp_right fun h => ⟨_, rfl, h.2⟩⟩
      · rintro ⟨haccount, htoken, -, hred⟩
        refine ⟨haccount, htoken, hstatus, by simp [Gate.RunsRead, hruns], hred.imp_right ?_⟩
        rintro ⟨l, hl, h⟩
        obtain rfl := Except.ok.inj hl
        exact ⟨hruns, h⟩
    | some e =>
      constructor
      · rintro ⟨haccount, htoken, -, hread, hred⟩
        refine ⟨haccount, htoken, fun e' he' => ?_, .inl (hred.resolve_right fun h => ?_)⟩
        · obtain rfl := Except.error.inj he'
          exact hread e hruns
        · exact absurd (hruns.symm.trans h.1) (by simp)
      · rintro ⟨haccount, htoken, hread, hred⟩
        refine ⟨haccount, htoken, hstatus, fun e' he' => ?_, .inl (hred.resolve_right ?_)⟩
        · obtain rfl := Option.some.inj (hruns.symm.trans he')
          exact hread e rfl
        · rintro ⟨l, hl, -⟩
          cases hl
  rw [hgate]
  unfold checksFailed
  rw [hstatus]
  split_ifs with haccount htoken
  · split
    · next hfailure => exact iff_of_true htext ⟨haccount, htoken, hfailure⟩
    · next hother => exact iff_of_false (fun h => h rfl) fun h => hother h.2.2
  · exact iff_of_false (fun h => h rfl) fun h => htoken h.2.1
  · exact iff_of_false (fun h => h rfl) fun h => haccount h.1

/-! ### The law -/

/-- The gate is asked, all of the checks are answered, and they have passed. -/
structure Established (st : GitHubSettings) (ev : PushEvent) (g : Gate) : Prop where
  waitChecks : st.waitChecks
  after : ev.after ≠ ""
  answered : g.Answered
  passed : g.checks.Passed

/-- A job is only started when the checks of the pushed commit have passed, and it deploys this
commit when the gate has established that, or one for which another delivery has. -/
def Gated (gh : GitHub) (st : GitHubSettings) (rows : Option (List GitRow)) (gate : GitRow → Gate)
    (later : GitRow → Later) (others : List String) (d : Delivery) : Prop :=
  ∀ res, handleWebhook gh st rows gate d = .ok res → ∀ r ∈ res.started,
    (gate r).checks.Passed ∧ ∀ sha, redeploy r (later r) = some sha →
      (∃ ev ∈ d.push, sha = ev.after ∧ Established st ev (gate r)) ∨ sha ∈ others

/-- The delivery reaches the loop. -/
structure Delivery.Accepted (st : GitHubSettings) (d : Delivery) (ev : PushEvent) : Prop where
  secret : st.secret.getD "" ≠ ""
  signed : d.signed
  event : d.event = "push"
  push : d.push = some ev
  onBranch : ev.onBranch
  autoDeploy : st.autoDeploy

/-- The push is news to the stack. -/
structure PushEvent.For (ev : PushEvent) (r : GitRow) : Prop where
  source : r.source = "git"
  repo : toLower r.repo = toLower ev.fullName
  autoDeploy : r.autoDeploy
  branch : r.branch = trimPrefix ev.ref "refs/heads/"
  news : ¬ (r.sha = ev.after ∧ ev.after ≠ "")

/-- When the job gets as far as the head of the branch, it is a commit with `P`. -/
def Later.HeadIs (l : Later) (r : GitRow) (P : String → Prop) : Prop :=
  (cut r.repo "/").isSome → l.account → l.conn → l.unpacks →
    ∀ sha, l.resolveRef r.branch = some sha → sha ≠ "" → P sha

private theorem headIs_iff {l : Later} {r : GitRow} {P : String → Prop} :
    l.HeadIs r P ↔ ∀ sha, redeploy r l = some sha → P sha := by
  unfold redeploy Later.HeadIs
  split_ifs with hfails
  · refine iff_of_true (fun hrepo haccount hconn => ?_) fun sha h => nomatch h
    simp [Option.isSome_iff_ne_none.mp hrepo, haccount, hconn] at hfails
  · simp only [not_or, not_not] at hfails
    obtain ⟨hrepo, haccount, hconn⟩ := hfails
    simp only [Option.filter_eq_some_iff, decide_eq_true_eq]
    constructor
    · rintro h sha ⟨hsha, hne, hunpacks⟩
      exact h (Option.isSome_iff_ne_none.mpr (by simpa using hrepo)) haccount hconn hunpacks sha
        hsha
        hne
    · rintro h - - - hunpacks sha hsha hne
      exact h sha ⟨hsha, hne, hunpacks⟩

private theorem handleRow_eq_job {gh : GitHub} (hgh : gh.Documented) {st : GitHubSettings}
    {ev : PushEvent}
    {r : GitRow} {g : Gate} {id : String}
    (hrow : r.source = "git" ∧ toLower r.repo = toLower ev.fullName) :
    handleRow gh st ev r g = .job id ↔ ev.For r ∧ ¬ (st.waitChecks ∧ ev.after ≠ "" ∧ g.RedSeen) ∧
      g.start = some id := by
  have hwait : (st.waitChecks ∧ ev.after ≠ "" ∧ checksFailed gh g ev.after ≠ "") ↔
      (st.waitChecks ∧ ev.after ≠ "" ∧ g.RedSeen) := by rw [checksFailed_ne_empty hgh]
  unfold handleRow
  split_ifs with hfor hnews hskip
  · refine iff_of_false (fun h => nomatch h) fun h => ?_
    exact hfor.elim (fun hauto => hauto h.1.autoDeploy) fun hbranch => hbranch h.1.branch
  · exact iff_of_false (fun h => nomatch h) fun h => h.1.news hnews
  · exact iff_of_false (fun h => nomatch h) fun h => h.2.1 (hwait.mp hskip)
  · simp only [not_or, not_not] at hfor
    have hev : ev.For r := ⟨hrow.1, hrow.2, hfor.1, hfor.2, hnews⟩
    cases g.start with
    | none => simp
    | some id' => simp [hev, mt hwait.mpr hskip]

/-- The loop starts the jobs of the rows that call for one. -/
private theorem mem_started_foldl {gh : GitHub} {st : GitHubSettings} {ev : PushEvent}
    {gate : GitRow → Gate} {rows : List GitRow} {res : WebhookResult} {r : GitRow} :
    r ∈ (rows.foldl (fun res r => res.add r (handleRow gh st ev r (gate r))) res).started ↔
      r ∈ res.started ∨ r ∈ rows ∧ ∃ id, handleRow gh st ev r (gate r) = .job id := by
  have hadd (res : WebhookResult) (r₀ : GitRow) (out : RowOutcome) :
      r ∈ (res.add r₀ out).started ↔ r ∈ res.started ∨ (r = r₀ ∧ ∃ id, out = .job id) := by
    cases out <;> simp [WebhookResult.add]
  induction rows generalizing res with
  | nil => simp
  | cons r₀ rows ih =>
    simp only [List.foldl_cons, ih, hadd, List.mem_cons]
    constructor
    · rintro ((h | ⟨rfl, h⟩) | ⟨hmem, h⟩)
      · exact .inl h
      · exact .inr ⟨.inl rfl, h⟩
      · exact .inr ⟨.inr hmem, h⟩
    · rintro (h | ⟨rfl | hmem, h⟩)
      · exact .inl (.inl h)
      · exact .inl (.inr ⟨rfl, h⟩)
      · exact .inr ⟨hmem, h⟩

/-- The jobs that a delivery starts. -/
theorem started_iff {gh : GitHub} (hgh : gh.Documented) {st : GitHubSettings}
    {rows : Option (List GitRow)} {gate : GitRow → Gate} {d : Delivery} {r : GitRow} :
    (∃ res, handleWebhook gh st rows gate d = .ok res ∧ r ∈ res.started) ↔
      ∃ ev, d.Accepted st ev ∧ (∃ l ∈ rows, r ∈ l) ∧ ev.For r ∧
        ¬ (st.waitChecks ∧ ev.after ≠ "" ∧ (gate r).RedSeen) ∧ (gate r).start ≠ none := by
  constructor
  · rintro ⟨res, hres, hmem⟩
    unfold handleWebhook at hres
    split at hres
    · cases hres
    next hsecret =>
    split at hres
    · cases hres
    next hsigned =>
    split at hres
    · obtain rfl := Except.ok.inj hres
      simp at hmem
    next hevent =>
    split at hres
    · cases hres
    next ev hpush =>
    split at hres
    · obtain rfl := Except.ok.inj hres
      simp at hmem
    next hbranch =>
    split at hres
    · obtain rfl := Except.ok.inj hres
      simp at hmem
    next hauto =>
    split at hres
    · cases hres
    next l =>
    obtain rfl := Except.ok.inj hres
    obtain ⟨hrows, id, hjob⟩ := (mem_started_foldl.mp hmem).resolve_left (by simp)
    simp only [rowsByRepo, List.mem_filter, Bool.and_eq_true, decide_eq_true_eq] at hrows
    obtain ⟨hfor, hred, hstart⟩ := (handleRow_eq_job hgh hrows.2).mp hjob
    exact ⟨ev, ⟨hsecret, not_not.mp hsigned, not_not.mp hevent, hpush, not_not.mp hbranch,
      not_not.mp hauto⟩, ⟨l, rfl, hrows.1⟩, hfor, hred, by simp [hstart]⟩
  · rintro ⟨ev, hd, ⟨l, hl, hr⟩, hfor, hred, hstart⟩
    obtain ⟨id, hid⟩ := Option.ne_none_iff_exists'.mp hstart
    obtain rfl : rows = some l := hl
    have hrow : r.source = "git" ∧ toLower r.repo = toLower ev.fullName := ⟨hfor.source, hfor.repo⟩
    refine ⟨(rowsByRepo l ev.fullName).foldl
      (fun res r => res.add r (handleRow gh st ev r (gate r))) {}, ?_, mem_started_foldl.mpr (.inr
        ⟨?_, id, (handleRow_eq_job hgh hrow).mpr ⟨hfor, hred, hid⟩⟩)⟩
    · simp [handleWebhook, hd.secret, hd.signed, hd.event, hd.push, hd.onBranch, hd.autoDeploy]
    · simp [rowsByRepo, hr, hrow]

/-- **Deploys of a push.** A delivery deploys only what has passed its checks exactly when, for
every stack it is news to, the gate is asked and sees a failure, or no job can be started, or every
status and check run has passed and the branch ends with the pushed commit, all of whose checks were
answered, or with a commit of another such delivery. -/
theorem gated_iff (gh : GitHub) (hgh : gh.Documented) (st : GitHubSettings)
    (rows : Option (List GitRow)) (gate : GitRow → Gate) (later : GitRow → Later)
    (others : List String) (d : Delivery) :
    Gated gh st rows gate later others d ↔
      ∀ ev, d.Accepted st ev → ∀ l ∈ rows, ∀ r ∈ l, ev.For r →
        (st.waitChecks ∧ ev.after ≠ "" ∧ (gate r).RedSeen) ∨ (gate r).start = none ∨
          ((gate r).checks.Passed ∧ (later r).HeadIs r fun sha =>
            (sha = ev.after ∧ st.waitChecks ∧ ev.after ≠ "" ∧ (gate r).Answered) ∨
              sha ∈ others) := by
  constructor
  · intro h ev hd l hl r hr hfor
    by_cases hred : st.waitChecks ∧ ev.after ≠ "" ∧ (gate r).RedSeen
    · exact .inl hred
    by_cases hstart : (gate r).start = none
    · exact .inr (.inl hstart)
    obtain ⟨res, hres, hmem⟩ := (started_iff hgh).mpr ⟨ev, hd, ⟨l, hl, hr⟩, hfor, hred, hstart⟩
    obtain ⟨hpassed, hhead⟩ := h res hres r hmem
    refine .inr (.inr ⟨hpassed, headIs_iff.mpr fun sha hsha => ?_⟩)
    rcases hhead sha hsha with ⟨ev', hev', heq, hest⟩ | hothers
    · obtain rfl : ev = ev' := Option.some.inj (hd.push.symm.trans hev')
      exact .inl ⟨heq, hest.waitChecks, hest.after, hest.answered⟩
    · exact .inr hothers
  · intro h res hres r hmem
    obtain ⟨ev, hd, ⟨l, hl, hr⟩, hfor, hred, hstart⟩ := (started_iff hgh).mp ⟨res, hres, hmem⟩
    obtain ⟨hpassed, hhead⟩ := ((h ev hd l hl r hr hfor).resolve_left hred).resolve_left hstart
    refine ⟨hpassed, fun sha hsha => ?_⟩
    rcases headIs_iff.mp hhead sha hsha with ⟨heq, hwait, hafter, hanswered⟩ | hothers
    · exact .inl ⟨ev, hd.push, heq, hwait, hafter, hanswered, hpassed⟩
    · exact .inr hothers

namespace Example

/-- GitHub, with pages of thirty statuses. -/
def gitHub : GitHub where
  status c :=
    { state :=
        if ∃ s ∈ c.statuses, s.Failing then .failure
        else if c.statuses = [] ∨ .pending ∈ c.statuses then .pending
        else .success
      totalCount := c.statuses.length
      statuses := c.statuses.take 30 }
  checkRuns c := c.runs.take 100

private theorem gitHub_documented : gitHub.Documented where
  state_failure _ h := if_pos h
  state_pending _ hnone h := (if_neg (by simpa using hnone)).trans (if_pos h)
  state_success c hne hall := by
    have hnone : ¬ ∃ s ∈ c.statuses, s.Failing := by
      rintro ⟨s, hs, hred⟩
      simp [hall s hs, StatusState.Failing] at hred
    refine (if_neg hnone).trans (if_neg ?_)
    rintro (h | h)
    · exact hne h
    · exact absurd (hall _ h) (by decide)
  totalCount _ := rfl
  firstPage _ := rfl

/-- A stack of the branch `main`. -/
def row : GitRow :=
  { name := "shop", path := "/srv/shop", composeFile := "compose.yml", source := "git",
    repo := "acme/shop", branch := "main", id := "1", hostID := "h", sha := "c0", autoDeploy :=
      true }

/-- The settings of the example: deploys are automatic, and wait for the checks. -/
def settings : GitHubSettings := { secret := some "s", autoDeploy := true, waitChecks := true }

/-- The commit `c1` is pushed. -/
def push : Delivery :=
  { event := "push", signed := true,
    push := some { ref := "refs/heads/main", after := "c1", fullName := "acme/shop" } }

/-- A status and two check runs, one of them cancelled, and none has failed. -/
def green : Gate :=
  { checks := ⟨[.success], [⟨.completed, some .success⟩, ⟨.completed, some .cancelled⟩]⟩
    start := some "j" }

end Example

/-- The branch still ends with the pushed commit when the job resolves it, and the commit that is
deployed has passed its checks. -/
theorem gated_iff_headStays :
    Gated Example.gitHub Example.settings (some [Example.row]) (fun _ => Example.green)
      (fun _ => { resolveRef := fun _ => some "c1" }) [] Example.push := by
  refine (gated_iff Example.gitHub Example.gitHub_documented _ _ _ _ _ _).mpr ?_
  intro ev hev l hl r hr _
  obtain rfl : Example.push.push.get rfl = ev := Option.some.inj hev.push
  refine .inr (.inr ⟨by decide, fun _ _ _ _ sha hsha _ => .inl ?_⟩)
  obtain rfl : "c1" = sha := Option.some.inj hsha
  exact ⟨rfl, rfl, by decide, rfl, rfl, rfl, rfl, by decide⟩

/-- **The branch moves.** The checks of the pushed commit have passed, and another commit is pushed
before the job resolves the branch. -/
theorem not_gated :
    ¬ Gated Example.gitHub Example.settings (some [Example.row]) (fun _ => Example.green)
      (fun _ => { resolveRef := fun _ => some "c2" }) [] Example.push := by
  intro h
  have hres : handleWebhook Example.gitHub Example.settings (some [Example.row])
      (fun _ => Example.green) Example.push = .ok { jobs := ["j"], started := [Example.row] } := by
    decide +kernel
  obtain ⟨-, hhead⟩ := h _ hres Example.row (by simp)
  rcases hhead "c2" (by decide +kernel) with ⟨ev, hev, heq, -⟩ | hothers
  · obtain rfl := Option.some.inj hev
    exact absurd heq (by decide)
  · simp at hothers

end Dockhand.GitDeploy.Webhook
