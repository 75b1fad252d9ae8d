import Dockhand.Go.Dict
import Dockhand.Transition.Exec
import Dockhand.Transition.Pool

/-!
# The limiter of failed sign-ins

`Limiter` counts failed sign-ins for each key in a fixed window that starts with the first one. The
two doors that use it are the login form, whose key is the address of the client, and the registry,
whose keys have a prefix of their own. Both ask `Allowed`, then check the password, then call
`Fail`: three critical sections with a slow comparison in the middle. `Logins` is the limiter with
the attempts that are between two of them, and a run takes the steps of any number of attempts in
any order. The clock is the monotonic one that `time.Since` reads.

Nothing in `Allowed` knows of the attempts that it has let in and that have not failed yet, so more
than `max` of them can fail in one window: `Logins.not_withinLimit`. Wrong guesses of one key that
do not overlap are counted in time, and then `Allowed` keeps the limit: `Logins.withinLimit_of_run`.
-/

namespace Dockhand.Auth

open Transition

/-! ### The limiter -/

/-- The failures of a key since `start`. -/
structure Bucket where
  n : ℕ
  start : ℤ
  deriving DecidableEq

/-- A fixed-window failure counter for each key. -/
structure Limiter where
  max : ℕ
  window : ℤ
  hits : Dict String Bucket := ∅

namespace Limiter

/-- The window of the bucket is over: `time.Since(b.start) > l.window`. -/
def expired (l : Limiter) (now : ℤ) (b : Bucket) : Bool := now - b.start > l.window

/-- Whether the key may attempt again. -/
def allowed (l : Limiter) (now : ℤ) (key : String) : Bool :=
  match l.hits.get? key with
  | none => true
  | some b => if l.expired now b then true else b.n < l.max

/-- The bucket that `Fail` counts in: a new one if there is none or its window is over. -/
def bucket (l : Limiter) (now : ℤ) (key : String) : Bucket :=
  match l.hits.get? key with
  | none => { n := 0, start := now }
  | some b => if l.expired now b then { n := 0, start := now } else b

/-- Record a failed attempt. A table of more than 10000 keys is swept of what is over. -/
def fail (l : Limiter) (now : ℤ) (key : String) : Limiter :=
  let b := l.bucket now key
  let hits := l.hits.set key { b with n := b.n + 1 }
  { l with hits :=
      if hits.entries.length > 10000 then hits.filter fun _ v => !l.expired now v else hits }

/-- Clear a key after a successful login. -/
def reset (l : Limiter) (key : String) : Limiter := { l with hits := l.hits.del key }

/-- The bucket of a key while its window lasts. -/
def active (l : Limiter) (now : ℤ) (key : String) : Option Bucket :=
  (l.hits.get? key).filter fun b => !l.expired now b

variable {l : Limiter} {now : ℤ} {key k : String} {b : Bucket}

private theorem active_eq_some_iff :
    l.active now key = some b ↔ l.hits.get? key = some b ∧ l.expired now b = false := by
  rw [active, Option.filter_eq_some_iff, Bool.not_eq_true']

/-- A window that lasts later lasts now. -/
theorem active_of_add {d : ℕ} (h : l.active (now + d) key = some b) :
    l.active now key = some b := by
  obtain ⟨hb, hlasts⟩ := active_eq_some_iff.mp h
  refine active_eq_some_iff.mpr ⟨hb, ?_⟩
  simp only [expired, decide_eq_false_iff_not, not_lt] at hlasts ⊢
  omega

private theorem bucket_eq : l.bucket now key = (l.active now key).getD
    { n := 0, start := now } := by
  unfold bucket active
  cases l.hits.get? key with
  | none => rfl
  | some b =>
    cases hb : l.expired now b <;> simp [Option.filter, hb]

/-- The sweep removes nothing whose window lasts. -/
theorem active_fail : (l.fail now key).active now k =
    ((l.hits.set key { l.bucket now key with n := (l.bucket now key).n + 1 }).get? k).filter
      fun b => !l.expired now b := by
  simp only [active, fail]
  split_ifs
  · rw [Dict.get?_filter, Option.filter_filter]
    simp [expired]
  · rfl

private theorem active_fail_of_ne (h : k ≠ key) :
    (l.fail now key).active now k = l.active now k := by
  rw [active_fail, Dict.get?_set, if_neg h, active]

/-- A window that lasts counts one more. -/
theorem active_fail_of_some (h : l.active now key = some b) :
    (l.fail now key).active now key = some { b with n := b.n + 1 } := by
  rw [active_fail, Dict.get?_set, if_pos rfl, bucket_eq, h, Option.getD_some,
    Option.filter_eq_some_iff]
  exact ⟨rfl, Bool.not_eq_true' _ ▸ (active_eq_some_iff.mp h).2⟩

/-- A new window starts, unless no window lasts. -/
theorem active_fail_of_none (h : l.active now key = none) :
    (l.fail now key).active now key =
      if 0 ≤ l.window then some { n := 1, start := now } else none := by
  rw [active_fail, Dict.get?_set, if_pos rfl, bucket_eq, h, Option.getD_none]
  simp [Option.filter, expired]

@[simp] theorem active_reset :
    (l.reset key).active now k = if k = key then none else l.active now k := by
  unfold reset active
  rw [Dict.get?_del]
  split_ifs <;> rfl

@[simp] theorem max_fail : (l.fail now key).max = l.max := rfl

@[simp] theorem window_fail : (l.fail now key).window = l.window := rfl

end Limiter

/-! ### Sign-ins -/

/-- What asks for a password. -/
inductive Door where
  | login
  | registry
  deriving DecidableEq

/-- What the check of a password finds: right, wrong, or an error of the database. -/
inductive Outcome where
  | ok
  | invalid
  | error
  deriving DecidableEq

/-- A request to sign in. -/
structure Attempt where
  door : Door
  ip : String
  outcome : Outcome
  deriving DecidableEq

namespace Attempt

/-- The key of the limiter. -/
def key (a : Attempt) : String :=
  match a.door with
  | .login => a.ip
  | .registry => "registry:" ++ a.ip

/-- The door calls `Fail`: the login form on wrong credentials, the registry on any error. -/
def fails (a : Attempt) : Bool :=
  match a.door with
  | .login => a.outcome = .invalid
  | .registry => a.outcome ≠ .ok

/-- The door calls `Reset`. The registry never does. -/
def resets (a : Attempt) : Bool := a.door = .login ∧ a.outcome = .ok

end Attempt

/-- The next step of an attempt that was let in. -/
inductive Phase where
  | checking (a : Attempt)
  | failing (key : String)
  | resetting (key : String)
  deriving DecidableEq

/-- The attempt fails its check, or has failed it and is not recorded yet. -/
def Phase.willFail (key : String) : Phase → Bool
  | .checking a => a.fails && a.key = key
  | .failing k => k = key
  | .resetting _ => false

/-- The attempt has failed its check and is not recorded yet. -/
def Phase.hasFailed (key : String) : Phase → Bool
  | .failing k => k = key
  | .checking _ | .resetting _ => false

/-- The limiter, the time and the attempts that were let in. `failures` is the history that the
limit is about: each failed check with its key and its time, since the last `Reset` of the key. -/
structure Logins where
  limiter : Limiter
  now : ℤ := 0
  attempts : List Phase := []
  failures : List (String × ℤ) := []

/-- Time passes, a request comes in, or an attempt takes its next step. -/
inductive LoginEvent where
  | tick (d : ℕ)
  | request (a : Attempt)
  | run (i : ℕ)
  deriving DecidableEq

namespace Logins

/-- The next step of the attempt `i`. -/
def advance (s : Logins) (i : ℕ) : Phase → Logins
  | .checking a =>
    if a.fails then
      { s with attempts := s.attempts.set i (.failing a.key),
               failures := (a.key, s.now) :: s.failures }
    else if a.resets then { s with attempts := s.attempts.set i (.resetting a.key) }
    else { s with attempts := s.attempts.eraseIdx i }
  | .failing key =>
    { s with limiter := s.limiter.fail s.now key, attempts := s.attempts.eraseIdx i }
  | .resetting key =>
    { s with limiter := s.limiter.reset key, attempts := s.attempts.eraseIdx i,
             failures := s.failures.filter fun f => f.1 ≠ key }

/-- One step; `none` if there is no such attempt. -/
def step (s : Logins) : LoginEvent → Option Logins
  | .tick d => some { s with now := s.now + d }
  | .request a =>
    some <| if s.limiter.allowed s.now a.key then
      { s with attempts := s.attempts ++ [.checking a] } else s
  | .run i => (s.attempts[i]?).map (s.advance i)

/-- The checks of a key that have failed since `start`. -/
def failedSince (s : Logins) (key : String) (start : ℤ) : ℕ :=
  s.failures.countP fun f => f.1 = key && decide (start ≤ f.2)

/-- **The limit**: in the window that a first recorded failure has started, at most `max` failures
are recorded and at most `max` checks have failed. -/
def WithinLimit (s : Logins) : Prop :=
  ∀ e ∈ s.limiter.hits.entries, s.limiter.expired s.now e.2 = false →
    e.2.n ≤ s.limiter.max ∧ s.failedSince e.1 e.2.start ≤ s.limiter.max

instance (s : Logins) : Decidable s.WithinLimit := inferInstanceAs (Decidable (∀ e ∈ _, _))

/-- The failures recorded in the window that lasts. -/
def recorded (s : Logins) (key : String) : ℕ := (s.limiter.active s.now key).elim 0 Bucket.n

/-- The attempts let in that are still to be recorded as failures. -/
def inFlight (s : Logins) (key : String) : ℕ := s.attempts.countP (Phase.willFail key)

/-- Attempts of one key that fail do not overlap: such an attempt comes in only when none of its key
is still to be recorded as a failure. -/
def InTurn (s : Logins) : LoginEvent → Prop
  | .request a => a.fails → s.inFlight a.key = 0
  | _ => True

instance (s : Logins) : (e : LoginEvent) → Decidable (s.InTurn e)
  | .request _ => inferInstanceAs (Decidable (_ → _))
  | .tick _ | .run _ => isTrue trivial

/-! ### The limit -/

/-- A limiter that has counted nothing, and nobody at the doors. -/
structure Fresh (s : Logins) : Prop where
  hits : s.limiter.hits = ∅
  attempts : s.attempts = []
  failures : s.failures = []

variable {s s' : Logins} {e : LoginEvent} {es : List LoginEvent} {key : String}

/-- The attempts that have failed and are not recorded yet. -/
def unrecorded (s : Logins) (key : String) : ℕ := s.attempts.countP (Phase.hasFailed key)

private theorem unrecorded_le_inFlight (s : Logins) (key : String) :
    s.unrecorded key ≤ s.inFlight key := by
  refine List.countP_mono_left fun p _ hp => ?_
  cases p with
  | failing k => exact hp
  | checking a => cases hp
  | resetting k => cases hp

/-- Failures that were counted stay counted while the window lasts. -/
theorem recorded_le_of_active (h : ∀ b, s'.limiter.active s'.now key = some b →
    s.limiter.active s.now key = some b) : s'.recorded key ≤ s.recorded key := by
  unfold recorded
  cases hb : s'.limiter.active s'.now key with
  | none => exact Nat.zero_le _
  | some b => rw [h b hb]

/-- Of every key at most the failure that is recorded now is counted. -/
theorem recorded_fail_le (s : Logins) (k key : String) :
    ((s.limiter.fail s.now k).active s.now key).elim 0 Bucket.n ≤
      s.recorded key + if k = key then 1 else 0 := by
  rw [recorded]
  by_cases hk : k = key
  · subst hk
    cases hactive : s.limiter.active s.now k with
    | none =>
      -- the new bucket holds one, or its window is negative and over at once
      rw [Limiter.active_fail_of_none hactive, if_pos rfl]
      split_ifs
      · exact le_rfl
      · exact Nat.zero_le _
    | some b => simp [Limiter.active_fail_of_some hactive]
  · rw [Limiter.active_fail_of_ne (Ne.symm hk)]
    exact Nat.le_add_right ..

/-- Whoever is allowed has a failure left. -/
theorem recorded_lt_of_allowed (hmax : 0 < s.limiter.max)
    (h : s.limiter.allowed s.now key = true) : s.recorded key < s.limiter.max := by
  rw [Limiter.allowed] at h
  rw [recorded, Limiter.active]
  cases hb : s.limiter.hits.get? key with
  | none => exact hmax
  | some b =>
    rw [hb] at h
    cases hexpired : s.limiter.expired s.now b with
    | true => simpa [Option.filter, hexpired] using hmax
    | false => simpa [Option.filter, hexpired] using h

/-- The invariant: what is recorded and what is in flight stay below the limit together, and a check
that has failed in the window is recorded or about to be. -/
structure LimitInv (s : Logins) : Prop where
  positive : 0 < s.limiter.max
  budget : ∀ key, s.recorded key + s.inFlight key ≤ s.limiter.max
  counted : ∀ key b, s.limiter.active s.now key = some b →
    s.failedSince key b.start ≤ b.n + s.unrecorded key
  fresh : 0 ≤ s.limiter.window → ∀ key, s.limiter.active s.now key = none →
    s.failedSince key s.now ≤ s.unrecorded key
  past : ∀ f ∈ s.failures, f.2 ≤ s.now

private theorem LimitInv.of_fresh (h : s.Fresh) (hmax : 0 < s.limiter.max) : s.LimitInv where
  positive := hmax
  budget key := by simp [recorded, inFlight, Limiter.active, h.hits, h.attempts]
  counted key b hb := by simp [Limiter.active, h.hits] at hb
  fresh _ key _ := by simp [failedSince, h.failures]
  past f hf := by simp [h.failures] at hf

private theorem LimitInv.withinLimit (h : s.LimitInv) : s.WithinLimit := by
  intro e he hlasts
  have hactive : s.limiter.active s.now e.1 = some e.2 :=
    Limiter.active_eq_some_iff.mpr ⟨Dict.get?_eq_some_iff.mpr he, hlasts⟩
  have hbudget : e.2.n + s.inFlight e.1 ≤ s.limiter.max := by
    simpa [recorded, hactive] using h.budget e.1
  have hcounted := h.counted e.1 e.2 hactive
  have hle := s.unrecorded_le_inFlight e.1
  constructor <;> omega

theorem LimitInv.tick (h : s.LimitInv) (d : ℕ) : LimitInv { s with now := s.now + d } where
  positive := h.positive
  budget key := by
    have hle : Logins.recorded { s with now := s.now + d } key ≤ s.recorded key :=
      recorded_le_of_active fun _ => Limiter.active_of_add
    exact (Nat.add_le_add_right hle _).trans (h.budget key)
  counted key b hb := h.counted key b (Limiter.active_of_add hb)
  fresh hwindow key hnone := by
    rcases Nat.eq_zero_or_pos d with rfl | hpos
    · simpa [failedSince, unrecorded] using h.fresh hwindow key (by simpa using hnone)
    · -- nothing has failed at a later time than the one before the tick
      refine (List.countP_eq_zero.mpr fun f hf => ?_).trans_le (Nat.zero_le _)
      have := h.past f hf
      simp only [Bool.and_eq_true, decide_eq_true_eq, not_and]
      omega
  past f hf := (h.past f hf).trans (Int.le_add_of_nonneg_right (Int.natCast_nonneg d))

/-- **An attempt is let in.** One that will fail is the only one of its key, and `Allowed` has found
a failure left. -/
theorem LimitInv.append (h : s.LimitInv) {a : Attempt}
    (hallowed : s.limiter.allowed s.now a.key = true) (halone : a.fails → s.inFlight a.key = 0) :
    LimitInv { s with attempts := s.attempts ++ [.checking a] } where
  positive := h.positive
  budget key := by
    have hbudget := h.budget key
    have hleft := recorded_lt_of_allowed h.positive hallowed
    simp only [recorded, inFlight, List.countP_append,
      List.countP_singleton] at hbudget halone hleft ⊢
    split_ifs with hp
    · simp only [Phase.willFail, Bool.and_eq_true, decide_eq_true_eq] at hp
      obtain ⟨hfails, rfl⟩ := hp
      have hnone := halone hfails
      omega
    · omega
  counted key b hb := by
    simpa [unrecorded, failedSince, Phase.hasFailed] using h.counted key b hb
  fresh hwindow key hnone := by
    simpa [unrecorded, failedSince, Phase.hasFailed] using h.fresh hwindow key hnone
  past := h.past

/-- An attempt that records nothing moves on or ends. -/
theorem LimitInv.quiet {attempts : List Phase} (h : s.LimitInv)
    (hflight : ∀ key, attempts.countP (Phase.willFail key) ≤ s.inFlight key)
    (hfailed : ∀ key, attempts.countP (Phase.hasFailed key) = s.unrecorded key) :
    LimitInv { s with attempts } where
  positive := h.positive
  budget key := (Nat.add_le_add_left (hflight key) _).trans (h.budget key)
  counted key b hb := (h.counted key b hb).trans_eq (congrArg (b.n + ·) (hfailed key).symm)
  fresh hwindow key hnone := (h.fresh hwindow key hnone).trans_eq (hfailed key).symm
  past := h.past

/-- A check fails. -/
theorem LimitInv.checkFails {i : ℕ} {a : Attempt} (h : s.LimitInv)
    (hi : s.attempts[i]? = some (.checking a)) (hfails : a.fails = true) :
    LimitInv { s with attempts := s.attempts.set i (.failing a.key),
                      failures := (a.key, s.now) :: s.failures } := by
  have hflight : ∀ key, (s.attempts.set i (.failing a.key)).countP (Phase.willFail key) =
      s.inFlight key := fun key => by
    rw [inFlight, countP_pool hi, countP_pool_set hi]
    simp [Phase.willFail, hfails]
  have hfailed : ∀ key, (s.attempts.set i (.failing a.key)).countP (Phase.hasFailed key) =
      s.unrecorded key + if a.key = key then 1 else 0 := fun key => by
    rw [unrecorded, countP_pool hi, countP_pool_set hi]
    simp [Phase.hasFailed]
  have hsince : ∀ key start, failedSince { s with failures := (a.key, s.now) :: s.failures } key
      start ≤ s.failedSince key start + if a.key = key then 1 else 0 := fun key start => by
    simp only [failedSince, List.countP_cons]
    by_cases hk : a.key = key
    · simp only [hk]
      split_ifs <;> omega
    · simp [hk]
  -- one more has failed since any time, and one more is still to be recorded
  refine ⟨h.positive, fun key => ?_, fun key b hb => ?_, fun hwindow key hnone => ?_,
    fun f hf => ?_⟩
  · exact (Nat.add_le_add_left (hflight key).le _).trans (h.budget key)
  · have := h.counted key b hb
    have := hsince key b.start
    have := hfailed key
    simp only [failedSince, unrecorded] at *
    omega
  · have := h.fresh hwindow key hnone
    have := hsince key s.now
    have := hfailed key
    simp only [failedSince, unrecorded] at *
    omega
  · rcases List.mem_cons.mp hf with rfl | hold
    · exact le_rfl
    · exact h.past f hold

/-- **A failure is recorded.** -/
theorem LimitInv.record {i : ℕ} {k : String} (h : s.LimitInv)
    (hi : s.attempts[i]? = some (.failing k)) :
    LimitInv { s with limiter := s.limiter.fail s.now k, attempts := s.attempts.eraseIdx i } := by
  have hflight : ∀ key, s.inFlight key = (s.attempts.eraseIdx i).countP (Phase.willFail key) +
      if k = key then 1 else 0 := fun key => by
    rw [inFlight, countP_pool hi]
    simp [Phase.willFail]
  have hfailed : ∀ key, s.unrecorded key = (s.attempts.eraseIdx i).countP (Phase.hasFailed key) +
      if k = key then 1 else 0 := fun key => by
    rw [unrecorded, countP_pool hi]
    simp [Phase.hasFailed]
  refine ⟨h.positive, fun key => ?_, fun key b hb => ?_, fun hwindow key hnone => ?_, h.past⟩
  · -- what the limiter gains is what is no longer in flight
    have hrecorded := s.recorded_fail_le k key
    have hbudget := h.budget key
    have := hflight key
    simp only [recorded, inFlight, Limiter.max_fail] at *
    omega
  · by_cases hk : k = key
    · subst hk
      have := hfailed k
      rw [if_pos rfl] at this
      cases hactive : s.limiter.active s.now k with
      | none =>
        -- a window starts here: what has failed at this time is `k` itself and in flight otherwise
        rw [Limiter.active_fail_of_none hactive] at hb
        obtain ⟨hwindow, hb⟩ := Option.ite_none_right_eq_some.mp hb
        obtain rfl := Option.some.inj hb
        have := h.fresh hwindow k hactive
        simp only [failedSince, unrecorded] at *
        omega
      | some b' =>
        obtain rfl := Option.some.inj ((Limiter.active_fail_of_some hactive).symm.trans hb)
        have := h.counted k b' hactive
        simp only [failedSince, unrecorded] at *
        omega
    · rw [Limiter.active_fail_of_ne (Ne.symm hk)] at hb
      have := hfailed key
      rw [if_neg hk] at this
      exact (h.counted key b hb).trans_eq (congrArg (b.n + ·) this)
  · by_cases hk : k = key
    · subst hk
      cases hactive : s.limiter.active s.now k with
      | none =>
        -- a key that has just been recorded has a window that lasts
        have hwindow : 0 ≤ s.limiter.window := hwindow
        rw [Limiter.active_fail_of_none hactive, if_pos hwindow] at hnone
        cases hnone
      | some b =>
        rw [Limiter.active_fail_of_some hactive] at hnone
        cases hnone
    · rw [Limiter.active_fail_of_ne (Ne.symm hk)] at hnone
      have := hfailed key
      rw [if_neg hk] at this
      exact (h.fresh hwindow key hnone).trans_eq this

/-- **A sign-in succeeds.** -/
theorem LimitInv.clear {i : ℕ} {k : String} (h : s.LimitInv)
    (hi : s.attempts[i]? = some (.resetting k)) :
    LimitInv { s with limiter := s.limiter.reset k, attempts := s.attempts.eraseIdx i,
                      failures := s.failures.filter fun f => f.1 ≠ k } := by
  have hflight : ∀ key, (s.attempts.eraseIdx i).countP (Phase.willFail key) = s.inFlight key :=
    fun key => by
      rw [inFlight, countP_pool hi]
      rfl
  have hfailed : ∀ key, (s.attempts.eraseIdx i).countP (Phase.hasFailed key) = s.unrecorded key :=
    fun key => by
      rw [unrecorded, countP_pool hi]
      rfl
  have hkept : ∀ {key b}, (s.limiter.reset k).active s.now key = some b →
      s.limiter.active s.now key = some b := fun {key b} hb => by
    rw [Limiter.active_reset] at hb
    split_ifs at hb
    exact hb
  have hsince : ∀ key start, failedSince { s with failures := s.failures.filter fun f => f.1 ≠ k }
      key start ≤ s.failedSince key start :=
    fun key start => List.filter_sublist.countP_le
  refine ⟨h.positive, fun key => ?_, fun key b hb => ?_, fun hwindow key hnone => ?_,
    fun f hf => ?_⟩
  · have hle : recorded { s with limiter := s.limiter.reset k } key ≤ s.recorded key :=
      recorded_le_of_active fun b => hkept
    exact le_trans (Nat.add_le_add hle (hflight key).le) (h.budget key)
  · exact (hsince key _).trans
      ((h.counted key b (hkept hb)).trans_eq (congrArg (b.n + ·) (hfailed key).symm))
  · by_cases hk : key = k
    · -- the history of the key is forgotten with its bucket
      subst hk
      refine (List.countP_eq_zero.mpr fun f hf => ?_).trans_le (Nat.zero_le _)
      have := (List.mem_filter.mp hf).2
      simp_all
    · rw [Limiter.active_reset, if_neg hk] at hnone
      exact (hsince key _).trans ((h.fresh hwindow key hnone).trans_eq (hfailed key).symm)
  · exact h.past f (List.mem_of_mem_filter hf)

/-- **One step.** -/
theorem LimitInv.step (h : s.LimitInv) (hcond : s.InTurn e) (hs : s.step e = some s') :
    s'.LimitInv := by
  cases e with
  | tick d =>
    obtain rfl := Option.some.inj hs
    exact h.tick d
  | request a =>
    obtain rfl := Option.some.inj hs
    split_ifs with hallowed
    · exact h.append hallowed hcond
    · exact h
  | run i =>
    obtain ⟨p, hi, rfl⟩ := Option.map_eq_some_iff.mp hs
    cases p with
    | checking a =>
      rw [advance]
      split_ifs with hfails hresets
      · exact h.checkFails hi hfails
      all_goals
        refine h.quiet (fun key => ?_) fun key => ?_
      · rw [inFlight, countP_pool hi, countP_pool_set hi]
        simp [Phase.willFail]
      · rw [unrecorded, countP_pool hi, countP_pool_set hi]
        simp [Phase.hasFailed]
      · exact (List.eraseIdx_sublist ..).countP_le
      · rw [unrecorded, countP_pool hi]
        simp [Phase.hasFailed]
    | failing k => exact h.record hi
    | resetting k => exact h.clear hi

/-- **The limit holds** in every run in which the attempts of one key that fail come one after the
other, for any number of keys at both doors. -/
theorem withinLimit_of_run (hfresh : s.Fresh) (hmax : 0 < s.limiter.max)
    (hcond : Along Logins.step InTurn s es) : AllStates Logins.step WithinLimit s es :=
  (allStates_of_along (fun _ _ _ h hC hs => h.step hC hs) (LimitInv.of_fresh hfresh hmax) hcond).imp
    fun _ h => h.withinLimit

end Logins

/-! ### Eleven at once -/

namespace Example

/-- The limiter of the server: 10 failures in 15 minutes. -/
def doors : Logins := { limiter := { max := 10, window := 900000000000 } }

/-- Somebody who does not know the password. -/
def guess : Attempt := { door := .login, ip := "203.0.113.9", outcome := .invalid }

/-- Somebody whose registry check gives an error, from the same address. -/
def pull : Attempt := { door := .registry, ip := "203.0.113.9", outcome := .error }

/-- Eleven guesses are let in before the first of them fails. -/
def atOnce : List LoginEvent :=
  List.replicate 11 (.request guess) ++ List.replicate 22 (.run 0)

/-- A guess while the registry checks another attempt, nine more guesses one after the other, one
that is turned away, and one in the next window. -/
def inTurn : List LoginEvent :=
  [.request guess, .request pull, .run 0, .run 0, .run 0, .run 0] ++
    (List.replicate 9 [LoginEvent.request guess, .tick 1000, .run 0, .run 0]).flatten ++
    [.request guess, .tick 900000000001, .request guess, .run 0, .run 0]

end Example

/-- Eleven checks fail where ten may. -/
theorem Logins.not_withinLimit :
    Example.doors.Fresh ∧ ¬ AllStates Logins.step Logins.WithinLimit Example.doors Example.atOnce :=
  ⟨⟨rfl, rfl, rfl⟩, by decide +kernel⟩

/-- Guesses one after the other, up to one that is turned away; the attempt that overlaps one of
them does not fail. -/
theorem Logins.withinLimit_of_run_inTurn :
    AllStates Logins.step Logins.WithinLimit Example.doors Example.inTurn :=
  Logins.withinLimit_of_run ⟨rfl, rfl, rfl⟩ (by decide) (by decide +kernel)

end Dockhand.Auth
