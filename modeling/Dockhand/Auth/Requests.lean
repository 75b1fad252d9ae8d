import Dockhand.Auth.Sessions

/-!
# What a request does

`Does` lists what a step can do, one constructor for each outcome. The table of sessions gains a
row in a step that `Opens` it, and loses one in a step that `Ends` it or prunes it (`has_step`).
-/

namespace Dockhand.Auth.Sessions

open Go Transition
open Registry (Env validatePassword validUsername)

/-- The event with which `Setup` commits a new account. -/
def Event.creates : Event → Bool
  | .commitSetup _ _ => true
  | _ => false

namespace Accounts

variable {env : Env} {s s' t : Accounts} {e : Event} {es : List Event} {k j : ℕ} {c : Call}
  {ph : Phase} {id uid tok : String} {exp : ℕ}

/-! ### Fields -/

@[simp] theorem setPhase_now : (s.setPhase k c ph).now = s.now := rfl

@[simp] theorem setPhase_users : (s.setPhase k c ph).users = s.users := rfl

@[simp] theorem setPhase_sessions : (s.setPhase k c ph).sessions = s.sessions := rfl

@[simp] theorem setPhase_setupLock : (s.setPhase k c ph).setupLock = s.setupLock := rfl

@[simp] theorem unlock_now : (s.unlock k).now = s.now := rfl

@[simp] theorem unlock_users : (s.unlock k).users = s.users := rfl

@[simp] theorem unlock_sessions : (s.unlock k).sessions = s.sessions := rfl

@[simp] theorem unlock_calls : (s.unlock k).calls = s.calls := rfl

section

variable (p : String → SessionRow → Bool)

@[simp] theorem deleteSessions_now : (s.deleteSessions p).now = s.now := rfl

@[simp] theorem deleteSessions_users : (s.deleteSessions p).users = s.users := rfl

@[simp] theorem deleteSessions_calls : (s.deleteSessions p).calls = s.calls := rfl

@[simp] theorem deleteSessions_setupLock : (s.deleteSessions p).setupLock = s.setupLock := rfl

@[simp] theorem get?_deleteSessions :
    (s.deleteSessions p).sessions.get? id = (s.sessions.get? id).filter fun r => !p id r :=
  Dict.get?_filter ..

end

/-! ### Requests -/

/-- The request is in this phase. -/
def At (s : Accounts) (k : ℕ) (ph : Phase) : Prop := ∃ cookie, s.calls.get? k = some ⟨cookie, ph⟩

private theorem At.unique {ph' : Phase} (h : s.At k ph) (h' : s.At k ph') : ph = ph' := by
  obtain ⟨cookie, h⟩ := h
  obtain ⟨cookie', h'⟩ := h'
  cases h.symm.trans h'
  rfl

private theorem At.iff_eq {ph' : Phase} (h : s.At k ph) : s.At k ph' ↔ ph = ph' :=
  ⟨h.unique, fun heq => heq ▸ h⟩

private theorem At.of_get? {cookie : String} (h : s.calls.get? k = some ⟨cookie, ph⟩) : s.At k ph :=
  ⟨cookie, h⟩

/-! ### What opens and what ends a session -/

/-- The session with this id is in the table: of this user, valid until this time. -/
def Has (id uid : String) (exp : ℕ) (s : Accounts) : Prop :=
  ∃ r, s.sessions.get? id = some r ∧ r.userID = uid ∧ r.expiresAt = exp

/-- A request that `Login` or `Setup` has let in as this user gets a new session. -/
def Opens (env : Env) (id uid : String) (exp : ℕ) : Accounts → Event → Accounts → Prop
  | s, .createSession k tok, _ => env.sha256 tok = id ∧ s.sessions.get? id = none ∧
      ∃ remember, s.At k (.verified uid remember) ∧ exp = s.now + sessionTTL remember
  | _, _, _ => False

/-- The user signs out, revokes the session or changes the password elsewhere, or the password is
reset. -/
def Ends (env : Env) (id uid : String) : Accounts → Event → Accounts → Prop
  | s, .logout k, _ =>
    ∃ cookie sess, s.calls.get? k = some ⟨cookie, .arrived (some sess)⟩ ∧ env.sha256 cookie = id
  | s, .deleteRevoked k, _ => s.At k (.revoking id)
  | s, .commitPatch k, _ => ∃ ch, s.At k (.changing ch) ∧ s.taken ch = false ∧ id ∈ ch.ended
  | s, .deleteReset k, _ => s.At k (.resetting uid)
  | _, _, _ => False

/-- The session is pruned. -/
def Expires (exp : ℕ) : Accounts → Event → Accounts → Prop
  | s, .prune, _ => exp < s.now
  | _, _, _ => False

/-! ### Steps -/

/-- **What a step does.** In `refused` the request is answered, and nothing else happens. -/
inductive Does (env : Env) (s : Accounts) : Event → Accounts → Prop
  | tick {d} : Does env s (.tick d) { s with now := s.now + d }
  | found {k c cookie sess lastSeen} (h : s.findSession env cookie = some (sess, lastSeen)) :
      Does env s (.arrive k cookie) (s.setPhase k c (.found sess lastSeen))
  | anonymous {k c cookie} : Does env s (.arrive k cookie) (s.setPhase k c (.arrived none))
  | touched {k c sess lastSeen} (h : s.At k (.found sess lastSeen)) :
      Does env s (.touch k) (s.touch k c sess lastSeen)
  | settingUp {k c name username password hash profile}
      (h : setupProfile env name username password = .ok profile)
      (hhash : env.bcrypt hash password = true) :
      Does env s (.setup k name username password hash) (s.setPhase k c (.settingUp profile hash))
  | locked {k c profile hash} (h : s.At k (.settingUp profile hash)) (hfree : s.setupLock = none) :
      Does env s (.lock k) { s.setPhase k c (.locked profile hash) with setupLock := some k }
  | counted {k c profile hash} (h : s.At k (.locked profile hash))
      (hempty : s.setupRequired = true) :
      Does env s (.count k) (s.setPhase k c (.counted profile hash))
  | setupDone {k c r} : Does env s (.count k) ((s.setPhase k c (.answered r)).unlock k)
  | created {k c id profile hash} (h : s.At k (.counted profile hash)) :
      Does env s (.commitSetup k id) ({ s.setPhase k c (.verified id true) with
        users := s.users.set id ⟨profile, hash⟩ }.unlock k)
  | loggedIn {k c username password remember id} (h : s.login env username password = .ok id) :
      Does env s (.login k username password remember) (s.setPhase k c (.verified id remember))
  | opened {k c tok r uid remember} (h : s.At k (.verified uid remember))
      (hnew : s.sessions.get? (env.sha256 tok) = none) :
      Does env s (.createSession k tok) { s.setPhase k c (.answered r) with
        sessions := s.sessions.set (env.sha256 tok) ⟨uid, s.now + sessionTTL remember, s.now⟩ }
  | loggedOut {k c r cookie sess} (h : s.calls.get? k = some ⟨cookie, .arrived (some sess)⟩) :
      Does env s (.logout k)
        ((s.setPhase k c (.answered r)).deleteSessions fun id _ => id = env.sha256 cookie)
  | revoking {k c publicID rows sess} (h : s.At k (.arrived (some sess)))
      (hrows : rows.Perm (s.idsOf sess.userID)) :
      Does env s (.revoke k publicID rows)
        (s.setPhase k c (.revoking (revokeTarget env publicID rows)))
  | revoked {k c r target} (h : s.At k (.revoking target)) :
      Does env s (.deleteRevoked k)
        ((s.setPhase k c (.answered r)).deleteSessions fun id _ => id = target)
  | profiled {k c p sess profile} (h : s.At k (.arrived (some sess)))
      (hp : patchedProfile env sess.user p = .ok profile) :
      Does env s (.patch k p) (s.setPhase k c (.changing ⟨sess, profile, none, []⟩))
  | compared {k c p sess profile} (h : s.At k (.arrived (some sess)))
      (hp : patchedProfile env sess.user p = .ok profile)
      (hvalid : validatePassword p.newPassword = .ok ()) :
      Does env s (.patch k p) (s.setPhase k c (.compared sess profile p.newPassword))
  | changing {k c hash sess profile newPassword} (h : s.At k (.compared sess profile newPassword))
      (hhash : env.bcrypt hash newPassword = true) :
      Does env s (.deleteOthers k hash) (s.setPhase k c (.changing
        ⟨sess, profile, some hash, (s.idsOf sess.userID).filter (· ≠ sess.id)⟩))
  | changed {k c r ch} (h : s.At k (.changing ch)) (hfree : s.taken ch = false) :
      Does env s (.commitPatch k)
        { (s.setPhase k c (.answered r)).deleteSessions fun id _ => id ∈ ch.ended with
          users := s.users.mapVals fun id u =>
            if id = ch.sess.userID then ⟨ch.profile, ch.hash.getD u.hash⟩ else u }
  | resetting {k c id username password hash} (hvalid : validatePassword password = .ok ())
      (hhash : env.bcrypt hash password = true) :
      Does env s (.reset k username password hash) { s.setPhase k c (.resetting id) with
        users := s.users.mapVals fun id' u => if id' = id then { u with hash } else u }
  | reset {k c r uid} (h : s.At k (.resetting uid)) :
      Does env s (.deleteReset k)
        ((s.setPhase k c (.answered r)).deleteSessions fun _ r => r.userID = uid)
  | failed {k c r msg} : Does env s (.fail k msg) ((s.setPhase k c (.answered r)).unlock k)
  | pruned : Does env s .prune (s.deleteSessions fun _ r => r.expiresAt < s.now)
  | refused {e k c r} (hopens : ∀ id uid exp s', ¬ Opens env id uid exp s e s')
      (hends : ∀ id uid exp s', ¬ (Ends env id uid s e s' ∨ Expires exp s e s'))
      (hcreates : e.creates = false) :
      Does env s e (s.setPhase k c (.answered r))

private theorem patch_does {cookie : String} {sess : Session} {p : AccountPatch}
    (hk : s.calls.get? k = some ⟨cookie, .arrived (some sess)⟩) :
    Does env s (.patch k p) (s.patch env k c sess p) := by
  have hrefused : ∀ r, Does env s (.patch k p) (s.setPhase k c (.answered r)) := fun r =>
    .refused (by simp [Opens]) (by simp [Ends, Expires]) rfl
  rw [patch]
  split
  next => exact hrefused _
  next profile hprofile =>
    split_ifs
    · exact .profiled (.of_get? hk) hprofile
    split
    next => exact hrefused _
    next =>
      split_ifs
      · split
        next => exact hrefused _
        next hvalid => exact .compared (.of_get? hk) hprofile hvalid
      · exact hrefused _

theorem step_does (h : s.step env e = some s') : Does env s e s' := by
  cases e with
  | tick d =>
    obtain rfl := Option.some.inj h
    exact .tick
  | prune =>
    obtain rfl := Option.some.inj h
    exact .pruned
  | arrive k cookie =>
    simp only [step] at h
    split at h
    next =>
      obtain rfl := Option.some.inj h
      rw [arrive]
      split
      next hfind => exact .found hfind
      next => exact .anonymous
    next => cases h
  | touch k =>
    simp only [step] at h
    split at h
    next hk =>
      obtain rfl := Option.some.inj h
      exact .touched (.of_get? hk)
    next => cases h
  | setup k name username password hash =>
    simp only [step] at h
    split at h
    next cookie sess hk =>
      split at h
      next =>
        obtain rfl := Option.some.inj h
        exact .refused (by simp [Opens]) (by simp [Ends, Expires]) rfl
      next profile hprofile =>
        split_ifs at h with hhash
        obtain rfl := Option.some.inj h
        exact .settingUp hprofile hhash
    next => cases h
  | lock k =>
    simp only [step] at h
    split at h
    next hk hfree =>
      obtain rfl := Option.some.inj h
      exact .locked (.of_get? hk) hfree
    next => cases h
  | count k =>
    simp only [step] at h
    split at h
    next hk =>
      split_ifs at h with hempty
      · obtain rfl := Option.some.inj h
        exact .counted (.of_get? hk) hempty
      · obtain rfl := Option.some.inj h
        exact .setupDone
    next => cases h
  | commitSetup k id =>
    simp only [step] at h
    split at h
    next hk hnew =>
      obtain rfl := Option.some.inj h
      exact .created (.of_get? hk)
    next => cases h
  | login k username password remember =>
    simp only [step] at h
    split at h
    next cookie sess hk =>
      split at h
      next hlogin =>
        obtain rfl := Option.some.inj h
        exact .loggedIn hlogin
      next =>
        obtain rfl := Option.some.inj h
        exact .refused (by simp [Opens]) (by simp [Ends, Expires]) rfl
    next => cases h
  | createSession k tok =>
    simp only [step] at h
    split at h
    next hk =>
      obtain rfl := Option.some.inj h
      rw [createSession]
      split
      next hrow =>
        exact .refused (by simp +contextual [Opens, hrow, eq_comm]) (by simp [Ends, Expires]) rfl
      next hnew => exact .opened (.of_get? hk) hnew
    next => cases h
  | logout k =>
    simp only [step] at h
    split at h
    next hk =>
      obtain rfl := Option.some.inj h
      exact .loggedOut hk
    next hk =>
      obtain rfl := Option.some.inj h
      exact .refused (by simp [Opens]) (by simp [Ends, Expires, hk]) rfl
    next => cases h
  | revoke k publicID rows =>
    simp only [step] at h
    split at h
    next hk =>
      split_ifs at h with hrows htarget
      · obtain rfl := Option.some.inj h
        exact .refused (by simp [Opens]) (by simp [Ends, Expires]) rfl
      · obtain rfl := Option.some.inj h
        exact .revoking (.of_get? hk) hrows
    next =>
      obtain rfl := Option.some.inj h
      exact .refused (by simp [Opens]) (by simp [Ends, Expires]) rfl
    next => cases h
  | deleteRevoked k =>
    simp only [step] at h
    split at h
    next hk =>
      obtain rfl := Option.some.inj h
      exact .revoked (.of_get? hk)
    next => cases h
  | patch k p =>
    simp only [step] at h
    split at h
    next hk =>
      obtain rfl := Option.some.inj h
      exact patch_does hk
    next =>
      obtain rfl := Option.some.inj h
      exact .refused (by simp [Opens]) (by simp [Ends, Expires]) rfl
    next => cases h
  | deleteOthers k hash =>
    simp only [step] at h
    split at h
    next hk =>
      split_ifs at h with hhash
      obtain rfl := Option.some.inj h
      exact .changing (.of_get? hk) hhash
    next => cases h
  | commitPatch k =>
    simp only [step] at h
    split at h
    next hk =>
      obtain rfl := Option.some.inj h
      rw [commitPatch]
      split_ifs with htaken
      · refine .refused (by simp [Opens]) (fun id uid exp s' => ?_) rfl
        rintro (⟨ch, hch, hfree, -⟩ | hexp)
        · cases hch.unique (.of_get? hk)
          exact Bool.false_ne_true (hfree.symm.trans htaken)
        · exact hexp
      · exact .changed (.of_get? hk) (Bool.eq_false_iff.mpr htaken)
    next => cases h
  | reset k username password hash =>
    simp only [step] at h
    split at h
    next =>
      split_ifs at h with hhash
      obtain rfl := Option.some.inj h
      rw [Accounts.reset]
      split
      next => exact .refused (by simp [Opens]) (by simp [Ends, Expires]) rfl
      next hvalid =>
        split
        next => exact .refused (by simp [Opens]) (by simp [Ends, Expires]) rfl
        next => exact .resetting hvalid hhash
    next => cases h
  | deleteReset k =>
    simp only [step] at h
    split at h
    next hk =>
      obtain rfl := Option.some.inj h
      exact .reset (.of_get? hk)
    next => cases h
  | fail k msg =>
    simp only [step] at h
    split at h
    next => cases h
    next =>
      obtain rfl := Option.some.inj h
      exact .failed
    next => cases h

/-! ### The table of sessions -/

private theorem has_congr (h : s'.sessions = s.sessions) :
    Has id uid exp s' ↔ Has id uid exp s := by
  rw [Has, Has, h]

@[simp] theorem has_setPhase : Has id uid exp (s.setPhase k c ph) ↔ Has id uid exp s := Iff.rfl

private theorem has_deleteSessions {p : String → SessionRow → Bool} {q : Prop}
    (hp : ∀ r, r.userID = uid → r.expiresAt = exp → (p id r = true ↔ q)) :
    Has id uid exp (s.deleteSessions p) ↔ Has id uid exp s ∧ ¬ q := by
  simp only [Has, get?_deleteSessions, Option.filter_eq_some_iff, Bool.not_eq_true',
    Bool.eq_false_iff]
  constructor
  · rintro ⟨r, ⟨hr, hkept⟩, rfl, rfl⟩
    exact ⟨⟨r, hr, rfl, rfl⟩, fun hq => hkept ((hp r rfl rfl).mpr hq)⟩
  · rintro ⟨⟨r, hr, huid, hexp⟩, hq⟩
    exact ⟨r, ⟨hr, fun hdel => hq ((hp r huid hexp).mp hdel)⟩, huid, hexp⟩

private theorem has_touch {sess : Session} {lastSeen : ℕ} :
    Has id uid exp (s.touch k c sess lastSeen) ↔ Has id uid exp s := by
  rw [touch]
  split_ifs
  · simp only [Has, Dict.get?_mapVals, Option.map_eq_some_iff]
    constructor
    · rintro ⟨_, ⟨r, hr, rfl⟩, huid, hexp⟩
      refine ⟨r, hr, ?_, ?_⟩
      · rwa [apply_ite SessionRow.userID, ite_self] at huid
      · rwa [apply_ite SessionRow.expiresAt, ite_self] at hexp
    · rintro ⟨r, hr, huid, hexp⟩
      refine ⟨_, ⟨r, hr, rfl⟩, ?_, ?_⟩
      · rwa [apply_ite SessionRow.userID, ite_self]
      · rwa [apply_ite SessionRow.expiresAt, ite_self]
  · exact has_congr rfl

private theorem has_set {row : SessionRow} {i : String} (hnew : s.sessions.get? i = none) :
    (∃ r, (s.sessions.set i row).get? id = some r ∧ r.userID = uid ∧ r.expiresAt = exp) ↔
      (i = id ∧ row.userID = uid ∧ row.expiresAt = exp) ∨ Has id uid exp s := by
  simp only [Dict.get?_set, Has]
  by_cases hi : id = i
  · subst hi
    simp [hnew]
  · simp [hi, Ne.symm hi]

/-- **What a step does to the table of sessions.** -/
theorem has_step (h : s.step env e = some s') : Has id uid exp s' ↔
    Opens env id uid exp s e s' ∨
      Has id uid exp s ∧ ¬ (Ends env id uid s e s' ∨ Expires exp s e s') := by
  cases step_does h with
  | opened hk hnew =>
    rename_i k c tok r uid' remember
    refine (has_set hnew).trans (or_congr ?_ (by simp [Ends, Expires]))
    constructor
    · rintro ⟨rfl, rfl, rfl⟩
      exact ⟨rfl, hnew, remember, hk, rfl⟩
    · rintro ⟨rfl, -, remember', hk', rfl⟩
      cases hk.unique hk'
      exact ⟨rfl, rfl, rfl⟩
  | touched hk => simp [Opens, Ends, Expires, has_touch]
  | loggedOut hk =>
    rename_i k c r cookie sess
    rw [has_deleteSessions (q := env.sha256 cookie = id) (by simp [eq_comm]), has_setPhase]
    simp [Opens, Ends, Expires, hk]
  | revoked hk =>
    rename_i k c r target
    rw [has_deleteSessions (q := target = id) (by simp [eq_comm]), has_setPhase]
    simp [Opens, Ends, Expires, hk.iff_eq]
  | changed hk hfree =>
    rename_i k c r ch
    have hdel : Has id uid exp ((s.setPhase k c (.answered r)).deleteSessions fun i _ =>
        i ∈ ch.ended) ↔ Has id uid exp s ∧ id ∉ ch.ended :=
      has_deleteSessions (by simp)
    refine (has_congr rfl).trans (hdel.trans ?_)
    simp [Opens, Ends, Expires, hk.iff_eq, hfree]
  | reset hk =>
    rename_i k c r uid'
    rw [has_deleteSessions (q := uid' = uid) (by simp +contextual [eq_comm]), has_setPhase]
    simp [Opens, Ends, Expires, hk.iff_eq]
  | pruned =>
    rw [has_deleteSessions (q := exp < s.now) (by simp +contextual)]
    simp [Opens, Ends, Expires]
  | refused hopens hends hcreates =>
    rw [has_setPhase]
    exact ⟨fun hs => .inr ⟨hs, hends id uid exp _⟩,
      fun hs => hs.elim (fun ho => absurd ho (hopens id uid exp _)) And.left⟩
  | _ => exact (has_congr (s := s) rfl).trans (by simp [Opens, Ends, Expires])

end Accounts

end Dockhand.Auth.Sessions
