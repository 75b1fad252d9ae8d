import Dockhand.Auth.Requests

/-!
# Who is signed in

Results about every run from a new installation. A cookie signs in exactly while the history of
its session says so (`authenticate_iff`), and behind each session there is a request that gave a
password (`proved_of_authenticate`). Resetting or changing a password ends what was opened before
(`opened_after_reset`, `opened_after_change`). `Setup` creates one account at most
(`created_le_one`), and accounts stay well formed (`valid_of_run`).
-/

namespace Dockhand.Auth.Sessions

open Go Transition
open Registry (Env validatePassword validUsername)

variable {env : Env}

/-! ### Well-formed accounts -/

/-- A profile that the checks of `Setup` and `UpdateAccount` let through. -/
structure Profile.Valid (p : Profile) : Prop where
  name : p.name ≠ ""
  username : validUsername p.username = .ok ()
  role : p.role = "admin"
  theme : p.theme = "light" ∨ p.theme = "dark" ∨ p.theme = "system"

/-- The hash is that of a password which the policy allows. -/
def Admissible (env : Env) (hash : String) : Prop :=
  ∃ password, validatePassword password = .ok () ∧ env.bcrypt hash password = true

private theorem bind_eq_ok {ε α β : Type} {x : Except ε α} {f : α → Except ε β} {b : β} :
    x >>= f = .ok b ↔ ∃ a, x = .ok a ∧ f a = .ok b := by
  cases x with
  | error err => exact ⟨nofun, fun ⟨a, ha, _⟩ => nomatch ha⟩
  | ok a => exact ⟨fun h => ⟨a, rfl, h⟩, fun ⟨_, ha, h⟩ => Except.ok.inj ha ▸ h⟩

private theorem ne_empty_of_validUsername {u : String} (h : validUsername u = .ok ()) : u ≠ "" := by
  rintro rfl
  simp [validUsername] at h

private theorem setupProfile_valid {name username password : String} {p : Profile}
    (h : setupProfile env name username password = .ok p) :
    p.Valid ∧ validatePassword password = .ok () := by
  obtain ⟨_, huser, h⟩ := bind_eq_ok.mp h
  obtain ⟨_, hpass, h⟩ := bind_eq_ok.mp h
  obtain rfl := Except.ok.inj h
  refine ⟨⟨?_, huser, rfl, .inr (.inr rfl)⟩, hpass⟩
  dsimp only
  split_ifs with hname
  · rw [Registry.Env.normalizeName, trimSpace_trimSpace]
    exact ne_empty_of_validUsername huser
  · exact hname

private theorem patchedProfile_valid {u q : Profile} {p : AccountPatch} (hu : u.Valid)
    (h : patchedProfile env u p = .ok q) : q.Valid := by
  obtain ⟨name, hname, h⟩ := bind_eq_ok.mp h
  obtain ⟨username, huser, h⟩ := bind_eq_ok.mp h
  obtain ⟨theme, htheme, h⟩ := bind_eq_ok.mp h
  obtain rfl := Except.ok.inj h
  refine ⟨?_, ?_, hu.role, ?_⟩
  · rw [AccountPatch.newName] at hname
    split at hname
    next => exact Except.ok.inj hname ▸ hu.name
    next new hn =>
      split_ifs at hname with hempty
      exact Except.ok.inj hname ▸ hempty
  · rw [AccountPatch.newUsername] at huser
    split at huser
    next => exact Except.ok.inj huser ▸ hu.username
    next new hn =>
      cases hvalid : validUsername (env.normalizeName new) with
      | error msg => simp [hvalid, Except.map] at huser
      | ok _ =>
        rw [hvalid] at huser
        exact Except.ok.inj huser ▸ hvalid
  · rw [AccountPatch.newTheme] at htheme
    split at htheme
    next => exact Except.ok.inj htheme ▸ hu.theme
    next new ht =>
      split_ifs at htheme with hknown
      exact Except.ok.inj htheme ▸ hknown

namespace Accounts

variable {s s' t : Accounts} {e : Event} {es es' : List Event} {k j : ℕ} {c : Call}
  {ph : Phase} {id uid tok : String} {exp : ℕ}

/-! ### Queries -/

private theorem findSession_eq_some {sess : Session} {lastSeen : ℕ} :
    s.findSession env tok = some (sess, lastSeen) ↔
      tok ≠ "" ∧ ∃ r u, s.sessions.get? (env.sha256 tok) = some r ∧ s.now < r.expiresAt ∧
        s.users.get? r.userID = some u ∧
        sess = ⟨env.sha256 tok, r.userID, u.profile⟩ ∧ lastSeen = r.lastSeenAt := by
  rw [findSession]
  split_ifs with hempty
  · simp [hempty]
  · simp only [Option.bind_eq_some_iff, Option.ite_none_right_eq_some, Option.map_eq_some_iff,
      Prod.mk.injEq]
    constructor
    · rintro ⟨r, hr, hnow, u, hu, rfl, rfl⟩
      exact ⟨hempty, r, u, hr, hnow, hu, rfl, rfl⟩
    · rintro ⟨-, r, u, hr, hnow, hu, rfl, rfl⟩
      exact ⟨r, hr, hnow, u, hu, rfl, rfl⟩

private theorem user_of_findSession {sess : Session} {lastSeen : ℕ}
    (h : s.findSession env tok = some (sess, lastSeen)) :
    ∃ u, s.users.get? sess.userID = some u ∧ sess.user = u.profile := by
  obtain ⟨-, r, u, -, -, hu, rfl, -⟩ := findSession_eq_some.mp h
  exact ⟨u, hu, rfl⟩

private theorem user_of_login {username password : String}
    (h : s.login env username password = .ok id) :
    ∃ u, s.users.get? id = some u ∧ u.profile.username = env.normalizeName username ∧
      env.bcrypt u.hash password = true := by
  rw [login] at h
  split at h
  next id' u hfind =>
    split_ifs at h with hpass
    obtain rfl := Except.ok.inj h
    have hname := List.find?_some hfind
    exact ⟨u, Dict.get?_eq_some_iff.mpr (List.mem_of_find?_eq_some hfind), by simpa using hname,
      hpass⟩
  next => cases h

private theorem eq_empty_of_setupRequired (h : s.setupRequired = true) : s.users = ∅ :=
  Dict.ext_get? fun id => by
    rw [Dict.get?, List.isEmpty_iff.mp h]
    rfl

/-! ### What holds of a request -/

private theorem at_setPhase {ph' : Phase} :
    (s.setPhase k c ph).At j ph' ↔ if j = k then ph = ph' else s.At j ph' := by
  by_cases hj : j = k
  · simp [At, setPhase, hj]
  · simp [At, setPhase, hj]

theorem At.of_calls {ph' : Phase} (h : s'.At j ph)
    (hcalls : s'.calls = s.calls.set k ⟨c.cookie, ph'⟩)
    (hne : ph' ≠ ph) : s.At j ph := by
  have hset : (s.setPhase k c ph').At j ph := by
    rwa [At, setPhase, ← hcalls]
  rw [at_setPhase] at hset
  split_ifs at hset
  · exact absurd hset hne
  · exact hset

/-- What a request has made sure of. Between its lock and its commit, `Setup` is alone with the
table of users. -/
def Fine (env : Env) (s : Accounts) (k : ℕ) : Phase → Prop
  | .found sess _ => sess.user.Valid
  | .arrived sess => ∀ x ∈ sess, x.user.Valid
  | .settingUp profile hash => profile.Valid ∧ Admissible env hash
  | .locked profile hash => (profile.Valid ∧ Admissible env hash) ∧ s.setupLock = some k
  | .counted profile hash =>
    (profile.Valid ∧ Admissible env hash) ∧ s.setupLock = some k ∧ s.users = ∅
  | .verified uid _ => (s.users.get? uid).isSome
  | .compared _ profile newPassword => profile.Valid ∧ validatePassword newPassword = .ok ()
  | .changing ch => ch.profile.Valid ∧ ∀ hash ∈ ch.hash, Admissible env hash
  | .revoking _ => True
  | .resetting _ => True
  | .answered _ => True

theorem Fine.frame (h : s.Fine env j ph)
    (husers : ∀ uid, (s.users.get? uid).isSome → (s'.users.get? uid).isSome)
    (hlock : s.setupLock = some j → s'.setupLock = some j ∧ (s.users = ∅ → s'.users = ∅)) :
    s'.Fine env j ph := by
  cases ph with
  | locked profile hash => exact ⟨h.1, (hlock h.2).1⟩
  | counted profile hash => exact ⟨h.1, (hlock h.2.1).1, (hlock h.2.1).2 h.2.2⟩
  | verified uid remember => exact husers uid h
  | _ => exact h

/-- What holds between the steps: every request is where its phase says, users are valid and of
admissible hashes, sessions have an owner, and there is one user at most. -/
structure Inv (env : Env) (s : Accounts) : Prop where
  fine : ∀ j ph, s.At j ph → s.Fine env j ph
  user : ∀ id u, s.users.get? id = some u → u.profile.Valid ∧ Admissible env u.hash
  owner : ∀ id r, s.sessions.get? id = some r → (s.users.get? r.userID).isSome
  single : s.users.entries.length ≤ 1

private theorem inv_new : Inv env {} where
  fine j ph h := by
    obtain ⟨cookie, h⟩ := h
    cases h
  user id u h := by cases h
  owner id r h := by cases h
  single := Nat.zero_le 1

namespace Inv

private theorem setPhase (h : s.Inv env) (hph : s.Fine env k ph) : (s.setPhase k c ph).Inv env where
  fine j ph' hj := by
    rw [at_setPhase] at hj
    split_ifs at hj with hk
    · obtain rfl := hk
      obtain rfl := hj
      exact hph.frame (fun _ => id) fun hlock => ⟨hlock, fun hempty => hempty⟩
    · exact (h.fine j ph' hj).frame (fun _ => id) fun hlock => ⟨hlock, fun hempty => hempty⟩
  user := h.user
  owner := h.owner
  single := h.single

theorem sessions {m : Dict String SessionRow} (h : s.Inv env)
    (hm : ∀ id r, m.get? id = some r → (s.users.get? r.userID).isSome) :
    Inv env { s with sessions := m } where
  fine j ph hj := (h.fine j ph hj).frame (fun _ => id) fun hlock => ⟨hlock, fun hempty => hempty⟩
  user := h.user
  owner := hm
  single := h.single

theorem deleteSessions (h : s.Inv env) (p : String → SessionRow → Bool) :
    (s.deleteSessions p).Inv env :=
  h.sessions fun id r hr =>
    h.owner id r (Option.filter_eq_some_iff.mp ((get?_deleteSessions p).symm.trans hr)).1

/-- The users are there as before, with other contents. -/
theorem mapUsers (h : s.Inv env) {f : String → User → User}
    (hf : ∀ id u, s.users.get? id = some u →
      (f id u).profile.Valid ∧ Admissible env (f id u).hash) :
    Inv env { s with users := s.users.mapVals f } where
  fine j ph hj :=
    (h.fine j ph hj).frame (by simp) fun hlock => ⟨hlock, fun hempty => by simp [hempty]; rfl⟩
  user id u hu := by
    obtain ⟨u', hu', rfl⟩ := Option.map_eq_some_iff.mp ((Dict.get?_mapVals ..).symm.trans hu)
    exact hf id u' hu'
  owner id r hr := by simpa using h.owner id r hr
  single := by simpa [Dict.mapVals] using h.single

/-- The transaction of a request ends, and its lock with it. -/
theorem answered {r : Reply} (h : s.Inv env) :
    ((s.setPhase k c (.answered r)).unlock k).Inv env where
  fine j ph hj := by
    have hphase : (s.setPhase k c (.answered r)).Inv env := h.setPhase trivial
    rcases eq_or_ne j k with rfl | hjk
    · obtain rfl : Phase.answered r = ph := by simpa using at_setPhase.mp hj
      trivial
    · refine (hphase.fine j ph hj).frame (fun _ => id) fun hlock => ⟨?_, fun hempty => hempty⟩
      simpa [Accounts.unlock, hjk] using hlock
  user := h.user
  owner := h.owner
  single := h.single

/-- `Setup` commits: its lock has kept the others away. -/
theorem created {profile : Profile} {hash : String} (h : s.Inv env)
    (hk : s.At k (.counted profile hash)) :
    Inv env ({ s.setPhase k c (.verified id true) with
      users := s.users.set id ⟨profile, hash⟩ }.unlock k) := by
  obtain ⟨hok, hlock, hempty⟩ := h.fine k _ hk
  refine ⟨fun j ph hj => ?_, fun id' u hu => ?_, fun id' r hr => ?_, ?_⟩
  · rcases eq_or_ne j k with rfl | hjk
    · obtain rfl : Phase.verified id true = ph := by simpa using at_setPhase.mp hj
      simp [Fine]
    · have hj' : s.At j ph := by simpa [hjk] using at_setPhase.mp hj
      refine (h.fine j ph hj').frame (fun uid huid => ?_) fun hlock' => ?_
      · simp [hempty] at huid
      · exact absurd (Option.some.inj (hlock'.symm.trans hlock)) hjk
  · have hu' : id' = id ∧ (⟨profile, hash⟩ : User) = u := by simpa [hempty] using hu
    obtain ⟨-, rfl⟩ := hu'
    exact hok
  · have hr' := h.owner id' r hr
    simp [hempty] at hr'
  · simp [hempty]
    rfl

private theorem reply {r : Reply} (h : s.Inv env) : (s.setPhase k c (.answered r)).Inv env :=
  h.setPhase trivial

/-- `Setup` takes the lock. -/
theorem locked {profile : Profile} {hash : String} (h : s.Inv env)
    (hk : s.At k (.settingUp profile hash)) (hfree : s.setupLock = none) :
    Inv env { s.setPhase k c (.locked profile hash) with setupLock := some k } where
  fine j ph hj := by
    rcases eq_or_ne j k with rfl | hjk
    · obtain rfl : Phase.locked profile hash = ph := by simpa using at_setPhase.mp hj
      exact ⟨h.fine j _ hk, rfl⟩
    · have hj' : s.At j ph := by simpa [hjk] using at_setPhase.mp hj
      refine (h.fine j ph hj').frame (fun _ => id) fun hlock => ?_
      cases hfree.symm.trans hlock
  user := h.user
  owner := h.owner
  single := h.single

theorem touch {sess : Session} {lastSeen : ℕ} (h : s.Inv env) (hk : s.At k (.found sess lastSeen)) :
    (s.touch k c sess lastSeen).Inv env := by
  have hphase : (s.setPhase k c (.arrived (some sess))).Inv env :=
    h.setPhase fun x hx => Option.some.inj hx ▸ h.fine k _ hk
  rw [Accounts.touch]
  split_ifs
  · refine hphase.sessions fun id r hr => ?_
    obtain ⟨r', hr', rfl⟩ := Option.map_eq_some_iff.mp ((Dict.get?_mapVals ..).symm.trans hr)
    rw [apply_ite SessionRow.userID, ite_self]
    exact h.owner id r' hr'
  · exact hphase

theorem step (h : s.Inv env) (he : s.step env e = some s') : s'.Inv env := by
  cases step_does he with
  | tick =>
    exact ⟨fun j ph hj => (h.fine j ph hj).frame (fun _ => id) fun hl => ⟨hl, id⟩, h.user, h.owner,
      h.single⟩
  | found hfind =>
    obtain ⟨u, hu, huser⟩ := user_of_findSession hfind
    have hvalid := (h.user _ u hu).1
    exact h.setPhase (by rwa [← huser] at hvalid)
  | anonymous => exact h.setPhase (by simp [Fine])
  | touched hk => exact h.touch hk
  | settingUp hp hhash =>
    obtain ⟨hprofile, hpass⟩ := setupProfile_valid hp
    exact h.setPhase ⟨hprofile, _, hpass, hhash⟩
  | locked hk hfree => exact h.locked hk hfree
  | counted hk hempty =>
    obtain ⟨hok, hlock⟩ := h.fine _ _ hk
    exact h.setPhase ⟨hok, hlock, eq_empty_of_setupRequired hempty⟩
  | setupDone => exact h.answered
  | created hk => exact h.created hk
  | loggedIn hlogin =>
    obtain ⟨u, hu, -⟩ := user_of_login hlogin
    exact h.setPhase (Option.isSome_of_eq_some hu)
  | opened hk hnew =>
    refine h.reply.sessions fun id r hr => ?_
    rw [Dict.get?_set] at hr
    split_ifs at hr with hid
    · obtain rfl := Option.some.inj hr
      exact h.fine _ _ hk
    · exact h.owner id r hr
  | loggedOut hk => exact h.reply.deleteSessions _
  | revoking hk hrows => exact h.setPhase trivial
  | revoked hk => exact h.reply.deleteSessions _
  | profiled hk hp =>
    exact h.setPhase ⟨patchedProfile_valid (h.fine _ _ hk _ rfl) hp, by simp⟩
  | compared hk hp hvalid =>
    exact h.setPhase ⟨patchedProfile_valid (h.fine _ _ hk _ rfl) hp, hvalid⟩
  | changing hk hhash =>
    obtain ⟨hprofile, hvalid⟩ := h.fine _ _ hk
    exact h.setPhase ⟨hprofile, by simpa using ⟨_, hvalid, hhash⟩⟩
  | changed hk hfree =>
    obtain ⟨hprofile, hhash⟩ := h.fine _ _ hk
    refine (h.reply.deleteSessions _).mapUsers fun id u hu => ?_
    obtain ⟨huser, hadm⟩ := h.user id u hu
    split_ifs
    · refine ⟨hprofile, ?_⟩
      cases hnew : Change.hash _ with
      | none => exact hadm
      | some hash => exact hhash hash hnew
    · exact ⟨huser, hadm⟩
  | resetting hvalid hhash =>
    rename_i k c uid username password hash
    have hphase : (s.setPhase k c (.resetting uid)).Inv env := h.setPhase trivial
    refine hphase.mapUsers fun id u hu => ?_
    obtain ⟨huser, hadm⟩ := h.user id u hu
    split_ifs
    · exact ⟨huser, _, hvalid, hhash⟩
    · exact ⟨huser, hadm⟩
  | reset hk => exact h.reply.deleteSessions _
  | failed => exact h.answered
  | pruned => exact h.deleteSessions _
  | refused => exact h.setPhase trivial

end Inv

/-! ### A new installation -/

namespace Example

/-- Hashes are their own inputs, tagged. -/
def tagged : Env where
  toLower s := String.ofList (s.toList.map Char.toLower)
  sha256 := ("sha256:" ++ ·)
  bcrypt hash pass := hash = "bcrypt:" ++ pass

/-- The administrator signs up, and signs in on another device. -/
def twoDevices : List Event :=
  [.arrive 0 "", .setup 0 "" "Admin" "first password" "bcrypt:first password", .lock 0, .count 0,
    .commitSetup 0 "u1", .createSession 0 "laptop", .arrive 1 "",
    .login 1 "admin" "first password" false, .createSession 1 "phone"]

/-- The password is changed on the first device, up to the commit. -/
def changing : List Event :=
  twoDevices ++ [.arrive 2 "laptop", .touch 2,
    .patch 2 { currentPassword := "first password", newPassword := "second password" },
    .deleteOthers 2 "bcrypt:second password"]

/-- A new sign-in on the other device. -/
def again : List Event :=
  [.arrive 4 "", .login 4 "admin" "second password" true, .createSession 4 "phone again"]

/-- The password is reset, up to the `DELETE`. -/
def resetting : List Event :=
  twoDevices ++ [.reset 3 "admin" "second password" "bcrypt:second password"]

/-- The session that a cookie signs in to after these events. -/
def signedIn (es : List Event) (tok : String) : Option Session :=
  (exec (step tagged) {} es).bind fun t => t.authenticate tagged tok

/-- The session of the other device, once it has signed in again. -/
def newSession : Session :=
  ⟨"sha256:phone again", "u1", ⟨"admin", "admin", "admin", "system"⟩⟩

/-- The change under way on the first device. -/
def theChange : Change :=
  ⟨⟨"sha256:laptop", "u1", newSession.user⟩, newSession.user, some "bcrypt:second password",
    ["sha256:phone"]⟩

private theorem runs_twoDevices : (exec (step tagged) {} twoDevices).isSome := by decide +kernel

end Example

/-! ### The table of users -/

private theorem length_users_step (he : s.step env e = some s') (h : s.Inv env) :
    s'.users.entries.length = s.users.entries.length + e.creates.toNat := by
  cases step_does he with
  | created hk =>
    obtain ⟨-, -, hempty⟩ := h.fine _ _ hk
    simp only [unlock_users, hempty]
    rfl
  | changed => simp [Dict.mapVals, Event.creates]
  | resetting => simp [Dict.mapVals, Event.creates]
  | touched hk =>
    rw [touch]
    split_ifs <;> rfl
  | refused hopens hends hcreates => simp [hcreates]
  | _ => rfl

/-! ### Sessions -/

private theorem authenticate_eq_some (h : s.Inv env) :
    (∃ sess, s.authenticate env tok = some sess ∧ sess.userID = uid) ↔
      tok ≠ "" ∧ ∃ exp, s.now < exp ∧ s.Has (env.sha256 tok) uid exp := by
  simp only [authenticate, Option.map_eq_some_iff, Prod.exists, findSession_eq_some]
  constructor
  · rintro ⟨_, ⟨_, _, ⟨htok, r, u, hr, hnow, hu, rfl, rfl⟩, rfl⟩, rfl⟩
    exact ⟨htok, _, hnow, r, hr, rfl, rfl⟩
  · rintro ⟨htok, _, hnow, r, hr, rfl, rfl⟩
    obtain ⟨u, hu⟩ := Option.isSome_iff_exists.mp (h.owner _ r hr)
    exact ⟨_, ⟨_, _, ⟨htok, r, u, hr, hnow, hu, rfl, rfl⟩, rfl⟩, rfl⟩

private theorem id_of_authenticate {sess : Session} (h : s.authenticate env tok = some sess) :
    sess.id = env.sha256 tok := by
  simp only [authenticate, Option.map_eq_some_iff, Prod.exists, findSession_eq_some] at h
  obtain ⟨_, _, ⟨-, r, u, -, -, -, rfl, -⟩, rfl⟩ := h
  rfl

private theorem inv_of_run (hrun : exec (step env) {} es = some t) : t.Inv env :=
  exec_invariant (fun _ _ _ h he => h.step he) inv_new hrun

private theorem now_le_step (he : s.step env e = some s') : s.now ≤ s'.now := by
  cases step_does he with
  | tick => exact Nat.le_add_right ..
  | touched hk =>
    rw [touch]
    split_ifs <;> exact le_rfl
  | _ => exact le_rfl

private theorem has_iff_since (hrun : exec (step env) {} es = some t) :
    t.Has id uid exp ↔ Since (step env) (Opens env id uid exp)
      (fun s e s' => Ends env id uid s e s' ∨ Expires exp s e s') {} es :=
  exec_since_iff (I := fun _ => True) (fun _ _ _ _ _ => trivial) (fun _ _ _ _ he => has_step he)
    trivial (by simp [Has]) hrun

/-- **Accepted cookies.** In every run from a new installation, a cookie signs in as a user exactly
when a session with its hash has been opened for the user since it was last ended, and has not
expired. -/
theorem authenticate_iff (hrun : exec (step env) {} es = some t) :
    (∃ sess, t.authenticate env tok = some sess ∧ sess.userID = uid) ↔
      tok ≠ "" ∧ ∃ exp, t.now < exp ∧
        Since (step env) (Opens env (env.sha256 tok) uid exp) (Ends env (env.sha256 tok) uid) {}
          es := by
  rw [authenticate_eq_some (inv_of_run hrun)]
  refine and_congr_right fun _ => exists_congr fun exp => and_congr_right fun hnow => ?_
  rw [has_iff_since hrun]
  -- a session that is valid now has not been pruned
  refine since_or_iff hrun ((allSteps_le (f := now) (fun _ _ _ => now_le_step) hrun).imp ?_)
  intro s e s' hle hexp
  cases e with
  | prune => exact absurd (hexp.trans_le hle) hnow.asymm
  | _ => exact hexp

/-- A user who signs in on two devices and out on one of them. -/
theorem authenticate_iff_twoDevices : ∃ t, exec (step Example.tagged) {} Example.twoDevices =
    some t ∧
    ((∃ sess, t.authenticate Example.tagged "phone" = some sess ∧ sess.userID = "u1") ↔
      "phone" ≠ "" ∧ ∃ exp, t.now < exp ∧ Since (step Example.tagged)
        (Opens Example.tagged (Example.tagged.sha256 "phone") "u1" exp)
        (Ends Example.tagged (Example.tagged.sha256 "phone") "u1") {} Example.twoDevices) := by
  obtain ⟨t, ht⟩ := Option.isSome_iff_exists.mp Example.runs_twoDevices
  exact ⟨t, ht, authenticate_iff ht⟩

/-- **One account.** However the requests to set up interleave, one of them at most creates an
account, and setup is required until it has. -/
theorem created_le_one (hrun : exec (step env) {} es = some t) :
    es.countP Event.creates ≤ 1 ∧ (t.setupRequired = true ↔ es.countP Event.creates = 0) := by
  have hcount : t.users.entries.length = 0 + es.countP Event.creates :=
    exec_countP (f := fun s => s.users.entries.length) (fun _ _ _ h he => Inv.step h he)
      (fun _ _ _ h he => length_users_step he h) inv_new hrun
  have hsingle := (inv_of_run hrun).single
  refine ⟨by omega, ?_⟩
  rw [setupRequired, List.isEmpty_iff, ← List.length_eq_zero_iff]
  omega

/-- The same run creates the one user at its beginning. -/
theorem created_le_one_twoDevices : ∃ t, exec (step Example.tagged) {} Example.twoDevices = some t ∧
    Example.twoDevices.countP Event.creates ≤ 1 ∧
      (t.setupRequired = true ↔ Example.twoDevices.countP Event.creates = 0) := by
  obtain ⟨t, ht⟩ := Option.isSome_iff_exists.mp Example.runs_twoDevices
  exact ⟨t, ht, created_le_one ht⟩

/-- **Well-formed accounts.** Whatever requests have set them up and changed them, all accounts have
a valid profile and the hash of a password that the policy allows. -/
theorem valid_of_run (hrun : exec (step env) {} es = some t) :
    ∀ id u, t.users.get? id = some u → u.profile.Valid ∧ Admissible env u.hash :=
  (inv_of_run hrun).user

/-- The user of the same run is valid. -/
theorem valid_of_run_twoDevices : ∃ t, exec (step Example.tagged) {} Example.twoDevices = some t ∧
    ∀ id u, t.users.get? id = some u → u.profile.Valid ∧ Admissible Example.tagged u.hash := by
  obtain ⟨t, ht⟩ := Option.isSome_iff_exists.mp Example.runs_twoDevices
  exact ⟨t, ht, valid_of_run ht⟩

/-! ### Passwords -/

/-- The request gives the password of this account, or it creates the account. -/
def Proves (env : Env) (k : ℕ) (uid : String) : Accounts → Event → Accounts → Prop
  | s, .login j username password _, _ => j = k ∧ ∃ u, s.users.get? uid = some u ∧
      u.profile.username = env.normalizeName username ∧ env.bcrypt u.hash password = true
  | _, .commitSetup j id, _ => j = k ∧ id = uid
  | _, _, _ => False

theorem verified_step (he : s.step env e = some s')
    (h : ∃ remember, s'.At k (.verified uid remember)) :
    (∃ remember, s.At k (.verified uid remember)) ∨ Proves env k uid s e s' := by
  obtain ⟨remember, h⟩ := h
  cases step_does he with
  | tick => exact .inl ⟨remember, h⟩
  | pruned => exact .inl ⟨remember, h⟩
  | touched hk =>
    rw [touch] at h
    split_ifs at h <;> exact .inl ⟨remember, h.of_calls rfl (by simp)⟩
  | created hk =>
    rename_i j c id profile hash
    rcases eq_or_ne k j with rfl | hkj
    · obtain ⟨rfl, -⟩ : id = uid ∧ true = remember := by simpa using at_setPhase.mp h
      exact .inr ⟨rfl, rfl⟩
    · exact .inl ⟨remember, by simpa [hkj] using at_setPhase.mp h⟩
  | loggedIn hlogin =>
    rename_i j c username password remember' id
    rcases eq_or_ne k j with rfl | hkj
    · obtain ⟨rfl, -⟩ : id = uid ∧ remember' = remember := by simpa using at_setPhase.mp h
      exact .inr ⟨rfl, user_of_login hlogin⟩
    · exact .inl ⟨remember, by simpa [hkj] using at_setPhase.mp h⟩
  | _ => exact .inl ⟨remember, h.of_calls rfl (by simp)⟩

/-- **Behind each session there is a password.** A cookie that is accepted was handed out to a
request that had given the password of the account, or had created the account. -/
theorem proved_of_authenticate {sess : Session} (hrun : exec (step env) {} es = some t)
    (hauth : t.authenticate env tok = some sess) :
    ∃ pre k tok' post, es = pre ++ .createSession k tok' :: post ∧
      env.sha256 tok' = env.sha256 tok ∧
      Once (step env) (Proves env k sess.userID) {} pre := by
  obtain ⟨-, exp, -, hsince⟩ := (authenticate_iff hrun).mp ⟨sess, hauth, rfl⟩
  obtain ⟨pre, e, post, s, s', rfl, hpre, he, hopens, -⟩ := hsince
  cases e with
  | createSession k tok' =>
    obtain ⟨hid, -, remember, hk, -⟩ := hopens
    exact ⟨pre, k, tok', post, rfl, hid,
      exec_once (H := fun s => ∃ remember, s.At k (.verified sess.userID remember))
        (fun _ _ _ he h => verified_step he h) (by simp [At]) hpre ⟨remember, hk⟩⟩
  | _ => cases hopens

/-- The session on the phone goes back to the login with the password. -/
theorem proved_of_authenticate_twoDevices : ∃ t sess, exec (step Example.tagged) {}
    Example.twoDevices = some t ∧
    t.authenticate Example.tagged "phone" = some sess ∧
    ∃ pre k tok' post, Example.twoDevices = pre ++ .createSession k tok' :: post ∧
      Example.tagged.sha256 tok' = Example.tagged.sha256 "phone" ∧
      Once (step Example.tagged) (Proves Example.tagged k sess.userID) {} pre := by
  have hsigned : (Example.signedIn Example.twoDevices "phone").isSome := by decide +kernel
  obtain ⟨sess, hsess⟩ := Option.isSome_iff_exists.mp hsigned
  obtain ⟨t, ht, hauth⟩ := Option.bind_eq_some_iff.mp hsess
  exact ⟨t, sess, ht, hauth, proved_of_authenticate ht hauth⟩

/-- **Reset passwords.** Once `ResetPassword` has run, only those cookies are accepted for the
account that have been handed out after its last statement. -/
theorem opened_after_reset {sess : Session} (hrun : exec (step env) {} es = some s)
    (hk : s.At k (.resetting uid)) (he : s.step env (.deleteReset k) = some s')
    (hrun' : exec (step env) s' es' = some t) (hauth : t.authenticate env tok = some sess)
    (huser : sess.userID = uid) :
    ∃ j tok', .createSession j tok' ∈ es' ∧ env.sha256 tok' = env.sha256 tok := by
  have hall : exec (step env) {} (es ++ .deleteReset k :: es') = some t :=
    exec_append_eq_some.mpr ⟨s, hrun, exec_cons_eq_some.mpr ⟨s', he, hrun'⟩⟩
  obtain ⟨-, exp, -, hsince⟩ := (authenticate_iff hall).mp ⟨sess, hauth, huser⟩
  obtain ⟨pre, e, post, u, v, rfl, -, -, hopens, -⟩ := hsince.of_reset hrun he id hk
  cases e with
  | createSession j tok' => exact ⟨j, tok', by simp, hopens.1⟩
  | _ => cases hopens

/-- After a reset the phone signs in again, and its new session is from then. -/
theorem opened_after_reset_again :
    ∃ j tok', .createSession j tok' ∈ Example.again ∧ Example.tagged.sha256 tok' =
      Example.tagged.sha256 "phone again" := by
  have hsigned : Example.signedIn (Example.resetting ++ .deleteReset 3 :: Example.again)
      "phone again" = some Example.newSession := by
    decide +kernel
  have hcall : ((exec (step Example.tagged) {} Example.resetting).bind fun s => s.calls.get? 3) =
      some ⟨"", .resetting "u1"⟩ := by decide +kernel
  obtain ⟨t, hall, hauth⟩ := Option.bind_eq_some_iff.mp hsigned
  obtain ⟨s, hrun, hrest⟩ := exec_append_eq_some.mp hall
  obtain ⟨s', he, hrun'⟩ := exec_cons_eq_some.mp hrest
  rw [hrun] at hcall
  exact opened_after_reset hrun ⟨"", hcall⟩ he hrun' hauth rfl

/-- `UpdateAccount` finds the sessions that it will delete: all of the user but its own. -/
def Finds (k : ℕ) (ch : Change) : Accounts → Event → Accounts → Prop
  | s, .deleteOthers j _, _ => j = k ∧ ch.ended = (s.idsOf ch.sess.userID).filter (· ≠ ch.sess.id)
  | _, _, _ => False

theorem changing_step {ch : Change} (hnew : ch.hash ≠ none) (he : s.step env e = some s')
    (h : s'.At k (.changing ch)) : s.At k (.changing ch) ∨ Finds k ch s e s' := by
  cases step_does he with
  | tick => exact .inl h
  | pruned => exact .inl h
  | touched hk =>
    rw [touch] at h
    split_ifs at h <;> exact .inl (h.of_calls rfl (by simp))
  | profiled hk hp =>
    refine .inl (h.of_calls rfl fun heq => hnew ?_)
    cases heq
    rfl
  | changing hk hhash =>
    rename_i j c hash sess profile newPassword
    rcases eq_or_ne k j with rfl | hkj
    · have hphase := at_setPhase.mp h
      rw [if_pos rfl] at hphase
      cases hphase
      exact .inr ⟨rfl, rfl⟩
    · exact .inl (by simpa [hkj] using at_setPhase.mp h)
  | _ => exact .inl (h.of_calls rfl (by simp))

private theorem mem_idsOf : id ∈ s.idsOf uid ↔ ∃ exp, s.Has id uid exp := by
  simp only [idsOf, List.mem_map, List.mem_filter, decide_eq_true_eq, Prod.exists, Has,
    Dict.get?_eq_some_iff]
  constructor
  · rintro ⟨_, r, ⟨hr, rfl⟩, rfl⟩
    exact ⟨_, r, hr, rfl, rfl⟩
  · rintro ⟨_, r, hr, rfl, -⟩
    exact ⟨id, r, ⟨hr, rfl⟩, rfl⟩

/-- **Changed passwords.** Once a change of the password is committed, only those cookies are
accepted for the account that have been handed out after its `DELETE`, besides the one that made
the change. -/
theorem opened_after_change {ch : Change} {sess : Session}
    (hrun : exec (step env) {} es = some s) (hk : s.At k (.changing ch)) (hnew : ch.hash ≠ none)
    (hfree : s.taken ch = false) (he : s.step env (.commitPatch k) = some s')
    (hrun' : exec (step env) s' es' = some t) (hauth : t.authenticate env tok = some sess)
    (huser : sess.userID = ch.sess.userID) (hother : sess.id ≠ ch.sess.id) :
    ∃ pre hash post j tok', es ++ .commitPatch k :: es' = pre ++ .deleteOthers k hash :: post ∧
      .createSession j tok' ∈ post ∧ env.sha256 tok' = env.sha256 tok := by
  obtain ⟨pre, e, mid, u, v, rfl, hpre, hfind, hfinds⟩ :=
    exec_once (H := fun s => s.At k (.changing ch))
      (fun _ _ _ he h => changing_step hnew he h) (by simp [At]) hrun hk
  cases e with
  | deleteOthers j hash =>
    obtain ⟨rfl, hended⟩ := hfinds
    refine ⟨pre, hash, mid ++ .commitPatch j :: es', ?_⟩
    have hsplit : pre ++ .deleteOthers j hash :: mid ++ .commitPatch j :: es' =
        (pre ++ [.deleteOthers j hash]) ++ (mid ++ .commitPatch j :: es') := by simp
    have hall : exec (step env) {} (pre ++ .deleteOthers j hash :: mid ++ .commitPatch j :: es') =
        some t :=
      exec_append_eq_some.mpr ⟨s, hrun, exec_cons_eq_some.mpr ⟨s', he, hrun'⟩⟩
    have hv : exec (step env) {} (pre ++ [.deleteOthers j hash]) = some v :=
      exec_concat_eq_some.mpr ⟨u, hpre, hfind⟩
    obtain ⟨-, exp, -, hhas⟩ := (authenticate_eq_some (inv_of_run hall)).mp ⟨sess, hauth, huser⟩
    have hid : sess.id = env.sha256 tok := id_of_authenticate hauth
    have hsince := (has_iff_since hall).mp hhas
    rw [hsplit] at hsince
    rcases hsince.of_append hv with hafter | ⟨hbefore, hkept⟩
    · obtain ⟨pre', e', post', a, b, hmid, -, -, hopens, -⟩ := hafter
      cases e' with
      | createSession i tok' => exact ⟨i, tok', by simp, by simp [hmid], hopens.1⟩
      | _ => cases hopens
    · -- the session was there for the `DELETE`, and the commit has ended it
      exfalso
      have hthere : u.Has (env.sha256 tok) ch.sess.userID exp :=
        ((has_step hfind).mp ((has_iff_since hv).mpr hbefore)).resolve_left id |>.1
      have hmem : env.sha256 tok ∈ ch.ended := by
        rw [hended, List.mem_filter, decide_eq_true_eq, ← hid]
        exact ⟨mem_idsOf.mpr ⟨exp, hid ▸ hthere⟩, hother⟩
      obtain ⟨v', hv', hmid⟩ := exec_append_eq_some.mp
        (show exec (step env) {} ((pre ++ [.deleteOthers j hash]) ++ mid) =
          some s by simpa using hrun)
      obtain rfl : v = v' := Option.some.inj (hv.symm.trans hv')
      exact ((allSteps_append.mp hkept).2 s hmid s' he).1 (.inl ⟨ch, hk, hfree, hmem⟩)
  | _ => cases hfinds

/-- After a change of the password on another device, the phone signs in again. -/
theorem opened_after_change_again :
    ∃ pre hash post j tok', Example.changing ++ .commitPatch 2 :: Example.again = pre ++
      .deleteOthers 2 hash :: post ∧
      .createSession j tok' ∈ post ∧ Example.tagged.sha256 tok' = Example.tagged.sha256
        "phone again" := by
  have hsigned : Example.signedIn (Example.changing ++ .commitPatch 2 :: Example.again)
      "phone again" = some Example.newSession := by
    decide +kernel
  have hcall : ((exec (step Example.tagged) {} Example.changing).bind fun s =>
      (s.calls.get? 2).map fun c => (c, s.taken Example.theChange)) =
        some (⟨"laptop", .changing Example.theChange⟩, false) := by decide +kernel
  obtain ⟨t, hall, hauth⟩ := Option.bind_eq_some_iff.mp hsigned
  obtain ⟨s, hrun, hrest⟩ := exec_append_eq_some.mp hall
  obtain ⟨s', he, hrun'⟩ := exec_cons_eq_some.mp hrest
  rw [hrun] at hcall
  obtain ⟨c, hc, heq⟩ := Option.map_eq_some_iff.mp hcall
  obtain ⟨rfl, hfree⟩ := Prod.mk.inj heq
  exact opened_after_change hrun ⟨"laptop", hc⟩ (by decide) hfree he hrun' hauth rfl (by decide)

end Accounts

end Dockhand.Auth.Sessions
