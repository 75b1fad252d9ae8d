import Dockhand.Registry.Auth

/-!
# Revoked tokens and old passwords

A cached login keeps working until it expires, so a revocation or a password change takes effect
at once only if no cached login outlives it. `RevokeToken` drops the cache for that, but a call
that checked the database before may store its result afterwards, and a password change drops
nothing. `Service.logins_valid` says what holds in the runs in which neither happens: a call that
begins after a token is revoked does not succeed with it, and no call succeeds with a password
that the account has refused ever since the call began.

`Step` reads the step function as a relation; `CacheSound` is the invariant that the condition
keeps, and `Justified` what it means for the result of one call.
-/

namespace Dockhand.Registry

open Go Transition

variable {env : Env}

/-- The result that a call has got hold of. -/
def Phase.result? : Phase → Option AuthResult
  | checked res | stamped res | returned res => some res
  | _ => none

/-- A login that a new password hash of this account refuses. -/
def AuthResult.refusedBy (env : Env) (uid newHash : String) (res : AuthResult) : Bool :=
  match res.cred with
  | .password uid' pass => uid' = uid && !env.bcrypt newHash pass
  | .token _ => false

namespace Service

/-- The account's stored password hash accepts the password. -/
def accepts (env : Env) (s : Service) (uid pass : String) : Bool :=
  (s.users.get? uid).any fun u => env.bcrypt u.hash pass

/-- The credential is still good: no `RevokeToken` of the token has returned, the account accepts
the password. -/
def Valid (env : Env) (s : Service) : Credential → Prop
  | .token id => id ∉ s.revoked
  | .password uid pass => s.accepts env uid pass = true

instance (s : Service) : (c : Credential) → Decidable (s.Valid env c)
  | .token id => inferInstanceAs (Decidable (id ∉ s.revoked))
  | .password uid pass => inferInstanceAs (Decidable (s.accepts env uid pass = true))

/-- The account and the hash whose password this event changes. -/
def newPassword (env : Env) (s : Service) : Event → Option (String × String)
  | .updateAccount uid _ p newHash => if p.newPassword = "" then none else some (uid, newHash)
  | .resetPassword username _ newHash =>
    (s.findUser (env.normalizeName username)).map fun e => (e.1, newHash)
  | _ => none

/-! ### The steps -/

/-- The step function as a relation. -/
inductive Step (env : Env) (s : Service) : Event → Service → Prop
  | tick (d : ℕ) : Step env s (.tick d) { s with now := s.now + d }
  | begin (k : ℕ) (user pass : String) (hk : s.calls k = none) :
      Step env s (.begin k user pass) (s.setPhase k ⟨user, pass, .started⟩ .started)
  | hit (k : ℕ) (c : Call) (res : AuthResult) (hk : s.calls k = some c)
      (hc : s.cached (env.cacheKey c.user c.pass) = some res) :
      Step env s (.lookup k) (s.setPhase k c (.returned res))
  | miss (k : ℕ) (c : Call) (hk : s.calls k = some c) :
      Step env s (.lookup k) (s.setPhase k c .missed)
  | accept (k : ℕ) (c : Call) (res : AuthResult) (hk : s.calls k = some c)
      (hc : s.checkCredentials env c.user c.pass = .ok res) :
      Step env s (.check k) (s.setPhase k c (.checked res))
  | refuse (k : ℕ) (c : Call) (err : String) (hk : s.calls k = some c) :
      Step env s (.check k) (s.setPhase k c (.failed err))
  | stamp (k : ℕ) (c : Call) (res : AuthResult) (hk : s.calls k = some c)
      (hc : c.phase = .checked res) :
      Step env s (.stamp k)
        (s.setPhase k c (.stamped { res with validUntil := s.now + cacheTTL }))
  | store (k : ℕ) (c : Call) (res : AuthResult) (hk : s.calls k = some c)
      (hc : c.phase = .stamped res) : Step env s (.store k) (s.store env k c res)
  | revoke (id : String) (t : Token) (ht : s.tokens.get? id = some t) :
      Step env s (.revoke id)
        { s with
          tokens := s.tokens.set id { t with revoked := true }
          revoking := s.revoking ++ [id] }
  | dropCache (i : ℕ) (id : String) (hi : s.revoking[i]? = some id) :
      Step env s (.dropCache i) (s.dropCache i id)
  | setUser (ev : Event) (uid : String) (u u' : User) (hu : s.users.get? uid = some u)
      (hhash : u'.hash = u.hash ∨ s.newPassword env ev = some (uid, u'.hash)) :
      Step env s ev { s with users := s.users.set uid u' }

variable {s s' : Service} {ev : Event}

private theorem get?_of_findUser {username uid : String} {u : User}
    (h : s.findUser username = some (uid, u)) : s.users.get? uid = some u :=
  Dict.get?_eq_some_iff.mpr (List.mem_of_find?_eq_some h)

private theorem Step.of_lookup {k : ℕ} {c : Call} (hk : s.calls k = some c) :
    Step env s (.lookup k) (s.lookup env k c) := by
  rw [lookup]
  split
  · rename_i res hc
    exact .hit k c res hk hc
  · exact .miss k c hk

private theorem Step.of_check {k : ℕ} {c : Call} (hk : s.calls k = some c) :
    Step env s (.check k) (s.check env k c) := by
  rw [check]
  split
  · rename_i res hc
    exact .accept k c res hk hc
  · exact .refuse k c _ hk

private theorem Step.of_updateAccount {uid sessName newHash : String} {p : AccountPatch}
    (h : s.updateAccount env uid sessName p newHash = some s') :
    Step env s (.updateAccount uid sessName p newHash) s' := by
  simp only [updateAccount, Option.bind_eq_bind, Option.bind_eq_some_iff] at h
  obtain ⟨username, -, u, hu, hash, hhash, h⟩ := h
  split_ifs at h
  obtain rfl := Option.some.inj h
  refine .setUser _ uid u ⟨username, hash⟩ hu ?_
  rw [AccountPatch.newHash] at hhash
  split_ifs at hhash with hempty hcurrent
  · exact .inl (Option.some.inj hhash).symm
  · obtain ⟨-, -, rfl⟩ := Option.map_eq_some_iff.mp hhash
    exact .inr (if_neg hempty)

private theorem Step.of_resetPassword {username password newHash : String}
    (h : s.resetPassword env username password newHash = some s') :
    Step env s (.resetPassword username password newHash) s' := by
  simp only [resetPassword, Option.bind_eq_bind, Option.bind_eq_some_iff] at h
  obtain ⟨-, -, ⟨uid, u⟩, hu, h⟩ := h
  obtain rfl := Option.some.inj h
  exact .setUser _ uid u _ (get?_of_findUser hu) (.inr (by rw [newPassword, hu]; rfl))

/-- **Inversion.** Every step is one of those above. -/
theorem step_sound (h : s.step env ev = some s') : Step env s ev s' := by
  cases ev with
  | tick d =>
    obtain rfl := Option.some.inj h
    exact .tick d
  | begin k user pass =>
    rw [step] at h
    split at h
    · rename_i hk
      obtain rfl := Option.some.inj h
      exact .begin k user pass hk
    · cases h
  | lookup k =>
    rw [step] at h
    split at h
    · rename_i hk
      obtain rfl := Option.some.inj h
      exact .of_lookup hk
    · cases h
  | check k =>
    rw [step] at h
    split at h
    · rename_i hk
      obtain rfl := Option.some.inj h
      exact .of_check hk
    · cases h
  | stamp k =>
    rw [step] at h
    split at h
    · rename_i hk
      obtain rfl := Option.some.inj h
      exact .stamp k _ _ hk rfl
    · cases h
  | store k =>
    rw [step] at h
    split at h
    · rename_i hk
      obtain rfl := Option.some.inj h
      exact .store k _ _ hk rfl
    · cases h
  | revoke id =>
    rw [step, revoke] at h
    split at h
    · rename_i t ht
      split_ifs at h
      obtain rfl := Option.some.inj h
      exact .revoke id t ht
    · cases h
  | dropCache i =>
    obtain ⟨id, hi, rfl⟩ := Option.map_eq_some_iff.mp h
    exact .dropCache i id hi
  | updateAccount uid sessName p newHash => exact .of_updateAccount h
  | resetPassword username password newHash => exact .of_resetPassword h

/-! ### Invariants -/

/-- A token whose revocation has begun is revoked in the database. -/
def RevokedInDB (s : Service) : Prop :=
  ∀ id, id ∈ s.revoking ∨ id ∈ s.revoked → ∀ t, s.tokens.get? id = some t → t.revoked = true

/-- Every cached login that has not expired is still good. -/
def CacheSound (env : Env) (s : Service) : Prop :=
  ∀ key res, s.cached key = some res → s.Valid env res.cred

/-- A result is stored while its credential is still good. -/
def StoresValid (env : Env) (s : Service) : Event → Prop
  | .store k => ∀ c ∈ s.calls k, ∀ res ∈ c.phase.result?, s.Valid env res.cred
  | _ => True

instance (s : Service) : (ev : Event) → Decidable (s.StoresValid env ev)
  | .store _ => inferInstanceAs (Decidable (∀ c ∈ _, ∀ res ∈ _, _))
  | .tick _ | .begin .. | .lookup _ | .check _ | .stamp _ | .revoke _ | .dropCache _
  | .updateAccount .. | .resetPassword .. => isTrue trivial

/-- When a password changes, no login that it refuses is cached for the account. -/
def ChangesUncached (env : Env) (s : Service) (ev : Event) : Prop :=
  ∀ w ∈ s.newPassword env ev, ∀ e ∈ s.okCache.entries, s.now < e.2.validUntil →
    e.2.refusedBy env w.1 w.2 = false

instance (s : Service) (ev : Event) : Decidable (s.ChangesUncached env ev) :=
  inferInstanceAs (Decidable (∀ w ∈ _, ∀ e ∈ _, _))

theorem RevokedInDB.step (hs : s.RevokedInDB) (h : Step env s ev s') : s'.RevokedInDB := by
  cases h with
  | revoke id t ht =>
    intro id' hid' t' ht'
    rw [Dict.get?_set] at ht'
    split_ifs at ht' with heq
    · obtain rfl := Option.some.inj ht'
      rfl
    · refine hs id' ?_ t' ht'
      rcases hid' with hid' | hid'
      · rcases List.mem_append.mp hid' with hid' | hid'
        · exact .inl hid'
        · exact absurd (List.mem_singleton.mp hid') heq
      · exact .inr hid'
  | dropCache i id hi =>
    intro id' hid'
    refine hs id' ?_
    rcases hid' with hid' | hid'
    · exact .inl (List.mem_of_mem_eraseIdx hid')
    · rcases List.mem_cons.mp hid' with rfl | hid'
      · exact .inl (List.mem_of_getElem? hi)
      · exact .inr hid'
  | _ => exact hs

/-- Revocations only add up. -/
theorem Step.revoked_subset (h : Step env s ev s') : s.revoked ⊆ s'.revoked := by
  cases h with
  | dropCache i id hi => exact List.subset_cons_self _ _
  | _ => exact List.Subset.refl _

/-- The credentials that the database check accepts are good. -/
theorem valid_of_check {user pass : String} {res : AuthResult} (hs : s.RevokedInDB)
    (h : s.checkCredentials env user pass = .ok res) : s.Valid env res.cred := by
  rw [checkCredentials] at h
  split_ifs at h with hprefix
  · split at h
    · rename_i id t hfind
      obtain rfl := Except.ok.inj h
      intro hid
      have hmem := List.mem_of_find?_eq_some hfind
      have hlive : t.revoked = false := by
        have := List.find?_some hfind
        simp only [decide_eq_true_eq] at this
        exact this.2
      have hrev := hs id (.inr hid) t (Dict.get?_eq_some_iff.mpr hmem)
      rw [hlive] at hrev
      cases hrev
    · cases h
  · split at h
    · rename_i uid u hlogin
      obtain rfl := Except.ok.inj h
      rw [login] at hlogin
      split at hlogin
      · rename_i hfind
        split_ifs at hlogin with haccepts
        obtain ⟨rfl, rfl⟩ := Prod.mk.inj (Except.ok.inj hlogin)
        show s.accepts env _ pass = true
        rw [accepts, get?_of_findUser hfind]
        exact haccepts
      · cases hlogin
    · cases h

private theorem cached_eq_some {key : String} {res : AuthResult} :
    s.cached key = some res ↔ s.okCache.get? key = some res ∧ s.now < res.validUntil := by
  simp [cached, Option.filter_eq_some_iff]

/-- What the account of a changed row accepts. -/
theorem accepts_setUser {uid uid' pass : String} {u' : User} :
    accepts env { s with users := s.users.set uid u' } uid' pass =
      if uid' = uid then env.bcrypt u'.hash pass else s.accepts env uid' pass := by
  rw [accepts, Dict.get?_set]
  split_ifs <;> rfl

/-- **The cache stays sound** while stores and password changes meet their conditions. -/
theorem CacheSound.step (hs : s.CacheSound env) (hstore : s.StoresValid env ev)
    (hchange : s.ChangesUncached env ev) (h : Step env s ev s') : s'.CacheSound env := by
  cases h with
  | tick d =>
    intro key res hres
    obtain ⟨hget, hnow⟩ := cached_eq_some.mp hres
    exact hs key res (cached_eq_some.mpr ⟨hget, (Nat.le_add_right s.now d).trans_lt hnow⟩)
  | store k c res hk hc =>
    have hvalid : s.Valid env res.cred := hstore c hk res (by rw [hc]; rfl)
    intro key res' hres
    obtain ⟨hget, hnow⟩ := cached_eq_some.mp hres
    rw [store, Dict.get?_set] at hget
    split_ifs at hget with hkey hfull
    · obtain rfl := Option.some.inj hget
      exact hvalid
    · cases hget
    · exact hs key res' (cached_eq_some.mpr ⟨hget, hnow⟩)
  | dropCache i id hi =>
    intro key res hres
    obtain ⟨hget, -⟩ := cached_eq_some.mp hres
    cases hget
  | setUser ev uid u u' hu hhash =>
    intro key res hres
    have hvalid := hs key res hres
    cases hcred : res.cred with
    | token id =>
      rw [hcred] at hvalid
      exact hvalid
    | password uid' pass =>
      rw [hcred] at hvalid
      show accepts env _ uid' pass = true
      rw [accepts_setUser]
      split_ifs with heq
      · subst heq
        rcases hhash with hsame | hnew
        · rw [hsame]
          have haccepts : s.accepts env uid' pass = true := hvalid
          rwa [accepts, hu] at haccepts
        · -- a login that the new hash refuses would be cached
          obtain ⟨hget, hnow⟩ := cached_eq_some.mp hres
          have hnot := hchange _ hnew (key, res) (Dict.get?_eq_some_iff.mp hget) hnow
          simpa [AuthResult.refusedBy, hcred] using hnot
      · exact hvalid
  | _ => exact hs

/-! ### What the result of a call rests on -/

private theorem calls_setPhase (s : Service) (k k' : ℕ) (c : Call) (phase : Phase) :
    (s.setPhase k c phase).calls k' = if k' = k then some { c with phase } else s.calls k' :=
  Function.update_apply ..

/-- Where a result comes from: the call had it before, or it has just been found good. -/
theorem Step.result_eq (h : Step env s ev s') (hdb : s.RevokedInDB) (hcache : s.CacheSound env)
    {k : ℕ} {c' : Call} {res : AuthResult} (hk : s'.calls k = some c')
    (hres : c'.phase.result? = some res) :
    (∃ c res₀, s.calls k = some c ∧ c.phase.result? = some res₀ ∧ res₀.cred = res.cred) ∨
      s.Valid env res.cred := by
  -- a call that another step moves on keeps what it has
  have hkept : s.calls k = some c' → ∃ c res₀, s.calls k = some c ∧
      c.phase.result? = some res₀ ∧ res₀.cred = res.cred := fun hc => ⟨c', res, hc, hres, rfl⟩
  cases h with
  | begin k' user pass hnone =>
    rw [calls_setPhase] at hk
    split_ifs at hk with heq
    · obtain rfl := Option.some.inj hk
      cases hres
    · exact .inl (hkept hk)
  | hit k' c res' hc hcached =>
    rw [calls_setPhase] at hk
    split_ifs at hk with heq
    · obtain rfl := Option.some.inj hk
      obtain rfl := Option.some.inj hres
      exact .inr (hcache _ _ hcached)
    · exact .inl (hkept hk)
  | miss k' c hc =>
    rw [calls_setPhase] at hk
    split_ifs at hk with heq
    · obtain rfl := Option.some.inj hk
      cases hres
    · exact .inl (hkept hk)
  | accept k' c res' hc hcheck =>
    rw [calls_setPhase] at hk
    split_ifs at hk with heq
    · obtain rfl := Option.some.inj hk
      obtain rfl := Option.some.inj hres
      exact .inr (valid_of_check hdb hcheck)
    · exact .inl (hkept hk)
  | refuse k' c err hc =>
    rw [calls_setPhase] at hk
    split_ifs at hk with heq
    · obtain rfl := Option.some.inj hk
      cases hres
    · exact .inl (hkept hk)
  | stamp k' c res' hc hphase =>
    rw [calls_setPhase] at hk
    split_ifs at hk with heq
    · subst heq
      obtain rfl := Option.some.inj hk
      obtain rfl := Option.some.inj hres
      exact .inl ⟨c, res', hc, by rw [hphase]; rfl, rfl⟩
    · exact .inl (hkept hk)
  | store k' c res' hc hphase =>
    replace hk : (s.setPhase k' c (.returned res')).calls k = some c' := hk
    rw [calls_setPhase] at hk
    split_ifs at hk with heq
    · subst heq
      obtain rfl := Option.some.inj hk
      obtain rfl := Option.some.inj hres
      exact .inl ⟨c, res', hc, by rw [hphase]; rfl, rfl⟩
    · exact .inl (hkept hk)
  | _ => exact .inl (hkept hk)

/-- The steps keep the cache sound. -/
def KeepsCacheSound (env : Env) (s : Service) (ev : Event) : Prop :=
  s.StoresValid env ev ∧ s.ChangesUncached env ev

instance (s : Service) (ev : Event) : Decidable (s.KeepsCacheSound env ev) :=
  inferInstanceAs (Decidable (_ ∧ _))

variable {es : List Event} {t : Service}

/-- The invariants of a run whose steps keep the cache sound. -/
theorem inv_of_run (hdb : s.RevokedInDB) (hcache : s.CacheSound env)
    (hkeeps : Along (step env) (KeepsCacheSound env) s es) (hrun : exec (step env) s es = some t) :
    t.RevokedInDB ∧ t.CacheSound env := by
  refine exec_invariant_along (I := fun s => s.RevokedInDB ∧ s.CacheSound env) ?_ ⟨hdb, hcache⟩
    hkeeps hrun
  rintro s ev s' ⟨hdb, hcache⟩ hkeeps hstep
  have h := step_sound hstep
  exact ⟨hdb.step h, hcache.step hkeeps.1 hkeeps.2 h⟩

/-- **Every result is justified.** The credential of a result was good at some moment since the
call began. -/
theorem justified_of_run {k : ℕ} {c : Call} {res : AuthResult} (hdb : s.RevokedInDB)
    (hcache : s.CacheSound env) (hkeeps : Along (step env) (KeepsCacheSound env) s es)
    (hnone : s.calls k = none) (hrun : exec (step env) s es = some t) (hk : t.calls k = some c)
    (hres : c.phase.result? = some res) :
    Visits (step env) (fun v => v.Valid env res.cred) s es := by
  -- from the end of the run, back to the step at which the call got its result
  induction es using List.reverseRecOn generalizing t c res with
  | nil =>
    obtain rfl := Option.some.inj hrun
    rw [hnone] at hk
    cases hk
  | append_singleton es ev ih =>
    obtain ⟨u, hu, hstep⟩ := exec_concat_eq_some.mp hrun
    have hkeeps' := (along_append.mp hkeeps).1
    obtain ⟨hdb', hcache'⟩ := inv_of_run hdb hcache hkeeps' hu
    rcases (step_sound hstep).result_eq hdb' hcache' hk hres with
      ⟨c₀, res₀, hc₀, hres₀, hcred⟩ | hvalid
    · rw [← hcred]
      exact (ih hkeeps' hu hc₀ hres₀).append_right
    · exact (Visits.last hu hvalid).append_right

private theorem revoked_subset_of_run (hrun : exec (step env) s es = some t) :
    s.revoked ⊆ t.revoked :=
  exec_invariant (I := fun v => s.revoked ⊆ v.revoked)
    (fun _ _ _ hv hstep => List.Subset.trans hv (step_sound hstep).revoked_subset)
    (List.Subset.refl _) hrun

/-! ### Whole runs -/

/-- A call of `authenticate` that begins after a `RevokeToken` has returned does not succeed with
the token. -/
def RevokedRefused (env : Env) (s : Service) (es : List Event) : Prop :=
  ∀ pre k user pass post rest s₀ t c res id,
    es = pre ++ .begin k user pass :: (post ++ rest) → exec (step env) s pre = some s₀ →
    exec (step env) s₀ (.begin k user pass :: post) = some t →
    t.calls k = some c → c.phase = .returned res → id ∈ s₀.revoked → res.cred ≠ .token id

/-- A call of `authenticate` does not succeed with a password that the account has refused ever
since the call began. -/
def OldPasswordRefused (env : Env) (s : Service) (es : List Event) : Prop :=
  ∀ pre k user pass post rest s₀ t c res uid old,
    es = pre ++ .begin k user pass :: (post ++ rest) → exec (step env) s pre = some s₀ →
    exec (step env) s₀ (.begin k user pass :: post) = some t →
    t.calls k = some c → c.phase = .returned res →
    AllStates (step env) (fun v => v.accepts env uid old = false) s₀
      (.begin k user pass :: post) → res.cred ≠ .password uid old

/-- **A committed change of a password.** The account then accepts exactly what the new hash
accepts, so that it refuses the old password from then on until the password changes again. -/
theorem accepts_of_newPassword {uid newHash : String} (h : s.step env ev = some s')
    (hnew : s.newPassword env ev = some (uid, newHash)) (pass : String) :
    s'.accepts env uid pass = env.bcrypt newHash pass := by
  cases ev with
  | updateAccount uid' sessName p hash =>
    rw [newPassword] at hnew
    split_ifs at hnew with hempty
    obtain ⟨rfl, rfl⟩ := Prod.mk.inj (Option.some.inj hnew)
    simp only [step, updateAccount, Option.bind_eq_bind, Option.bind_eq_some_iff] at h
    obtain ⟨username, -, u, -, hash', hhash, h⟩ := h
    split_ifs at h
    obtain rfl := Option.some.inj h
    rw [AccountPatch.newHash, if_neg hempty] at hhash
    split_ifs at hhash
    obtain ⟨-, -, rfl⟩ := Option.map_eq_some_iff.mp hhash
    simp [accepts, Dict.get?_set]
  | resetPassword username password hash =>
    simp only [step, resetPassword, Option.bind_eq_bind, Option.bind_eq_some_iff] at h
    obtain ⟨-, -, ⟨uid', u⟩, hu, h⟩ := h
    obtain rfl := Option.some.inj h
    rw [newPassword, hu] at hnew
    obtain ⟨rfl, rfl⟩ := Prod.mk.inj (Option.some.inj hnew)
    simp [accepts, Dict.get?_set]
  | _ => cases hnew

/-- The service at its start, with the rows that the database holds. -/
def start (now : ℕ) (tokens : Dict String Token) (users : Dict String User) : Service :=
  { now, tokens, users }

private theorem begin_enabled {k : ℕ} {user pass : String}
    (h : exec (step env) s (.begin k user pass :: es) = some t) : s.calls k = none := by
  obtain ⟨s', hstep, -⟩ := exec_cons_eq_some.mp h
  rw [step] at hstep
  split at hstep
  · assumption
  · cases hstep

/-- **Revocations and password changes take effect at once**, in every run that stores only
credentials that are still good and changes no password that is cached for the account. -/
theorem logins_valid {now : ℕ} {tokens : Dict String Token} {users : Dict String User}
    (hkeeps : Along (step env) (KeepsCacheSound env) (start now tokens users) es) :
    RevokedRefused env (start now tokens users) es ∧
      OldPasswordRefused env (start now tokens users) es := by
  have hdb : (start now tokens users).RevokedInDB := by
    rintro id (hid | hid) <;> cases hid
  have hcache : (start now tokens users).CacheSound env := by
    intro key res hres
    obtain ⟨hget, -⟩ := cached_eq_some.mp hres
    cases hget
  -- the credential of a result was good at some moment since the call began
  have hjust : ∀ {pre k user pass post rest s₀ t c res},
      es = pre ++ .begin k user pass :: (post ++ rest) →
      exec (step env) (start now tokens users) pre = some s₀ →
      exec (step env) s₀ (.begin k user pass :: post) = some t →
      t.calls k = some c → c.phase = .returned res →
      Visits (step env) (fun v => v.Valid env res.cred) s₀ (.begin k user pass :: post) := by
    intro pre k user pass post rest s₀ t c res hes hpre hpost hc hres
    rw [hes, ← List.cons_append, along_append] at hkeeps
    obtain ⟨hkeepsPre, hkeepsPost⟩ := hkeeps
    obtain ⟨hdb', hcache'⟩ := inv_of_run hdb hcache hkeepsPre hpre
    exact justified_of_run hdb' hcache' (along_append.mp (hkeepsPost s₀ hpre)).1
      (begin_enabled hpost) hpost hc (by rw [hres]; rfl)
  constructor
  · intro pre k user pass post rest s₀ t c res id hes hpre hpost hc hres hid hcred
    obtain ⟨pre', post', v, -, hv, hvalid⟩ := hjust hes hpre hpost hc hres
    rw [hcred] at hvalid
    exact hvalid (revoked_subset_of_run hv hid)
  · intro pre k user pass post rest s₀ t c res uid old hes hpre hpost hc hres hrefused hcred
    obtain ⟨pre', post', v, hsplit, hv, hvalid⟩ := hjust hes hpre hpost hc hres
    have haccepts : v.accepts env uid old = true := by
      rw [hcred] at hvalid
      exact hvalid
    rw [hrefused pre' post' v hsplit hv] at haccepts
    cases haccepts

/-! ### The credential of a result is the one that was presented, up to the cache key -/

/-- The key is that of a login with this credential. -/
def KeyOf (env : Env) (s : Service) (key : String) : Credential → Prop
  | .token id => ∃ user pass t, key = env.cacheKey user pass ∧ s.tokens.get? id = some t ∧
      t.hash = env.sha256 pass
  | .password _ pass => ∃ user, key = env.cacheKey user pass

/-- Cached logins, and the results that calls have got, stand under the key of their
credential. -/
structure Keyed (env : Env) (s : Service) : Prop where
  cache : ∀ key res, s.okCache.get? key = some res → s.KeyOf env key res.cred
  calls : ∀ k c res, s.calls k = some c → c.phase.result? = some res →
    s.KeyOf env (env.cacheKey c.user c.pass) res.cred

private theorem keyOf_of_check {user pass : String} {res : AuthResult}
    (h : s.checkCredentials env user pass = .ok res) :
    s.KeyOf env (env.cacheKey user pass) res.cred := by
  rw [checkCredentials] at h
  split_ifs at h with hprefix
  · split at h
    · rename_i id t hfind
      obtain rfl := Except.ok.inj h
      have hhash : t.hash = env.sha256 pass := by
        have := List.find?_some hfind
        simp only [decide_eq_true_eq] at this
        exact this.1
      exact ⟨user, pass, t, rfl, Dict.get?_eq_some_iff.mpr (List.mem_of_find?_eq_some hfind),
        hhash⟩
    · cases h
  · split at h
    · obtain rfl := Except.ok.inj h
      exact ⟨user, rfl⟩
    · cases h

/-- Revoking a token does not change its hash. -/
theorem KeyOf.revoke {key id : String} {cred : Credential} {t : Token} {revoking : List String}
    (h : s.KeyOf env key cred) (ht : s.tokens.get? id = some t) :
    KeyOf env
      { s with tokens := s.tokens.set id { t with revoked := true }, revoking } key cred := by
  cases cred with
  | password uid pass => exact h
  | token id' =>
    obtain ⟨user, pass, t', hkey, ht', hhash⟩ := h
    by_cases heq : id' = id
    · subst heq
      obtain rfl := Option.some.inj (ht.symm.trans ht')
      refine ⟨user, pass, { t with revoked := true }, hkey, ?_, hhash⟩
      rw [Dict.get?_set, if_pos rfl]
    · exact ⟨user, pass, t', hkey, by rw [Dict.get?_set, if_neg heq, ht'], hhash⟩

/-- A call that moves on with a result of its own key keeps the rest. -/
theorem Keyed.setPhase (hs : s.Keyed env) {k : ℕ} {c : Call} {phase : Phase}
    (hres : ∀ res, phase.result? = some res →
      s.KeyOf env (env.cacheKey c.user c.pass) res.cred) : (s.setPhase k c phase).Keyed env := by
  refine ⟨hs.cache, fun k' c' res hk hres' => ?_⟩
  rw [calls_setPhase] at hk
  split_ifs at hk
  · obtain rfl := Option.some.inj hk
    exact hres res hres'
  · exact hs.calls k' c' res hk hres'

theorem Keyed.step (hs : s.Keyed env) (h : Step env s ev s') : s'.Keyed env := by
  cases h with
  | begin k user pass hk => exact hs.setPhase fun res hres => by cases hres
  | hit k c res hk hc =>
    refine hs.setPhase fun res' hres => ?_
    obtain rfl := Option.some.inj hres
    exact hs.cache _ _ (cached_eq_some.mp hc).1
  | miss k c hk => exact hs.setPhase fun res hres => by cases hres
  | accept k c res hk hc =>
    refine hs.setPhase fun res' hres => ?_
    obtain rfl := Option.some.inj hres
    exact keyOf_of_check hc
  | refuse k c err hk => exact hs.setPhase fun res hres => by cases hres
  | stamp k c res hk hc =>
    refine hs.setPhase fun res' hres => ?_
    obtain rfl := Option.some.inj hres
    exact hs.calls k c res hk (by rw [hc]; rfl)
  | store k c res hk hc =>
    have hres : s.KeyOf env (env.cacheKey c.user c.pass) res.cred :=
      hs.calls k c res hk (by rw [hc]; rfl)
    have hmoved : (s.setPhase k c (.returned res)).Keyed env := hs.setPhase fun res' hres' => by
      obtain rfl := Option.some.inj hres'
      exact hres
    refine ⟨fun key res' hget => ?_, hmoved.calls⟩
    rw [Service.store, Dict.get?_set] at hget
    split_ifs at hget with hkey hfull
    · obtain rfl := Option.some.inj hget
      rw [hkey]
      exact hres
    · cases hget
    · exact hs.cache key res' hget
  | revoke id t ht =>
    exact ⟨fun key res hget => (hs.cache key res hget).revoke ht,
      fun k c res hk hres => (hs.calls k c res hk hres).revoke ht⟩
  | dropCache i id hi => exact ⟨fun key res hget => (by cases hget), hs.calls⟩
  | _ => exact ⟨hs.cache, hs.calls⟩

/-- **A returned login was checked under the key it was asked for with.** -/
theorem keyOf_returned {now : ℕ} {tokens : Dict String Token} {users : Dict String User} {k : ℕ}
    {c : Call} {res : AuthResult} (hrun : exec (step env) (start now tokens users) es = some t)
    (hk : t.calls k = some c) (hres : c.phase = .returned res) :
    t.KeyOf env (env.cacheKey c.user c.pass) res.cred := by
  have hstart : (start now tokens users).Keyed env :=
    ⟨fun key res hget => (by cases hget), fun k c res hk => (by cases hk)⟩
  have ht : t.Keyed env :=
    exec_invariant (fun s ev s' hs hstep => hs.step (step_sound hstep)) hstart hrun
  exact ht.calls k c res hk (by rw [hres]; rfl)

end Service

/-! ### A store after the revocation, and a cached old password -/

namespace Example

/-- Hashes are their own inputs, tagged. -/
def tagged : Env := ⟨String.toLower, ("sha256:" ++ ·), fun hash pass => hash = "bcrypt:" ++ pass⟩

/-- A push token and the account `admin`. -/
def service : Service :=
  .start 0 ⟨[("t1", ⟨"ci", "sha256:dhr_1", "push", false, false⟩)], by decide⟩
    ⟨[("u1", ⟨"admin", "bcrypt:first password"⟩)], by decide⟩

/-- Every step of a call but its store. -/
def checks (k : ℕ) (user pass : String) : List Event :=
  [.begin k user pass, .lookup k, .check k, .stamp k]

/-- The change to the second password. -/
def newPassword : Event :=
  .updateAccount "u1" "admin" ⟨none, "first password", "second password"⟩
    "bcrypt:second password"

/-- The token is revoked while its login waits to be stored. -/
def storedLate : List Event := checks 0 "ci" "dhr_1" ++ [.revoke "t1", .dropCache 0, .store 0]

/-- The password changes while its login is cached. -/
def cachedPassword : List Event := checks 0 "admin" "first password" ++ [.store 0, newPassword]

/-- A login from the cache. -/
def again (user pass : String) : List Event := [.begin 1 user pass, .lookup 1]

/-- A login with the token, its revocation and a refused login; a new password and a login with
it. -/
def inTurn : List Event :=
  checks 0 "ci" "dhr_1" ++ [.store 0, .revoke "t1", .dropCache 0, .begin 1 "ci" "dhr_1",
    .lookup 1, .check 1, newPassword] ++ checks 2 "admin" "second password" ++ [.store 2]

/-- The run succeeds and its call 1 returns this credential. -/
def returns (cred : Credential) (t : Service) : Bool :=
  (t.calls 1).any fun c =>
    match c.phase with
    | .returned res => res.cred = cred
    | _ => false

private theorem exists_of_returns {cred : Credential} {t : Service} (h : returns cred t = true) :
    ∃ c res, t.calls 1 = some c ∧ c.phase = .returned res ∧ res.cred = cred := by
  obtain ⟨c, hc, hphase⟩ := (Option.any_eq_true ..).mp h
  split at hphase
  · rename_i res hres
    exact ⟨c, res, hc, hres, of_decide_eq_true hphase⟩
  · cases hphase

end Example

/-- A revoked token and a changed password both log in from the cache. -/
theorem Service.not_logins_valid :
    ¬ RevokedRefused Example.tagged Example.service
      (Example.storedLate ++ Example.again "ci" "dhr_1") ∧
      ¬ OldPasswordRefused Example.tagged Example.service
        (Example.cachedPassword ++ Example.again "admin" "first password") := by
  constructor
  · intro h
    have hany : (exec (step Example.tagged) Example.service Example.storedLate).any
      (fun s₀ => "t1" ∈ s₀.revoked &&
        (exec (step Example.tagged) s₀ (Example.again "ci" "dhr_1")).any
          (Example.returns (.token "t1"))) = true := by
      decide +kernel
    obtain ⟨s₀, hs₀, hboth⟩ := (Option.any_eq_true ..).mp hany
    obtain ⟨hid, hrun⟩ := (Bool.and_eq_true ..).mp hboth
    obtain ⟨t, ht, hreturns⟩ := (Option.any_eq_true ..).mp hrun
    obtain ⟨c, res, hc, hres, hcred⟩ := Example.exists_of_returns hreturns
    exact h Example.storedLate 1 "ci" "dhr_1" [.lookup 1] [] s₀ t c res "t1" rfl hs₀ ht hc hres
      (of_decide_eq_true hid) hcred
  · intro h
    have hany : (exec (step Example.tagged) Example.service Example.cachedPassword).any (fun s₀ =>
        decide (AllStates (step Example.tagged)
          (fun v => v.accepts Example.tagged "u1" "first password" = false)
          s₀ (Example.again "admin" "first password")) &&
        (exec (step Example.tagged) s₀ (Example.again "admin" "first password")).any
          (Example.returns (.password "u1" "first password"))) = true := by
      decide +kernel
    obtain ⟨s₀, hs₀, hboth⟩ := (Option.any_eq_true ..).mp hany
    obtain ⟨hrefused, hrun⟩ := (Bool.and_eq_true ..).mp hboth
    obtain ⟨t, ht, hreturns⟩ := (Option.any_eq_true ..).mp hrun
    obtain ⟨c, res, hc, hres, hcred⟩ := Example.exists_of_returns hreturns
    exact h Example.cachedPassword 1 "admin" "first password" [.lookup 1] [] s₀ t c res "u1"
      "first password" rfl hs₀ ht hc hres (of_decide_eq_true hrefused) hcred

/-- A login with a token, its revocation, and a change of the password, each after the one before.
-/
theorem Service.logins_valid_inTurn :
    RevokedRefused Example.tagged Example.service Example.inTurn ∧
      OldPasswordRefused Example.tagged Example.service Example.inTurn :=
  Service.logins_valid (by decide +kernel)

end Dockhand.Registry
