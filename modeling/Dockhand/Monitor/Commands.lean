import Dockhand.Monitor.Crashes

/-!
# Crashes and commands

Docker tells of a container in groups of events: those of a command that somebody gives, those of a
crash, and those of a crash after which the restart policy starts the container again. `handleEvent`
tells a crash from a command by two marks with a time, one that a stop or a kill leaves and the next
die takes away, and one that an action of Dockhand leaves.

The stop event of a command comes after its die. So its mark outlives the command, and it hides a
crash of the next minute. An action hides the crashes of half a minute, whatever it is. And a
command whose die comes a minute after its kill is taken for a crash. `classified_iff_along` says
that this is all.
-/

namespace Dockhand.Monitor

open Alerts Go Transition

/-! ### Groups of events -/

/-- Why Docker sends a group of events about a container. -/
inductive Episode
  | stop
  | kill
  | restart
  | crash
  | policy
  deriving DecidableEq, Repr

namespace Episode

/-- The events of the group, in order. -/
def actions : Episode → List String
  | stop => ["kill", "die", "stop"]
  | kill => ["kill", "die"]
  | restart => ["kill", "die", "stop", "start", "restart"]
  | crash => ["die"]
  | policy => ["die", "start"]

/-- Somebody has given a command. -/
def commanded : Episode → Bool
  | stop | kill | restart => true
  | crash | policy => false

end Episode

/-- The history of a container: the group of events it is in and those that are still to come, when
the kill of the group was handled, when a stop was handled after the last die, and when Dockhand
last issued a stop, restart, kill or update, and any action. -/
structure Track where
  episode : Episode := .crash
  left : List String := []
  killedAt : ℕ := 0
  stoppedAt : Option ℕ := none
  issuedAt : Option ℕ := none
  actedAt : Option ℕ := none
  deriving DecidableEq, Repr

/-- The history after the next event of the group. -/
def Track.after (t : Track) (now : ℕ) (action : String) (left : List String) : Track :=
  { t with
    left
    killedAt := if action = "kill" then now else t.killedAt
    stoppedAt :=
      if action = "stop" then some now else if action = "die" then none else t.stoppedAt }

/-- The actions of Dockhand with which a container is expected to die. -/
def issuedActions : List String := ["stop", "restart", "kill", "update"]

/-- What the monitor keeps for the host, and the history of its containers. -/
structure Stream where
  watch : CrashWatch
  track : String → Track := fun _ => {}

/-- What happens next on the stream of a host, and besides it. -/
inductive StreamEvent where
  /-- A group of events about a container begins. -/
  | begin (name : String) (episode : Episode)
  /-- The next event of the group is handled. -/
  | next (name exitCode : String)
  /-- An event of no group is handled. -/
  | other (msg : Message)
  /-- `RecordAction`. -/
  | recordAction (name action : String)
  | tick (d : ℕ)

namespace Stream

/-- The time of the engine, which the monitor shares. -/
def now (s : Stream) : ℕ := s.watch.engine.now

/-- `handleEvent`, once the calls for the message before are made. -/
def handle (s : Stream) (msg : Message) : CrashWatch := { s.watch with calls := [] }.handleEvent msg

/-- The message of the next event. -/
def message (name action exitCode : String) : Message where
  action := action
  name := name
  exitCode := if action = "die" then exitCode else ""

/-- The history of one container is replaced. -/
def setTrack (s : Stream) (name : String) (t : Track) : Stream :=
  { s with track := Function.update s.track name t }

/-- A group of events begins when the one before about the same container is over; its events come
one after the other, with others in between. -/
def step (s : Stream) : StreamEvent → Option Stream
  | .begin name episode =>
    if name ≠ "" ∧ (s.track name).left = [] then
      some (s.setTrack name { s.track name with episode, left := episode.actions })
    else none
  | .next name exitCode =>
    match (s.track name).left with
    | action :: left =>
      some { s.setTrack name ((s.track name).after s.now action left) with
        watch := s.handle (message name action exitCode) }
    | [] => none
  | .other msg =>
    if msg.base = "stop" ∨ msg.base = "kill" ∨ msg.base = "die" then none
    else some { s with watch := s.handle msg }
  | .recordAction name action =>
    (s.watch.step (.recordAction name)).map fun watch =>
      { s.setTrack name { s.track name with
          issuedAt := if action ∈ issuedActions then some s.now else (s.track name).issuedAt
          actedAt := some s.now } with watch }
  | .tick d => (s.watch.step (.tick d)).map fun watch => { s with watch }

/-! ### The property and the condition -/

/-- Not more than half a minute has passed. -/
def recent (s : Stream) (at? : Option ℕ) : Bool := at?.any fun t => s.now - t ≤ expectedActionT

/-- `handleEvent` has called `Raise` for the container. -/
def raised (s : Stream) (name : String) : Bool := s.watch.calls.any (Call.opens (s.watch.key name))

/-- The event is a die with an exit code other than 0. -/
def Fails (s : Stream) (name exitCode : String) : Prop :=
  (s.track name).left.head? = some "die" ∧ exitCode ≠ "" ∧ exitCode ≠ "0"

/-- **What should be raised**: a die that belongs to no command, unless Dockhand has itself issued
one a short while ago. -/
def Classified (s : Stream) (e : StreamEvent) (s' : Stream) : Prop :=
  match e with
  | .next name exitCode => s.Fails name exitCode →
    (s'.raised name = true ↔
      (s.track name).episode.commanded = false ∧ s.recent (s.track name).issuedAt = false)
  | _ => True

/-- The condition on the steps: the die of a command comes within a minute of its kill, unless
Dockhand has acted a short while ago. Any other die comes a minute after the stop event of the
command before it, and no action of another kind was recorded a short while ago. -/
def Timely (s : Stream) : StreamEvent → Prop
  | .next name exitCode => s.Fails name exitCode →
    ((s.track name).episode.commanded = true →
      s.now - (s.track name).killedAt < minute ∨ s.recent (s.track name).actedAt = true) ∧
    ((s.track name).episode.commanded = false → s.recent (s.track name).issuedAt = false →
      s.recent (s.track name).actedAt = false ∧ ∀ t ∈ (s.track name).stoppedAt, minute ≤ s.now - t)
  | _ => True

end Stream

namespace Stream

variable (s s' : Stream)

instance (name exitCode : String) : Decidable (s.Fails name exitCode) :=
  inferInstanceAs (Decidable (_ ∧ _ ∧ _))

instance : (e : StreamEvent) → Decidable (s.Classified e s')
  | .next _ _ => inferInstanceAs (Decidable (_ → (_ ↔ _)))
  | .begin .. | .other _ | .recordAction .. | .tick _ => isTrue trivial

instance : (e : StreamEvent) → Decidable (s.Timely e)
  | .next _ _ =>
    inferInstanceAs (Decidable (_ → (_ → _ ∨ _) ∧ (_ → _ → _ ∧ ∀ t ∈ Track.stoppedAt _, _)))
  | .begin .. | .other _ | .recordAction .. | .tick _ => isTrue trivial

end Stream

/-! ### What a message leaves -/

namespace CrashWatch

variable {w : CrashWatch} {msg : Message}

private theorem expectedRecently_fst (w : CrashWatch) (name : String) :
    (w.expectedRecently name).1 = (w.expected name).any fun t =>
      w.engine.now - t ≤ expectedActionT := by
  unfold expectedRecently
  cases w.expected name with
  | none => rfl
  | some t =>
    by_cases ht : w.engine.now - t > expectedActionT
    · exact (congrArg Prod.fst (if_pos ht)).trans (decide_eq_false (not_le.mpr ht)).symm
    · exact (congrArg Prod.fst (if_neg ht)).trans (decide_eq_true (not_lt.mp ht)).symm

/-- A mark that is forgotten is old. -/
theorem expected_expectedRecently (w : CrashWatch) (name name' : String) :
    (w.expectedRecently name).2.expected name' = w.expected name' ∨
      (w.expectedRecently name).2.expected name' = none ∧
        ∀ t ∈ w.expected name', expectedActionT < w.engine.now - t := by
  unfold expectedRecently
  cases ht : w.expected name with
  | none => exact Or.inl rfl
  | some t =>
    dsimp only
    split_ifs with hold
    · by_cases hname : name' = name
      · rw [hname, ht]
        exact Or.inr ⟨Function.update_self .., fun t' ht' => Option.some.inj ht' ▸ hold⟩
      · exact Or.inl (Function.update_of_ne hname _ _)
    · exact Or.inl rfl

private theorem engine_handleEvent (w : CrashWatch) (msg : Message) :
    (w.handleEvent msg).engine = w.engine ∧ (w.handleEvent msg).id = w.id := by
  cases hignored : msg.ignored with
  | true =>
    rw [handleEvent_of_ignored w hignored]
    exact ⟨rfl, rfl⟩
  | false =>
    obtain ⟨crash, stopping, expected, -, heq⟩ := handleEvent_of_not_ignored w hignored
    rw [heq]
    exact ⟨rfl, rfl⟩

private theorem expected_handleEvent (h : msg.ignored = false) :
    (w.handleEvent msg).expected = (w.expectedRecently msg.name).2.expected := by
  rw [handleEvent, if_neg (by simp [h])]
  dsimp only
  split_ifs <;> rfl

private theorem stopping_handleEvent (h : msg.ignored = false) :
    (w.handleEvent msg).stopping =
      if msg.base = "die" then Function.update w.stopping msg.name none
      else if msg.base = "stop" ∨ msg.base = "kill" then
        Function.update w.stopping msg.name (some w.engine.now)
      else w.stopping := by
  obtain ⟨expected, hs⟩ := w.expectedRecently_snd msg.name
  rw [handleEvent, if_neg (by simp [h])]
  simp only [hs, Bool.or_eq_true, decide_eq_true_eq]
  by_cases hdie : msg.base = "die"
  · simp [hdie]
  · simp only [hdie, if_false]
    split_ifs <;> rfl

/-- A die is judged by the marks as they are. -/
theorem calls_handleEvent_of_die (h : msg.ignored = false) (hdie : msg.base = "die") :
    (w.handleEvent msg).calls = eventCalls w.id w.hostName
      (w.unexpected (w.expectedRecently msg.name).1 msg) msg := by
  obtain ⟨expected, hs⟩ := w.expectedRecently_snd msg.name
  rw [handleEvent, if_neg (by simp [h])]
  simp only [hs]
  simp [hdie, unexpected, userStop]

end CrashWatch

/-! ### What every run keeps -/

namespace Stream

variable {s s' : Stream} {name : String}

/-- The mark of the last action is there, or the action is old. -/
def Remembered (s : Stream) (name : String) (at? : Option ℕ) : Prop :=
  s.watch.expected name = at? ∨ s.watch.expected name = none ∧ s.recent at? = false

/-- The marks of a container are those of its history. -/
structure TrackInv (s : Stream) (name : String) : Prop where
  suffix : (s.track name).left <:+ (s.track name).episode.actions
  named : (s.track name).left ≠ [] → name ≠ ""
  mark : s.watch.stopping name =
    if (s.track name).episode.commanded ∧ (s.track name).left.head? = some "die" then
      some (s.track name).killedAt
    else (s.track name).stoppedAt
  expected : s.Remembered name (s.track name).actedAt
  issued : ∀ t ∈ (s.track name).issuedAt, ∃ t' ∈ (s.track name).actedAt, t ≤ t' ∧ t' ≤ s.now

/-- What holds between the steps of every container's history. -/
def Inv (s : Stream) : Prop := ∀ name, s.TrackInv name

/-- What comes after an event of a group. -/
theorem actions_cases {episode : Episode} {action : String} {left : List String}
    (h : action :: left <:+ episode.actions) :
    action ∈ ["kill", "die", "stop", "start", "restart"] ∧
      (action = "kill" → episode.commanded = true ∧ left.head? = some "die") ∧
      (action ≠ "kill" → left.head? ≠ some "die") := by
  have hall : ∀ l ∈ episode.actions.tails, ∀ a ∈ l.head?,
      a ∈ ["kill", "die", "stop", "start", "restart"] ∧
        (a = "kill" → episode.commanded = true ∧ l.tail.head? = some "die") ∧
        (a ≠ "kill" → l.tail.head? ≠ some "die") := by
    cases episode <;> decide
  exact hall (action :: left) ((List.mem_tails ..).mpr h) action rfl

private theorem recent_eq_false {at? : Option ℕ} :
    s.recent at? = false ↔ ∀ t ∈ at?, expectedActionT < s.now - t := by
  cases at? with
  | none => simp [recent]
  | some t =>
    rw [recent, Option.any_some, decide_eq_false_iff_not, not_le]
    simp only [Option.mem_def, Option.some.injEq, forall_eq']

private theorem now_handle (s : Stream) (msg : Message) : (s.handle msg).engine.now = s.now :=
  congrArg Engine.now (CrashWatch.engine_handleEvent _ msg).1

/-- What a message leaves of the mark of an action. -/
theorem expected_handle (s : Stream) (msg : Message) (name : String) :
    (s.handle msg).expected name = s.watch.expected name ∨
      (s.handle msg).expected name = none ∧ s.recent (s.watch.expected name) = false := by
  cases hignored : msg.ignored with
  | true =>
    rw [handle, CrashWatch.handleEvent_of_ignored _ hignored]
    exact Or.inl rfl
  | false =>
    rw [handle, CrashWatch.expected_handleEvent hignored]
    exact (CrashWatch.expected_expectedRecently _ msg.name name).imp_right
      fun ⟨hnone, hold⟩ => ⟨hnone, recent_eq_false.mpr hold⟩

/-- What a message leaves of the mark of a stop. -/
theorem stopping_handle {msg : Message} (h : msg.ignored = false) (s : Stream) (name : String) :
    (s.handle msg).stopping name =
      if name = msg.name ∧ msg.base = "die" then none
      else if name = msg.name ∧ (msg.base = "stop" ∨ msg.base = "kill") then some s.now
      else s.watch.stopping name := by
  rw [handle, CrashWatch.stopping_handleEvent h]
  by_cases hname : name = msg.name
  · subst hname
    simp only [true_and]
    split_ifs
    · exact Function.update_self ..
    · exact Function.update_self ..
    · rfl
  · simp only [hname, false_and, if_false]
    split_ifs
    · exact Function.update_of_ne hname ..
    · exact Function.update_of_ne hname ..
    · rfl

private theorem stopping_handle_other {msg : Message} (h : name = msg.name →
    ¬ (msg.base = "stop" ∨ msg.base = "kill" ∨ msg.base = "die")) (s : Stream) :
    (s.handle msg).stopping name = s.watch.stopping name := by
  cases hignored : msg.ignored with
  | true => rw [handle, CrashWatch.handleEvent_of_ignored _ hignored]
  | false =>
    rw [stopping_handle hignored, if_neg fun hdie => h hdie.1 (Or.inr (Or.inr hdie.2)),
      if_neg fun hstop => h hstop.1 (hstop.2.imp_right Or.inl)]

/-- The message of an event of a group is not ignored. -/
theorem message_cases {action : String} (exitCode : String) (hname : name ≠ "")
    (h : action ∈ ["kill", "die", "stop", "start", "restart"]) :
    (message name action exitCode).ignored = false ∧ (message name action exitCode).base =
      action := by
  have hall : ∀ a ∈ ["kill", "die", "stop", "start", "restart"],
      (cutChar a ':').1 = a ∧ recordedActions.contains a = true := by decide
  obtain ⟨hbase, hrecorded⟩ := hall action h
  have hbase' : (message name action exitCode).base = action := hbase
  refine ⟨?_, hbase'⟩
  rw [Message.ignored, hbase', hrecorded]
  simp [message, hname]

theorem Remembered.keep {at? : Option ℕ} (h : s.Remembered name at?) (hnow : s.now ≤ s'.now)
    (hexpected : s'.watch.expected name = s.watch.expected name ∨
      s'.watch.expected name = none ∧ s.recent (s.watch.expected name) = false) :
    s'.Remembered name at? := by
  have hold : s.recent at? = false → s'.recent at? = false := by
    intro hrecent
    rw [recent_eq_false] at hrecent ⊢
    exact fun t ht => (hrecent t ht).trans_le (Nat.sub_le_sub_right hnow t)
  unfold Remembered at h ⊢
  rcases hexpected with hsame | ⟨hnone, hrecent⟩
  · rw [hsame]
    exact h.imp_right fun ⟨hnone, hrecent⟩ => ⟨hnone, hold hrecent⟩
  · rcases h with hsame | ⟨-, hrecent'⟩
    · rw [hsame] at hrecent
      exact Or.inr ⟨hnone, hold hrecent⟩
    · exact Or.inr ⟨hnone, hold hrecent'⟩

/-- A container of which nothing is told keeps its invariant. -/
theorem TrackInv.frame (h : s.TrackInv name) (hnow : s.now ≤ s'.now)
    (htrack : s'.track name = s.track name) (hstopping :
      s'.watch.stopping name = s.watch.stopping name)
    (hexpected : s'.watch.expected name = s.watch.expected name ∨
      s'.watch.expected name = none ∧ s.recent (s.watch.expected name) = false) :
    s'.TrackInv name where
  suffix := htrack ▸ h.suffix
  named := htrack ▸ h.named
  mark := by
    rw [htrack, hstopping]
    exact h.mark
  expected := by
    rw [htrack]
    exact h.expected.keep hnow hexpected
  issued := fun t ht => by
    rw [htrack] at ht ⊢
    obtain ⟨t', ht', hle, hpast⟩ := h.issued t ht
    exact ⟨t', ht', hle, hpast.trans hnow⟩

theorem TrackInv.begin (h : s.TrackInv name) (hname : name ≠ "") (hleft : (s.track name).left = [])
    (episode : Episode) :
    (s.setTrack name { s.track name with episode, left := episode.actions }).TrackInv name := by
  have htrack : (s.setTrack name { s.track name with episode, left := episode.actions }).track
    name =
      { s.track name with episode, left := episode.actions } := Function.update_self ..
  have hmark : s.watch.stopping name = (s.track name).stoppedAt := by
    rw [h.mark, hleft]
    simp
  have hhead : ¬ (episode.commanded = true ∧ episode.actions.head? = some "die") := by
    cases episode <;> decide
  exact {
    suffix := by rw [htrack]
    named := fun _ => hname
    mark := by
      rw [htrack, if_neg hhead]
      exact hmark
    expected := by
      rw [htrack]
      exact h.expected
    issued := by
      rw [htrack]
      exact h.issued }

/-- The next event of a group leaves the marks of the history after it. -/
theorem TrackInv.next (h : s.TrackInv name) {action : String} {left : List String}
    (exitCode : String)
    (hleft : (s.track name).left = action :: left) :
    TrackInv { s.setTrack name ((s.track name).after s.now action left) with
      watch := s.handle (message name action exitCode) } name := by
  have hname : name ≠ "" := h.named (by simp [hleft])
  have hsuffix := h.suffix
  rw [hleft] at hsuffix
  obtain ⟨hmem, hkill, hother⟩ := actions_cases hsuffix
  obtain ⟨hnot, hbase⟩ := message_cases exitCode hname hmem
  have htrack : (s.setTrack name ((s.track name).after s.now action left)).track name =
      (s.track name).after s.now action left := Function.update_self ..
  -- before a start or a restart the history has its mark too
  have hmark : action ≠ "die" → s.watch.stopping name = (s.track name).stoppedAt := by
    intro hdie
    rw [h.mark, hleft]
    simp [hdie]
  exact {
    suffix := by
      rw [htrack]
      exact (List.suffix_cons action left).trans hsuffix
    named := fun _ => hname
    mark := by
      rw [htrack, stopping_handle hnot, hbase]
      simp only [List.mem_cons, List.not_mem_nil, or_false] at hmem
      rcases hmem with rfl | rfl | rfl | rfl | rfl
      · simp [Track.after, message, hkill rfl]
      · simp [Track.after, message, hother]
      · simp [Track.after, message, hother]
      · simp [Track.after, message, hother, hmark]
      · simp [Track.after, message, hother, hmark]
    expected := by
      rw [htrack]
      exact h.expected.keep (now_handle s _).ge (expected_handle s _ name)
    issued := fun t ht => by
      rw [htrack] at ht ⊢
      obtain ⟨t', ht', hle, hpast⟩ := h.issued t ht
      exact ⟨t', ht', hle, hpast.trans (now_handle s _).ge⟩ }

private theorem TrackInv.recordAction (h : s.TrackInv name) (action : String) :
    TrackInv { s.setTrack name { s.track name with
        issuedAt := if action ∈ issuedActions then some s.now else (s.track name).issuedAt
        actedAt := some s.now } with
      watch := { s.watch with expected := Function.update s.watch.expected name (some s.now) } }
        name := by
  have htrack : (s.setTrack name { s.track name with
      issuedAt := if action ∈ issuedActions then some s.now else (s.track name).issuedAt
      actedAt := some s.now }).track name = { s.track name with
      issuedAt := if action ∈ issuedActions then some s.now else (s.track name).issuedAt
      actedAt := some s.now } := Function.update_self ..
  exact {
    suffix := by
      rw [htrack]
      exact h.suffix
    named := by
      rw [htrack]
      exact h.named
    mark := by
      rw [htrack]
      exact h.mark
    expected := by
      rw [htrack]
      exact Or.inl (Function.update_self ..)
    issued := fun t ht => by
      rw [htrack] at ht ⊢
      refine ⟨s.now, rfl, ?_, le_refl s.now⟩
      dsimp only at ht
      split_ifs at ht
      · exact (Option.some.inj ht).ge
      · obtain ⟨t', -, hle, hpast⟩ := h.issued t ht
        exact hle.trans hpast }

theorem Inv.step {e : StreamEvent} (h : s.Inv) (hs : s.step e = some s') : s'.Inv := by
  intro name'
  cases e with
  | begin name episode =>
    rw [Stream.step, Option.ite_none_right_eq_some] at hs
    obtain ⟨⟨hname, hleft⟩, hs⟩ := hs
    obtain rfl := Option.some.inj hs
    by_cases hn : name' = name
    · rw [hn]
      exact (h name).begin hname hleft episode
    · exact (h name').frame (le_refl _) (Function.update_of_ne hn ..) rfl (Or.inl rfl)
  | next name exitCode =>
    simp only [Stream.step] at hs
    split at hs
    · rename_i action left hleft
      obtain rfl := Option.some.inj hs
      by_cases hn : name' = name
      · rw [hn]
        exact (h name).next exitCode hleft
      · exact (h name').frame (now_handle s _).ge (Function.update_of_ne hn ..)
          (stopping_handle_other (fun heq => absurd heq hn) s) (expected_handle s _ name')
    · cases hs
  | other msg =>
    rw [Stream.step, Option.ite_none_left_eq_some] at hs
    obtain ⟨hbase, hs⟩ := hs
    obtain rfl := Option.some.inj hs
    exact (h name').frame (now_handle s _).ge rfl (stopping_handle_other (fun _ => hbase) s)
      (expected_handle s _ name')
  | recordAction name action =>
    obtain rfl := Option.some.inj hs
    by_cases hn : name' = name
    · rw [hn]
      exact (h name).recordAction action
    · exact (h name').frame (le_refl _) (Function.update_of_ne hn ..) rfl
        (Or.inl (Function.update_of_ne hn ..))
  | tick d =>
    obtain rfl := Option.some.inj hs
    exact (h name').frame (Nat.le_add_right _ _) rfl rfl (Or.inl rfl)

/-! ### Classification -/

private theorem any_opens_die {id hostName : String} {msg : Message} (hdie : msg.base = "die")
    (crash : Bool) :
    (eventCalls id hostName crash msg).any (Call.opens (exitedKey id msg.name)) = crash := by
  cases crash with
  | true => exact opens_of_crash hdie
  | false => simp [eventCalls, hdie]

/-- A die is raised unless a mark of the container is recent. -/
theorem any_opens_handle_die {exitCode : String} (hname : name ≠ "") (hcode : exitCode ≠ "")
    (hcode' : exitCode ≠ "0") (s : Stream) :
    (s.handle (message name "die" exitCode)).calls.any (Call.opens (s.watch.key name)) =
      (!s.recent (s.watch.expected name) &&
        !(s.watch.stopping name).any fun t => s.now - t < minute) := by
  obtain ⟨hnot, hbase⟩ := message_cases exitCode hname (by decide : "die" ∈ _)
  rw [handle, CrashWatch.calls_handleEvent_of_die hnot hbase]
  refine (any_opens_die hbase _).trans ?_
  rw [CrashWatch.unexpected, CrashWatch.userStop, CrashWatch.expectedRecently_fst, hbase]
  simp only [message, if_true, hcode, hcode', Bool.not_or, decide_true, Bool.true_and, ne_eq,
    not_false_eq_true]
  rfl

/-- What `handleEvent` remembers of an action is recent exactly when the action is. -/
theorem Remembered.recent {at? : Option ℕ} (h : s.Remembered name at?) :
    s.recent (s.watch.expected name) = s.recent at? := by
  rcases h with h | ⟨hnone, hold⟩
  · rw [h]
  · rw [hnone, hold]
    rfl

/-- An action that Dockhand has issued a short while ago is one that it has recorded. -/
theorem TrackInv.recent_acted (h : s.TrackInv name)
    (hissued : s.recent (s.track name).issuedAt = true) :
      s.recent (s.track name).actedAt = true := by
  by_contra hacted
  rw [Bool.not_eq_true, recent_eq_false] at hacted
  refine absurd hissued (Bool.eq_false_iff.mp (recent_eq_false.mpr fun t ht => ?_))
  obtain ⟨t', ht', hle, -⟩ := h.issued t ht
  exact (hacted t' ht').trans_le (Nat.sub_le_sub_left hle _)

/-- The die of a group is raised unless the history has a recent mark. -/
theorem raised_die (h : s.TrackInv name) {left : List String} {exitCode : String}
    (hleft : (s.track name).left = "die" :: left) (hcode : exitCode ≠ "")
      (hcode' : exitCode ≠ "0") :
    (s.handle (message name "die" exitCode)).calls.any
        (Call.opens ((s.handle (message name "die" exitCode)).key name)) = true ↔
      s.recent (s.track name).actedAt = false ∧
        ∀ t ∈ if (s.track name).episode.commanded then some (s.track name).killedAt
          else (s.track name).stoppedAt, minute ≤ s.now - t := by
  have hkey : (s.handle (message name "die" exitCode)).key name = s.watch.key name :=
    congrArg (exitedKey · name) (CrashWatch.engine_handleEvent _ _).2
  have hname : name ≠ "" := h.named (by simp [hleft])
  have hmark : s.watch.stopping name = if (s.track name).episode.commanded then
      some (s.track name).killedAt else (s.track name).stoppedAt := by
    rw [h.mark, hleft]
    simp
  have hold : ∀ {at? : Option ℕ}, (at?.any fun t => s.now - t < minute) = false ↔
      ∀ t ∈ at?, minute ≤ s.now - t := by
    intro at?
    cases at? with
    | none => simp
    | some t =>
      rw [Option.any_some, decide_eq_false_iff_not, not_lt]
      simp only [Option.mem_def, Option.some.injEq, forall_eq']
  rw [hkey, any_opens_handle_die hname hcode hcode', h.expected.recent, hmark, Bool.and_eq_true,
    Bool.not_eq_true', Bool.not_eq_true', hold]

/-- A step does what it should exactly when it meets the condition. -/
theorem classified_iff {e : StreamEvent} (h : s.Inv) (hs : s.step e = some s') :
    s.Classified e s' ↔ s.Timely e := by
  cases e with
  | next name exitCode =>
    refine forall_congr' fun ⟨hhead, hcode, hcode'⟩ => ?_
    simp only [Stream.step] at hs
    split at hs
    · rename_i action left hleft
      obtain rfl := Option.some.inj hs
      rw [hleft, List.head?_cons, Option.some.injEq] at hhead
      subst hhead
      have hraised := raised_die (h name) hleft hcode hcode'
      rw [Stream.raised, hraised]
      cases hcommand : (s.track name).episode.commanded with
      | true =>
        simp only [Bool.true_eq_false, false_and, iff_false, if_true, Option.mem_some_iff,
          forall_eq', not_and_or, Bool.not_eq_false, not_le, true_imp_iff, false_imp_iff, and_true]
        exact or_comm
      | false =>
        simp only [true_and, Bool.false_eq_true, if_false, true_imp_iff, false_imp_iff]
        cases hissued : s.recent (s.track name).issuedAt with
        | true => simp [(h name).recent_acted hissued]
        | false => simp
    · cases hs
  | _ => exact Iff.rfl

/-- Nothing has been told of any container, and nothing recorded. -/
structure New (s : Stream) : Prop where
  stopping : s.watch.stopping = fun _ => none
  expected : s.watch.expected = fun _ => none
  track : s.track = fun _ => {}

private theorem Inv.of_new (h : s.New) : s.Inv := by
  intro name
  constructor
  · rw [h.track]
    exact List.nil_suffix
  · rw [h.track]
    exact fun hleft => absurd rfl hleft
  · rw [h.track, h.stopping]
    rfl
  · rw [h.track]
    exact Or.inl (by rw [h.expected])
  · rw [h.track]
    exact fun t ht => by cases ht

/-- **Commands and crashes.** In every run, each end of a container is raised just when no command
of Docker or of Dockhand stands behind it, if and only if each die comes in time. -/
theorem classified_iff_along {es : List StreamEvent} (hnew : s.New)
    (hrun : exec step s es = some s') :
    AllSteps step Classified s es ↔ Along step Timely s es :=
  allSteps_iff_along_of_inv (fun _ _ _ h hs => h.step hs) (fun _ _ _ h hs => classified_iff h hs)
    (Inv.of_new hnew) hrun

end Stream

/-! ### A crash that is silenced -/

namespace Example

/-- A host of which nothing has been told. -/
def stream : Stream where
  watch := crashWatch

private theorem stream_new : stream.New := ⟨rfl, rfl, rfl⟩

/-- A restart, and a crash five seconds after it. -/
def restartThenCrash : List StreamEvent :=
  [.begin "web" .restart] ++ List.replicate 5 (.next "web" "143") ++
    [.tick (5 * 10 ^ 9), .begin "web" .crash, .next "web" "1"]

/-- A restart, a crash more than a minute after it, and a stop by Dockhand. -/
def crashLater : List StreamEvent :=
  [.begin "web" .restart] ++ List.replicate 5 (.next "web" "143") ++
    [.tick minute, .begin "web" .crash, .next "web" "1", .recordAction "web" "stop",
      .begin "web" .stop, .next "web" "", .next "web" "143", .next "web" ""]

end Example

namespace Stream

/-- The stop event of a restart hides the crash that follows. -/
theorem not_classified_restartThenCrash : ¬ ∀ (s s' : Stream) (es : List StreamEvent), s.New →
    exec step s es = some s' → AllSteps step Classified s es := by
  intro h
  have hrun : ∃ s, exec step Example.stream Example.restartThenCrash = some s :=
    Option.isSome_iff_exists.mp (by decide +kernel)
  obtain ⟨s, hrun⟩ := hrun
  exact absurd (h Example.stream s Example.restartThenCrash Example.stream_new hrun)
    (by decide +kernel)

/-- A restart by hand, a crash more than a minute after it, and a stop by Dockhand. -/
theorem classified_crashLater : AllSteps step Classified Example.stream Example.crashLater :=
  have hrun : (exec step Example.stream Example.crashLater).isSome = true := by decide +kernel
  (classified_iff_along Example.stream_new (Option.some_get hrun).symm).mpr (by decide +kernel)

end Stream

end Dockhand.Monitor
