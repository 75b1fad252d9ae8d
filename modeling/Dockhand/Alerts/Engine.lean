import Dockhand.Go.Strings
import Dockhand.Settings.Schema
import Dockhand.Transition.Exec
import Mathlib.Logic.Function.Basic

/-!
# The alert engine

The `alerts` table, keyed by dedupe key, and the calls of the engine on it. `Raise` is two SQL
statements: a `SELECT` that asks whether the alert is open, and then an `UPDATE` that refreshes it
or an `INSERT … ON CONFLICT` that opens it and dispatches a notification. Between the two other
calls may run, so a `Raise` that has made its `SELECT` is part of the state. The other calls are
one statement each. Database calls succeed.
-/

namespace Dockhand.Alerts

open Go

/-- An alert to raise. -/
structure Spec where
  key : String
  severity : String := ""
  kind : String := ""
  title : String := ""
  text : String := ""
  hostID : String := ""
  action : String := ""
  href : String := ""
  pref : String := ""

/-- A row of the `alerts` table. -/
structure Alert where
  severity : String
  kind : String
  title : String
  text : String
  hostID : Option String
  action : String
  href : String
  createdAt : ℕ
  readAt : Option ℕ := none
  snoozedUntil : Option ℕ := none
  resolvedAt : Option ℕ

/-- A `Raise` between its two statements, and what the first one read. -/
structure Raise where
  spec : Spec
  wasOpen : Bool

/-- The two ways by which a notification is dispatched: an alert that is raised, and an event that
is only told. -/
inductive Source
  | raise | event
  deriving DecidableEq

/-- A dispatched notification. -/
structure Sent where
  source : Source
  spec : Spec

/-- The alerts table by key, the raises that are between their statements, and what has been
dispatched so far. -/
structure Engine where
  notifications : Settings.Notifications
  now : ℕ := 0
  alerts : String → Option Alert := fun _ => none
  raises : List Raise := []
  sent : List Sent := []

/-- What happens next. `act i` is the second statement of a `Raise`. -/
inductive Event
  | tick (d : ℕ)
  | raise (s : Spec)
  | act (i : ℕ)
  | event (s : Spec)
  | resolve (key : String)
  | resolvePrefix (pre : String) (keep : List String)

/-- Whether a notification preference lets an alert through. -/
def prefEnabled (n : Settings.Notifications) (pref : String) : Bool :=
  if pref = "hostDown" then n.hostDown
  else if pref = "containerCrash" then n.containerCrash
  else if pref = "unhealthy" then n.unhealthy
  else if pref = "updates" then n.updates
  else if pref = "diskSpace" then n.diskSpace
  else if pref = "deploys" then n.deploys
  else true

/-- The defaults of an empty action and link. -/
def Spec.withDefaults (s : Spec) : Spec :=
  { s with
    action := if s.action = "" then "Open" else s.action
    href := if s.href = "" then "/" else s.href }

/-- The row that an `INSERT … ON CONFLICT DO UPDATE` leaves: both branches set every column. -/
def Spec.row (s : Spec) (now : ℕ) (resolvedAt : Option ℕ) : Alert where
  severity := s.severity
  kind := s.kind
  title := s.title
  text := s.text
  hostID := if s.hostID = "" then none else some s.hostID
  action := s.action
  href := s.href
  createdAt := now
  resolvedAt := resolvedAt

namespace Engine

/-- `SELECT resolved_at IS NULL`, false when there is no row. -/
def isOpen (e : Engine) (key : String) : Bool := (e.alerts key).any fun a => a.resolvedAt.isNone

/-- `dispatch` notifies when the preference is on. -/
def dispatch (e : Engine) (source : Source) (s : Spec) : Engine :=
  if prefEnabled e.notifications s.pref then { e with sent := e.sent ++ [⟨source, s⟩] } else e

/-- The `UPDATE` of a `Raise`, which keeps the state of the alert. -/
def refresh (e : Engine) (s : Spec) : Engine :=
  { e with
    alerts := Function.update e.alerts s.key ((e.alerts s.key).map fun a =>
      { a with
        severity := s.severity, title := s.title, text := s.text, action := s.action
        href := s.href }) }

/-- The `INSERT` of a `Raise` or of an `Event`. -/
def insert (e : Engine) (s : Spec) (resolvedAt : Option ℕ) : Engine :=
  { e with alerts := Function.update e.alerts s.key (some (s.row e.now resolvedAt)) }

/-- The second statement of a `Raise`. -/
def act (e : Engine) (r : Raise) : Engine :=
  if r.wasOpen then e.refresh r.spec else (e.insert r.spec none).dispatch .raise r.spec

/-- The `UPDATE` of `Resolve` and `ResolvePrefix`, for the keys that it selects. -/
def close (e : Engine) (selects : String → Bool) : Engine :=
  { e with
    alerts := fun key =>
      (e.alerts key).map fun a =>
        if selects key ∧ a.resolvedAt = none then { a with resolvedAt := some e.now } else a }

/-- The keys that `ResolvePrefix` closes. -/
def inPrefix (pre : String) (keep : List String) (key : String) : Bool :=
  hasPrefix key pre && !keep.contains key

/-- One statement. -/
def step (e : Engine) : Event → Option Engine
  | .tick d => some { e with now := e.now + d }
  | .raise s =>
    some { e with raises := e.raises ++ [⟨s.withDefaults, e.isOpen s.key⟩] }
  | .act i =>
    (e.raises[i]?).map fun r => { e with raises := e.raises.eraseIdx i }.act r
  | .event s => some ((e.insert s.withDefaults (some e.now)).dispatch .event s.withDefaults)
  | .resolve key => some (e.close (· = key))
  | .resolvePrefix p keep => some (e.close (inPrefix p keep))

end Engine

end Dockhand.Alerts
