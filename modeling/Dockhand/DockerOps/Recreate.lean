import Dockhand.DockerOps.Daemon

/-!
# Recreate

`Recreate` renames the old container out of the way, stops it, creates and starts the copy under
the old name, and removes the old container. A failure undoes what was done: by itself after the
stop, and through `rollback` from the creation on.

The daemon's answers to the forward calls are inputs (`Replies`): each call may be answered with
an error that had no effect, and the stop also with one after it took effect, as when the client
times out. A call that is not answered with an error does what the daemon does, and the daemon
can refuse it too. The calls that undo are not disturbed.
-/

namespace Dockhand.DockerOps

open Go Daemon

/-- The answer to `ContainerStop`. -/
inductive StopReply where
  | ok
  | refused (e : DockerError)
  | timedOut (e : DockerError)

/-- The answers to the calls of one `Recreate`. For the calls that only change the daemon,
`none` means that no error is injected. -/
structure Replies where
  pull : Option String := none
  oldImage : Option ImageConfig := none
  rename : Option DockerError := none
  stop : StopReply := .ok
  create : Except DockerError String
  connect : String → Option DockerError := fun _ => none
  start : Option DockerError := none
  remove : Option DockerError := none

/-- A forward call. -/
def call (reply : Option DockerError) (f : Except DockerError Daemon) : Except DockerError Daemon :=
  match reply with
  | some e => .error e
  | none => f

/-- A call whose error is ignored. -/
def attempt (f : Except DockerError Daemon) (d : Daemon) : Daemon :=
  match f with
  | .ok d' => d'
  | .error _ => d

/-- The name of the old container while it is replaced. -/
def backupName (name : String) (now : ℤ) : String := name ++ "-dockhand-old-" ++ toString now

/-- Stop the old container, when it is running. -/
def stopOld (r : StopReply) (ins : InspectResponse) (d : Daemon) : Option DockerError × Daemon :=
  if ins.running then
    match r with
    | .refused e => (some e, d)
    | .timedOut e => (some e, attempt (d.stop ins.id) d)
    | .ok =>
      match d.stop ins.id with
      | .ok d' => (none, d')
      | .error e => (some e, d)
  else (none, d)

/-- Give the old container its name back, and start it when it was running. -/
def restoreOld (ins : InspectResponse) (d : Daemon) : Daemon :=
  let d := attempt (d.rename ins.id (trimPrefix ins.name "/")) d
  if ins.running then attempt (d.start ins.id) d else d

/-- `rollback`. -/
def rollback (ins : InspectResponse) (newID : Option String) (d : Daemon) : Daemon :=
  match newID with
  | some id => restoreOld ins (attempt (d.remove id) d)
  | none => restoreOld ins d

/-- `ContainerCreate` with the daemon's answer. -/
def createCopy (r : Replies) (req : CreateRequest) (d : Daemon) :
    Except DockerError (String × Daemon) :=
  match r.create with
  | .error e => .error e
  | .ok id =>
    match d.create req id with
    | .ok d' => .ok (id, d')
    | .error e => .error e

/-- Connect the copy to the other networks, up to the first failure. -/
def connectAll (r : Replies) (id : String) :
    List String → Daemon → Option (String × DockerError) × Daemon
  | [], d => (none, d)
  | n :: ns, d =>
    match call (r.connect n) (d.connect id n) with
    | .error e => (some (n, e), d)
    | .ok d' => connectAll r id ns d'

/-- Connect and start the copy. -/
def startCopy (r : Replies) (ins : InspectResponse) (opts : RecreateOpts) (id : String)
    (extra : List String) (d : Daemon) : Except String Unit × Daemon :=
  match connectAll r id extra d with
  | (some (n, e), d) => (.error ("connect network " ++ n ++ ": " ++ wrap e), d)
  | (none, d) =>
    if ins.running ∨ opts.image ≠ "" ∨ opts.pull then
      match call r.start (d.start id) with
      | .error e => (.error ("start container: " ++ wrap e), d)
      | .ok d' => (.ok (), d')
    else (.ok (), d)

/-- From the creation of the copy on. -/
def replaceOld (r : Replies) (ins : InspectResponse) (opts : RecreateOpts) (d : Daemon) :
    Except String String × Daemon :=
  let req := requestFor ins opts r.oldImage
  match createCopy r req.1 d with
  | .error e => (.error ("create container: " ++ wrap e), rollback ins none d)
  | .ok (id, d) =>
    match startCopy r ins opts id (req.2.map fun e => e.1) d with
    | (.error e, d) => (.error e, rollback ins (some id) d)
    | (.ok (), d) => (.ok id, attempt (call r.remove (d.remove ins.id)) d)

/-- **`Recreate`.** The result is the identifier of the copy or the text of the error. -/
def recreate (now : ℤ) (r : Replies) (ins : InspectResponse) (opts : RecreateOpts) (d : Daemon) :
    Except String String × Daemon :=
  match (if opts.pull then r.pull else none) with
  | some e => (.error e, d)
  | none =>
    let name := trimPrefix ins.name "/"
    match call r.rename (d.rename ins.id (backupName name now)) with
    | .error e => (.error ("rename old container: " ++ wrap e), d)
    | .ok d =>
      match stopOld r.stop ins d with
      | (some e, d) => (.error ("stop old container: " ++ wrap e), attempt (d.rename ins.id name) d)
      | (none, d) => replaceOld r ins opts d

end Dockhand.DockerOps
