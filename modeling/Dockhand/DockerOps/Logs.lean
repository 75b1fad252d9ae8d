import Dockhand.Hosts.Lines
import Dockhand.Transition.Exec
import Mathlib.Algebra.BigOperators.Group.List.Basic
import Mathlib.Algebra.GroupWithZero.Nat
import Mathlib.Data.List.DropRight

/-!
# Logs of a container

`Logs` reads a stream in which the engine has multiplexed the outputs of a container. `StdCopy`
takes the frames apart and writes into the pipes of the two outputs; a write returns when all of it
has been read. One scanner for each pipe cuts what it reads into lines, and calls `emit` under a
lock. What comes between two lines of an output, and how the engine has cut the output into frames,
is up to the schedule: `lines_of_run` says that it does not show.

The writes of `StdCopy` are a parameter, and `Demultiplexes` is what is asked of them. `parseTime`
is `time.Parse` for the format of the engine's timestamps.
-/

namespace Dockhand.DockerOps.Logs

open Hosts (LF CR)
open Transition

/-- The two streams of a container without a TTY. -/
inductive Stream
  | stdout | stderr
  deriving DecidableEq

/-- `LogLine`; `time` is `none` for the time at which the line is read. -/
structure LogLine where
  time : Option ℕ
  stream : Stream
  line : List UInt8
  deriving DecidableEq

/-- `parseLogLine`. -/
def parseLogLine (parseTime : List UInt8 → Option ℕ) (raw : List UInt8) (stream : Stream) :
    LogLine :=
  let raw := raw.rdropWhile (· = CR)
  match raw.findIdx? (· = 32) with
  | some i =>
    match if i > 0 then parseTime (raw.take i) else none with
    | some t => ⟨some t, stream, raw.drop (i + 1)⟩
    | none => ⟨none, stream, raw⟩
  | none => ⟨none, stream, raw⟩

/-- `dropCR`. -/
def dropCR (data : List UInt8) : List UInt8 :=
  if data.getLast? = some CR then data.dropLast else data

/-- The data cut at its first line feed. -/
def cutLine (data : List UInt8) : Option (List UInt8 × List UInt8) :=
  match data.dropWhile (· ≠ LF) with
  | [] => none
  | _ :: rest => some (data.takeWhile (· ≠ LF), rest)

/-- The most bytes that a scanner keeps. -/
def maxLine : ℕ := 2 * 1024 * 1024

/-- One scanner: what has been written to its pipe and not read, what it has read and not passed
on, and whether it has returned; from then on, it discards what it reads. -/
structure Scanner where
  pipe : List UInt8 := []
  data : List UInt8 := []
  returned : Bool := false
  deriving DecidableEq

/-- The payload of a frame, or a write to a pipe, and the output that it belongs to. -/
abbrev Frame := Stream × List UInt8

/-- `stdcopy.StdCopy` writes the payloads of the frames, in their order, and each with one call of
`Write`. It writes all of them where it has come to the end of the stream, which `ended` says, and
where reading or writing has failed those up to the failure. -/
structure Demultiplexes (frames writes : List Frame) (ended : Bool) : Prop where
  written : writes <+: frames
  whole : ended = true → writes = frames

/-- A call of `Logs`. `pending` are the writes of `StdCopy` that are still to come, and `closed`
says that it has returned and the pipes are closed; `calls` are the calls of `emit`, and `failed`
whether the last one has returned an error. -/
structure Call where
  pending : List Frame
  scanners : Stream → Scanner := fun _ => {}
  closed : Bool := false
  failed : Bool := false
  calls : List LogLine := []

/-- What happens next in a call of `Logs`. -/
inductive Event
  /-- `StdCopy` begins its next write. -/
  | write
  /-- It returns, at the end of the stream or with an error. -/
  | close
  /-- A scanner reads, and passes a line on; `err` says whether `emit` fails. -/
  | read (s : Stream) (n : ℕ)
  | line (s : Stream) (err : Bool)
  /-- It gives up on a line, or it is at the end of its pipe. -/
  | tooLong (s : Stream)
  | last (s : Stream) (err : Bool)
  deriving DecidableEq

namespace Call

variable (parseTime : List UInt8 → Option ℕ)

/-- The scanner of one stream is replaced, and all else stays. -/
def set (c : Call) (s : Stream) (sc : Scanner) : Call :=
  { c with scanners := Function.update c.scanners s sc }

/-- No write is on its way. -/
def idle (c : Call) : Bool := (c.scanners .stdout).pipe = [] ∧ (c.scanners .stderr).pipe = []

/-- The body of the scanner's loop: `emit` is called unless it has failed before. -/
def emit (c : Call) (s : Stream) (raw : List UInt8) (err : Bool) : Call :=
  if c.failed then c
  else { c with calls := c.calls ++ [parseLogLine parseTime (dropCR raw) s], failed := err }

/-- One step. -/
def step (c : Call) : Event → Option Call
  | .write =>
    match c.pending with
    | (s, p) :: rest =>
      if !c.closed ∧ c.idle then
        some ({ c with pending := rest }.set s { c.scanners s with pipe := p })
      else none
    | [] => none
  | .close =>
    if !c.closed ∧ c.pending = [] ∧ c.idle then
      some { c with closed := true }
    else none
  | .read s n =>
    let sc := c.scanners s
    if n = 0 ∨ sc.pipe.length < n then none
    else if sc.returned then some (c.set s { sc with pipe := sc.pipe.drop n })
    else if LF ∉ sc.data ∧ sc.data.length < maxLine ∧ sc.data.length + n ≤ maxLine then
      some (c.set s { sc with pipe := sc.pipe.drop n, data := sc.data ++ sc.pipe.take n })
    else none
  | .line s err =>
    let sc := c.scanners s
    match cutLine sc.data with
    | some (raw, rest) =>
      if sc.returned then none
      else
        let c' := c.emit parseTime s raw err
        some (c'.set s { sc with data := rest, returned := c'.failed })
    | none => none
  | .tooLong s =>
    let sc := c.scanners s
    if !sc.returned ∧ LF ∉ sc.data ∧ maxLine ≤ sc.data.length then
      some (c.set s { sc with returned := true })
    else none
  | .last s err =>
    let sc := c.scanners s
    if !sc.returned ∧ c.closed ∧ sc.pipe = [] ∧ LF ∉ sc.data ∧ sc.data.length < maxLine then
      let c' := if sc.data = [] then c else c.emit parseTime s sc.data err
      some (c'.set s { sc with data := [], returned := true })
    else none

end Call

/-! ### Lines -/

/-- The lines of an output. -/
def rawLines (b : List UInt8) : List (List UInt8) :=
  (b.splitOn LF).dropLast ++ (b.splitOn LF).getLast?.toList.filter (· ≠ [])

@[simp] theorem rawLines_nil : rawLines [] = [] := rfl

theorem rawLines_append {l : List UInt8} (hl : LF ∉ l) (r : List UInt8) :
    rawLines (l ++ LF :: r) = l :: rawLines r := by
  have hne := List.splitOn_ne_nil LF r
  rw [rawLines, List.splitOn_append_cons_self, List.splitOn_eq_singleton hl, List.singleton_append,
    List.dropLast_cons_of_ne_nil hne, List.getLast?_cons_of_ne_nil hne]
  rfl

private theorem rawLines_of_not_mem {b : List UInt8} (hb : LF ∉ b) :
    rawLines b = if b = [] then [] else [b] := by
  rw [rawLines, List.splitOn_eq_singleton hb]
  by_cases hempty : b = [] <;> simp [hempty]

private theorem eq_of_cutLine {data raw rest : List UInt8} (h : cutLine data = some (raw, rest)) :
    data = raw ++ LF :: rest ∧ LF ∉ raw := by
  rw [cutLine] at h
  split at h
  next => cases h
  next c r hdrop =>
    simp only [Option.some.injEq, Prod.mk.injEq] at h
    obtain ⟨rfl, rfl⟩ := h
    have hc : c = LF := by
      have hhead := List.head?_dropWhile_not (fun x => decide (x ≠ LF)) data
      rw [hdrop] at hhead
      simpa using hhead
    have hsplit := List.takeWhile_append_dropWhile (p := fun x => decide (x ≠ LF)) (l := data)
    rw [hdrop, hc] at hsplit
    exact ⟨hsplit.symm, fun hmem => by simpa using List.mem_takeWhile_imp hmem⟩

private theorem cutLine_append {data raw rest : List UInt8} (hraw : LF ∉ raw)
    (hdata : data = raw ++ LF :: rest) : cutLine data = some (raw, rest) := by
  have htake : ∀ x ∈ raw, decide (x ≠ LF) = true := fun x hx => by
    simpa using ne_of_mem_of_not_mem hx hraw
  rw [cutLine, hdata, List.dropWhile_append_of_pos htake, List.takeWhile_append_of_pos htake]
  simp

/-- A line that is not at its end is part of a line of the output. -/
theorem exists_mem_rawLines {d : List UInt8} (hd : LF ∉ d) (hne : d ≠ []) (x : List UInt8) :
    ∃ l ∈ rawLines (d ++ x), d.length ≤ l.length := by
  by_cases hx : LF ∈ x
  · obtain ⟨y, z, rfl, hy⟩ := List.eq_append_cons_of_mem hx
    refine ⟨d ++ y, ?_, by simp⟩
    rw [← List.append_assoc, rawLines_append (by simp [hd, hy])]
    exact List.mem_cons_self
  · refine ⟨d ++ x, ?_, by simp⟩
    rw [rawLines_of_not_mem (by simp [hd, hx])]
    simp [hne]

/-! ### One output -/

/-- The bytes of an output in a list of frames. -/
def bytesOf (s : Stream) (frames : List Frame) : List UInt8 :=
  (frames.filter fun f => f.1 = s).flatMap (·.2)

/-- The lines of an output as `Logs` shows them. -/
def parsed (parseTime : List UInt8 → Option ℕ) (s : Stream) (b : List UInt8) : List LogLine :=
  (rawLines b).map fun raw => parseLogLine parseTime (dropCR raw) s

private theorem bytesOf_cons (s s' : Stream) (p : List UInt8) (frames : List Frame) :
    bytesOf s ((s', p) :: frames) = (if s' = s then p else []) ++ bytesOf s frames := by
  by_cases hs : s' = s <;> simp [bytesOf, hs]

/-- What is written of an output is the beginning of it. -/
theorem Demultiplexes.bytesOf {frames writes : List Frame} {ended : Bool}
    (h : Demultiplexes frames writes ended) (s : Stream) :
    bytesOf s writes <+: bytesOf s frames := by
  obtain ⟨rest, rfl⟩ := h.written
  rw [Logs.bytesOf, Logs.bytesOf, List.filter_append, List.flatMap_append]
  exact List.prefix_append _ _

private theorem stream_parseLogLine (parseTime : List UInt8 → Option ℕ) (raw : List UInt8)
    (s : Stream) :
    (parseLogLine parseTime raw s).stream = s := by
  rw [parseLogLine]
  split
  · split <;> rfl
  · rfl

namespace Call

variable {parseTime : List UInt8 → Option ℕ} {writes : List Frame} {c c' t : Call} {s s' : Stream}
  {e : Event} {es : List Event}

/-- The calls of `emit` for an output. -/
def called (c : Call) (s : Stream) : List LogLine := c.calls.filter fun l => l.stream = s

/-- What is still to be passed on of an output. -/
def unread (c : Call) (s : Stream) : List UInt8 :=
  (c.scanners s).data ++ (c.scanners s).pipe ++ bytesOf s c.pending

@[simp] theorem scanners_set (c : Call) (s s' : Stream) (sc : Scanner) :
    (c.set s' sc).scanners s = if s = s' then sc else c.scanners s := by
  simp [set, Function.update_apply]

@[simp] theorem called_set (c : Call) (s s' : Stream) (sc : Scanner) :
    (c.set s' sc).called s = c.called s := rfl

@[simp] theorem scanners_emit (raw : List UInt8) (err : Bool) :
    (c.emit parseTime s raw err).scanners = c.scanners := by
  rw [emit]
  split_ifs <;> rfl

@[simp] theorem pending_emit (raw : List UInt8) (err : Bool) :
    (c.emit parseTime s raw err).pending = c.pending := by
  rw [emit]
  split_ifs <;> rfl

@[simp] theorem closed_emit (raw : List UInt8) (err : Bool) :
    (c.emit parseTime s raw err).closed = c.closed := by
  rw [emit]
  split_ifs <;> rfl

private theorem failed_emit {raw : List UInt8} {err : Bool}
    (h : (c.emit parseTime s raw err).failed = false) : c.failed = false := by
  rw [emit] at h
  split_ifs at h with hf
  · exact h
  · simpa using hf

private theorem called_emit_of_ne (hs : s ≠ s') (raw : List UInt8) (err : Bool) :
    (c.emit parseTime s' raw err).called s = c.called s := by
  rw [emit]
  split_ifs
  · rfl
  · simp [called, stream_parseLogLine, Ne.symm hs]

/-- A line is passed on, unless `emit` has failed before. -/
theorem called_emit (raw : List UInt8) (err : Bool) :
    (c.emit parseTime s raw err).called s =
      c.called s ++ if c.failed then [] else [parseLogLine parseTime (dropCR raw) s] := by
  rw [emit]
  split_ifs
  · simp
  · simp [called, stream_parseLogLine]

/-! ### The invariant -/

/-- What has become of an output. While its scanner runs, `d` has been passed on in whole lines,
and the rest follows. -/
structure Inv (parseTime : List UInt8 → Option ℕ) (writes : List Frame) (s : Stream) (c : Call) :
    Prop where
  closed : c.closed = true → c.pending = []
  running : (c.scanners s).returned = false → ∃ d rs,
    d ++ c.unread s = bytesOf s writes ∧
      c.called s = rs.map (fun raw => parseLogLine parseTime (dropCR raw) s) ∧
      ∀ x, rawLines (d ++ x) = rs ++ rawLines x
  returned : (c.scanners s).returned = true →
    (∃ b, b <+: bytesOf s writes ∧ c.called s <+: parsed parseTime s b) ∧
      (c.failed = false → (∀ l ∈ rawLines (bytesOf s writes), l.length < maxLine) →
        c.called s = parsed parseTime s (bytesOf s writes))

private theorem inv_start : Inv parseTime writes s { pending := writes } where
  closed h := by cases h
  running _ := ⟨[], [], by simp [unread], rfl, fun x => rfl⟩
  returned h := by cases h

/-- A step that leaves alone what concerns the output. -/
theorem Inv.frame (h : Inv parseTime writes s c) (hclosed : c'.closed = true → c'.pending = [])
    (hsc : (c'.scanners s).returned = (c.scanners s).returned)
    (hunread : (c.scanners s).returned = false → c'.unread s = c.unread s)
    (hfailed : c'.failed = false → c.failed = false)
    (hcalled : c'.called s = c.called s) : Inv parseTime writes s c' where
  closed := hclosed
  running hr := by
    rw [hsc] at hr
    rw [hunread hr, hcalled]
    exact h.running hr
  returned hr := by
    rw [hsc] at hr
    rw [hcalled]
    exact ⟨(h.returned hr).1, fun hf => (h.returned hr).2 (hfailed hf)⟩

private theorem pipe_of_idle (h : c.idle = true) (s : Stream) : (c.scanners s).pipe = [] := by
  have hboth : (c.scanners .stdout).pipe = [] ∧ (c.scanners .stderr).pipe = [] := by
    simpa [idle] using h
  cases s
  · exact hboth.1
  · exact hboth.2

/-- The lines that have been passed on are those of what they have been cut from. -/
private theorem parsed_of_lines {d : List UInt8} {rs : List (List UInt8)}
    (hlines : ∀ x, rawLines (d ++ x) = rs ++ rawLines x) :
    parsed parseTime s d = rs.map fun raw => parseLogLine parseTime (dropCR raw) s := by
  have hnil := hlines []
  rw [List.append_nil, rawLines_nil, List.append_nil] at hnil
  rw [parsed, hnil]

/-- A scanner passes a line on. -/
theorem Inv.line {raw rest : List UInt8} {err : Bool} (h : Inv parseTime writes s c)
    (hcut : cutLine (c.scanners s').data = some (raw, rest))
    (hrun : (c.scanners s').returned = false) :
    Inv parseTime writes s ((c.emit parseTime s' raw err).set s'
      { c.scanners s' with data := rest, returned := (c.emit parseTime s' raw err).failed }) := by
  rcases eq_or_ne s s' with rfl | hs
  · obtain ⟨hdata, hraw⟩ := eq_of_cutLine hcut
    obtain ⟨d, rs, hall, hcalled, hlines⟩ := h.running hrun
    have hunread : c.unread s =
        raw ++ LF :: (rest ++ (c.scanners s).pipe ++ bytesOf s c.pending) := by
      simp [unread, hdata]
    -- the line and its end are passed on
    have hlines' : ∀ x, rawLines (d ++ (raw ++ [LF]) ++ x) = (rs ++ [raw]) ++ rawLines x := by
      intro x
      have hassoc : d ++ (raw ++ [LF]) ++ x = d ++ (raw ++ LF :: x) := by simp
      rw [hassoc, hlines, rawLines_append hraw]
      simp
    have hassoc : d ++ (raw ++ [LF]) ++ (rest ++ (c.scanners s).pipe ++ bytesOf s c.pending) =
        bytesOf s writes := by
      rw [← hall, hunread]
      simp
    refine ⟨by simpa [set] using h.closed, fun hr => ?_, fun hr => ⟨?_, fun hf => ?_⟩⟩
    · have hok : (c.emit parseTime s raw err).failed = false := by simpa using hr
      refine ⟨d ++ (raw ++ [LF]), rs ++ [raw], ?_, ?_, hlines'⟩
      · rw [← hassoc]
        simp [unread, set]
      · rw [called_set, called_emit, failed_emit hok, hcalled]
        simp
    · refine ⟨d ++ (raw ++ [LF]), hassoc ▸ List.prefix_append .., ?_⟩
      rw [parsed_of_lines hlines', called_set, called_emit, hcalled, List.map_append]
      split_ifs
      · rw [List.append_nil]
        exact List.prefix_append ..
      · exact List.prefix_rfl
    · have hfailed : (c.emit parseTime s raw err).failed = true := by simpa using hr
      exact absurd (hfailed.symm.trans hf) (by decide)
  · refine h.frame (by simpa [set] using h.closed) (by simp [hs])
      (fun _ => by simp [unread, hs, set]) (fun hf => failed_emit hf) ?_
    rw [called_set, called_emit_of_ne hs]

/-- A scanner gives up on a line, which fills its buffer. -/
theorem Inv.tooLong (h : Inv parseTime writes s c) (hrun : (c.scanners s').returned = false)
    (hLF : LF ∉ (c.scanners s').data) (hlong : maxLine ≤ (c.scanners s').data.length) :
    Inv parseTime writes s (c.set s' { c.scanners s' with returned := true }) := by
  rcases eq_or_ne s s' with rfl | hs
  · obtain ⟨d, rs, hall, hcalled, hlines⟩ := h.running hrun
    refine ⟨h.closed, fun hr => by simp at hr, fun _ => ⟨⟨d, ?_, ?_⟩, fun _ hshort => ?_⟩⟩
    · exact hall ▸ List.prefix_append ..
    · have hpart : c.called s = parsed parseTime s d := hcalled.trans (parsed_of_lines hlines).symm
      exact hpart ▸ List.prefix_rfl
    · have hne : (c.scanners s).data ≠ [] := by
        intro hempty
        simp [hempty, maxLine] at hlong
      obtain ⟨l, hl, hle⟩ :=
        exists_mem_rawLines hLF hne ((c.scanners s).pipe ++ bytesOf s c.pending)
      have hmem : l ∈ rawLines (bytesOf s writes) := by
        rw [← hall, hlines, unread, List.append_assoc]
        exact List.mem_append_right _ hl
      exact absurd (hshort l hmem) (by omega)
  · exact h.frame h.closed (by simp [hs]) (fun _ => by simp [unread, hs, set]) id rfl

/-- A scanner is at the end of its pipe. -/
theorem Inv.last {err : Bool} (h : Inv parseTime writes s c)
    (hrun : (c.scanners s').returned = false) (hclosed : c.closed = true)
    (hpipe : (c.scanners s').pipe = []) (hLF : LF ∉ (c.scanners s').data) :
    Inv parseTime writes s
      ((if (c.scanners s').data = [] then c else c.emit parseTime s' (c.scanners s').data err).set
        s'
        { c.scanners s' with data := [], returned := true }) := by
  rcases eq_or_ne s s' with rfl | hs
  · obtain ⟨d, rs, hall, hcalled, hlines⟩ := h.running hrun
    have hunread : c.unread s = (c.scanners s).data := by
      simp [unread, hpipe, h.closed hclosed, bytesOf]
    rw [hunread] at hall
    have hwhole := hlines (c.scanners s).data
    rw [rawLines_of_not_mem hLF] at hwhole
    have hparsed : parsed parseTime s (bytesOf s writes) = c.called s ++
        if (c.scanners s).data = [] then []
        else [parseLogLine parseTime (dropCR (c.scanners s).data) s] := by
      rw [← hall, parsed, hwhole, List.map_append, hcalled]
      split_ifs <;> rfl
    split_ifs with hempty
    · -- the output ends with a line feed
      rw [if_pos hempty, List.append_nil] at hparsed
      refine ⟨h.closed, fun hr => by simp at hr,
        fun _ => ⟨⟨_, List.prefix_rfl, ?_⟩, fun _ _ => ?_⟩⟩
      · exact hparsed ▸ List.prefix_rfl
      · exact hparsed.symm
    · rw [if_neg hempty] at hparsed
      refine ⟨by simpa [set] using h.closed, fun hr => by simp at hr,
        fun _ => ⟨⟨_, List.prefix_rfl, ?_⟩, fun hf _ => ?_⟩⟩
      · rw [hparsed, called_set, called_emit]
        split_ifs
        · rw [List.append_nil]
          exact List.prefix_append ..
        · exact List.prefix_rfl
      · rw [hparsed, called_set, called_emit, failed_emit hf, if_neg Bool.false_ne_true]
  · have hother : Inv parseTime writes s
        (if (c.scanners s').data = [] then c else c.emit parseTime s' (c.scanners s').data
          err) := by
      split_ifs
      · exact h
      · exact h.frame (by simpa using h.closed) (by simp) (fun _ => by simp [unread])
          (fun hf => failed_emit hf) (called_emit_of_ne hs ..)
    exact hother.frame hother.closed (by simp [hs]) (fun _ => by simp [unread, hs, set]) id rfl

theorem Inv.step (h : Inv parseTime writes s c) (he : c.step parseTime e = some c') :
    Inv parseTime writes s c' := by
  cases e with
  | write =>
    simp only [Call.step] at he
    split at he
    next s' p rest hpending =>
      obtain ⟨⟨hopen, hidle⟩, he⟩ := Option.ite_none_right_eq_some.mp he
      obtain rfl := Option.some.inj he
      refine h.frame (by simp_all [set]) ?_ (fun _ => ?_) id rfl
      · rw [scanners_set]
        split_ifs with hs
        · rw [hs]
        · rfl
      · rw [unread, unread, hpending, bytesOf_cons, scanners_set]
        rcases eq_or_ne s s' with rfl | hs
        · simp [set, pipe_of_idle hidle]
        · simp [set, hs, Ne.symm hs]
    next => cases he
  | close =>
    obtain ⟨⟨-, hpending, -⟩, he⟩ := Option.ite_none_right_eq_some.mp he
    obtain rfl := Option.some.inj he
    exact h.frame (fun _ => hpending) rfl (fun _ => rfl) id rfl
  | read s' n =>
    simp only [Call.step] at he
    split_ifs at he with hn hr
    · obtain rfl := Option.some.inj he
      refine h.frame h.closed ?_ (fun hrun => ?_) id rfl
      · rw [scanners_set]
        split_ifs with hs
        · rw [hs]
        · rfl
      · have hs : s ≠ s' := by
          rintro rfl
          exact absurd hr (by simp [hrun])
        simp [unread, hs, set]
    · obtain rfl := Option.some.inj he
      refine h.frame h.closed ?_ (fun _ => ?_) id rfl
      · rw [scanners_set]
        split_ifs with hs
        · rw [hs]
        · rfl
      · -- what is read moves from the pipe into the buffer
        rcases eq_or_ne s s' with rfl | hs
        · simp [unread, set]
        · simp [unread, hs, set]
  | line s' err =>
    simp only [Call.step] at he
    split at he
    next raw rest hcut =>
      split_ifs at he with hr
      obtain rfl := Option.some.inj he
      exact h.line hcut (by simpa using hr)
    next => cases he
  | tooLong s' =>
    obtain ⟨⟨hr, hLF, hlong⟩, he⟩ := Option.ite_none_right_eq_some.mp he
    obtain rfl := Option.some.inj he
    exact h.tooLong (by simpa using hr) hLF hlong
  | last s' err =>
    obtain ⟨⟨hr, hclosed, hpipe, hLF, -⟩, he⟩ := Option.ite_none_right_eq_some.mp he
    obtain rfl := Option.some.inj he
    exact h.last (by simpa using hr) hclosed hpipe hLF

/-! ### Runs -/

/-- `Logs` returns. -/
def done (c : Call) : Bool :=
  c.closed ∧ c.idle ∧ (c.scanners .stdout).returned ∧ (c.scanners .stderr).returned

private theorem returned_of_done (h : c.done = true) (s : Stream) :
    (c.scanners s).returned = true := by
  simp only [done, Bool.decide_and, Bool.and_eq_true, decide_eq_true_eq] at h
  cases s
  · exact h.2.2.1
  · exact h.2.2.2

private theorem inv_of_run (hrun : exec (step parseTime) { pending := writes } es = some t) :
    Inv parseTime writes s t :=
  exec_invariant (fun _ _ _ h he => h.step he) inv_start hrun

/-- What `Logs` shows of an output are the lines of a part of it, in their order, and of all of it
when `Logs` returns, unless `StdCopy` has not come to the end, `emit` has failed, or there is a line
that does not fit into the buffer. -/
theorem lines_of_run {frames : List Frame} {ended : Bool}
    (hcopy : Demultiplexes frames writes ended)
    (hrun : exec (step parseTime) { pending := writes } es = some t) (s : Stream) :
    (∃ b, b <+: bytesOf s frames ∧ t.called s <+: parsed parseTime s b) ∧
      (t.done = true → ended = true → t.failed = false →
        (∀ l ∈ rawLines (bytesOf s frames), l.length < maxLine) →
        t.called s = parsed parseTime s (bytesOf s frames)) := by
  have hinv := inv_of_run (s := s) hrun
  constructor
  · cases hr : (t.scanners s).returned with
    | true =>
      obtain ⟨b, hb, hcalled⟩ := (hinv.returned hr).1
      exact ⟨b, hb.trans (hcopy.bytesOf s), hcalled⟩
    | false =>
      obtain ⟨d, rs, hall, hcalled, hlines⟩ := hinv.running hr
      have hpart : t.called s = parsed parseTime s d := hcalled.trans (parsed_of_lines hlines).symm
      exact ⟨d, (hall ▸ List.prefix_append ..).trans (hcopy.bytesOf s), hpart ▸ List.prefix_rfl⟩
  · intro hdone hended
    rw [← hcopy.whole hended]
    exact (hinv.returned (returned_of_done hdone s)).2

namespace Example

/-- A stream whose second line comes in two frames, the other output between them. -/
def frames : List Frame :=
  [(.stdout, [55, 32, 97, 10, 55, 32, 98]), (.stderr, [55, 32, 120, 10]), (.stdout, [98, 13, 10])]

/-- `StdCopy` reads the stream to its end. -/
theorem demultiplexes : Demultiplexes frames frames true where
  written := List.prefix_rfl
  whole _ := rfl

/-- The seventh second is written as a digit. -/
def time (b : List UInt8) : Option ℕ := if b = [55] then some 7 else none

/-- The scanner of the one output has not passed on its first line when that of the other reads. -/
def run : List Event :=
  [.write, .read .stdout 7, .line .stdout false, .write, .read .stderr 4, .write,
    .read .stdout 2, .line .stderr false, .read .stdout 1, .line .stdout false, .close,
    .last .stdout false, .last .stderr false]

end Example

/-- Frames of both streams, with a line that goes over two of them. -/
theorem lines_of_run_frames :
    ∃ t, exec (step Example.time) { pending := Example.frames } Example.run = some t ∧
      t.called .stdout = [⟨some 7, .stdout, [97]⟩, ⟨some 7, .stdout, [98, 98]⟩] ∧
      t.called .stderr = [⟨some 7, .stderr, [120]⟩] := by
  have hend : ((exec (step Example.time) { pending := Example.frames } Example.run).map fun t =>
      t.done && !t.failed) = some true := by decide +kernel
  obtain ⟨t, ht, hdone⟩ := Option.map_eq_some_iff.mp hend
  simp only [Bool.and_eq_true, Bool.not_eq_true'] at hdone
  obtain ⟨hdone, hfailed⟩ := hdone
  have hout := (lines_of_run Example.demultiplexes ht .stdout).2 hdone rfl hfailed
  have herr := (lines_of_run Example.demultiplexes ht .stderr).2 hdone rfl hfailed
  refine ⟨t, ht, (hout ?_).trans (by decide +kernel), (herr ?_).trans (by decide +kernel)⟩
  · decide +kernel
  · decide +kernel

/-! ### The end of a run -/

/-- The work that is left to a scanner; a byte is read, and then passed on. -/
def work (sc : Scanner) : ℕ :=
  2 * sc.pipe.length + sc.data.length + if sc.returned then 0 else 1

/-- The work that is left. -/
def left (c : Call) : ℕ :=
  (c.pending.map fun f => 2 * f.2.length + 1).sum + (if c.closed then 0 else 1) +
    work (c.scanners .stdout) + work (c.scanners .stderr)

private theorem left_set_lt {sc : Scanner} (h : work sc < work (c.scanners s)) :
    (c.set s sc).left < c.left := by
  have hpending : (c.set s sc).pending = c.pending := rfl
  have hclosed : (c.set s sc).closed = c.closed := rfl
  cases s <;> simp [left, hpending, hclosed] <;> omega

@[simp] theorem left_emit (raw : List UInt8) (err : Bool) :
    (c.emit parseTime s raw err).left = c.left := by
  simp [left]

theorem left_lt_of_step (he : c.step parseTime e = some c') : c'.left < c.left := by
  cases e with
  | write =>
    simp only [step] at he
    split at he
    next s p rest hpending =>
      obtain ⟨⟨hopen, hidle⟩, he⟩ := Option.ite_none_right_eq_some.mp he
      obtain rfl := Option.some.inj he
      have hpipe := pipe_of_idle hidle
      have hclosed : c.closed = false := by simpa using hopen
      cases s <;> simp [left, hpending, hclosed, set, work, hpipe] <;> omega
    next => cases he
  | close =>
    obtain ⟨⟨hopen, -⟩, he⟩ := Option.ite_none_right_eq_some.mp he
    obtain rfl := Option.some.inj he
    simp [left, show c.closed = false by simpa using hopen]
  | read s n =>
    simp only [step] at he
    split_ifs at he with hn hr
    · obtain rfl := Option.some.inj he
      refine left_set_lt ?_
      simp [work]
      omega
    · obtain rfl := Option.some.inj he
      refine left_set_lt ?_
      simp [work]
      omega
  | line s err =>
    simp only [step] at he
    split at he
    next raw rest hcut =>
      split_ifs at he with hr
      obtain rfl := Option.some.inj he
      obtain ⟨hdata, -⟩ := eq_of_cutLine hcut
      refine (left_set_lt ?_).trans_eq (left_emit raw err)
      simp [work, hdata, hr]
      split_ifs <;> omega
    next => cases he
  | tooLong s =>
    obtain ⟨⟨hr, -, -⟩, he⟩ := Option.ite_none_right_eq_some.mp he
    obtain rfl := Option.some.inj he
    have hrun : (c.scanners s).returned = false := by simpa using hr
    refine left_set_lt ?_
    rw [work, work, if_pos rfl, hrun, if_neg Bool.false_ne_true]
    exact Nat.lt_succ_self _
  | last s err =>
    obtain ⟨⟨hr, -, -, -, -⟩, he⟩ := Option.ite_none_right_eq_some.mp he
    obtain rfl := Option.some.inj he
    have hlt : ∀ c' : Call, c'.scanners = c.scanners → c'.left = c.left →
        (c'.set s { c.scanners s with data := [], returned := true }).left < c.left := by
      intro c' hsc hleft
      have hrun : (c.scanners s).returned = false := by simpa using hr
      refine (left_set_lt ?_).trans_eq hleft
      rw [work, work, hsc, if_pos rfl, hrun, if_neg Bool.false_ne_true, List.length_nil]
      dsimp only
      omega
    split_ifs
    · exact hlt c rfl rfl
    · exact hlt _ (scanners_emit ..) (left_emit ..)

/-- Some event is enabled. -/
def Enabled (parseTime : List UInt8 → Option ℕ) (c : Call) : Prop :=
  ∃ e, (c.step parseTime e).isSome = true

private theorem enabled_of_running (hr : (c.scanners s).returned = false)
    (h : (c.scanners s).pipe ≠ [] ∨ c.closed = true) : c.Enabled parseTime := by
  by_cases hLF : LF ∈ (c.scanners s).data
  · obtain ⟨raw, rest, hdata, hraw⟩ := List.eq_append_cons_of_mem hLF
    exact ⟨.line s false, by simp [step, cutLine_append hraw hdata, hr]⟩
  by_cases hlong : maxLine ≤ (c.scanners s).data.length
  · exact ⟨.tooLong s, by simp [step, hr, hLF, hlong]⟩
  rw [not_le] at hlong
  by_cases hpipe : (c.scanners s).pipe = []
  · have hclosed := h.resolve_left (absurd hpipe)
    exact ⟨.last s false, by simp [step, hr, hLF, hlong, hpipe, hclosed]⟩
  · exact ⟨.read s 1, by simp [step, hr, hLF, hlong, Nat.succ_le_of_lt hlong, hpipe]⟩

/-- `Logs` is never stuck: a scanner that has returned goes on to empty its pipe. -/
theorem enabled_of_not_done (h : c.done = false) : c.Enabled parseTime := by
  by_cases hidle : c.idle = true
  · cases hclosed : c.closed with
    | false =>
      cases hframes : c.pending with
      | nil => exact ⟨.close, by simp [step, hclosed, hframes, hidle]⟩
      | cons f rest => exact ⟨.write, by simp [step, hclosed, hframes, hidle]⟩
    | true =>
      -- all is written, and one of the scanners has not returned
      have hrun : ∃ s, (c.scanners s).returned = false := by
        by_contra hall
        simp only [not_exists, Bool.not_eq_false] at hall
        simp [done, hclosed, hidle, hall] at h
      obtain ⟨s, hs⟩ := hrun
      exact enabled_of_running hs (Or.inr hclosed)
  · have hpipe : ∃ s, (c.scanners s).pipe ≠ [] := by
      by_contra hall
      simp only [not_exists, not_not] at hall
      simp [idle, hall] at hidle
    obtain ⟨s, hs⟩ := hpipe
    cases hr : (c.scanners s).returned with
    | false => exact enabled_of_running hr (Or.inl hs)
    | true =>
      exact ⟨.read s (c.scanners s).pipe.length,
        by simp [step, hr, hs]⟩

/-- `Logs` returns under every schedule: no run has more steps than the stream gives work, and one
that `Logs` has not returned from can go on. -/
theorem returns_of_run {frames : List Frame} {ended : Bool}
    (hcopy : Demultiplexes frames writes ended)
    (hrun : exec (step parseTime) { pending := writes } es = some t) :
    es.length ≤ (frames.map fun f => 2 * f.2.length + 1).sum + 3 ∧
      (t.done = false → ∃ e, (t.step parseTime e).isSome = true) := by
  refine ⟨?_, enabled_of_not_done⟩
  obtain ⟨rest, rfl⟩ := hcopy.written
  have hle := exec_length_add_le (fun _ _ _ => left_lt_of_step) hrun
  have hstart : left { pending := writes } = (writes.map fun f => 2 * f.2.length + 1).sum + 3 := by
    simp [left, work]
  rw [List.map_append, List.sum_append]
  omega

/-- The same call, in the middle of which something can still happen. -/
theorem returns_of_run_frames : Example.run.length ≤ 34 ∧
    ∃ t, exec (step Example.time) { pending := Example.frames } (Example.run.take 5) = some t ∧
      ∃ e, (t.step Example.time e).isSome = true := by
  have hend : (exec (step Example.time) { pending := Example.frames } Example.run).isSome =
      true := by
    decide +kernel
  obtain ⟨t, ht⟩ := Option.isSome_iff_exists.mp hend
  have hmid : ((exec (step Example.time) { pending := Example.frames } (Example.run.take 5)).map
      done) = some false := by decide +kernel
  obtain ⟨m, hm, hdone⟩ := Option.map_eq_some_iff.mp hmid
  exact ⟨(returns_of_run Example.demultiplexes ht).1.trans (by decide), m, hm,
    (returns_of_run Example.demultiplexes hm).2 hdone⟩

end Call

end Dockhand.DockerOps.Logs
