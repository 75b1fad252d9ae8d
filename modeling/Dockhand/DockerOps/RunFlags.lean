import Dockhand.DockerOps.Quoting
import Dockhand.Go.Net

/-!
# The flags of `docker run`

What `docker run` makes of its words: the flags that the preview uses, and the image behind them. A
command of which the result depends on where it is run, or with a value that a flag refuses, has no
reading here.
-/

namespace Dockhand.DockerOps

open Go
open Dockhand.Stacks (shq)

/-- The protocols of a published port. -/
def protocols : List String := ["tcp", "udp", "sctp"]

/-- A port that is published at the ports of a host from the one to the other. -/
structure Published where
  port : String
  proto : String
  hostIP : String
  range : ℕ × ℕ
  deriving DecidableEq

/-- The container of a command. -/
structure Run where
  name : String
  restart : String
  network : String
  exposed : List (String × String)
  published : List Published
  binds : List String
  env : List String
  labels : Dict String String
  image : String
  args : List String
  deriving DecidableEq

/-! ### Values -/

/-- A port number in decimal. -/
def readPort (s : String) : Option ℕ :=
  if s.toList ≠ [] ∧ s.toList.all Char.isDigit ∧ ofDigits 10 s.toList ≤
    65535 then some (ofDigits 10 s.toList)
  else none

/-- A port or a range of ports. -/
def readRange (s : String) : Option (ℕ × ℕ) :=
  match cut s "-" with
  | none => (readPort s).map fun a => (a, a)
  | some (lo, hi) => do
    let a ← readPort lo
    let b ← readPort hi
    if a ≤ b then some (a, b) else none

/-- The port and the protocol of the container, which is `tcp` where none is given. -/
def splitProto (s : String) : String × String :=
  match cut s "/" with
  | none => (s, "tcp")
  | some (port, proto) => (port, if proto = "" then "tcp" else proto)

/-- The numbers of the ports from `a` to `b`. -/
def numbers (a b : ℕ) : List String := (List.range' a (b - a + 1)).map Nat.repr

/-- An address, perhaps in brackets. -/
def readIP (ip : String) : Option String :=
  let ip := if hasPrefix ip "[" then (splitHostPort (ip ++ ":")).map Prod.fst else some ip
  ip.filter fun ip => ip = "" ∨ (parseIP ip).isSome

/-- `-p [ip:][host:]container[/proto]`. A host port 0 is chosen by Docker. -/
def readPublish (s : String) : Option (List Published) := do
  let (rest, ctr) := (cutLast s ':').getD ("", s)
  -- an address has colons of its own
  let (ip, host) := (cutLast rest ':').getD ("", rest)
  let (port, proto) := splitProto ctr
  let proto := toLower proto
  let ip ← readIP ip
  let (a, b) ← readRange port
  let (c, d) ← if host = "" then some (0, 0) else readRange host
  if proto ∉ protocols then none
  else if a = b then some [⟨a.repr, proto, ip, (c, d)⟩]
  else if host = "" then some ((numbers a b).map fun n => ⟨n, proto, ip, (0, 0)⟩)
  else if d - c ≠ b - a then none
  else some ((List.range (b - a + 1)).map fun k => ⟨(a + k).repr, proto, ip, (c + k, c + k)⟩)

/-- `--expose port[/proto]`. -/
def readExpose (s : String) : Option (List (String × String)) :=
  if ':' ∈ s.toList then none
  else
    let (port, proto) := splitProto s
    (readRange port).map fun r => (numbers r.1 r.2).map (·, proto)

/-- The characters of a name in the client's pattern for options. -/
def isWord (c : Char) : Bool := c.isAlphanum || c = '_'

/-- The value of `--network` is a list of options, `name=value`. -/
def hasOptions : List Char → Bool
  | a :: '=' :: b :: s => (isWord a && isWord b) || hasOptions ('=' :: b :: s)
  | _ :: s => hasOptions s
  | [] => false

/-- The variable that `-e` sets. -/
def setsVariable (s : String) : Bool := (cut s "=").any fun kv => kv.1 ≠ ""

/-- `docker run` takes the value of the flag for what the flag is about. -/
def readable (f : String × String) : Bool :=
  match f.1 with
  | "--network" => !hasOptions f.2.toList
  | "--expose" => (readExpose f.2).isSome
  | "-p" => (readPublish f.2).isSome
  -- a source that begins with a dot is relative to the directory of the command
  | "-v" => !hasPrefix f.2 "."
  | "-e" => setsVariable f.2
  | _ => true

/-! ### Words -/

/-- The flags of the preview that take the next word as their value; `-d` takes none. -/
def takesValue (s : String) : Bool :=
  s ∈ ["--name", "--restart", "--network", "--expose", "-p", "-v", "-e", "--label"]

/-- A word is taken for a flag. -/
def isFlag (s : String) : Bool :=
  match s.toList with
  | '-' :: _ :: _ => true
  | _ => false

/-- The flags before the image, and the image with what follows it. -/
def readArgs : List String → Option (List (String × String) × String × List String)
  | [] => none
  | "-d" :: ws => readArgs ws
  | [w] => if isFlag w then none else some ([], w, [])
  | w :: v :: ws =>
    if takesValue w then (readArgs ws).map fun r => ((w, v) :: r.1, r.2)
    else if isFlag w then none
    else some ([], w, v :: ws)

/-- The values of a flag. -/
def values (flag : String) (flags : List (String × String)) : List String :=
  flags.filterMap fun f => if f.1 = flag then some f.2 else none

/-- The ports that a command publishes. -/
def publishedBy (flags : List (String × String)) : List Published :=
  (values "-p" flags).flatMap fun v => (readPublish v).getD []

/-- `docker run`. -/
def dockerRun : List String → Option Run
  | "docker" :: "run" :: ws =>
    (readArgs ws).bind fun (flags, image, args) =>
      if flags.all readable then
        some
          { name := (values "--name" flags).getLastD ""
            restart := (values "--restart" flags).getLastD ""
            network := (values "--network" flags).getLastD ""
            exposed := (publishedBy flags).map (fun p => (p.port, p.proto)) ++
              (values "--expose" flags).flatMap fun v => (readExpose v).getD []
            published := publishedBy flags
            binds := values "-v" flags
            env := values "-e" flags
            labels := (values "--label" flags).foldl
              (fun m v => let kv := (cut v "=").getD (v, ""); m.set kv.1 kv.2) ∅
            image := image
            args := args }
      else none
  | _ => none

/-- What a shell runs of a line. -/
def runLine (line : String) : Option Run :=
  (Shell.words line.toList).bind fun ws => dockerRun (ws.map String.ofList)

example : (runLine
    ("docker run -d --name web -p 127.0.0.1:8080:80 --expose 53/udp " ++
      "-e 'MSG=hello world' nginx")).map
    (fun r => (r.published, r.exposed, r.env, r.image)) =
      some ([⟨"80", "tcp", "127.0.0.1", (8080, 8080)⟩], [("80", "tcp"), ("53", "udp")],
        ["MSG=hello world"], "nginx") := by
  decide +kernel

/-! ### The words of the preview -/

section

variable {nat : PortPackage} {spec : RunSpec} {ports : List String}

/-- A shell runs the arguments as they are. -/
theorem runLine_dockerRunCommand : runLine (dockerRunCommand nat spec ports) = dockerRun
    (runArgs nat spec ports) := by
  have hwords : Shell.words (dockerRunCommand nat spec ports).toList =
      some ((runArgs nat spec ports).map String.toList) := by
    have hspace : " ".toList = [' '] := rfl
    have hmap : ((runArgs nat spec ports).map shellArg).map String.toList =
        ((runArgs nat spec ports).map String.toList).map fun w =>
          (shellArg (String.ofList w)).toList := by
      simp
    rw [dockerRunCommand, String.toList_intercalate, hspace, hmap]
    refine Shell.words_intercalate fun w hw => ?_
    obtain ⟨s, -, rfl⟩ := List.mem_map.mp hw
    rw [String.ofList_toList]
    exact writes_shellArg s
  rw [runLine, hwords, Option.bind_some, List.map_map]
  simp

/-- The flags of a command come back, and its image unless it looks like a flag. -/
theorem readArgs_flags {flags : List (String × String)} (h : ∀ f ∈ flags, takesValue f.1 = true)
    (image : String) :
    readArgs (flags.flatMap (fun f => [f.1, f.2]) ++ [image]) =
      if isFlag image then none else some (flags, image, []) := by
  induction flags with
  | nil =>
    by_cases hd : image = "-d"
    · subst hd
      rfl
    · rw [List.flatMap_nil, List.nil_append, readArgs]
      exact hd
  | cons f flags ih =>
    obtain ⟨hf, hflags⟩ := List.forall_mem_cons.mp h
    have hd : f.1 ≠ "-d" := by
      intro hd
      rw [hd] at hf
      exact absurd hf (by decide)
    have hshape : (f :: flags).flatMap (fun f => [f.1, f.2]) ++ [image] =
        f.1 :: f.2 :: (flags.flatMap (fun f => [f.1, f.2]) ++ [image]) := rfl
    rw [hshape, readArgs, if_pos hf, ih hflags]
    · split_ifs <;> rfl
    · exact hd

end

end Dockhand.DockerOps
