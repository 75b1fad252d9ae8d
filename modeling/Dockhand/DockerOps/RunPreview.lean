import Dockhand.DockerOps.RunFlags
import Dockhand.DockerOps.RunRequest

/-!
# The preview of a run

The preview shows a run as a `docker run` line. `preview_iff` says of which specs the line gives
back what they say: a value must be one that its flag reads, and a port one that the flags can name.
-/

namespace Dockhand.DockerOps

open Go
open Dockhand.DeployCheck (PortPair)

/-! ### What a command gives back -/

/-- A binding: port and protocol, the address, and the ports of the host where they can be read. -/
abbrev Bound := (String × String) × String × Option (ℕ × ℕ)

/-- The binding that a value of `-p` asks for. -/
def Published.bound (x : Published) : Bound := ((x.port, x.proto), x.hostIP, some x.range)

section

variable (nat : PortPackage)

/-- The bindings of a spec. -/
def RunSpec.bounds (spec : RunSpec) : List Bound :=
  (spec.config.exposedPorts.entries.map Prod.fst).flatMap fun p =>
    (spec.hostConfig.bindingsOf p).map fun b =>
      ((nat.port p, nat.proto p), b.hostIP, readRange b.hostPort)

/-- The port is exposed. -/
def RunSpec.Has (spec : RunSpec) (p : String) : Prop := spec.config.exposedPorts.get? p = some ()

/-- A command runs what the spec says. -/
structure GivesBack (spec : RunSpec) (r : Run) : Prop where
  name : r.name = spec.name
  restart : r.restart = spec.hostConfig.restartPolicy.name
  network : r.network = spec.hostConfig.networkMode
  exposed : ∀ k, k ∈ r.exposed ↔ ∃ p, spec.Has p ∧ k = (nat.port p, nat.proto p)
  published : (r.published.map Published.bound).Perm (spec.bounds nat)
  binds : r.binds = spec.hostConfig.binds
  env : r.env = spec.config.env
  labels : r.labels = spec.config.labels
  image : r.image = spec.config.image
  args : r.args = []

/-- Every value is one that its flag reads, and as what it is. -/
structure Readable (spec : RunSpec) : Prop where
  image : isFlag spec.config.image = false
  network : hasOptions spec.hostConfig.networkMode.toList = false
  exposed : ∀ p, spec.Has p → (∃ n : ℕ, nat.port p = n.repr) ∧ ':' ∉ (nat.proto p).toList
  bound : ∀ p, spec.Has p → ∀ b ∈ spec.hostConfig.bindingsOf p,
    nat.proto p ∈ protocols ∧ (b.hostIP = "" ∨ (parseIP b.hostIP).isSome) ∧
      (readRange b.hostPort).isSome
  binds : ∀ v ∈ spec.hostConfig.binds, hasPrefix v "." = false
  env : ∀ e ∈ spec.config.env, setsVariable e = true

end

/-! ### Numbers and ranges -/

theorem toList_slash : "/".toList = ['/'] := rfl

theorem toList_dash : "-".toList = ['-'] := rfl

/-- Digits are read as `strconv.Atoi` reads them. -/
theorem ofDigits_eq_foldl {cs : List Char} (h : cs.all Char.isDigit = true) :
    ofDigits 10 cs = cs.foldl (fun n c => 10 * n + (c.toNat - '0'.toNat)) 0 := by
  refine List.foldl_ext _ _ _ fun n c hc => ?_
  rw [if_pos (List.all_eq_true.mp h c hc)]

private theorem all_isDigit_repr (n : ℕ) : n.repr.toList.all Char.isDigit = true :=
  List.all_eq_true.mpr fun _ hc => isDigit_of_mem_repr hc

private theorem readPort_repr {n : ℕ} (h : n ≤ 65535) : readPort n.repr = some n := by
  have hvalue : ofDigits 10 n.repr.toList = n := by
    rw [ofDigits_eq_foldl (all_isDigit_repr n), Nat.toList_repr, ← Nat.ofDigitChars_eq_foldl,
      Nat.ofDigitChars_ten_toDigits]
  have hne : n.repr.toList ≠ [] := by
    rw [Nat.toList_repr]
    exact Nat.toDigits_ne_nil
  rw [readPort, if_pos ⟨hne, all_isDigit_repr n, hvalue.symm ▸ h⟩, hvalue]

private theorem readRange_repr {n : ℕ} (h : n ≤ 65535) : readRange n.repr = some (n, n) := by
  rw [readRange, cut_of_not_mem toList_dash (not_mem_repr rfl), readPort_repr h]
  rfl

theorem not_mem_rangeText {a b : ℕ} {c : Char} (hc : c.isDigit = false) (hdash : c ≠ '-') :
    c ∉ (rangeText a b).toList := by
  rw [rangeText]
  split_ifs
  · exact not_mem_repr hc
  · have hrepr (n : ℕ) : c ∉ n.repr.toList := not_mem_repr hc
    simp only [String.toList_append, List.mem_append, hrepr, false_or, or_false]
    exact fun h => hdash (List.mem_singleton.mp h)

private theorem rangeText_eq_repr {a b n : ℕ} (h : rangeText a b = n.repr) : a = b := by
  rw [rangeText] at h
  split_ifs at h with hab
  · exact hab
  · have hmem : '-' ∈ n.repr.toList := by
      rw [← h]
      simp
    exact absurd hmem (not_mem_repr rfl)

/-! ### What the flags of a port read -/

private theorem mem_numbers {a b : ℕ} {s : String} (h : s ∈ numbers a b) : ∃ n : ℕ, s = n.repr := by
  obtain ⟨n, -, rfl⟩ := List.mem_map.mp h
  exact ⟨n, rfl⟩

/-- What `--expose` exposes are ports with a number. -/
theorem mem_readExpose {s : String} {xs : List (String × String)} (h : readExpose s = some xs)
    {x : String × String} (hx : x ∈ xs) : ∃ n : ℕ, x.1 = n.repr := by
  rw [readExpose] at h
  split_ifs at h
  obtain ⟨r, -, rfl⟩ := Option.map_eq_some_iff.mp h
  obtain ⟨k, hk, rfl⟩ := List.mem_map.mp hx
  exact mem_numbers hk

private theorem readIP_cases {s ip : String} (h : readIP s = some ip) :
    ip = "" ∨ (parseIP ip).isSome = true := by
  rw [readIP, Option.filter_eq_some_iff] at h
  simpa using h.2

/-- What `-p` publishes are ports with a number, of a protocol that there is, at an address. -/
theorem mem_readPublish {s : String} {xs : List Published} (h : readPublish s = some xs)
    {x : Published} (hx : x ∈ xs) :
    (∃ n : ℕ, x.port = n.repr) ∧ x.proto ∈ protocols ∧
      (x.hostIP = "" ∨ (parseIP x.hostIP).isSome) := by
  rw [readPublish] at h
  generalize (cutLast s ':').getD ("", s) = outer at h
  obtain ⟨rest, ctr⟩ := outer
  dsimp only at h
  generalize (cutLast rest ':').getD ("", rest) = inner at h
  obtain ⟨ip', host⟩ := inner
  simp only [bind] at h
  rw [Option.bind_eq_some_iff] at h
  obtain ⟨ip, hip, h⟩ := h
  rw [Option.bind_eq_some_iff] at h
  obtain ⟨⟨a, b⟩, -, h⟩ := h
  have hcases := readIP_cases hip
  by_cases hempty : host = ""
  · simp only [hempty, if_true, Option.bind_some] at h
    split_ifs at h with hproto hab
    all_goals obtain rfl := Option.some.inj h
    · obtain rfl := List.mem_singleton.mp hx
      exact ⟨⟨a, rfl⟩, hproto, hcases⟩
    · obtain ⟨n, hn, rfl⟩ := List.mem_map.mp hx
      exact ⟨mem_numbers hn, hproto, hcases⟩
  · simp only [hempty, if_false, Option.bind_eq_some_iff] at h
    obtain ⟨⟨c, d⟩, -, h⟩ := h
    split_ifs at h with hproto hab hlen
    all_goals obtain rfl := Option.some.inj h
    · obtain rfl := List.mem_singleton.mp hx
      exact ⟨⟨a, rfl⟩, hproto, hcases⟩
    · obtain ⟨k, -, rfl⟩ := List.mem_map.mp hx
      exact ⟨⟨a + k, rfl⟩, hproto, hcases⟩

section

variable {nat : PortPackage} {p : String}

private theorem splitProto_containerSide (hslash : '/' ∉ (nat.port p).toList)
    (hne : nat.proto p ≠ "") :
    splitProto (containerSide nat p) = (nat.port p, nat.proto p) := by
  rw [containerSide, splitProto]
  split_ifs with htcp
  · rw [cut_append toList_slash hslash]
    simp [hne]
  · rw [cut_of_not_mem toList_slash hslash, Classical.not_not.mp htcp]

private theorem not_mem_containerSide (hport : ':' ∉ (nat.port p).toList)
    (hproto : ':' ∉ (nat.proto p).toList) :
    ':' ∉ (containerSide nat p).toList := by
  rw [containerSide]
  split_ifs
  · simp [hport, hproto]
  · exact hport

/-- A port alone is read back from `--expose`. -/
theorem readExpose_containerSide {n : ℕ} (hport : nat.port p = n.repr) (hn : n ≤ 65535)
    (hproto : ':' ∉ (nat.proto p).toList) (hne : nat.proto p ≠ "") :
    readExpose (containerSide nat p) = some [(nat.port p, nat.proto p)] := by
  have hcolon : ':' ∉ (nat.port p).toList := hport ▸ not_mem_repr rfl
  have hslash : '/' ∉ (nat.port p).toList := hport ▸ not_mem_repr rfl
  rw [readExpose, if_neg (not_mem_containerSide hcolon hproto)]
  simp [splitProto_containerSide hslash hne, hport, readRange_repr hn, numbers]

private theorem not_isAddressChar_bracket : ¬ IsAddressChar '[' := by
  simp only [IsAddressChar]
  decide

private theorem readIP_of_isSome {ip : String} (h : ip = "" ∨ (parseIP ip).isSome) :
    readIP ip = some ip := by
  have hbracket : hasPrefix ip "[" = false := by
    rw [← Bool.not_eq_true]
    intro hprefix
    have hmem : '[' ∈ ip.toList :=
      (List.isPrefixOf_iff_prefix.mp hprefix).subset (List.mem_singleton_self _)
    rcases h with rfl | h
    · cases hmem
    · obtain ⟨bytes, hbytes⟩ := Option.isSome_iff_exists.mp h
      exact absurd (isAddressChar_of_parseIP hbytes _ hmem) not_isAddressChar_bracket
  rw [readIP, hbracket]
  simpa [Option.filter_eq_some_iff] using h

/-- A binding of a port alone is read back from `-p`. -/
theorem readPublish_hostSide {n : ℕ} {b : PortBinding} {r : ℕ × ℕ} (hport : nat.port p = n.repr)
    (hn : n ≤ 65535) (hproto : nat.proto p ∈ protocols)
      (hip : b.hostIP = "" ∨ (parseIP b.hostIP).isSome)
    (hcolon : ':' ∉ b.hostPort.toList) (hrange : readRange b.hostPort = some r) :
    readPublish (hostSide b ++ ":" ++ containerSide nat p) =
      some [⟨nat.port p, nat.proto p, b.hostIP, r⟩] := by
  have hknown : ':' ∉ (nat.proto p).toList ∧ nat.proto p ≠ "" ∧ toLower (nat.proto p) =
      nat.proto p := by
    simp only [protocols, List.mem_cons, List.not_mem_nil, or_false] at hproto
    rcases hproto with h | h | h <;> rw [h] <;> decide
  obtain ⟨hprotoColon, hne, hlower⟩ := hknown
  have hctr : ':' ∉ (containerSide nat p).toList :=
    not_mem_containerSide (hport ▸ not_mem_repr rfl) hprotoColon
  have hside : (cutLast (hostSide b) ':').getD ("", hostSide b) = (b.hostIP, b.hostPort) := by
    rw [hostSide]
    split_ifs with hempty
    · rw [cutLast_append toList_colon hcolon, Option.getD_some]
    · rw [cutLast_of_not_mem hcolon, Option.getD_none, Classical.not_not.mp hempty]
  have hhost : b.hostPort ≠ "" := by
    intro h
    rw [h] at hrange
    cases hrange
  have hslash : '/' ∉ (nat.port p).toList := hport ▸ not_mem_repr rfl
  rw [readPublish, cutLast_append toList_colon hctr]
  simp only [Option.getD_some, hside, splitProto_containerSide hslash hne, hlower,
    readIP_of_isSome hip,
    hport, readRange_repr hn, if_neg hhost, hrange, Option.bind_eq_bind, Option.bind_some,
    not_not_intro hproto, if_false, if_true]

end

/-! ### The values of the flags -/

@[simp] theorem values_append (flag : String) (fs gs : List (String × String)) :
    values flag (fs ++ gs) = values flag fs ++ values flag gs :=
  List.filterMap_append

private theorem values_map {α : Type} (flag name : String) (f : α → String) (as : List α) :
    values flag (as.map fun a => (name, f a)) = if name = flag then as.map f else [] := by
  split_ifs with h <;> simp [values, List.filterMap_map, h]

private theorem values_map_mk (flag name : String) (vs : List String) :
    values flag (vs.map (name, ·)) = if name = flag then vs else [] := by
  simpa using values_map flag name id vs

private theorem values_ite (flag name v : String) (c : Prop) [Decidable c] :
    values flag (if c then [(name, v)] else []) = if c ∧ name = flag then [v] else [] := by
  by_cases hc : c <;> by_cases hname : name = flag <;> simp [values, hc, hname]

private theorem values_flatMap {α : Type} (flag : String) (f : α → List (String × String))
    (as : List α) :
    values flag (as.flatMap f) = as.flatMap fun a => values flag (f a) := by
  rw [values, List.filterMap_flatMap]
  rfl

/-! ### The run of a preview -/

/-- What every spec has that `BuildRunSpec` makes. -/
structure WellFormed (nat : PortPackage) (spec : RunSpec) : Prop where
  restart : spec.hostConfig.restartPolicy.name ≠ "no"
  labels : Labelled spec.config.labels
  port : ∀ p, spec.Has p → ∃ a b, a ≤ b ∧ b ≤ 65535 ∧ nat.port p = rangeText a b
  proto : ∀ p, spec.Has p → nat.proto p ≠ ""
  hostPort : ∀ p, spec.Has p → ∀ b ∈ spec.hostConfig.bindingsOf p, ':' ∉ b.hostPort.toList

section

variable {nat : PortPackage} {spec : RunSpec} {ports : List String}

/-- The values of `-p`. -/
def publishValues (nat : PortPackage) (hc : HostConfig) (ports : List String) : List String :=
  ports.flatMap fun p => (hc.bindingsOf p).map fun b => hostSide b ++ ":" ++ containerSide nat p

/-- The values of `--expose`. -/
def exposeValues (nat : PortPackage) (hc : HostConfig) (ports : List String) : List String :=
  ports.flatMap fun p => if hc.bindingsOf p = [] then [containerSide nat p] else []

private theorem values_portFlags (hc : HostConfig) (p flag : String) :
    values flag (portFlags nat hc p) =
      if flag = "-p" then (hc.bindingsOf p).map fun b => hostSide b ++ ":" ++ containerSide nat p
      else if flag = "--expose" then if hc.bindingsOf p = [] then [containerSide nat p] else []
      else [] := by
  rw [portFlags]
  by_cases hempty : hc.bindingsOf p = []
  · rw [if_pos hempty, hempty]
    by_cases hflag : flag = "--expose" <;> simp [values, hflag, eq_comm]
  · rw [if_neg hempty]
    by_cases hflag : flag = "-p" <;> simp [values, hflag, hempty, eq_comm]

/-- The values of a flag are those of its group. -/
theorem values_runFlags (nat : PortPackage) (spec : RunSpec) (ports : List String) (flag : String) :
    values flag (runFlags nat spec ports) =
      (if spec.name ≠ "" ∧ "--name" = flag then [spec.name] else []) ++
      (if (spec.hostConfig.restartPolicy.name ≠ "" ∧ spec.hostConfig.restartPolicy.name ≠ "no") ∧
        "--restart" = flag then [spec.hostConfig.restartPolicy.name] else []) ++
      (if spec.hostConfig.networkMode ≠ "" ∧ "--network" = flag then [spec.hostConfig.networkMode]
      else []) ++
      (if flag = "-p" then publishValues nat spec.hostConfig (sortPorts nat ports) else []) ++
      (if flag = "--expose" then exposeValues nat spec.hostConfig (sortPorts nat ports) else []) ++
      (if "-v" = flag then spec.hostConfig.binds else []) ++
      (if "-e" = flag then spec.config.env else []) ++
      (if "--label" = flag then spec.config.labels.entries.map fun e =>
        e.1 ++ "=" ++ e.2 else []) := by
  have hports : (sortPorts nat ports).flatMap
    (fun p => values flag (portFlags nat spec.hostConfig p)) =
      (if flag = "-p" then publishValues nat spec.hostConfig (sortPorts nat ports) else []) ++
      (if flag = "--expose" then exposeValues nat spec.hostConfig (sortPorts nat ports) else
        []) := by
    simp only [values_portFlags]
    split_ifs <;> simp_all [publishValues, exposeValues]
  simp only [runFlags, values_append, values_ite, values_flatMap, hports, values_map, values_map_mk,
    List.append_assoc]

private theorem takesValue_of_mem {f : String × String} (hf : f ∈ runFlags nat spec ports) :
    takesValue f.1 = true := by
  simp only [runFlags, portFlags, List.mem_append, List.mem_ite_nil_right, List.mem_singleton,
    List.mem_flatMap, List.mem_map] at hf
  rcases hf with (((((⟨-, rfl⟩ | ⟨-, rfl⟩) | ⟨-, rfl⟩) | ⟨p, -, hf⟩) | ⟨v, -, rfl⟩) | ⟨e, -,
    rfl⟩) | ⟨e, -, rfl⟩
  case inl.inl.inl.inr =>
    split_ifs at hf
    · obtain rfl := List.mem_singleton.mp hf
      rfl
    · obtain ⟨b, -, rfl⟩ := List.mem_map.mp hf
      rfl
  all_goals rfl

/-- The labels come back, since their names have no `=`. -/
theorem foldl_labels (h : Labelled spec.config.labels) :
    (spec.config.labels.entries.map fun e => e.1 ++ "=" ++ e.2).foldl
      (fun m v => let kv := (cut v "=").getD (v, ""); m.set kv.1 kv.2) ∅ = spec.config.labels := by
  have hequals : "=".toList = ['='] := rfl
  rw [List.foldl_map]
  have hplain : spec.config.labels.entries.foldl (fun m e => m.set e.1 e.2) ∅ =
      spec.config.labels := by
    refine Dict.ext_get? fun k => ?_
    rw [Dict.get?_foldl (g := fun _ v _ => some v)
      (fun m e k => by simp) _ spec.config.labels.sorted]
    rw [Dict.get?_empty, Dict.get?]
    cases spec.config.labels.entries.lookup k <;> rfl
  refine Eq.trans (List.foldl_ext _ _ _ fun m e he => ?_) hplain
  rw [cut_append hequals (h e he)]
  rfl

/-- What a preview runs, whether or not its flags can be read. -/
def runOf (nat : PortPackage) (spec : RunSpec) (ports : List String) : Run :=
  let published :=
    (publishValues nat spec.hostConfig ports).flatMap fun v => (readPublish v).getD []
  { name := spec.name
    restart := spec.hostConfig.restartPolicy.name
    network := spec.hostConfig.networkMode
    exposed := published.map (fun p => (p.port, p.proto)) ++
      (exposeValues nat spec.hostConfig ports).flatMap fun v => (readExpose v).getD []
    published := published
    binds := spec.hostConfig.binds
    env := spec.config.env
    labels := spec.config.labels
    image := spec.config.image
    args := [] }

private theorem dockerRun_runArgs (h : WellFormed nat spec) : dockerRun (runArgs nat spec ports) =
    if isFlag spec.config.image = false ∧ (runFlags nat spec ports).all readable = true then
      some (runOf nat spec (sortPorts nat ports))
    else none := by
  have hread : readArgs ("-d" :: ((runFlags nat spec ports).flatMap (fun f => [f.1, f.2]) ++
      [spec.config.image])) = if isFlag spec.config.image then none
        else some (runFlags nat spec ports, spec.config.image, []) :=
    readArgs_flags (fun f hf => takesValue_of_mem hf) spec.config.image
  have hargs : runArgs nat spec ports = "docker" :: "run" :: "-d" ::
      ((runFlags nat spec ports).flatMap (fun f => [f.1, f.2]) ++ [spec.config.image]) := rfl
  rw [hargs, dockerRun, hread]
  by_cases himage : isFlag spec.config.image = true
  · simp [himage]
  · simp only [himage, if_false, Option.bind_some, Bool.false_eq_true, true_and]
    by_cases hall : (runFlags nat spec ports).all readable = true
    · rw [if_pos hall, if_pos hall]
      have hvalues (flag : String) := values_runFlags nat spec ports flag
      have hlast (s : String) : (if s = "" then [] else [s]).getLast?.getD "" = s := by
        split_ifs with hs
        · exact hs.symm
        · rfl
      rw [runOf, ← foldl_labels h.labels]
      simp [hvalues, publishedBy, h.restart, hlast]
    · rw [if_neg hall, if_neg hall]

private theorem mem_sortPorts {p : String} : p ∈ sortPorts nat ports ↔ p ∈ ports :=
  (List.mergeSort_perm ports _).mem_iff

/-- Which of the flags can be refused. -/
theorem all_readable_iff : (runFlags nat spec ports).all readable = true ↔
    hasOptions spec.hostConfig.networkMode.toList = false ∧
    (∀ p ∈ ports, ∀ f ∈ portFlags nat spec.hostConfig p, readable f = true) ∧
    (∀ v ∈ spec.hostConfig.binds, hasPrefix v "." = false) ∧
    ∀ e ∈ spec.config.env, setsVariable e = true := by
  rw [List.all_eq_true]
  simp only [runFlags, List.forall_mem_append, List.mem_flatMap, mem_sortPorts, List.forall_mem_map,
    List.mem_ite_nil_right, List.mem_singleton]
  constructor
  · rintro ⟨⟨⟨⟨⟨⟨-, -⟩, hnetwork⟩, hports⟩, hbinds⟩, henv⟩, -⟩
    refine ⟨?_, fun p hp f hf => hports f ⟨p, hp, hf⟩, fun v hv => ?_, fun e he => henv e he⟩
    · by_cases hempty : spec.hostConfig.networkMode = ""
      · rw [hempty]
        rfl
      · simpa [readable] using hnetwork _ ⟨hempty, rfl⟩
    · simpa [readable] using hbinds v hv
  · rintro ⟨hnetwork, hports, hbinds, henv⟩
    refine ⟨⟨⟨⟨⟨⟨?_, ?_⟩, ?_⟩, ?_⟩, fun v hv => ?_⟩, henv⟩, fun e _ => rfl⟩
    · rintro f ⟨-, rfl⟩
      rfl
    · rintro f ⟨-, rfl⟩
      rfl
    · rintro f ⟨-, rfl⟩
      simpa [readable] using hnetwork
    · rintro f ⟨p, hp, hf⟩
      exact hports p hp f hf
    · simpa [readable] using hbinds v hv

/-! ### What comes back -/

/-- A port that the flags can name. -/
theorem Readable.number (hread : Readable nat spec) (h : WellFormed nat spec) {p : String}
    (hp : spec.Has p) :
    ∃ n : ℕ, n ≤ 65535 ∧ nat.port p = n.repr := by
  obtain ⟨⟨n, hn⟩, -⟩ := hread.exposed p hp
  obtain ⟨a, b, -, hb, hport⟩ := h.port p hp
  obtain rfl := rangeText_eq_repr (hport.symm.trans hn)
  exact ⟨a, hb, by rw [hport, rangeText, if_pos rfl]⟩

theorem Readable.readPublish (hread : Readable nat spec) (h : WellFormed nat spec) {p : String}
    (hp : spec.Has p) {b : PortBinding} (hb : b ∈ spec.hostConfig.bindingsOf p) :
    ∃ r, readRange b.hostPort = some r ∧ readPublish (hostSide b ++ ":" ++ containerSide nat p) =
      some [⟨nat.port p, nat.proto p, b.hostIP, r⟩] := by
  obtain ⟨n, hn, hport⟩ := hread.number h hp
  obtain ⟨hproto, hip, hrange⟩ := hread.bound p hp b hb
  obtain ⟨r, hr⟩ := Option.isSome_iff_exists.mp hrange
  exact ⟨r, hr, readPublish_hostSide hport hn hproto hip (h.hostPort p hp b hb) hr⟩

private theorem Readable.readExpose (hread : Readable nat spec) (h : WellFormed nat spec)
    {p : String}
    (hp : spec.Has p) : readExpose (containerSide nat p) = some [(nat.port p, nat.proto p)] := by
  obtain ⟨n, hn, hport⟩ := hread.number h hp
  exact readExpose_containerSide hport hn (hread.exposed p hp).2 (h.proto p hp)

/-- The bindings that `-p` makes. -/
theorem map_bound (hread : Readable nat spec) (h : WellFormed nat spec)
    (hports : ∀ p ∈ ports, spec.Has p) :
    (runOf nat spec ports).published.map Published.bound = ports.flatMap fun p =>
      (spec.hostConfig.bindingsOf p).map fun b =>
        ((nat.port p, nat.proto p), b.hostIP, readRange b.hostPort) := by
  dsimp only [runOf]
  rw [publishValues, List.flatMap_assoc, List.map_flatMap]
  refine List.flatMap_congr fun p hp => ?_
  rw [List.flatMap_map, List.map_flatMap, List.map_eq_flatMap]
  refine List.flatMap_congr fun b hb => ?_
  obtain ⟨r, hr, hpublish⟩ := hread.readPublish h (hports p hp) hb
  rw [hpublish, hr]
  rfl

private theorem mem_exposeValues (hread : Readable nat spec) (h : WellFormed nat spec)
    (hports : ∀ p ∈ ports, spec.Has p)
    {k : String × String} :
    (k ∈ (exposeValues nat spec.hostConfig ports).flatMap fun v => (readExpose v).getD []) ↔
      ∃ p ∈ ports, spec.hostConfig.bindingsOf p = [] ∧ k = (nat.port p, nat.proto p) := by
  simp only [exposeValues, List.mem_flatMap, List.mem_ite_nil_right, List.mem_singleton]
  constructor
  · rintro ⟨v, ⟨p, hp, hempty, rfl⟩, hk⟩
    rw [hread.readExpose h (hports p hp)] at hk
    exact ⟨p, hp, hempty, List.mem_singleton.mp hk⟩
  · rintro ⟨p, hp, hempty, rfl⟩
    refine ⟨_, ⟨p, hp, hempty, rfl⟩, ?_⟩
    rw [hread.readExpose h (hports p hp)]
    exact List.mem_singleton_self _

private theorem mem_exposed (hread : Readable nat spec) (h : WellFormed nat spec)
    (hports : ∀ p ∈ ports, spec.Has p)
    {k : String × String} : k ∈ (runOf nat spec ports).exposed ↔
      ∃ p ∈ ports, k = (nat.port p, nat.proto p) := by
  have hpublished : (runOf nat spec ports).published.map (fun x => (x.port, x.proto)) =
      ((runOf nat spec ports).published.map Published.bound).map Prod.fst := by
    rw [List.map_map]
    rfl
  have hexposed : (runOf nat spec ports).exposed =
      (runOf nat spec ports).published.map (fun x => (x.port, x.proto)) ++
        (exposeValues nat spec.hostConfig ports).flatMap fun v => (readExpose v).getD [] := rfl
  rw [hexposed, hpublished, map_bound hread h hports, List.mem_append,
    mem_exposeValues hread h hports]
  simp only [List.mem_map, List.mem_flatMap]
  constructor
  · rintro (⟨x, ⟨p, hp, b, hb, rfl⟩, rfl⟩ | ⟨p, hp, -, rfl⟩)
    · exact ⟨p, hp, rfl⟩
    · exact ⟨p, hp, rfl⟩
  · rintro ⟨p, hp, rfl⟩
    by_cases hempty : spec.hostConfig.bindingsOf p = []
    · exact .inr ⟨p, hp, hempty, rfl⟩
    · obtain ⟨b, hb⟩ := List.exists_mem_of_ne_nil _ hempty
      exact .inl ⟨_, ⟨p, hp, b, hb, rfl⟩, rfl⟩

/-- What a preview exposes has a number, and what it publishes is at an address and of a known
protocol. -/
theorem mem_runOf_published {x : Published} (hx : x ∈ (runOf nat spec ports).published) :
    (∃ n : ℕ, x.port = n.repr) ∧ x.proto ∈ protocols ∧
      (x.hostIP = "" ∨ (parseIP x.hostIP).isSome) := by
  obtain ⟨v, -, hv⟩ := List.mem_flatMap.mp hx
  cases hread : readPublish v with
  | none =>
    rw [hread] at hv
    cases hv
  | some xs =>
    rw [hread] at hv
    exact mem_readPublish hread hv

private theorem mem_runOf_exposed {k : String × String} (hk : k ∈ (runOf nat spec ports).exposed) :
    ∃ n : ℕ, k.1 = n.repr := by
  rcases List.mem_append.mp hk with hk | hk
  · obtain ⟨x, hx, rfl⟩ := List.mem_map.mp hk
    exact (mem_runOf_published hx).1
  · obtain ⟨v, -, hv⟩ := List.mem_flatMap.mp hk
    cases hread : readExpose v with
    | none =>
      rw [hread] at hv
      cases hv
    | some xs =>
      rw [hread] at hv
      exact mem_readExpose hread hv

private theorem mem_iff_has (hports : ports.Perm (spec.config.exposedPorts.entries.map Prod.fst))
    (p : String) :
    p ∈ ports ↔ spec.Has p := by
  rw [hports.mem_iff, RunSpec.Has, Dict.get?_eq_some_iff, List.mem_map]
  constructor
  · rintro ⟨e, he, rfl⟩
    exact he
  · exact fun he => ⟨_, he, rfl⟩

private theorem not_mem_proto (hne : nat.proto p ≠ "tcp") {c : Char}
    (h : c ∉ (containerSide nat p).toList) :
    c ∉ (nat.proto p).toList := by
  rw [containerSide, if_pos hne] at h
  intro hc
  exact h (by simp [hc])

/-- A spec that the preview gives back can be read flag by flag. -/
theorem readable_of_givesBack
    (hports : ports.Perm (spec.config.exposedPorts.entries.map Prod.fst))
    (himage : isFlag spec.config.image = false)
      (hall : (runFlags nat spec ports).all readable = true)
    (hback : GivesBack nat spec (runOf nat spec (sortPorts nat ports))) : Readable nat spec := by
  obtain ⟨hnetwork, hflags, hbinds, henv⟩ := all_readable_iff.mp hall
  have hbound : ∀ p, spec.Has p → ∀ b ∈ spec.hostConfig.bindingsOf p,
      nat.proto p ∈ protocols ∧ (b.hostIP = "" ∨ (parseIP b.hostIP).isSome) ∧
        (readRange b.hostPort).isSome := by
    intro p hp b hb
    have hmem : ((nat.port p, nat.proto p), b.hostIP, readRange b.hostPort) ∈ spec.bounds nat :=
      List.mem_flatMap.mpr ⟨p, hports.mem_iff.mp ((mem_iff_has hports p).mpr hp),
        List.mem_map.mpr ⟨b, hb, rfl⟩⟩
    obtain ⟨x, hx, heq⟩ := List.mem_map.mp (hback.published.mem_iff.mpr hmem)
    obtain ⟨-, hproto, hip⟩ := mem_runOf_published hx
    simp only [Published.bound, Prod.mk.injEq] at heq
    obtain ⟨⟨-, hp'⟩, hip', hrange⟩ := heq
    exact ⟨hp' ▸ hproto, hip' ▸ hip, hrange ▸ rfl⟩
  refine ⟨himage, hnetwork, fun p hp => ⟨?_, ?_⟩, hbound, hbinds, henv⟩
  · exact mem_runOf_exposed ((hback.exposed _).mpr ⟨p, hp, rfl⟩)
  · by_cases htcp : nat.proto p = "tcp"
    · rw [htcp]
      decide
    by_cases hempty : spec.hostConfig.bindingsOf p = []
    · have hflag := hflags p ((mem_iff_has hports p).mpr hp) ("--expose", containerSide nat p)
        (by rw [portFlags, if_pos hempty]; exact List.mem_singleton_self _)
      refine not_mem_proto htcp fun hcolon => ?_
      simp [readable, readExpose, hcolon] at hflag
    · obtain ⟨b, hb⟩ := List.exists_mem_of_ne_nil _ hempty
      have hproto := (hbound p hp b hb).1
      simp only [protocols, List.mem_cons, List.not_mem_nil, or_false] at hproto
      rcases hproto with hproto | hproto | hproto <;> rw [hproto] <;> decide

/-- **The preview gives back the spec exactly when every value can be read by its flag.** -/
theorem preview_iff (h : WellFormed nat spec)
    (hports : ports.Perm (spec.config.exposedPorts.entries.map Prod.fst)) :
    (∃ r, runLine (dockerRunCommand nat spec ports) = some r ∧ GivesBack nat spec r) ↔
      Readable nat spec := by
  rw [runLine_dockerRunCommand, dockerRun_runArgs h]
  constructor
  · rintro ⟨r, hr, hback⟩
    split_ifs at hr with hflags
    obtain rfl := Option.some.inj hr
    exact readable_of_givesBack hports hflags.1 hflags.2 hback
  · intro hread
    have hhas : ∀ p ∈ sortPorts nat ports, spec.Has p :=
      fun p hp => (mem_iff_has hports p).mp (mem_sortPorts.mp hp)
    have hall : (runFlags nat spec ports).all readable = true := by
      refine all_readable_iff.mpr ⟨hread.network, fun p hp f hf => ?_, hread.binds, hread.env⟩
      have hp' := (mem_iff_has hports p).mp hp
      rw [portFlags] at hf
      split_ifs at hf
      · obtain rfl := List.mem_singleton.mp hf
        simp [readable, hread.readExpose h hp']
      · obtain ⟨b, hb, rfl⟩ := List.mem_map.mp hf
        obtain ⟨r, -, hpublish⟩ := hread.readPublish h hp' hb
        simp [readable, hpublish]
    rw [if_pos ⟨hread.image, hall⟩]
    refine ⟨_, rfl, rfl, rfl, rfl, fun k => ?_, ?_, rfl, rfl, rfl, rfl, rfl⟩
    · rw [mem_exposed hread h hhas]
      refine exists_congr fun p => and_congr_left fun _ => ?_
      rw [mem_sortPorts, mem_iff_has hports]
    · rw [map_bound hread h hhas]
      exact ((List.mergeSort_perm ports _).trans hports).flatMap_right _

end

end Dockhand.DockerOps
