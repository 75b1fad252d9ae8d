import Dockhand.DockerOps.RunPreview

/-!
# Port rows

The preflight, the run and the preview read the same port rows. `Consistent` says that they agree,
and `consistent_iff` for which requests they do. A row without a container port is dropped by the
run but not by the preflight, the preflight looks at the first 256 ports of a range only, and the
preview has to be a command that `docker run` reads.
-/

namespace Dockhand.DockerOps

open Go
open Dockhand.DeployCheck (PortPair HostPort formHostPorts rowPorts parsePortSpec splitHostIP
    containerProto)

/-! ### What agrees -/

section

variable (nat : PortPackage)

/-- A port keeps the protocol that it is made with. -/
def PortPackage.KeepsProtocol : Prop :=
  ∀ proto s p, nat.newPort proto s = some p → '/' ∉ proto.toList →
  nat.proto p = if proto = "" then "tcp" else proto

/-- The host ports that a container publishes. Those that Docker chooses, for a port 0, are not
among them. -/
def RunSpec.hostPorts (spec : RunSpec) : Set (ℕ × String) :=
  {k | ∃ p, ∃ b ∈ spec.hostConfig.bindingsOf p, ∃ r, readRange b.hostPort = some r ∧
    k.1 ≠ 0 ∧ r.1 ≤ k.1 ∧ k.1 ≤ r.2 ∧ k.2 = nat.proto p}

/-- The preflight looks at the host ports that the run publishes, and the preview gives back the
run. -/
structure Consistent (i : RunContainerInput) (spec : RunSpec) (ports : List String) : Prop where
  preflight : ∀ k, k ∈ (formHostPorts toLower i.ports).map HostPort.key ↔ k ∈ spec.hostPorts nat
  preview : ∃ r, runLine (dockerRunCommand nat spec ports) = some r ∧ GivesBack nat spec r

/-! ### When they agree -/

/-- The preflight looks at the port for the row. -/
def Asks (r : PortPair) (k : ℕ × String) : Prop := k ∈ (rowPorts toLower r).map HostPort.key

/-- The row publishes the port, for a container port `p`. -/
structure Publishes (r : PortPair) (ports : ℕ × ℕ) (p : String) (k : ℕ × String) : Prop where
  exposes : Exposes nat r p
  range : readRange (hostBinding r.host).hostPort = some ports
  pos : k.1 ≠ 0
  lower : ports.1 ≤ k.1
  upper : k.1 ≤ ports.2
  proto : k.2 = nat.proto p

/-- The protocol in a container field, without the spaces around it. -/
def protoText (container : String) : String :=
  match cut container "/" with
  | some (_, y) => if y = "" then "tcp" else trimSpace y
  | none => "tcp"

/-- Every field of the request is one that `docker run` reads for what it is. -/
structure PreviewReads (i : RunContainerInput) : Prop where
  image : isFlag (trimSpace i.image) = false
  network : hasOptions (trimSpace i.network).toList = false
  binds : ∀ v ∈ i.volumes, trimSpace v.src ≠ "" → trimSpace v.dst ≠ "" →
    hasPrefix (trimSpace v.src) "." = false
  env : ∀ kv ∈ i.env, hasPrefix (trimSpace kv.1) "=" = false
  container : ∀ r ∈ i.ports, ∀ p, Exposes nat r p → (∃ n : ℕ, nat.port p = n.repr) ∧
    ':' ∉ (nat.proto p).toList
  host : ∀ r ∈ i.ports, ∀ p, Exposes nat r p → (hostBinding r.host).hostPort ≠ "" →
    nat.proto p ∈ protocols ∧
      ((hostBinding r.host).hostIP = "" ∨ (parseIP (hostBinding r.host).hostIP).isSome) ∧
      (readRange (hostBinding r.host).hostPort).isSome

/-- The preflight misses no port and sees none that is not there. -/
structure RowsAgree (rows : List PortPair) : Prop where
  /-- A row that publishes nothing asks for nothing, or for what other rows publish. -/
  dropped : ∀ r ∈ rows, trimSpace r.container = "" ∨ (hostBinding r.host).hostPort = "" →
    ∀ k, Asks r k → ∃ r' ∈ rows, ∃ range p, Publishes nat r' range p k
  /-- Behind the slash of a container field stands nothing or a protocol. -/
  protocol : ∀ r ∈ rows, trimSpace r.container ≠ "" → (hostBinding r.host).hostPort ≠ "" →
    (∃ k, Asks r k) → protoText r.container ∈ protocols
  /-- A range has at most 256 ports and does not begin with 0, or other rows ask for the rest of it.
  -/
  unseen : ∀ r ∈ rows, ∀ range p k, Publishes nat r range p k → range.1 = 0 ∨ range.1 + 256 ≤ k.1 →
    ∃ r' ∈ rows, Asks r' k

end

/-! ### Host fields -/

private theorem splitHostIP_eq (host : String) :
    splitHostIP host = (hostBinding host).hostPort := by
  rw [splitHostIP, hostBinding]
  cases cutLast (trimSpace host) ':' <;> rfl

private theorem isDigit_of_readPort {s : String} {n : ℕ} (h : readPort s = some n) :
    s.toList ≠ [] ∧ s.toList.all Char.isDigit = true := by
  rw [readPort] at h
  split_ifs at h with hdigits
  exact ⟨hdigits.1, hdigits.2.1⟩

/-- Both read a port alike. -/
theorem atoi_of_readPort {s : String} {n : ℕ} (h : readPort s = some n) :
    atoi (trimSpace s) = some (n : ℤ) ∧ n ≤ 65535 := by
  obtain ⟨hne, hall⟩ := isDigit_of_readPort h
  rw [readPort] at h
  split_ifs at h with hdigits
  obtain rfl := Option.some.inj h
  have hle := hdigits.2.2
  rw [trimSpace_of_forall fun c hc => not_isSpace_of_isDigit (List.all_eq_true.mp hall c hc)]
  exact ⟨atoi_of_isDigit hne hall (ofDigits_eq_foldl hall).symm (by omega), hle⟩

/-- What is read as a port or a range: digits, perhaps with a dash between. -/
theorem readRange_cases {s : String} {r : ℕ × ℕ} (h : readRange s = some r) :
    (cut s "-" = none ∧ readPort s = some r.1 ∧ r.1 = r.2) ∨
      ∃ lo hi, s = lo ++ "-" ++ hi ∧ cut s "-" = some (lo, hi) ∧ readPort lo = some r.1 ∧
        readPort hi = some r.2 ∧ r.1 ≤ r.2 := by
  rw [readRange] at h
  by_cases hdash : '-' ∈ s.toList
  · obtain ⟨lo, hi, rfl, hlo⟩ := exists_first toList_dash hdash
    have hcut := cut_append (t := hi) toList_dash hlo
    simp only [hcut, bind, Option.bind_eq_some_iff] at h
    obtain ⟨a, ha, b, hb, h⟩ := h
    split_ifs at h with hle
    obtain rfl := Option.some.inj h
    exact .inr ⟨lo, hi, rfl, hcut, ha, hb, hle⟩
  · have hcut := cut_of_not_mem toList_dash hdash
    simp only [hcut] at h
    obtain ⟨a, ha, rfl⟩ := Option.map_eq_some_iff.mp h
    exact .inl ⟨hcut, ha, rfl⟩

private theorem mem_of_readRange {s : String} {r : ℕ × ℕ} (h : readRange s = some r) {c : Char}
    (hc : c ∈ s.toList) :
    c.isDigit = true ∨ c = '-' := by
  have hport {t : String} {n : ℕ} (ht : readPort t = some n) (hc : c ∈ t.toList) :
    c.isDigit = true :=
    List.all_eq_true.mp (isDigit_of_readPort ht).2 c hc
  rcases readRange_cases h with ⟨-, hs, -⟩ | ⟨lo, hi, rfl, -, hlo, hhi, -⟩
  · exact .inl (hport hs hc)
  · simp only [String.toList_append, toList_dash, List.mem_append, List.mem_singleton] at hc
    rcases hc with (hc | hc) | hc
    · exact .inl (hport hlo hc)
    · exact .inr hc
    · exact .inl (hport hhi hc)

/-- The preflight looks at the first 256 ports of a range that does not begin with 0. -/
theorem mem_parsePortSpec_iff {s : String} {r : ℕ × ℕ} (h : readRange s = some r) (n : ℕ) :
    n ∈ (parsePortSpec s).1 ↔ r.1 ≠ 0 ∧ r.1 ≤ n ∧ n ≤ r.2 ∧ n < r.1 + 256 := by
  have htrim : trimSpace s = s := by
    refine trimSpace_of_forall fun c hc => ?_
    rcases mem_of_readRange h hc with hdigit | rfl
    · exact not_isSpace_of_isDigit hdigit
    · decide
  have hne : s ≠ "" := by
    rintro rfl
    cases h
  rw [parsePortSpec, htrim, if_neg hne]
  rcases readRange_cases h with ⟨hcut, hs, heq⟩ | ⟨lo, hi, -, hcut, hlo, hhi, hle⟩
  · obtain ⟨hvalue, hbound⟩ := atoi_of_readPort hs
    simp only [hcut, hvalue]
    split_ifs with hout hrange
    · simp only [List.not_mem_nil, false_iff]
      omega
    · simp only [List.mem_singleton, Int.toNat_natCast]
      omega
    · exact absurd rfl hrange
  · obtain ⟨hvalue, hbound⟩ := atoi_of_readPort hlo
    obtain ⟨hvalue', hbound'⟩ := atoi_of_readPort hhi
    simp only [hcut, hvalue, hvalue', DeployCheck.maxRange]
    split_ifs with hout hrange hout' hcap
    · simp only [List.not_mem_nil, false_iff]
      omega
    · exact absurd hrange (by decide)
    · simp only [List.not_mem_nil, false_iff]
      omega
    · rw [List.mem_range'_1]
      omega
    · rw [List.mem_range'_1]
      omega

/-! ### Rows that publish -/

private theorem not_isAddressChar_slash : ¬ IsAddressChar '/' := by
  simp only [IsAddressChar]
  decide

/-- A host field that Docker reads names no protocol. -/
theorem not_mem_host {host : String} {r : ℕ × ℕ}
    (hip : (hostBinding host).hostIP = "" ∨ (parseIP (hostBinding host).hostIP).isSome)
    (hrange : readRange (hostBinding host).hostPort = some r) : '/' ∉ host.toList := by
  have hport : '/' ∉ (hostBinding host).hostPort.toList := fun hmem =>
    (mem_of_readRange hrange hmem).elim (by decide) (by decide)
  have haddress : '/' ∉ (hostBinding host).hostIP.toList := by
    rcases hip with hip | hip
    · rw [hip]
      decide
    · obtain ⟨bytes, hbytes⟩ := Option.isSome_iff_exists.mp hip
      exact fun hmem => not_isAddressChar_slash (isAddressChar_of_parseIP hbytes _ hmem)
  rw [← mem_trimSpace (by decide)]
  rcases trimSpace_eq_hostSide host with heq | ⟨-, heq⟩
  · rw [heq]
    simp [hport, haddress]
  · rw [heq]
    exact hport

private theorem asks_iff {r : PortPair} (hslash : '/' ∉ r.host.toList) (k : ℕ × String) :
    Asks r k ↔ k.1 ∈ (parsePortSpec (hostBinding r.host).hostPort).1 ∧
      k.2 = containerProto toLower r.container := by
  have hcut := cut_of_not_mem toList_slash hslash
  simp only [Asks, rowPorts, hcut, splitHostIP_eq, List.map_map, List.mem_map, Function.comp_apply,
    HostPort.key]
  constructor
  · rintro ⟨n, hn, rfl⟩
    exact ⟨hn, rfl⟩
  · rintro ⟨hn, hproto⟩
    exact ⟨k.1, hn, Prod.ext rfl hproto.symm⟩

/-! ### Protocols -/

private theorem toLower_of_mem_protocols {s : String} (h : s ∈ protocols) :
    toLower s = s ∧ s ≠ "" ∧ trimSpace s = s := by
  simp only [protocols, List.mem_cons, List.not_mem_nil, or_false] at h
  rcases h with rfl | rfl | rfl <;> decide

private theorem slash_not_mem_protocols {s : String} (h : s ∈ protocols) : '/' ∉ s.toList := by
  simp only [protocols, List.mem_cons, List.not_mem_nil, or_false] at h
  rcases h with rfl | rfl | rfl <;> decide

/-- The preflight takes the protocol of a container field for what is written, in lower case. -/
theorem containerProto_eq (container : String) : containerProto toLower container = toLower
    (protoText container) := by
  have htcp : toLower "tcp" = "tcp" := by decide
  rw [containerProto, protoText]
  cases cut container "/" with
  | none => exact htcp.symm
  | some kv =>
    dsimp only
    by_cases hempty : kv.2 = ""
    · rw [if_pos hempty, if_neg (not_not_intro hempty), htcp]
    · rw [if_neg hempty, if_pos hempty]

/-- The run takes the protocol as it stands behind the slash, up to the spaces at the end. -/
theorem containerText_append {x y : String} (hx : '/' ∉ x.toList) : containerText (x ++ "/" ++ y) =
    (String.ofList (x.toList.dropWhile isSpace), String.ofList (y.toList.rdropWhile isSpace)) := by
  have hslash : ¬ isSpace '/' = true := by decide
  have hdrop : (x.toList ++ '/' :: y.toList).dropWhile isSpace =
      x.toList.dropWhile isSpace ++ '/' :: y.toList := by
    rw [List.dropWhile_append]
    split_ifs with hempty
    · rw [List.isEmpty_iff.mp hempty, List.dropWhile_cons_of_neg hslash, List.nil_append]
    · rfl
  have htrim : trimSpace (x ++ "/" ++ y) = String.ofList (x.toList.dropWhile isSpace) ++ "/" ++
      String.ofList (y.toList.rdropWhile isSpace) := by
    apply String.toList_injective
    rw [toList_trimSpace]
    simp only [String.toList_append, toList_slash, List.append_assoc, List.singleton_append,
      String.toList_ofList]
    rw [hdrop, rdropWhile_append_of_neg (by decide)]
  have hx' : '/' ∉ (String.ofList (x.toList.dropWhile isSpace)).toList := by
    rw [String.toList_ofList]
    exact fun h => hx ((List.dropWhile_sublist _).subset h)
  rw [containerText, htrim, cut_append toList_slash hx', Option.getD_some]

section

variable {nat : PortPackage} {r : PortPair} {p : String}

/-- Without a slash the protocol is `tcp`. -/
theorem proto_of_not_mem (hnat : nat.KeepsProtocol) (hexposes : Exposes nat r p)
    (hslash : '/' ∉ r.container.toList) : nat.proto p = "tcp" ∧ protoText r.container = "tcp" := by
  have hcut := cut_of_not_mem toList_slash hslash
  have hcut' : cut (trimSpace r.container) "/" = none :=
    cut_of_not_mem toList_slash (by rwa [mem_trimSpace (by decide)])
  obtain ⟨-, hport⟩ := exposes_nat_iff.mp hexposes
  rw [containerText, hcut', Option.getD_none] at hport
  refine ⟨?_, by rw [protoText, hcut]⟩
  rw [hnat "tcp" _ _ hport (by decide), if_neg (by decide)]

/-- Behind a slash a protocol is what is written, up to spaces, or `tcp` where nothing is. -/
theorem proto_of_append (hnat : nat.KeepsProtocol) (hexposes : Exposes nat r p)
    (hproto : nat.proto p ∈ protocols) {x y : String} (hcontainer : r.container = x ++ "/" ++ y)
    (hx : '/' ∉ x.toList) (hy : '/' ∉ y.toList) :
    nat.proto p = if trimSpace y = "" then "tcp" else trimSpace y := by
  obtain ⟨-, hport⟩ := exposes_nat_iff.mp hexposes
  rw [hcontainer, containerText_append hx] at hport
  set t := String.ofList (y.toList.rdropWhile isSpace) with ht
  have hslash : '/' ∉ t.toList := by
    rw [ht, String.toList_ofList]
    exact fun h => hy ((List.rdropWhile_prefix _ _).subset h)
  have htrim : trimSpace t = trimSpace y := by
    apply String.toList_injective
    rw [toList_trimSpace, toList_trimSpace, ht, String.toList_ofList, dropWhile_rdropWhile,
      List.rdropWhile_idempotent]
  have heq : nat.proto p = if t = "" then "tcp" else t := hnat _ _ _ hport hslash
  by_cases hempty : t = ""
  · rw [heq, if_pos hempty, ← htrim, hempty, if_pos (by decide)]
  · rw [if_neg hempty] at heq
    -- a protocol has no spaces, so nothing was left to trim in front of it
    obtain ⟨-, hne, hself⟩ := toLower_of_mem_protocols hproto
    rw [heq] at hself hne ⊢
    rw [← htrim, hself, if_neg hne]

/-- A protocol that is written as one is the one of both. -/
theorem containerProto_eq_proto (hnat : nat.KeepsProtocol) (hexposes : Exposes nat r p)
    (hproto : nat.proto p ∈ protocols) (htext : protoText r.container ∈ protocols) :
    containerProto toLower r.container = nat.proto p := by
  rw [containerProto_eq, (toLower_of_mem_protocols htext).1]
  by_cases hslash : '/' ∈ r.container.toList
  · obtain ⟨x, y, hcontainer, hx⟩ := exists_first toList_slash hslash
    have htextEq : protoText r.container = if y = "" then "tcp" else trimSpace y := by
      rw [protoText, hcontainer, cut_append toList_slash hx]
    by_cases hempty : y = ""
    · rw [htextEq, if_pos hempty, proto_of_append hnat hexposes hproto hcontainer hx
        (by simp [hempty]), hempty, if_pos (by decide)]
    · rw [htextEq, if_neg hempty] at htext ⊢
      have hy : '/' ∉ y.toList := fun h =>
        slash_not_mem_protocols htext ((mem_trimSpace (by decide)).mpr h)
      rw [proto_of_append hnat hexposes hproto hcontainer hx hy,
        if_neg (toLower_of_mem_protocols htext).2.1]
  · obtain ⟨hp, ht⟩ := proto_of_not_mem hnat hexposes hslash
    rw [hp, ht]

/-- Where the preflight reads a protocol, one is written. -/
theorem protoText_mem (hnat : nat.KeepsProtocol) (hexposes : Exposes nat r p)
    (hproto : nat.proto p ∈ protocols) (hread : containerProto toLower r.container ∈ protocols) :
    protoText r.container ∈ protocols := by
  have htcp : "tcp" ∈ protocols := List.mem_cons_self
  by_cases hslash : '/' ∈ r.container.toList
  · obtain ⟨x, y, hcontainer, hx⟩ := exists_first toList_slash hslash
    have htextEq : protoText r.container = if y = "" then "tcp" else trimSpace y := by
      rw [protoText, hcontainer, cut_append toList_slash hx]
    rw [containerProto_eq] at hread
    rw [htextEq] at hread ⊢
    split_ifs at hread ⊢
    · exact htcp
    · have hy : '/' ∉ y.toList := by
        intro h
        have hmem : '/' ∈ (toLower (trimSpace y)).toList := by
          rw [toLower, String.toList_ofList]
          exact List.mem_map.mpr ⟨'/', (mem_trimSpace (by decide)).mpr h, by decide⟩
        exact slash_not_mem_protocols hread hmem
      have hne : trimSpace y ≠ "" := by
        intro h
        rw [h] at hread
        exact absurd hread (by decide)
      rw [proto_of_append hnat hexposes hproto hcontainer hx hy, if_neg hne] at hproto
      exact hproto
  · rw [(proto_of_not_mem hnat hexposes hslash).2]
    exact htcp

end

/-! ### The fields of a request -/

private theorem hasPrefix_of_ne {s c : String} {a : Char} (hc : c.toList = [a]) (hs : s ≠ "")
    (t : String) :
    hasPrefix (s ++ t) c = hasPrefix s c := by
  obtain ⟨d, ds, hds⟩ := List.exists_cons_of_ne_nil fun h => hs (String.toList_eq_nil_iff.mp h)
  simp [hasPrefix, hc, hds, List.isPrefixOf]

/-- A variable can be set unless its name begins with `=`. -/
theorem setsVariable_iff {k : String} (hk : k ≠ "") (v : String) :
    setsVariable (k ++ "=" ++ v) = true ↔ hasPrefix k "=" = false := by
  have hequals : "=".toList = ['='] := rfl
  by_cases hmem : '=' ∈ k.toList
  · obtain ⟨a, b, rfl, ha⟩ := exists_first hequals hmem
    have hassoc : a ++ "=" ++ b ++ "=" ++ v = a ++ "=" ++ (b ++ "=" ++ v) := by
      simp only [String.append_assoc]
    rw [setsVariable, hassoc, cut_append hequals ha]
    by_cases hempty : a = ""
    · subst hempty
      simp [hasPrefix, hequals]
    · have hprefix : hasPrefix (a ++ "=" ++ b) "=" = false := by
        rw [String.append_assoc, hasPrefix_of_ne hequals hempty, hasPrefix, hequals]
        obtain ⟨d, ds, hds⟩ :=
          List.exists_cons_of_ne_nil fun h => hempty (String.toList_eq_nil_iff.mp h)
        rw [hds] at ha ⊢
        simp [List.isPrefixOf, (List.ne_and_not_mem_of_not_mem_cons ha).1]
      simp [hempty, hprefix]
  · have hprefix : hasPrefix k "=" = false := by
      rw [← Bool.not_eq_true]
      exact fun h => hmem ((List.isPrefixOf_iff_prefix.mp h).subset (List.mem_singleton_self _))
    simp [setsVariable, cut_append hequals hmem, hk, hprefix]

section

variable {nat : PortPackage} {i : RunContainerInput} {spec : RunSpec}

private theorem Built.has_iff (h : Built nat i spec) (p : String) :
    spec.Has p ↔ ∃ r ∈ i.ports, Exposes nat r p := by
  have hexposed := (foldlM_portStep_ok h.ports).2.1 p
  have hnone : ¬ ({} : PortMaps).exposed.get? p = some () := by
    rintro ⟨⟩
  exact hexposed.trans (or_iff_right hnone)

private theorem Built.mem_bindingsOf (h : Built nat i spec) (p : String) (b : PortBinding) :
    b ∈ spec.hostConfig.bindingsOf p ↔ ∃ r ∈ i.ports, Binds nat r p b := by
  have hbound := (foldlM_portStep_ok h.ports).2.2 p b
  have hnone : b ∉ ({} : PortMaps).bindingsOf p := List.not_mem_nil
  exact hbound.trans (or_iff_right hnone)

private theorem Built.wellFormed (h : Built nat i spec) : WellFormed nat spec where
  restart := h.restart
  labels := h.labels
  port p hp := by
    obtain ⟨r, -, hexposes⟩ := (h.has_iff p).mp hp
    exact nat.port_newPort _ _ _ (exposes_nat_iff.mp hexposes).2
  proto p hp := by
    obtain ⟨r, -, hexposes⟩ := (h.has_iff p).mp hp
    exact nat.proto_newPort _ _ _ (exposes_nat_iff.mp hexposes).2
  hostPort p _ b hb := by
    obtain ⟨r, -, hbinds⟩ := (h.mem_bindingsOf p b).mp hb
    exact hbinds.binding ▸ not_mem_hostPort r.host

/-- The spec can be read flag by flag when the request can be read field by field. -/
theorem Built.readable_iff (h : Built nat i spec) : Readable nat spec ↔ PreviewReads nat i := by
  have hnetwork : hasOptions (networkModeOf i.network).toList =
      hasOptions (trimSpace i.network).toList := by
    rw [networkModeOf]
    split_ifs with hname
    · rfl
    · have hdefault : trimSpace i.network ∈ ["", "bridge", "default"] := by
        by_contra hother
        simp only [List.mem_cons, List.not_mem_nil, or_false, not_or] at hother
        exact hname hother
      simp only [List.mem_cons, List.not_mem_nil, or_false] at hdefault
      rcases hdefault with h | h | h <;> rw [h] <;> decide
  have hdot : ".".toList = ['.'] := rfl
  have hstart {v : VolumePair} (hsrc : trimSpace v.src ≠ "") :
      hasPrefix (trimSpace v.src ++ ":" ++ trimSpace v.dst) "." = hasPrefix (trimSpace v.src)
        "." := by
    rw [String.append_assoc, hasPrefix_of_ne hdot hsrc]
  have hbinds := foldlM_bindStep_ok h.binds
  constructor
  · intro hread
    refine ⟨h.image ▸ hread.image, hnetwork ▸ h.network ▸ hread.network, fun v hv hsrc hdst => ?_,
      fun kv hkv => ?_, fun r hr p hp => hread.exposed p ((h.has_iff p).mpr ⟨r, hr, hp⟩),
      fun r hr p hp hport => ?_⟩
    · rw [← hstart hsrc]
      exact hread.binds _ ((hbinds _).mpr (.inr ⟨v, hv, ⟨hsrc, hdst⟩, rfl⟩))
    · by_cases hk : trimSpace kv.1 = ""
      · rw [hk]
        decide
      · exact (setsVariable_iff hk kv.2).mp
          (hread.env _ (h.env ▸ mem_envOf.mpr ⟨kv, hkv, hk, rfl⟩))
    · exact hread.bound p ((h.has_iff p).mpr ⟨r, hr, hp⟩) _
        ((h.mem_bindingsOf p _).mpr ⟨r, hr, hp, rfl, hport⟩)
  · intro hreads
    refine ⟨h.image ▸ hreads.image, ?_, fun p hp => ?_, fun p _ b hb => ?_, fun v hv => ?_,
      fun e he => ?_⟩
    · rw [h.network, hnetwork]
      exact hreads.network
    · obtain ⟨r, hr, hexposes⟩ := (h.has_iff p).mp hp
      exact hreads.container r hr p hexposes
    · obtain ⟨r, hr, hexposes, rfl, hport⟩ := (h.mem_bindingsOf p b).mp hb
      exact hreads.host r hr p hexposes hport
    · obtain ⟨w, hw, ⟨hsrc, hdst⟩, rfl⟩ := ((hbinds v).mp hv).resolve_left List.not_mem_nil
      rw [hstart hsrc]
      exact hreads.binds w hw hsrc hdst
    · rw [h.env] at he
      obtain ⟨kv, hkv, hk, rfl⟩ := mem_envOf.mp he
      exact (setsVariable_iff hk kv.2).mpr (hreads.env kv hkv)

/-! ### The preflight beside the run -/

private theorem mem_formHostPorts {rows : List PortPair} {k : ℕ × String} :
    k ∈ (formHostPorts toLower rows).map HostPort.key ↔ ∃ r ∈ rows, Asks r k := by
  rw [formHostPorts, List.map_flatMap, List.mem_flatMap]
  rfl

/-- What a spec publishes is what the rows publish. -/
theorem Built.mem_hostPorts (h : Built nat i spec) (k : ℕ × String) :
    k ∈ spec.hostPorts nat ↔ ∃ r ∈ i.ports, ∃ range p, Publishes nat r range p k := by
  constructor
  · rintro ⟨p, b, hb, range, hrange, hpos, hlower, hupper, hproto⟩
    obtain ⟨r, hr, hexposes, rfl, -⟩ := (h.mem_bindingsOf p b).mp hb
    exact ⟨r, hr, range, p, hexposes, hrange, hpos, hlower, hupper, hproto⟩
  · rintro ⟨r, hr, range, p, hexposes, hrange, hpos, hlower, hupper, hproto⟩
    have hport : (hostBinding r.host).hostPort ≠ "" := by
      intro hempty
      rw [hempty] at hrange
      cases hrange
    exact ⟨p, hostBinding r.host, (h.mem_bindingsOf p _).mpr ⟨r, hr, hexposes, rfl, hport⟩, range,
      hrange,
      hpos, hlower, hupper, hproto⟩

/-- What the preflight asks for a row that the run publishes. -/
theorem PreviewReads.asks_iff (hreads : PreviewReads nat i) {r : PortPair} (hr : r ∈ i.ports)
    {p : String}
    (hexposes : Exposes nat r p) (hport : (hostBinding r.host).hostPort ≠ "") :
    ∃ range, readRange (hostBinding r.host).hostPort = some range ∧ ∀ k, Asks r k ↔
      (range.1 ≠ 0 ∧ range.1 ≤ k.1 ∧ k.1 ≤ range.2 ∧ k.1 < range.1 + 256) ∧
        k.2 = containerProto toLower r.container := by
  obtain ⟨-, hip, hrange⟩ := hreads.host r hr p hexposes hport
  obtain ⟨range, hrange⟩ := Option.isSome_iff_exists.mp hrange
  refine ⟨range, hrange, fun k => ?_⟩
  rw [DockerOps.asks_iff (not_mem_host hip hrange), mem_parsePortSpec_iff hrange]

/-- The protocol of a row that the run publishes is one. -/
theorem PreviewReads.protocol (hreads : PreviewReads nat i) {r : PortPair} (hr : r ∈ i.ports)
    {range : ℕ × ℕ} {p : String} {k : ℕ × String} (h : Publishes nat r range p k) :
      nat.proto p ∈ protocols := by
  refine (hreads.host r hr p h.exposes fun hempty => ?_).1
  have hrange := h.range
  rw [hempty] at hrange
  cases hrange

/-- The preflight looks at what is published when no row is dropped, cut or misread. -/
theorem Built.agree_iff (hnat : nat.KeepsProtocol) (h : Built nat i spec)
    (hreads : PreviewReads nat i) :
    (∀ k, k ∈ (formHostPorts toLower i.ports).map HostPort.key ↔ k ∈ spec.hostPorts nat) ↔
      RowsAgree nat i.ports := by
  have hexposed := (foldlM_portStep_ok h.ports).1
  constructor
  · intro hagree
    have hpublished : ∀ r ∈ i.ports, ∀ k, Asks r k →
      ∃ r' ∈ i.ports, ∃ range p, Publishes nat r' range p k :=
      fun r hr k hk => (h.mem_hostPorts k).mp ((hagree k).mp (mem_formHostPorts.mpr ⟨r, hr, hk⟩))
    refine ⟨fun r hr _ k hk => hpublished r hr k hk, fun r hr hcontainer hport => ?_,
      fun r hr range p k hk _ => ?_⟩
    · rintro ⟨k, hk⟩
      obtain ⟨p, hexposes⟩ := (hexposed r hr).resolve_left hcontainer
      obtain ⟨range, -, hasks⟩ := hreads.asks_iff hr hexposes hport
      obtain ⟨r', hr', range', p', hpublish⟩ := hpublished r hr k hk
      refine protoText_mem hnat hexposes (hreads.host r hr p hexposes hport).1 ?_
      rw [← ((hasks k).mp hk).2, hpublish.proto]
      exact hreads.protocol hr' hpublish
    · exact mem_formHostPorts.mp ((hagree k).mpr ((h.mem_hostPorts k).mpr ⟨r, hr, range, p, hk⟩))
  · intro hrows k
    rw [mem_formHostPorts, h.mem_hostPorts]
    constructor
    · rintro ⟨r, hr, hk⟩
      by_cases hnothing : trimSpace r.container = "" ∨ (hostBinding r.host).hostPort = ""
      · exact hrows.dropped r hr hnothing k hk
      obtain ⟨hcontainer, hport⟩ := not_or.mp hnothing
      obtain ⟨p, hexposes⟩ := (hexposed r hr).resolve_left hcontainer
      obtain ⟨range, hrange, hasks⟩ := hreads.asks_iff hr hexposes hport
      have hproto := containerProto_eq_proto hnat hexposes (hreads.host r hr p hexposes hport).1
        (hrows.protocol r hr hcontainer hport ⟨k, hk⟩)
      obtain ⟨⟨hpos, hlower, hupper, -⟩, hk'⟩ := (hasks k).mp hk
      exact ⟨r, hr, range, p, hexposes, hrange, by omega, hlower, hupper, hk'.trans hproto⟩
    · rintro ⟨r, hr, range, p, hpublish⟩
      by_cases hunseen : range.1 = 0 ∨ range.1 + 256 ≤ k.1
      · exact hrows.unseen r hr range p k hpublish hunseen
      obtain ⟨hcontainer, -⟩ := exposes_nat_iff.mp hpublish.exposes
      have hport : (hostBinding r.host).hostPort ≠ "" := by
        intro hempty
        have hrange := hpublish.range
        rw [hempty] at hrange
        cases hrange
      obtain ⟨range', hrange', hasks⟩ := hreads.asks_iff hr hpublish.exposes hport
      obtain rfl := Option.some.inj (hrange'.symm.trans hpublish.range)
      have hseen : range'.1 ≠ 0 ∧ range'.1 ≤ k.1 ∧ k.1 ≤ range'.2 ∧ k.1 < range'.1 + 256 := by
        have hlower := hpublish.lower
        have hupper := hpublish.upper
        omega
      have hasked : Asks r (k.1, containerProto toLower r.container) := (hasks _).mpr ⟨hseen, rfl⟩
      have hproto := containerProto_eq_proto hnat hpublish.exposes (hreads.protocol hr hpublish)
        (hrows.protocol r hr hcontainer hport ⟨_, hasked⟩)
      exact ⟨r, hr, (hasks k).mpr ⟨hseen, hpublish.proto.trans hproto.symm⟩⟩

/-- **The three agree exactly when every field can be read for what it is and no row is dropped, cut
or misread.** `ports` are the exposed ports in the order in which a loop visits them. -/
theorem consistent_iff (hnat : nat.KeepsProtocol) {domain : String}
    (hspec : buildRunSpec nat i domain = .ok spec) {ports : List String}
    (hports : ports.Perm (spec.config.exposedPorts.entries.map Prod.fst)) :
    Consistent nat i spec ports ↔ PreviewReads nat i ∧ RowsAgree nat i.ports := by
  have hbuilt := buildRunSpec_ok hspec
  have hpreview := (preview_iff hbuilt.wellFormed hports).trans hbuilt.readable_iff
  constructor
  · rintro ⟨hpreflight, hgives⟩
    have hreads := hpreview.mp hgives
    exact ⟨hreads, (hbuilt.agree_iff hnat hreads).mp hpreflight⟩
  · rintro ⟨hreads, hrows⟩
    exact ⟨(hbuilt.agree_iff hnat hreads).mpr hrows, hpreview.mpr hreads⟩

end

/-! ### Two requests -/

private theorem readRange_le {s : String} {r : ℕ × ℕ} (h : readRange s = some r) :
    r.1 ≤ r.2 ∧ r.2 ≤ 65535 := by
  rcases readRange_cases h with ⟨-, hs, heq⟩ | ⟨lo, hi, -, -, -, hhi, hle⟩
  · exact ⟨heq.le, heq ▸ (atoi_of_readPort hs).2⟩
  · exact ⟨hle, (atoi_of_readPort hhi).2⟩

private theorem splitProto_append {t : String} (h : '/' ∉ t.toList) (proto : String) :
    splitProto (t ++ "/" ++ proto) = (t, if proto = "" then "tcp" else proto) := by
  rw [splitProto, cut_append toList_slash h]

/-- A port as `nat` writes it. -/
def natPort (proto s : String) : Option String :=
  (if s = "" then some (0, 0) else readRange s).map fun r => rangeText r.1 r.2 ++ "/" ++ proto

private theorem splitProto_natPort {proto s p : String} (h : natPort proto s = some p) :
    ∃ a b, a ≤ b ∧ b ≤ 65535 ∧ splitProto p =
      (rangeText a b, if proto = "" then "tcp" else proto) := by
  obtain ⟨r, hr, rfl⟩ := Option.map_eq_some_iff.mp h
  have hle : r.1 ≤ r.2 ∧ r.2 ≤ 65535 := by
    split_ifs at hr
    · obtain rfl := Option.some.inj hr
      decide
    · exact readRange_le hr
  exact ⟨r.1, r.2, hle.1, hle.2, splitProto_append (not_mem_rangeText rfl (by decide)) proto⟩

/-- The package for ports that are written in decimal. -/
def decimalPorts : PortPackage where
  newPort := natPort
  port p := (splitProto p).1
  proto p := (splitProto p).2
  int p := ((readPort (splitProto p).1).getD 0 : ℕ)
  port_newPort proto s p h := by
    obtain ⟨a, b, hab, hb, heq⟩ := splitProto_natPort h
    exact ⟨a, b, hab, hb, congrArg Prod.fst heq⟩
  proto_newPort proto s p h := by
    obtain ⟨a, b, -, -, heq⟩ := splitProto_natPort h
    rw [heq]
    dsimp only
    split_ifs with hempty
    · decide
    · exact hempty

private theorem decimalPorts_keepsProtocol : decimalPorts.KeepsProtocol := by
  intro proto s p h _
  obtain ⟨a, b, -, -, heq⟩ := splitProto_natPort h
  exact congrArg Prod.snd heq

/-- The exposed ports of a spec, in order. -/
def RunSpec.exposedInOrder (spec : RunSpec) : List String :=
  spec.config.exposedPorts.entries.map Prod.fst

private theorem exists_of_isOk {ε α : Type} {x : Except ε α} (h : x.isOk = true) :
    ∃ a, x = .ok a := by
  cases x with
  | error e => cases h
  | ok a => exact ⟨a, rfl⟩

/-- A web server on one address of the host. -/
def webServer : RunContainerInput :=
  { image := "nginx", name := "web", restart := "always", ports := [⟨"127.0.0.1:8080", "80"⟩]
    volumes := [⟨"/srv/www", "/usr/share/nginx/html"⟩], env := [("TZ", "Europe/Berlin")] }

/-- A port that is published on an address, with a volume and a variable. -/
theorem consistent_webServer : ∃ spec, buildRunSpec decimalPorts webServer "" = .ok spec ∧
    Consistent decimalPorts webServer spec spec.exposedInOrder := by
  obtain ⟨spec, hspec⟩ :=
    exists_of_isOk (x := buildRunSpec decimalPorts webServer "") (by decide +kernel)
  have hexposes : ∀ p, Exposes decimalPorts ⟨"127.0.0.1:8080", "80"⟩ p → p = "80/tcp" := by
    intro p hp
    have hport : decimalPorts.newPort (containerText "80").2 (containerText "80").1 =
        some "80/tcp" := by
      decide +kernel
    exact Option.some.inj ((exposes_nat_iff.mp hp).2.symm.trans hport)
  have hrange : readRange (hostBinding "127.0.0.1:8080").hostPort =
    some (8080, 8080) := by decide +kernel
  refine ⟨spec, hspec, (consistent_iff decimalPorts_keepsProtocol hspec (List.Perm.refl _)).mpr
    ⟨?_, ?_⟩⟩
  · refine ⟨by decide, by decide, ?_, ?_, ?_, ?_⟩
    · intro v hv
      obtain rfl := List.mem_singleton.mp hv
      decide
    · intro kv hkv
      obtain rfl := List.mem_singleton.mp hkv
      decide
    · intro r hr p hp
      obtain rfl := List.mem_singleton.mp hr
      obtain rfl := hexposes p hp
      exact ⟨⟨80, by decide +kernel⟩, by decide +kernel⟩
    · intro r hr p hp _
      obtain rfl := List.mem_singleton.mp hr
      obtain rfl := hexposes p hp
      decide +kernel
  · refine ⟨?_, ?_, ?_⟩
    · intro r hr hnothing
      obtain rfl := List.mem_singleton.mp hr
      exact absurd hnothing (by decide +kernel)
    · intro r hr _ _ _
      obtain rfl := List.mem_singleton.mp hr
      decide +kernel
    · intro r hr range p k hk hunseen
      obtain rfl := List.mem_singleton.mp hr
      obtain rfl := Option.some.inj (hrange.symm.trans hk.range)
      have hupper := hk.upper
      dsimp only at hunseen hupper
      omega

/-- A row with a host port alone. -/
def hostOnly : RunContainerInput := { image := "nginx", ports := [⟨"8080", ""⟩] }

/-- **A row without a container port.** The form counts its host port as taken, and the container
does not publish it. -/
theorem not_consistent_hostOnly : ∃ spec, buildRunSpec decimalPorts hostOnly "" = .ok spec ∧
    ¬ Consistent decimalPorts hostOnly spec spec.exposedInOrder := by
  obtain ⟨spec, hspec⟩ :=
    exists_of_isOk (x := buildRunSpec decimalPorts hostOnly "") (by decide +kernel)
  refine ⟨spec, hspec, fun h => ?_⟩
  have hasked : (8080, "tcp") ∈ (formHostPorts toLower hostOnly.ports).map
    HostPort.key := by decide +kernel
  obtain ⟨r, hr, range, p, hpublish⟩ :=
    ((buildRunSpec_ok hspec).mem_hostPorts _).mp ((h.preflight _).mp hasked)
  obtain rfl := List.mem_singleton.mp hr
  exact (exposes_nat_iff.mp hpublish.exposes).1 (by decide)

end Dockhand.DockerOps
