import Dockhand.Go.Strconv
import Dockhand.Go.Strings

/-!
# The host ports of a deploy form

`FormHostPorts` of `deploycheck/parse.go` and the helpers it reads a port row with. A row asks for
one port or for the ports of a range, of which the first 256 are looked at. A text that is no port
asks for none.
-/

namespace Dockhand.DeployCheck

open Go

/-- A host port that a deployment wants to publish. -/
structure HostPort where
  port : ℕ
  proto : String
  raw : String
  range : Bool
  deriving DecidableEq

/-- The parts of `key()`, which writes them with a slash between: the digits of a port have none. -/
def HostPort.key (p : HostPort) : ℕ × String := (p.port, p.proto)

/-- A row of a deploy form. -/
structure PortPair where
  host : String
  container : String
  deriving DecidableEq

/-- The ports of a range that are looked at, `maxRange`. -/
def maxRange : ℤ := 256

/-- `parsePortSpec`: the ports of `8080` or `8080-8082`, and whether it is a range. -/
def parsePortSpec (s : String) : List ℕ × Bool :=
  let s := trimSpace s
  if s = "" then ([], false)
  else
    let (lo, hi, isRange) :=
      match cut s "-" with
      | some (lo, hi) => (lo, hi, true)
      | none => (s, "", false)
    match atoi (trimSpace lo) with
    | none => ([], false)
    | some a =>
      if a < 1 ∨ a > 65535 then ([], false)
      else if !isRange then ([a.toNat], false)
      else
        match atoi (trimSpace hi) with
        | none => ([], false)
        | some b =>
          if b < a ∨ b > 65535 then ([], false)
          else
            let b := if b - a ≥ maxRange then a + maxRange - 1 else b
            (List.range' a.toNat (b - a + 1).toNat, true)

/-- `splitHostIP`: the text after an address. -/
def splitHostIP (s : String) : String :=
  let s := trimSpace s
  match cutLast s ':' with
  | some (_, p) => p
  | none => s

section

-- `lower` stands for `strings.ToLower`, of which nothing is used.
variable (lower : String → String)

/-- The protocol after the container port. -/
def containerProto (container : String) : String :=
  match cut container "/" with
  | some (_, p) => if p ≠ "" then lower (trimSpace p) else "tcp"
  | none => "tcp"

/-- The host ports of one row. -/
def rowPorts (r : PortPair) : List HostPort :=
  let (host, proto) :=
    match cut r.host "/" with
    | some (h, p) => (h, lower (trimSpace p))
    | none => (r.host, containerProto lower r.container)
  let (ports, isRange) := parsePortSpec (splitHostIP host)
  ports.map fun p => ⟨p, proto, trimSpace r.host, isRange⟩

/-- `FormHostPorts`. -/
def formHostPorts (rows : List PortPair) : List HostPort := rows.flatMap (rowPorts lower)

example : (formHostPorts toLower [⟨"8080", "80"⟩, ⟨"127.0.0.1:9090", "90/udp"⟩, ⟨"", "22"⟩,
    ⟨"7000-7001", "7000-7001"⟩, ⟨"x", "1"⟩]).map HostPort.key =
      [(8080, "tcp"), (9090, "udp"), (7000, "tcp"), (7001, "tcp")] := by decide +kernel

/-! ### What a row asks for -/

/-- A digit is no character that a port row is split at. -/
theorem ne_of_mem_repr {n : ℕ} {c : Char} (h : c ∈ n.repr.toList) :
    isSpace c = false ∧ c ≠ '/' ∧ c ≠ ':' ∧ c ≠ '-' := by
  have hdigit := isDigit_of_mem_repr h
  refine ⟨not_isSpace_of_isDigit hdigit, ?_, ?_, ?_⟩
  all_goals rintro rfl; exact absurd hdigit (by decide)

private theorem splitHostIP_repr (n : ℕ) : splitHostIP n.repr = n.repr := by
  have hcut : cutLast n.repr ':' = none := by
    rw [cutLast, cutList_of_not_mem, Option.map_none]
    exact fun h => (ne_of_mem_repr (List.mem_reverse.mp h)).2.2.1 rfl
  simp [splitHostIP, trimSpace_repr, hcut]

private theorem parsePortSpec_repr {n : ℕ} (hpos : 1 ≤ n) (hle : n ≤ 65535) :
    parsePortSpec n.repr = ([n], false) := by
  have hne : n.repr ≠ "" := fun h => Nat.toDigits_ne_nil (by rw [← Nat.toList_repr, h]; rfl)
  have hcut : cut n.repr "-" = none := by
    have hdash : "-".toList = ['-'] := rfl
    rw [cut, hdash, cutList_of_not_mem fun h => (ne_of_mem_repr h).2.2.2 rfl, Option.map_none]
  have hbounds : ¬ ((n : ℤ) < 1 ∨ (n : ℤ) > 65535) := by omega
  have hvalue : atoi n.repr = some (n : ℤ) := atoi_repr (by omega)
  simp only [parsePortSpec, trimSpace_repr, if_neg hne, hcut, hvalue, if_neg hbounds,
    Bool.not_false, if_true, Int.toNat_natCast]

/-- A number alone asks for that port, with the protocol of the container side. -/
theorem rowPorts_repr {n : ℕ} (hpos : 1 ≤ n) (hle : n ≤ 65535) (container : String) :
    rowPorts lower ⟨n.repr, container⟩ = [⟨n, containerProto lower container, n.repr, false⟩] := by
  have hcut : cut n.repr "/" = none := by
    have hslash : "/".toList = ['/'] := rfl
    rw [cut, hslash, cutList_of_not_mem fun h => (ne_of_mem_repr h).2.1 rfl, Option.map_none]
  simp [rowPorts, hcut, splitHostIP_repr, parsePortSpec_repr hpos hle, trimSpace_repr]

end

end Dockhand.DeployCheck
