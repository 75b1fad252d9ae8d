import Dockhand.Go.Strconv
import Dockhand.Go.Url
import Dockhand.Uptime.Service
import Mathlib.Algebra.Ring.Int.Defs

/-!
# What an uptime check connects to

`Service.check` of `uptime.go` beside `monitorTarget` of `impact.go`, which works out from the text
of a monitor's target what the check does with it. Strings are lists of bytes.
-/

namespace Dockhand.Impact

open Go Go.Url
open Dockhand.Uptime (MonitorType Verdict)

/-- What is read of a container. Docker allows no colon in an id or a name. -/
structure Container where
  id : List Char
  name : List Char
  stack : List Char := []
  image : List Char := []
  state : List Char
  health : List Char := []
  restartPolicy : List Char := []
  /-- The host side of the ports, 0 or less when one is not published. -/
  ports : List ℤ := []
  plain : ':' ∉ id ∧ ':' ∉ name := by decide

/-- What is read of a monitor and of the host it is attached to. A target is stored without spaces
around it, and the address of a host is a name or an IP address, without brackets. -/
structure Monitor where
  name : List Char
  type : MonitorType
  hostID : Option (List Char) := none
  hostAddr : List Char := []
  hostPort : ℕ := 22
  hostMethod : List Char := []
  hostStatus : List Char := []
  target : List Char
  expect : List Char := []
  enabled : Bool := true
  trimmed : trimSpaceUtf8 target = target := by decide
  bare : '[' ∉ hostAddr := by decide

/-- What is read of a host. -/
structure Record where
  id : List Char
  name : List Char
  address : List Char
  method : List Char := []

/-- The table of `net.LookupPort`. No service has a slash in its name. -/
structure Services where
  port : List Char → Option ℕ
  no_slash : ∀ s, '/' ∈ s → port s = none

/-! ### The check -/

/-- A number with or without a sign: whether it is negative, and its digits. -/
def signed : List Char → Bool × List Char
  | '-' :: ds => (true, ds)
  | '+' :: ds => (false, ds)
  | ds => (false, ds)

/-- The number that digits stand for. -/
def digitsValue (ds : List Char) : ℕ := ds.foldl (fun n c => 10 * n + (c.toNat - '0'.toNat)) 0

/-- The text is a number. -/
def Numeric (s : List Char) : Prop := (signed s).2.all Char.isDigit = true

instance (s : List Char) : Decidable (Numeric s) := inferInstanceAs (Decidable (_ = true))

section

variable (services : Services)

/-- `net.LookupPort`: a number up to 65535, or a service. -/
def lookupPort (s : List Char) : Option ℕ :=
  if Numeric s then
    let n := digitsValue (signed s).2
    if ((signed s).1 = true ∧ n ≠ 0) ∨ n > 65535 then none else some n
  else services.port s

/-- The host and the port that a TCP connection to an address is made to. -/
def dialTarget (address : List Char) : Option (List Char × ℕ) :=
  (splitHostPort (String.ofList address)).bind fun p =>
    (lookupPort services p.2.toList).map (p.1.toList, ·)

/-- What the check of an `http` monitor connects to. -/
def httpTarget (target : List Char) : Option (List Char × ℕ) :=
  (parse target).bind fun u =>
    if u.host = [] then none
    else if u.scheme = "https".toList then
      (lookupPort services (if u.port = [] then "443".toList else u.port)).map (u.hostname, ·)
    else if u.scheme = "http".toList then
      (lookupPort services (if u.port = [] then "80".toList else u.port)).map (u.hostname, ·)
    else none

/-- What the check of a `tcp` monitor connects to: a target that is no host and port is a port of
the host it is attached to. -/
def tcpTarget (m : Monitor) : Option (List Char × ℕ) :=
  if splitHostPort (String.ofList m.target) = none ∧ m.hostAddr ≠ [] then
    dialTarget services
      (joinHostPort (String.ofList m.hostAddr)
        (String.ofList (trimPrefixList [':'] m.target))).toList
  else dialTarget services m.target

/-- What the check connects to for the service it watches. -/
def checkTarget (m : Monitor) : Option (List Char × ℕ) :=
  match m.type with
  | .http => httpTarget services m.target
  | .tcp => tcpTarget services m
  | .host | .docker => none

/-- What a check finds: the containers of the last poll, the ports that take a connection, the
answers behind them, and the targets that are slow. -/
structure World where
  container : List Char → List Char → Option Container
  dial : List Char → ℕ → Bool
  answer : List Char → Option ℕ
  slow : List Char → Bool

-- `ParseExpect`, `none` for its error
variable (parseExpect : List Char → Option (ℕ → Bool))

/-- `Service.check`. -/
def check (w : World) (m : Monitor) : Verdict :=
  match m.type with
  | .host =>
    if m.hostStatus = "offline".toList then .down
    else if m.hostMethod ≠ "local".toList ∧ ¬ w.dial m.hostAddr m.hostPort then .down
    else if m.hostStatus = "degraded".toList then .degraded
    else .up
  | .docker =>
    match m.hostID with
    | none => .down
    | some id =>
      if m.hostStatus = "offline".toList then .down
      else
        match w.container id m.target with
        | none => .down
        | some c =>
          if c.state ≠ "running".toList then .down
          else if c.health = "unhealthy".toList then .down
          else if c.health = "starting".toList then .degraded
          else .up
  | .http =>
    match parseExpect m.expect, httpTarget services m.target with
    | some expect, some (host, port) =>
      if ¬ w.dial host port then .down
      else
        match w.answer m.target with
        | none => .down
        | some code => if ¬ expect code then .down else if w.slow m.target then .degraded else .up
    | _, _ => .down
  | .tcp =>
    match tcpTarget services m with
    | none => .down
    | some (host, port) =>
      if ¬ w.dial host port then .down else if w.slow m.target then .degraded else .up

end

/-! ### What the report makes of a target -/

/-- `strings.ToLower`, of which no more is used than that it adds nothing. -/
structure ToLower where
  map : List Char → List Char
  map_nil : map [] = []

section

variable (lower : ToLower)

/-- `monitorTarget`: the host and port a monitor watches, 0 for no port. -/
def monitorTarget (m : Monitor) : List Char × ℤ :=
  let t := trimSpaceUtf8 m.target
  if t = [] then ([], 0)
  else if "://".toList <:+: t then
    match parse t with
    | none => ([], 0)
    | some u =>
      let port :=
        if u.port ≠ [] then atoiValue (String.ofList u.port)
        else if u.scheme = "https".toList then 443
        else if u.scheme = "http".toList then 80
        else 0
      (lower.map u.hostname, port)
  else
    match cutList [':'] t with
    | none => (lower.map t, 0)
    | some (host, port) => (lower.map host, atoiValue (String.ofList port))

/-- `watches`: whether a monitor is aimed at this host, optionally at one of the given ports. -/
def watches (m : Monitor) (rec : Record) (ports : Option (List ℤ)) : Bool :=
  let attached := m.hostID = some rec.id
  if attached ∧ ports = none then true
  else if attached ∧ m.type = .host then false
  else
    let (target, port) := monitorTarget lower m
    if target = [] then false
    else if target ∉ [lower.map rec.address, lower.map rec.name] ∧ ¬ attached then false
    else
      match ports with
      | none => true
      | some ports => port ≠ 0 ∧ port ∈ ports

end

/-! ### Numbers -/

private theorem atoiValue_eq (s : List Char) :
    atoiValue (String.ofList s) =
      if (signed s).2.isEmpty || !(signed s).2.all Char.isDigit then 0
      else if (signed s).1 = true then max (-2 ^ 63) (-(digitsValue (signed s).2 : ℤ))
      else min (2 ^ 63 - 1) (digitsValue (signed s).2 : ℤ) := by
  simp only [atoiValue, String.toList_ofList]
  split
  · rfl
  · rfl
  · rename_i hminus hplus
    have hsigned : signed s = (false, s) := by
      unfold signed
      split
      · exact absurd rfl (hminus _)
      · exact absurd rfl (hplus _)
      · rfl
    rw [hsigned]
    rfl

theorem numeric_of_atoiValue_ne_zero {s : List Char} (h : atoiValue (String.ofList s) ≠ 0) :
    Numeric s := by
  rw [atoiValue_eq] at h
  by_contra hnot
  rw [Numeric, Bool.not_eq_true] at hnot
  simp [hnot] at h

/-- A port that is written as a number is read as this number. -/
theorem atoiValue_of_lookupPort {services : Services} {s : List Char} {n : ℕ} (hs : Numeric s)
    (h : lookupPort services s = some n) (hpos : 0 < n) : atoiValue (String.ofList s) = n := by
  rw [lookupPort, if_pos hs] at h
  dsimp only at h
  split_ifs at h with hbounds
  obtain rfl := Option.some.inj h
  obtain ⟨hsign, hle⟩ := not_or.mp hbounds
  have hpositive : (signed s).1 = false := by
    by_contra hneg
    exact hsign ⟨Bool.of_not_eq_false hneg, hpos.ne'⟩
  have hne : (signed s).2.isEmpty = false := by
    by_contra hempty
    rw [List.isEmpty_iff.mp (Bool.of_not_eq_false hempty)] at hpos
    exact lt_irrefl _ hpos
  have hdigits : (signed s).2.all Char.isDigit = true := hs
  have hmin : min (2 ^ 63 - 1) (digitsValue (signed s).2 : ℤ) = digitsValue (signed s).2 := by omega
  rw [atoiValue_eq, hne, hdigits, hpositive, hmin]
  rfl

/-! ### Shapes of an address -/

/-- A host and a port: `host:port`, or `[host]:port`. -/
theorem splitHostPort_cases {s h p : String} (hs : splitHostPort s = some (h, p)) :
    (':' ∉ p.toList ∧ '[' ∉ p.toList ∧ ']' ∉ p.toList) ∧
      ((s.toList = h.toList ++ ':' :: p.toList ∧ ':' ∉ h.toList ∧ '[' ∉ h.toList) ∨
        (s.toList = '[' :: (h.toList ++ ']' :: ':' :: p.toList) ∧ ']' ∉ h.toList)) := by
  rw [splitHostPort] at hs
  cases hcut : cutLast s ':' with
  | none => simp [hcut] at hs
  | some q =>
    obtain ⟨host, port⟩ := q
    rw [hcut] at hs
    rw [cutLast, Option.map_eq_some_iff] at hcut
    obtain ⟨⟨a, b⟩, hlist, hpair⟩ := hcut
    obtain ⟨rfl, rfl⟩ := Prod.mk.inj hpair
    obtain ⟨hrev, hnot⟩ := eq_of_cutList hlist
    have hsplit : s.toList = b.reverse ++ ':' :: a.reverse := by
      have hboth := congrArg List.reverse hrev
      simpa using hboth
    dsimp only at hs
    split at hs
    · rename_i rest hrest
      split_ifs at hs with hclean
      obtain ⟨rfl, rfl⟩ := Prod.mk.inj (Option.some.inj hs)
      obtain ⟨hlast, hinner, -, hopen, hclose⟩ := hclean
      have hb : b.reverse = '[' :: rest := by simpa using hrest
      obtain ⟨ys, hget⟩ := List.getLast?_eq_some_iff.mp hlast
      refine ⟨⟨by simpa using hnot, hopen, hclose⟩, Or.inr ⟨?_, by simpa using hinner⟩⟩
      rw [hsplit, hb]
      simp [hget]
    · split_ifs at hs with hbad
      obtain ⟨rfl, rfl⟩ := Prod.mk.inj (Option.some.inj hs)
      obtain ⟨hcolon, hbrackets⟩ := not_or.mp hbad
      obtain ⟨hopen, hclose⟩ := not_or.mp hbrackets
      rw [hsplit] at hopen hclose
      simp only [List.mem_append, List.mem_cons, not_or] at hopen hclose
      refine ⟨⟨by simpa using hnot, by simpa using hopen.2.2, by simpa using hclose.2.2⟩,
        Or.inl ⟨?_, hcolon, ?_⟩⟩
      · simpa using hsplit
      · simpa using hopen.1

/-- What a connection is made to, with the text of its port. -/
theorem dialTarget_eq_some {services : Services} {address host : List Char} {n : ℕ}
    (h : dialTarget services address = some (host, n)) :
    ∃ p, lookupPort services p = some n ∧ (':' ∉ p ∧ '[' ∉ p ∧ ']' ∉ p) ∧
      ((address = host ++ ':' :: p ∧ ':' ∉ host ∧ '[' ∉ host) ∨
        (address = '[' :: (host ++ ']' :: ':' :: p) ∧ ']' ∉ host)) := by
  obtain ⟨⟨h', p⟩, hsplit, hlookup⟩ := Option.bind_eq_some_iff.mp h
  obtain ⟨n', hn, hpair⟩ := Option.map_eq_some_iff.mp hlookup
  obtain ⟨rfl, rfl⟩ := Prod.mk.inj hpair
  obtain ⟨hp, hshape⟩ := splitHostPort_cases hsplit
  rw [String.toList_ofList] at hshape
  exact ⟨p.toList, hn, hp, hshape⟩

private theorem toList_joinHostPort (a r : List Char) :
    (joinHostPort (String.ofList a) (String.ofList r)).toList =
      if ':' ∈ a then '[' :: (a ++ ']' :: ':' :: r) else a ++ ':' :: r := by
  rw [joinHostPort, String.toList_ofList]
  split_ifs <;> simp

/-- What stands before and after the first bracket that closes. -/
theorem bracket_cancel {a h p r : List Char} (hh : ']' ∉ h) (hp : ':' ∉ p)
    (heq : h ++ ']' :: ':' :: p = a ++ ']' :: ':' :: r) : p = r := by
  rcases List.append_eq_append_iff.mp heq with ⟨z, -, hz⟩ | ⟨z, rfl, hz⟩
  · rcases z with _ | ⟨c, _ | ⟨d, z⟩⟩
    · exact (List.cons.inj (List.cons.inj hz).2).2
    · exact absurd (List.cons.inj (List.cons.inj hz).2).1 (by decide)
    · have hrest : p = z ++ ']' :: ':' :: r := (List.cons.inj (List.cons.inj hz).2).2
      exact absurd (by simp [hrest]) hp
  · rcases z with _ | ⟨c, z⟩
    · exact (List.cons.inj (List.cons.inj hz).2).2.symm
    · obtain rfl := (List.cons.inj hz).1
      exact absurd (by simp) hh

/-- A target that is completed by the host of the monitor has no colon. -/
theorem not_mem_of_joined {services : Services} {m : Monitor} {host : List Char} {n : ℕ}
    (hnone : splitHostPort (String.ofList m.target) = none)
    (h : dialTarget services (joinHostPort (String.ofList m.hostAddr)
      (String.ofList (trimPrefixList [':'] m.target))).toList = some (host, n)) :
        ':' ∉ m.target := by
  obtain ⟨p, -, ⟨hcolon, hopen, hclose⟩, hshape⟩ := dialTarget_eq_some h
  rw [toList_joinHostPort] at hshape
  have hp : p = trimPrefixList [':'] m.target := by
    split_ifs at hshape with hv6
    · rcases hshape with ⟨heq, -, hhost⟩ | ⟨heq, hhost⟩
      · cases host with
        | nil => exact absurd (List.cons.inj heq).1 (by decide)
        | cons c host =>
          obtain ⟨rfl, -⟩ := List.cons.inj heq
          exact absurd List.mem_cons_self hhost
      · exact bracket_cancel hhost hcolon (List.cons.inj heq).2.symm
    · rcases hshape with ⟨heq, hhost, -⟩ | ⟨heq, -⟩
      · exact (slash_cancel hv6 hhost heq).2.symm
      · cases haddr : m.hostAddr with
        | nil =>
          rw [haddr] at heq
          exact absurd (List.cons.inj heq).1 (by decide)
        | cons c a =>
          rw [haddr] at heq
          obtain ⟨rfl, -⟩ := List.cons.inj heq
          exact absurd (haddr ▸ List.mem_cons_self) m.bare
  by_cases hprefix : [':'] <+: m.target
  · -- a colon before a port alone is no mistake, and the target would not have been completed
    exfalso
    obtain ⟨r, hr⟩ := hprefix
    have hpr : p = r := by rw [hp, ← hr, trimPrefixList_append]
    rw [hpr] at hcolon hopen hclose
    have hcut : cutLast (String.ofList m.target) ':' = some ("", String.ofList r) := by
      have hrev : (String.ofList m.target).toList.reverse = r.reverse ++ ':' :: [] := by simp [← hr]
      rw [cutLast, hrev, cutList_append (by simpa using hcolon)]
      simp
    rw [splitHostPort, hcut] at hnone
    simp [← hr, hopen, hclose] at hnone
  · rwa [hp, trimPrefixList_eq_self hprefix] at hcolon

/-- The shapes of the target of a `tcp` monitor. -/
theorem tcpTarget_cases {services : Services} {m : Monitor} {host : List Char} {n : ℕ}
    (h : tcpTarget services m = some (host, n)) :
    ':' ∉ m.target ∨ ∃ p, lookupPort services p = some n ∧ (':' ∉ p ∧ ']' ∉ p) ∧
      ((m.target = host ++ ':' :: p ∧ ':' ∉ host) ∨
        m.target = '[' :: (host ++ ']' :: ':' :: p)) := by
  rw [tcpTarget] at h
  split_ifs at h with hjoin
  · exact Or.inl (not_mem_of_joined hjoin.1 h)
  · obtain ⟨p, hlookup, ⟨hcolon, -, hclose⟩, hshape⟩ := dialTarget_eq_some h
    refine Or.inr ⟨p, hlookup, ⟨hcolon, hclose⟩, hshape.imp (fun hplain => ⟨hplain.1, hplain.2.1⟩)
      And.left⟩

private theorem numeric_of_all_isDigit {s : List Char} (h : s.all Go.Url.isDigit = true) :
    Numeric s := by
  have hsigned : signed s = (false, s) := by
    unfold signed
    split
    · exact absurd (List.all_eq_true.mp h '-' List.mem_cons_self) (by decide)
    · exact absurd (List.all_eq_true.mp h '+' List.mem_cons_self) (by decide)
    · rfl
  rw [Numeric, hsigned]
  exact h

private theorem all_isDigit_port (u : URL) : u.port.all Go.Url.isDigit = true := by
  unfold URL.port
  split
  · rfl
  · split_ifs with hdigits
    · exact hdigits
    · rfl

/-- The report reads the target of an `http` monitor as the check does. -/
theorem monitorTarget_of_httpTarget {services : Services} (lower : ToLower) {m : Monitor}
    {host : List Char} {n : ℕ}
    (h : httpTarget services m.target = some (host, n)) (hpos : 0 < n) :
    monitorTarget lower m = (lower.map host, (n : ℤ)) := by
  obtain ⟨u, hparse, hu⟩ := Option.bind_eq_some_iff.mp h
  have hhost : u.host ≠ [] := fun hempty => by simp [hempty] at hu
  rw [if_neg hhost] at hu
  have hscheme : u.scheme ≠ [] := by
    intro hempty
    rw [hempty, if_neg (by decide), if_neg (by decide)] at hu
    cases hu
  have hslashes : "://".toList <:+: m.target := slashes_infix hparse hscheme hhost
  have hne : m.target ≠ [] := fun hempty => by
    rw [hempty, List.infix_nil] at hslashes
    exact absurd hslashes (by decide)
  rw [monitorTarget, m.trimmed]
  dsimp only
  rw [if_neg hne, if_pos hslashes, hparse]
  dsimp only
  have hread : ∀ default : List Char, ∀ d : ℕ, lookupPort services default = some d →
      ((lookupPort services (if u.port = [] then default else u.port)).map (u.hostname, ·) =
        some (host, n)) →
      u.hostname = host ∧ (if u.port ≠ [] then atoiValue (String.ofList u.port) else (d : ℤ)) =
        n := by
    intro default d hdefault heq
    obtain ⟨n', hlookup, hpair⟩ := Option.map_eq_some_iff.mp heq
    obtain ⟨hname, rfl⟩ := Prod.mk.inj hpair
    refine ⟨hname, ?_⟩
    by_cases hempty : u.port = []
    · rw [if_pos hempty, hdefault] at hlookup
      rw [if_neg (not_not.mpr hempty), Option.some.inj hlookup]
    · rw [if_neg hempty] at hlookup
      rw [if_pos hempty]
      exact atoiValue_of_lookupPort (numeric_of_all_isDigit (all_isDigit_port u)) hlookup hpos
  by_cases hhttps : u.scheme = "https".toList
  · rw [if_pos hhttps] at hu
    obtain ⟨hname, hport⟩ := hread "443".toList 443 rfl hu
    rw [if_pos hhttps, hname]
    exact congrArg _ hport
  · rw [if_neg hhttps] at hu
    by_cases hhttp : u.scheme = "http".toList
    · rw [if_pos hhttp] at hu
      obtain ⟨hname, hport⟩ := hread "80".toList 80 rfl hu
      rw [if_neg hhttps, if_pos hhttp, hname]
      exact congrArg _ hport
    · rw [if_neg hhttp] at hu
      cases hu

end Dockhand.Impact
