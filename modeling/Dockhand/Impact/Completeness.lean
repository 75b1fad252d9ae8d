import Dockhand.Impact.Report

/-!
# The monitors that the report misses

The monitors whose next check fails because the containers stop are those the check of which looks
at one of them or connects to one of their ports (`required_of_turnsDown`), and with the whole host
all that are attached to it. `complete_iff` says which of them the report has.
-/

namespace Dockhand.Impact

open Go Go.Url
open Dockhand.Uptime (MonitorType Verdict)

section

variable (services : Services) (lower : ToLower)

/-! ### The monitors that will fail -/

/-- The test of `Monitor.Container`. -/
def fits (ref : List Char) (c : Container) : Bool :=
  c.id = ref ∨ c.name = ref ∨ 6 ≤ ref.length ∧ ref <+: c.id

/-- It is the address or the name of the host, in any case. -/
def IsHost (rec : Record) (host : List Char) : Prop :=
  lower.map host ≠ [] ∧ lower.map host ∈ [lower.map rec.address, lower.map rec.name]

/-- The check of a monitor looks at a container that would stop, connects to one of its ports, or is
attached to the host that would stop. -/
def Required (rec : Record) (target : Target) (all stopping : List Container) (m : Monitor) :
    Prop :=
  (m.type = .docker ∧ m.hostID = some rec.id ∧
      ∃ c ∈ stopping, live c = true ∧ all.find? (fits m.target) = some c) ∨
    (∃ host, ∃ port : ℕ, checkTarget services m = some (host, port) ∧ IsHost lower rec host ∧
      (port : ℤ) ∈ publishedPorts stopping) ∨
    (target = .host ∧ m.hostID = some rec.id)

/-- The target of a `tcp` monitor is written as a host, a colon and a number, the host without a
colon. For a whole host the port may be missing. -/
def Written (rec : Record) (target : Target) (m : Monitor) : Prop :=
  ¬ "://".toList <:+: m.target ∧ lower.map (before ':' m.target) ≠ [] ∧
    (lower.map (before ':' m.target) ∈ [lower.map rec.address, lower.map rec.name] ∨
      m.hostID = some rec.id) ∧
    (target = .host ∨ ∃ port, m.target = before ':' m.target ++ ':' :: port ∧ Numeric port)

end

section

variable {services : Services} {lower : ToLower} {rec : Record} {m : Monitor} {target : Target}
  {all stopping : List Container} {mons : List Monitor}

/-! ### What the report reads in a target -/

private theorem pos_of_mem_publishedPorts {p : ℤ} (h : p ∈ publishedPorts stopping) : 0 < p := by
  simpa using (List.mem_filter.mp h).2

/-- The monitors that are not attached to a host that stops as a whole. -/
theorem watches_iff {ports : Option (List ℤ)} (hwhole : ¬ (m.hostID = some rec.id ∧ ports = none))
    (htype : m.type ≠ .host) :
    watches lower m rec ports = true ↔
      (monitorTarget lower m).1 ≠ [] ∧
        ((monitorTarget lower m).1 ∈ [lower.map rec.address, lower.map rec.name] ∨
          m.hostID = some rec.id) ∧
        ∀ ps, ports = some ps → (monitorTarget lower m).2 ≠ 0 ∧ (monitorTarget lower m).2 ∈ ps := by
  rw [watches]
  dsimp only
  rw [if_neg hwhole, if_neg fun h => htype h.2]
  by_cases hnil : (monitorTarget lower m).1 = []
  · rw [if_pos hnil]
    exact iff_of_false Bool.false_ne_true fun h => h.1 hnil
  · rw [if_neg hnil]
    by_cases hname : (monitorTarget lower m).1 ∈ [lower.map rec.address, lower.map rec.name] ∨
      m.hostID = some rec.id
    · rw [if_neg fun h => hname.elim h.1 h.2]
      cases ports with
      | none => exact iff_of_true rfl ⟨hnil, hname, by simp⟩
      | some ps =>
        rw [decide_eq_true_eq]
        exact ⟨fun h => ⟨hnil, hname, by simpa using h⟩, fun h => h.2.2 ps rfl⟩
    · rw [if_pos (not_or.mp hname)]
      exact iff_of_false Bool.false_ne_true fun h => hname h.2.1

private theorem monitorTarget_of_not_mem (h : ':' ∉ m.target) :
    monitorTarget lower m = (lower.map m.target, 0) := by
  have hslashes : ¬ "://".toList <:+: m.target := fun hslash => h (hslash.subset (by decide))
  rw [monitorTarget, m.trimmed]
  dsimp only
  rw [if_neg hslashes, cutList_of_not_mem h]
  split_ifs with hnil
  · rw [hnil, lower.map_nil]
  · rfl

private theorem monitorTarget_of_colon {a p : List Char} (hslashes : ¬ "://".toList <:+: m.target)
    (h : m.target = a ++ ':' :: p) (ha : ':' ∉ a) :
    monitorTarget lower m = (lower.map a, atoiValue (String.ofList p)) := by
  have hne : m.target ≠ [] := h ▸ List.append_ne_nil_of_right_ne_nil a (List.cons_ne_nil _ _)
  rw [monitorTarget, m.trimmed]
  dsimp only
  rw [if_neg hne, if_neg hslashes, h, cutList_append ha]

/-- A target that begins with a bracket is not a URL. -/
theorem monitorTarget_of_bracket {s : List Char} (hslashes : "://".toList <:+: m.target)
    (h : m.target = '[' :: s) :
    monitorTarget lower m = ([], 0) := by
  have hne : m.target ≠ [] := h ▸ List.cons_ne_nil _ _
  rw [monitorTarget, m.trimmed]
  dsimp only
  rw [if_neg hne, if_pos hslashes, h]
  cases hparse : parse ('[' :: s) with
  | none => rfl
  | some u =>
    obtain ⟨hscheme, hhost⟩ := parse_bracket hparse
    have hname : u.hostname = [] := by rw [URL.hostname, hhost]; rfl
    have hport : u.port = [] := by rw [URL.port, hhost]; rfl
    simp [hname, hport, hscheme, lower.map_nil]

/-! ### The targets of TCP checks -/

/-- A text without a slash before and after its colon is not a URL. -/
theorem not_slashes_of_split {a p : List Char} (ha : ':' ∉ a) (hp : '/' ∉ p) :
    ¬ "://".toList <:+: a ++ ':' :: p := by
  rintro ⟨x, y, heq⟩
  have hshape : x ++ ':' :: ('/' :: '/' :: y) = a ++ ':' :: p := by rw [← heq]; simp
  by_cases hx : ':' ∈ x
  · obtain ⟨b, c, rfl, hb⟩ := List.eq_append_cons_of_mem hx
    rw [List.append_assoc, List.cons_append] at hshape
    obtain ⟨-, hrest⟩ := slash_cancel hb ha hshape
    exact hp (hrest ▸ by simp)
  · obtain ⟨-, hrest⟩ := slash_cancel hx ha hshape
    exact hp (hrest ▸ List.mem_cons_self)

private theorem not_mem_of_numeric {s : List Char} {c : Char} (h : Numeric s)
    (hdigit : c.isDigit = false)
    (hminus : c ≠ '-')
    (hplus : c ≠ '+') : c ∉ s := by
  intro hmem
  have hall : ∀ x ∈ (signed s).2, x.isDigit = true := List.all_eq_true.mp h
  have hrest : c ∈ (signed s).2 := by
    unfold signed
    split
    · exact (List.mem_cons.mp hmem).resolve_left hminus
    · exact (List.mem_cons.mp hmem).resolve_left hplus
    · exact hmem
  rw [hall c hrest] at hdigit
  cases hdigit

/-- The text of a port that can be looked up. -/
theorem not_slash_of_lookupPort {p : List Char} {n : ℕ} (h : lookupPort services p = some n) :
    '/' ∉ p := by
  intro hmem
  have hnumeric : ¬ Numeric p :=
    fun hn => not_mem_of_numeric hn (by decide) (by decide) (by decide) hmem
  rw [lookupPort, if_neg hnumeric, services.no_slash p hmem] at h
  cases h

/-- What stands after the last colon. -/
theorem last_colon_cancel {a p x y : List Char} (hp : ':' ∉ p) (hy : ':' ∉ y)
    (h : a ++ ':' :: p = x ++ ':' :: y) :
    p = y := by
  have hreverse : p.reverse ++ ':' :: a.reverse = y.reverse ++ ':' :: x.reverse := by
    simpa using congrArg List.reverse h
  exact List.reverse_injective (slash_cancel (by simpa using hp) (by simpa using hy) hreverse).1

/-- For a whole host the report looks at no port. -/
theorem watchPorts_forall_iff {q : ℤ} :
    (∀ ps, watchPorts target stopping = some ps → q ≠ 0 ∧ q ∈ ps) ↔
      target = .host ∨ q ≠ 0 ∧ q ∈ publishedPorts stopping := by
  unfold watchPorts
  split_ifs with htarget
  · exact iff_of_true (fun ps h => nomatch h) (Or.inl htarget)
  · exact ⟨fun h => Or.inr (h _ rfl), fun h ps hps => Option.some.inj hps ▸ h.resolve_left htarget⟩

private theorem watchPorts_eq_none_iff : watchPorts target stopping = none ↔ target = .host := by
  unfold watchPorts
  split_ifs with htarget
  · exact iff_of_true rfl htarget
  · exact iff_of_false (by simp) htarget

/-- The shapes of a target with a colon, and the text of the port that its check connects to. -/
theorem exists_port_of_tcpTarget {host : List Char} {n : ℕ}
    (h : tcpTarget services m = some (host, n))
    (hcolon : ':' ∈ m.target) :
    ∃ a p, m.target = a ++ ':' :: p ∧ ':' ∉ p ∧ lookupPort services p = some n ∧
      (':' ∉ a ∨ ∃ s, m.target = '[' :: s) := by
  rcases tcpTarget_cases h with hbare | ⟨p, hlookup, ⟨hp, -⟩, ⟨hplain, hhost⟩ | hbracket⟩
  · exact absurd hcolon hbare
  · exact ⟨host, p, hplain, hp, hlookup, Or.inl hhost⟩
  · exact ⟨'[' :: (host ++ [']']), p, by simp [hbracket], hp, hlookup, Or.inr ⟨_, hbracket⟩⟩

/-- The report has a `tcp` monitor when its target is written out. -/
theorem watches_tcp_iff {host : List Char} {n : ℕ}
    (hwhole : ¬ (target = .host ∧ m.hostID = some rec.id))
    (htype : m.type = .tcp) (hcheck : tcpTarget services m = some (host, n))
    (hn : (n : ℤ) ∈ publishedPorts stopping) :
    watches lower m rec (watchPorts target stopping) = true ↔ Written lower rec target m := by
  have hpos : 0 < n := by exact_mod_cast pos_of_mem_publishedPorts hn
  have hnone : ¬ (m.hostID = some rec.id ∧ watchPorts target stopping = none) := fun h =>
    hwhole ⟨watchPorts_eq_none_iff.mp h.2, h.1⟩
  rw [watches_iff hnone (by rw [htype]; decide), watchPorts_forall_iff, Written]
  by_cases hcolon : ':' ∈ m.target
  · obtain ⟨a, p, hsplit, hp, hlookup, hshape⟩ := exists_port_of_tcpTarget hcheck hcolon
    by_cases hslashes : "://".toList <:+: m.target
    · -- only a target in brackets can have this text, and the report takes it for a URL
      obtain ⟨s, hbracket⟩ := hshape.resolve_left fun ha =>
        not_slashes_of_split ha (not_slash_of_lookupPort hlookup) (hsplit ▸ hslashes)
      rw [monitorTarget_of_bracket hslashes hbracket]
      exact iff_of_false (fun h => h.1 rfl) fun h => h.1 hslashes
    · obtain ⟨x, y, htarget, hx⟩ := List.eq_append_cons_of_mem hcolon
      have hbefore : before ':' m.target = x := by
        rw [htarget, before_append hx, before, List.takeWhile_cons_of_neg (by simp),
          List.append_nil]
      have hport : atoiValue (String.ofList y) ≠ 0 ∧ atoiValue (String.ofList y) ∈ publishedPorts
        stopping ↔
          ∃ port, m.target = x ++ ':' :: port ∧ Numeric port := by
        constructor
        · exact fun h => ⟨y, htarget, numeric_of_atoiValue_ne_zero h.1⟩
        · rintro ⟨port, hwritten, hnumeric⟩
          obtain rfl : y = port :=
            (List.cons.inj (List.append_cancel_left (htarget.symm.trans hwritten))).2
          -- a number has no colon, so that the first colon is the last one
          have hy : ':' ∉ y := not_mem_of_numeric hnumeric (by decide) (by decide) (by decide)
          obtain rfl : p = y := last_colon_cancel hp hy (hsplit.symm.trans htarget)
          rw [atoiValue_of_lookupPort hnumeric hlookup hpos]
          exact ⟨by exact_mod_cast hpos.ne', hn⟩
      rw [monitorTarget_of_colon hslashes htarget hx, hbefore, hport]
      exact (and_iff_right hslashes).symm
  · have hslashes : ¬ "://".toList <:+: m.target := fun hslash => hcolon (hslash.subset (by decide))
    have hport : ¬ ∃ port, m.target = m.target ++ ':' :: port ∧ Numeric port := by
      rintro ⟨port, hwritten, -⟩
      exact hcolon (hwritten ▸ by simp)
    rw [monitorTarget_of_not_mem hcolon, before_of_not_mem hcolon, or_iff_left hport,
      or_iff_left fun h : (0 : ℤ) ≠ 0 ∧ _ => h.1 rfl]
    exact (and_iff_right hslashes).symm

/-! ### The other checks -/

/-- A monitor of a container has no port. -/
theorem not_watches_docker {c : Container} (hwhole : ¬ (target = .host ∧ m.hostID = some rec.id))
    (htype : m.type = .docker) (hid : m.hostID = some rec.id)
      (hfind : all.find? (fits m.target) = some c) :
    watches lower m rec (watchPorts target stopping) ≠ true := by
  have hfits : fits m.target c = true := List.find?_some hfind
  have hcolon : ':' ∉ m.target := by
    rw [fits, decide_eq_true_eq] at hfits
    rcases hfits with hid | hname | ⟨-, hpre⟩
    · exact hid ▸ c.plain.1
    · exact hname ▸ c.plain.2
    · exact fun hmem => c.plain.1 (hpre.subset hmem)
  have htarget : target ≠ .host := fun h => hwhole ⟨h, hid⟩
  have hnone : ¬ (m.hostID = some rec.id ∧ watchPorts target stopping = none) := fun h =>
    htarget (watchPorts_eq_none_iff.mp h.2)
  rw [Ne, watches_iff hnone (by rw [htype]; decide), watchPorts_forall_iff,
    monitorTarget_of_not_mem hcolon]
  rintro ⟨-, -, hwhole | ⟨hzero, -⟩⟩
  · exact htarget hwhole
  · exact hzero rfl

private theorem watches_http {host : List Char} {n : ℕ} (htype : m.type = .http)
    (hcheck : httpTarget services m.target = some (host, n)) (hhost : IsHost lower rec host)
    (hn : (n : ℤ) ∈ publishedPorts stopping) : watches lower m rec (watchPorts target stopping) =
      true := by
  have hpos : 0 < n := by exact_mod_cast pos_of_mem_publishedPorts hn
  by_cases hwhole : m.hostID = some rec.id ∧ watchPorts target stopping = none
  · rw [watches]
    exact if_pos hwhole
  · rw [watches_iff hwhole (by rw [htype]; decide), watchPorts_forall_iff,
      monitorTarget_of_httpTarget lower hcheck hpos]
    have hne : (n : ℤ) ≠ 0 := by exact_mod_cast hpos.ne'
    exact ⟨hhost.1, Or.inl hhost.2, Or.inr ⟨hne, hn⟩⟩

/-! ### The monitors of the report -/

private theorem mem_reported_iff : m ∈ reported lower rec target stopping mons ↔
    m ∈ mons ∧ m.enabled = true ∧ watches lower m rec (watchPorts target stopping) = true := by
  rw [reported, List.mem_filter, Bool.and_eq_true]

/-- Of the monitors that will fail, those the report has. -/
theorem watches_iff_of_required (h : Required services lower rec target all stopping m) :
    watches lower m rec (watchPorts target stopping) = true ↔
      (target = .host ∧ m.hostID = some rec.id) ∨ m.type = .http ∨
        (m.type = .tcp ∧ Written lower rec target m) := by
  by_cases hwhole : target = .host ∧ m.hostID = some rec.id
  · refine iff_of_true ?_ (Or.inl hwhole)
    rw [watches]
    exact if_pos ⟨hwhole.2, watchPorts_eq_none_iff.mpr hwhole.1⟩
  · rw [or_iff_right hwhole]
    rcases h with ⟨htype, hid, c, -, -, hfind⟩ | ⟨host, n, hcheck, hhost, hn⟩ | h
    · refine iff_of_false (not_watches_docker hwhole htype hid hfind) ?_
      simp [htype]
    · rw [checkTarget] at hcheck
      split at hcheck
      · rename_i htype
        exact iff_of_true (watches_http htype hcheck hhost hn) (Or.inl htype)
      · rename_i htype
        rw [watches_tcp_iff hwhole htype hcheck hn]
        simp [htype]
      · cases hcheck
      · cases hcheck
    · exact absurd h hwhole

/-- The monitors of the report, worst first. -/
theorem monitors_build (name : List Char) (action : String) (extra : Report → Report)
    (hextra : ∀ r, (extra r).monitors = r.monitors) :
    (build lower rec target name action stopping (some mons) extra).monitors.Perm
      ((reported lower rec target stopping mons).map (monitorItem rec)) := by
  refine (List.mergeSort_perm _ _).trans (List.Perm.of_eq ?_)
  rw [hextra]
  rfl

theorem monitors_host {action : String} : (Service.host lower rec action all
    (some mons)).monitors.Perm
    ((reported lower rec .host all mons).map (monitorItem rec)) :=
  monitors_build _ _ (fun out => if _ = "reboot" then { out with safe := _ } else out)
    fun _ => by split_ifs <;> rfl

theorem monitors_stack {name : List Char} {action : String} :
    (Service.stack lower rec name action all (some mons)).monitors.Perm
      ((reported lower rec .stack (all.filter (·.stack = name)) mons).map (monitorItem rec)) :=
  monitors_build _ _ _ fun _ => rfl

theorem monitors_container {cid : List Char} {action : String} {r : Report}
    (h : Service.container lower rec cid action all (some mons) = some r) :
    r.monitors.Perm ((reported lower rec .container
      (all.filter fun c => c.id = cid ∨ cid <+: c.id ∨ c.name = cid) mons).map
        (monitorItem rec)) := by
  obtain ⟨c, -, rfl⟩ := Option.map_eq_some_iff.mp h
  exact monitors_build _ _ _ fun _ => rfl

/-! ### What a stop changes -/

variable (services lower rec all stopping)

/-- What checks find before and after the containers stop: the containers that stop are found in
another state or not at all, and their ports take no connection. -/
structure Stops (w w' : World) : Prop where
  found : ∀ ref, w.container rec.id ref = all.find? (fits ref)
  container : ∀ id ref, w'.container id ref = w.container id ref ∨
    (id = rec.id ∧ ∃ c ∈ stopping, live c = true ∧ w.container id ref = some c)
  dial : ∀ host port, w'.dial host port = w.dial host port ∨
    (IsHost lower rec host ∧ (port : ℤ) ∈ publishedPorts stopping)
  answer : w'.answer = w.answer

variable {services lower rec all stopping}

/-- **Who will notice.** A check of a container, a web address or a port that turns to down because
containers stop is one that will fail. -/
theorem required_of_turnsDown {w w' : World} (h : Stops lower rec all stopping w w')
    (parseExpect : List Char → Option (ℕ → Bool)) (htype : m.type ≠ .host)
    (hup : check services parseExpect w m ≠ .down)
      (hdown : check services parseExpect w' m = .down) :
    Required services lower rec target all stopping m := by
  cases hm : m.type with
  | host => exact absurd hm htype
  | docker =>
    rw [check, hm] at hup hdown
    dsimp only at hup hdown
    cases hid : m.hostID with
    | none =>
      rw [hid] at hup
      exact absurd rfl hup
    | some id =>
      rw [hid] at hup hdown
      rcases h.container id m.target with hsame | ⟨rfl, c, hc, hlive, hfound⟩
      · dsimp only at hup hdown
        rw [hsame] at hdown
        exact absurd hdown hup
      · exact Or.inl ⟨hm, hid, c, hc, hlive, (h.found m.target).symm.trans hfound⟩
  | http =>
    rw [check, hm] at hup hdown
    dsimp only at hup hdown
    cases hexpect : parseExpect m.expect with
    | none => simp [hexpect] at hup
    | some expect =>
      cases hcheck : httpTarget services m.target with
      | none => simp [hexpect, hcheck] at hup
      | some address =>
        obtain ⟨host, port⟩ := address
        rw [hexpect, hcheck] at hup hdown
        dsimp only at hup hdown
        rcases h.dial host port with hsame | hstopped
        · rw [hsame, h.answer] at hdown
          cases hanswer : w.answer m.target with
          | none => simp [hanswer] at hup
          | some code =>
            rw [hanswer] at hup hdown
            -- how slow an answer is does not make a check fail
            split_ifs at hup hdown <;> simp_all
        · exact Or.inr (Or.inl ⟨host, port, by rw [checkTarget, hm]; exact hcheck, hstopped⟩)
  | tcp =>
    rw [check, hm] at hup hdown
    dsimp only at hup hdown
    cases hcheck : tcpTarget services m with
    | none => simp [hcheck] at hup
    | some address =>
      obtain ⟨host, port⟩ := address
      rw [hcheck] at hup hdown
      dsimp only at hup hdown
      rcases h.dial host port with hsame | hstopped
      · rw [hsame] at hdown
        split_ifs at hup hdown
        simp_all
      · exact Or.inr (Or.inl ⟨host, port, by rw [checkTarget, hm]; exact hcheck, hstopped⟩)

/-! ### The report is complete -/

/-- **Complete reports.** The monitors of a report are those it finds. It finds every monitor that
will fail if and only if these are attached to a host that stops as a whole, are checks of a web
address, or of a host and a port that are written out. -/
theorem complete_iff (name : List Char) (action : String) (extra : Report → Report)
    (hextra : ∀ r, (extra r).monitors = r.monitors) :
    (build lower rec target name action stopping (some mons) extra).monitors.Perm
        ((reported lower rec target stopping mons).map (monitorItem rec)) ∧
      ((∀ m ∈ mons, m.enabled = true → Required services lower rec target all stopping m →
          m ∈ reported lower rec target stopping mons) ↔
        ∀ m ∈ mons, m.enabled = true → Required services lower rec target all stopping m →
          (target = .host ∧ m.hostID = some rec.id) ∨ m.type = .http ∨
            (m.type = .tcp ∧ Written lower rec target m)) := by
  refine ⟨monitors_build name action extra hextra,
    forall_congr' fun m => forall_congr' fun hm => forall_congr' fun henabled =>
    forall_congr' fun hrequired => ?_⟩
  rw [mem_reported_iff, ← watches_iff_of_required hrequired]
  exact ⟨fun h => h.2.2, fun h => ⟨hm, henabled, h⟩⟩

end

/-- A container that serves a port, and what is known of its host. -/
def webContainer : Container :=
  { id := "4f5e6d7c8b9a".toList, name := "web".toList, stack := "shop".toList
    state := "running".toList, ports := [8080] }

/-- A host that is reached by its address. -/
def webRecord : Record := { id := "h1".toList, name := "vm-1".toList, address := "10.0.0.5".toList }

/-- A monitor of the web address, which is attached to no host. -/
def addressMonitor : Monitor :=
  { name := "page".toList, type := .http, target := "http://10.0.0.5:8080/".toList }

/-- A monitor of the container. -/
def containerMonitor : Monitor :=
  { name := "web".toList, type := .docker, hostID := some "h1".toList, hostAddr := "10.0.0.5".toList
    target := "web".toList }

/-- A monitor of the port, which leaves the host to the one it is attached to. -/
def portMonitor : Monitor :=
  { name := "port".toList, type := .tcp, hostID := some "h1".toList, hostAddr := "10.0.0.5".toList
    target := "8080".toList }

/-- A monitor of the port that writes the host out, and is attached to it as well. -/
def writtenMonitor : Monitor :=
  { name := "api".toList, type := .tcp, hostID := some "h1".toList, hostAddr := "10.0.0.5".toList
    target := "10.0.0.5:8080".toList }

/-- A container of the same stack, which runs on. -/
def workerContainer : Container :=
  { id := "0a1b2c3d4e5f".toList, name := "worker".toList, stack := "shop".toList
    state := "running".toList }

/-- A table of services without an entry: every port is written as a number. -/
def noServices : Services := { port := fun _ => none, no_slash := fun _ _ => rfl }

/-- The letters as they are, for names that have no capitals. -/
def sameCase : ToLower := { map := id, map_nil := rfl }

/-- The report of the container, with the rest of its stack as what depends on it, has the monitors
of its address and of its port. -/
theorem complete_writtenMonitors :
    (build sameCase webRecord .container "web".toList "stop" [webContainer]
        (some [addressMonitor, writtenMonitor]) fun out =>
          { out with
            depends := out.depends ++
              dependents webRecord [webContainer, workerContainer] [webContainer] }).monitors.Perm
      ([addressMonitor, writtenMonitor].map (monitorItem webRecord)) ∧
    ∀ m ∈ [addressMonitor, writtenMonitor],
      Required noServices sameCase webRecord .container [webContainer, workerContainer]
        [webContainer] m := by
  have haddress : Required noServices sameCase webRecord .container [webContainer, workerContainer]
      [webContainer] addressMonitor :=
    Or.inr (Or.inl ⟨"10.0.0.5".toList, 8080, by decide +kernel, ⟨by decide, by decide⟩, by decide⟩)
  have hport : Required noServices sameCase webRecord .container [webContainer, workerContainer]
      [webContainer] writtenMonitor :=
    Or.inr (Or.inl ⟨"10.0.0.5".toList, 8080, by decide +kernel, ⟨by decide, by decide⟩, by decide⟩)
  have hwritten : Written sameCase webRecord .container writtenMonitor :=
    ⟨by decide, by decide, Or.inr rfl, Or.inr ⟨"8080".toList, by decide, by decide⟩⟩
  obtain ⟨hmonitors, hcomplete⟩ := @complete_iff noServices sameCase webRecord .container
    [webContainer, workerContainer] [webContainer] [addressMonitor, writtenMonitor] "web".toList
    "stop"
    (fun out => { out with
      depends := out.depends ++
        dependents webRecord [webContainer, workerContainer] [webContainer] }) fun _ => rfl
  have hall := hcomplete.mpr fun m hm _ _ => by
    rcases List.mem_pair.mp hm with rfl | rfl
    · exact Or.inr (Or.inl rfl)
    · exact Or.inr (Or.inr ⟨rfl, hwritten⟩)
  have hrequired : ∀ m ∈ [addressMonitor, writtenMonitor], Required noServices sameCase webRecord
      .container [webContainer, workerContainer] [webContainer] m := by
    intro m hm
    rcases List.mem_pair.mp hm with rfl | rfl
    · exact haddress
    · exact hport
  have hreported : reported sameCase webRecord .container [webContainer]
      [addressMonitor, writtenMonitor] = [addressMonitor, writtenMonitor] := by
    refine List.filter_eq_self.mpr fun m hm => ?_
    have henabled : m.enabled = true := by
      rcases List.mem_pair.mp hm with rfl | rfl <;> rfl
    exact (List.mem_filter.mp (hall m hm henabled (hrequired m hm))).2
  exact ⟨hreported ▸ hmonitors, hrequired⟩

/-- A container stops, and neither the monitor of it nor the one of its port is in the report. -/
theorem web_stops_unnoticed :
    Required noServices sameCase webRecord .container [webContainer] [webContainer]
      containerMonitor ∧
      Required noServices sameCase webRecord .container [webContainer] [webContainer] portMonitor ∧
      (build sameCase webRecord .container "web".toList "stop" [webContainer]
        (some [containerMonitor, portMonitor]) id).monitors = [] := by
  refine ⟨Or.inl ⟨rfl, rfl, webContainer, List.mem_singleton_self _, by decide, ?_⟩, Or.inr (Or.inl
    ⟨"10.0.0.5".toList, 8080, by decide +kernel, ⟨by
      decide, by decide⟩, by decide⟩), by decide +kernel⟩
  exact List.find?_cons_of_pos (by decide)

end Dockhand.Impact
