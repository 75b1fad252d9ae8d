import Dockhand.DockerOps.RunSpec

/-!
# What becomes of a run request

`BuildRunSpec` goes through the rows of a request one by one. `buildRunSpec_ok` says what it makes
of them: the ports that are exposed and their bindings, the binds and the variables, each as a set.
-/

namespace Dockhand.DockerOps

open Go
open Dockhand.DeployCheck (PortPair validDockerName)

variable {nat : PortPackage}

/-! ### Host fields -/

theorem toList_colon : ":".toList = [':'] := rfl

theorem not_mem_hostPort (host : String) : ':' ∉ (hostBinding host).hostPort.toList := by
  rw [hostBinding]
  by_cases hcolon : ':' ∈ (trimSpace host).toList
  · obtain ⟨a, b, heq, hb⟩ := exists_final toList_colon hcolon
    simpa only [heq, cutLast_append toList_colon hb] using hb
  · simpa only [cutLast_of_not_mem hcolon] using hcolon

/-- What a host field says, put together again. -/
theorem trimSpace_eq_hostSide (host : String) :
    trimSpace host = (hostBinding host).hostIP ++ ":" ++ (hostBinding host).hostPort ∨
      (hostBinding host).hostIP = "" ∧ trimSpace host = (hostBinding host).hostPort := by
  rw [hostBinding]
  by_cases hcolon : ':' ∈ (trimSpace host).toList
  · obtain ⟨a, b, heq, hb⟩ := exists_final toList_colon hcolon
    left
    simp only [heq, cutLast_append toList_colon hb]
  · right
    simp only [cutLast_of_not_mem hcolon, and_self]

/-! ### Port rows -/

/-- The port and the protocol in a container field. -/
def containerText (container : String) : String × String :=
  (cut (trimSpace container) "/").getD (trimSpace container, "tcp")

/-- The row exposes the port. -/
def Exposes (nat : PortPackage) (r : PortPair) (p : String) : Prop :=
  exposedPort nat r.container = .ok (some p)

theorem exposes_nat_iff {r : PortPair} {p : String} : Exposes nat r p ↔
    trimSpace r.container ≠ "" ∧
      nat.newPort (containerText r.container).2 (containerText r.container).1 = some p := by
  rw [Exposes, exposedPort, containerText]
  by_cases hblank : trimSpace r.container = ""
  · simp [hblank]
  · simp only [hblank, if_false, ne_eq, not_false_eq_true, true_and]
    cases nat.newPort ((cut (trimSpace r.container) "/").getD (trimSpace r.container, "tcp")).2
      ((cut (trimSpace r.container) "/").getD (trimSpace r.container, "tcp")).1 <;> simp

/-- The row asks for a binding of the port that it exposes. -/
structure Binds (nat : PortPackage) (r : PortPair) (p : String) (b : PortBinding) : Prop where
  exposes : Exposes nat r p
  binding : hostBinding r.host = b
  published : b.hostPort ≠ ""

/-- The bindings of a port, none where the port has no entry. -/
def PortMaps.bindingsOf (m : PortMaps) (p : String) : List PortBinding :=
  (m.bindings.get? p).getD []

/-- A row adds the port it exposes and the binding it asks for. -/
theorem portStep_ok {m m' : PortMaps} {r : PortPair} (h : portStep nat m r = .ok m') :
    (trimSpace r.container = "" ∨ ∃ p, Exposes nat r p) ∧
    (∀ p, m'.exposed.get? p = some () ↔ m.exposed.get? p = some () ∨ Exposes nat r p) ∧
    ∀ p b, b ∈ m'.bindingsOf p ↔ b ∈ m.bindingsOf p ∨ Binds nat r p b := by
  rw [portStep] at h
  cases he : exposedPort nat r.container with
  | error e => simp [he, bind, Except.bind] at h
  | ok o =>
    simp only [he, bind, Except.bind] at h
    cases o with
    | none =>
      obtain rfl : m = m' := by simpa [pure, Except.pure] using h
      have hnot : ∀ p, ¬ Exposes nat r p := fun p hp => by simp [Exposes, he] at hp
      refine ⟨.inl ?_, fun p => by simp [hnot p], fun p b => ?_⟩
      · by_contra hblank
        rw [exposedPort, if_neg hblank] at he
        dsimp only at he
        split at he <;> cases he
      · simp only [iff_self_or]
        exact fun hb => absurd hb.exposes (hnot p)
    | some port =>
      have hport : ∀ p, Exposes nat r p ↔ p = port := fun p => by simp [Exposes, he, eq_comm]
      refine ⟨.inr ⟨port, (hport port).mpr rfl⟩, ?_⟩
      dsimp only at h
      split_ifs at h with hempty
      · obtain rfl := by simpa [pure, Except.pure] using h
        refine ⟨fun p => ?_, fun p b => ?_⟩
        · rw [hport]
          by_cases hp : p = port <;> simp [hp]
        · have hbinds : Binds nat r p b ↔ p = port ∧ b = hostBinding r.host :=
            ⟨fun hb => ⟨(hport p).mp hb.exposes, hb.binding.symm⟩, fun ⟨hp, hb⟩ =>
              ⟨(hport p).mpr hp, hb.symm, hb ▸ hempty⟩⟩
          rw [hbinds, PortMaps.bindingsOf, PortMaps.bindingsOf]
          by_cases hp : p = port
          · subst hp
            simp
          · simp [hp]
      · obtain rfl := by simpa [pure, Except.pure] using h
        refine ⟨fun p => ?_, fun p b => ?_⟩
        · rw [hport]
          by_cases hp : p = port <;> simp [hp]
        · have hnot : ¬ Binds nat r p b := fun hb => hempty (hb.binding ▸ hb.published)
          simp [hnot, PortMaps.bindingsOf]

theorem foldlM_portStep_ok {rows : List PortPair} {m m' : PortMaps}
    (h : rows.foldlM (portStep nat) m = .ok m') :
    (∀ r ∈ rows, trimSpace r.container = "" ∨ ∃ p, Exposes nat r p) ∧
    (∀ p, m'.exposed.get? p = some () ↔ m.exposed.get? p = some () ∨ ∃ r ∈ rows, Exposes nat r p) ∧
    ∀ p b, b ∈ m'.bindingsOf p ↔ b ∈ m.bindingsOf p ∨ ∃ r ∈ rows, Binds nat r p b := by
  induction rows generalizing m with
  | nil =>
    obtain rfl : m = m' := by simpa [pure, Except.pure] using h
    simp
  | cons r rows ih =>
    rw [List.foldlM_cons] at h
    cases hstep : portStep nat m r with
    | error e => simp [hstep, bind, Except.bind] at h
    | ok m₁ =>
      simp only [hstep, bind, Except.bind] at h
      obtain ⟨hkept, hexposed, hbound⟩ := portStep_ok hstep
      obtain ⟨hkept', hexposed', hbound'⟩ := ih h
      refine ⟨List.forall_mem_cons.mpr ⟨hkept, hkept'⟩, fun p => ?_, fun p b => ?_⟩
      · rw [hexposed', hexposed, List.exists_mem_cons_iff, or_assoc]
      · rw [hbound', hbound, List.exists_mem_cons_iff, or_assoc]

/-! ### Volumes, variables and labels -/

theorem foldlM_bindStep_ok {vs : List VolumePair} {binds binds' : List String}
    (h : vs.foldlM bindStep binds = .ok binds') (b : String) :
    b ∈ binds' ↔ b ∈ binds ∨ ∃ v ∈ vs, (trimSpace v.src ≠ "" ∧ trimSpace v.dst ≠ "") ∧
      b = trimSpace v.src ++ ":" ++ trimSpace v.dst := by
  induction vs generalizing binds with
  | nil =>
    obtain rfl : binds = binds' := by simpa [pure, Except.pure] using h
    simp
  | cons v vs ih =>
    rw [List.foldlM_cons, bindStep] at h
    rw [List.exists_mem_cons_iff]
    by_cases hskip : trimSpace v.src = "" ∨ trimSpace v.dst = ""
    · have hnot : ¬ (trimSpace v.src ≠ "" ∧ trimSpace v.dst ≠ "") :=
        not_and_or.mpr (by simpa using hskip)
      simp only [hskip, if_true, bind, Except.bind] at h
      simp only [ih h, hnot, false_and, false_or]
    · have hkept : trimSpace v.src ≠ "" ∧ trimSpace v.dst ≠ "" := not_or.mp hskip
      by_cases hprefix : hasPrefix (trimSpace v.dst) "/" = true
      · simp only [hskip, if_false, hprefix, not_true_eq_false, bind, Except.bind] at h
        simp only [ih h, List.mem_append, List.mem_singleton, or_assoc, hkept, ne_eq,
          not_false_eq_true, and_self, true_and]
      · simp [hskip, hprefix, bind, Except.bind] at h

theorem mem_envOf {env : List (String × String)} {e : String} : e ∈ envOf env ↔
    ∃ kv ∈ env, trimSpace kv.1 ≠ "" ∧ e = trimSpace kv.1 ++ "=" ++ kv.2 := by
  rw [envOf, List.mem_filterMap]
  refine exists_congr fun kv => and_congr_right fun _ => ?_
  dsimp only
  split_ifs with hk
  · simp [hk, eq_comm]
  · simp [hk]

private theorem not_mem_of_validDockerName {s : String} (h : validDockerName s = true) :
    '=' ∉ s.toList := by
  rw [validDockerName] at h
  split at h
  · cases h
  · rename_i c cs hs
    rw [Bool.and_eq_true, List.all_eq_true] at h
    rw [hs]
    intro hmem
    rcases List.mem_cons.mp hmem with rfl | hmem
    · exact absurd h.1 (by decide)
    · exact absurd (h.2 _ hmem) (by decide)

/-- The labels of the spec have no `=` in their names. -/
def Labelled (labels : Dict String String) : Prop := ∀ e ∈ labels.entries, '=' ∉ e.1.toList

theorem Labelled.set {labels : Dict String String} (h : Labelled labels) {k : String}
    (hk : '=' ∉ k.toList)
    (v : String) : Labelled (labels.set k v) := by
  intro e he
  rcases Assoc.mem_of_mem_set he with rfl | he
  · exact hk
  · exact h e he

/-! ### The spec -/

/-- What `BuildRunSpec` makes of a request. -/
structure Built (nat : PortPackage) (i : RunContainerInput) (spec : RunSpec) : Prop where
  image : spec.config.image = trimSpace i.image
  network : spec.hostConfig.networkMode = networkModeOf i.network
  restart : spec.hostConfig.restartPolicy.name ≠ "no"
  env : spec.config.env = envOf i.env
  labels : Labelled spec.config.labels
  ports : i.ports.foldlM (portStep nat) {} = .ok
    ⟨spec.config.exposedPorts, spec.hostConfig.portBindings⟩
  binds : i.volumes.foldlM bindStep [] = .ok spec.hostConfig.binds

theorem buildRunSpec_ok {i : RunContainerInput} {domain : String} {spec : RunSpec}
    (h : buildRunSpec nat i domain = .ok spec) : Built nat i spec := by
  rw [buildRunSpec] at h
  simp only [bind, Except.bind, pure, Except.pure, throw, throwThe, MonadExceptOf.throw] at h
  by_cases himage : trimSpace i.image = ""
  · simp [himage] at h
  by_cases hname : trimSpace i.name ≠ "" ∧ ¬ validDockerName (trimSpace i.name) = true
  · simp [himage, hname] at h
  have hnameChars : '=' ∉ (trimSpace i.name).toList := by
    by_cases hempty : trimSpace i.name = ""
    · rw [hempty]
      decide
    · exact not_mem_of_validDockerName (by simpa [hempty] using hname)
  have hmanaged : Labelled ((∅ : Dict String String).set "dockhand.managed" "true") :=
    Labelled.set (fun e he => by cases he) (by decide) _
  have htraefik : Labelled (((∅ : Dict String String).set "dockhand.managed" "true").set
    "traefik.enable" "true") :=
    hmanaged.set (by decide) _
  have hrule : '=' ∉ ("traefik.http.routers." ++ trimSpace i.name ++ ".rule").toList := by
    simp [hnameChars]
  rw [if_neg himage, if_neg hname] at h
  cases hports : i.ports.foldlM (portStep nat) {} with
  | error e =>
    simp only [hports] at h
    split_ifs at h
  | ok m =>
    cases hbinds : i.volumes.foldlM bindStep [] with
    | error e =>
      simp only [hports, hbinds] at h
      split_ifs at h
    | ok binds =>
      simp only [hports, hbinds] at h
      split_ifs at h with hdefault htr hempty hknown htr hempty
      · cases h
        exact ⟨rfl, rfl, show "" ≠ "no" by decide, rfl, htraefik.set hrule _, hports, hbinds⟩
      · cases h
        exact ⟨rfl, rfl, show "" ≠ "no" by decide, rfl, hmanaged, hports, hbinds⟩
      all_goals have hno : i.restart ≠ "no" := fun hno => hdefault (.inr hno)
      · cases h
        exact ⟨rfl, rfl, hno, rfl, htraefik.set hrule _, hports, hbinds⟩
      · cases h
        exact ⟨rfl, rfl, hno, rfl, hmanaged, hports, hbinds⟩

end Dockhand.DockerOps
