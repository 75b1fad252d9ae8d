import Mathlib.Data.List.Nodup
import Dockhand.Go.Dict
import Dockhand.Go.Strings
import Dockhand.Transition.Exec

/-!
# The inspect cache

A poll and a refresh list the containers of a host and show each with the times and the restart
policy that an inspect reports. An inspect is kept for as long as the coarse state of its container
looks the same. `enrich`, which a poll calls, and `enrichLight`, which a refresh calls, fill the
same entries, but `enrichLight` leaves out the restart policy.

What the code should show is `Docker.shown`, which knows no cache. `accurate_iff_along` says in
which runs the cache cannot be told from it. The other data of a host and the samples of the
container stats are left out.
-/

namespace Dockhand.Monitor.Inspects

open Go Transition

/-- What the daemon reports when a container is inspected. -/
structure Inspect where
  startedAt : String
  finishedAt : String
  restartCount : ℕ
  /-- `Config.Healthcheck.Test`, empty when there is none. -/
  healthTest : List String
  /-- `HostConfig.RestartPolicy.Name`. -/
  restartPolicy : Option String
  deriving DecidableEq, Repr

/-- A container of the daemon. -/
structure DockerContainer where
  id : String
  state : String
  inspect : Inspect
  deriving DecidableEq, Repr

/-- The containers of the daemon, no two of which have one id. -/
structure Docker where
  list : List DockerContainer
  ids : (list.map DockerContainer.id).Nodup

/-- `ContainerInspect`. -/
def Docker.containerInspect (d : Docker) (id : String) : Option Inspect :=
  (d.list.find? fun c => c.id = id).map DockerContainer.inspect

private theorem Docker.containerInspect_of_mem {d : Docker} {c : DockerContainer} (h : c ∈ d.list) :
    d.containerInspect c.id = some c.inspect := by
  have hfound : (d.list.find? fun c' => c'.id = c.id).isSome :=
    List.find?_isSome.mpr ⟨c, h, by simp⟩
  obtain ⟨c', hc'⟩ := Option.isSome_iff_exists.mp hfound
  have hid : c'.id = c.id := by simpa using List.find?_some hc'
  obtain rfl := List.inj_on_of_nodup_map d.ids (List.mem_of_find?_eq_some hc') h hid
  rw [containerInspect, hc', Option.map_some]

section Monitor

variable {τ : Type} (parseTime : String → Option τ)

/-- `ParseDockerTime` parses Docker's timestamps; zero values yield nil. -/
def parseDockerTime (s : String) : Option τ :=
  if s = "" ∨ hasPrefix s "0001-" = true then none else parseTime s

/-- A container as the monitor shows it. -/
structure Container (τ : Type) where
  id : String
  state : String
  startedAt : Option τ := none
  finishedAt : Option τ := none
  restartPolicy : String := ""
  deriving DecidableEq, Repr

/-- A container as the list alone gives it, without times. -/
def fromSummary (c : DockerContainer) : Container τ where
  id := c.id
  state := if c.state = "" then "created" else c.state

/-- What is kept of an inspect: the state it was made in, and what the list does not have. -/
structure InspectInfo (τ : Type) where
  state : String
  startedAt : Option τ
  finishedAt : Option τ
  restartCount : ℕ
  hasHealth : Bool
  restartPol : String := ""
  deriving DecidableEq, Repr

/-- What `enrichLight` keeps of an inspect. -/
def lightInfo (c : Container τ) (ins : Inspect) : InspectInfo τ where
  state := c.state
  startedAt := parseDockerTime parseTime ins.startedAt
  finishedAt := parseDockerTime parseTime ins.finishedAt
  restartCount := ins.restartCount
  hasHealth := ins.healthTest ≠ [] ∧ ins.healthTest.head? ≠ some "NONE"

/-- What `enrich` keeps of an inspect. -/
def fullInfo (c : Container τ) (ins : Inspect) : InspectInfo τ :=
  { lightInfo parseTime c ins with restartPol := ins.restartPolicy.getD "" }

/-- The container is inspected: there is no entry for it, or one from another state. -/
def needed (cache : Dict String (InspectInfo τ)) (c : Container τ) : Bool :=
  match cache.get? c.id with
  | none => true
  | some ii => ii.state ≠ c.state

/-- The entry is written. -/
def store (entry : Container τ → Inspect → InspectInfo τ) (d : Docker)
    (cache : Dict String (InspectInfo τ)) (c : Container τ) : Dict String (InspectInfo τ) :=
  match d.containerInspect c.id with
  | none => cache
  | some ins => cache.set c.id (entry c ins)

/-- The entries with those of the containers that are inspected. -/
def inspectAll (entry : Container τ → Inspect → InspectInfo τ) (d : Docker)
    (cache : Dict String (InspectInfo τ)) (ctrs : List (Container τ)) :
    Dict String (InspectInfo τ) :=
  (ctrs.filter (needed cache)).foldl (store entry d) cache

/-- In this state no finishing time is shown. -/
def unfinished (state : String) : Bool := state = "running" || state = "created"

/-- The container with the values of its entry. -/
def fill (cache : Dict String (InspectInfo τ)) (c : Container τ) : Container τ :=
  match cache.get? c.id with
  | none => c
  | some ii =>
    { c with
      startedAt := ii.startedAt
      finishedAt := if unfinished c.state then none else ii.finishedAt
      restartPolicy := ii.restartPol }

/-- `enrich` fills timestamps from (cached) inspects, and forgets the containers that are gone. -/
def enrich (d : Docker) (cache : Dict String (InspectInfo τ)) (ctrs : List (Container τ)) :
    Dict String (InspectInfo τ) × List (Container τ) :=
  let cache := inspectAll (fullInfo parseTime) d cache ctrs
  (cache.filter fun id _ => ctrs.any fun c => c.id = id, ctrs.map (fill cache))

/-- `enrichLight` fills timestamps. -/
def enrichLight (d : Docker) (cache : Dict String (InspectInfo τ)) (ctrs : List (Container τ)) :
    Dict String (InspectInfo τ) × List (Container τ) :=
  let cache := inspectAll (lightInfo parseTime) d cache ctrs
  (cache, ctrs.map (fill cache))

/-! ### Polls and refreshes -/

/-- The daemon of a host and what the monitor knows of it. -/
structure State (τ : Type) where
  docker : Docker := ⟨[], List.nodup_nil⟩
  inspect : Dict String (InspectInfo τ) := ∅
  containers : List (Container τ) := []

/-- What happens next: on the daemon, or in the monitor. -/
inductive Event where
  /-- Containers are created, started, stopped, restarted, recreated or removed. -/
  | docker (d : Docker)
  | poll
  | refresh

/-- The step after listing the containers. -/
def State.look (s : State τ) (f : Docker → Dict String (InspectInfo τ) → List (Container τ) →
    Dict String (InspectInfo τ) × List (Container τ)) : State τ :=
  let r := f s.docker s.inspect (s.docker.list.map fromSummary)
  { s with inspect := r.1, containers := r.2 }

/-- A poll and a refresh list the containers and fill in what the list lacks; what happens on the
daemon is seen by neither until then. -/
def step (s : State τ) : Event → Option (State τ)
  | .docker d => some { s with docker := d }
  | .poll => some (s.look (enrich parseTime))
  | .refresh => some (s.look (enrichLight parseTime))

/-! ### What is shown -/

/-- The container with what an inspect reports of it at this moment. -/
def DockerContainer.shown (c : DockerContainer) : Container τ :=
  { (fromSummary c : Container τ) with
    startedAt := parseDockerTime parseTime c.inspect.startedAt
    finishedAt := if unfinished (fromSummary c : Container τ).state then none
      else parseDockerTime parseTime c.inspect.finishedAt
    restartPolicy := c.inspect.restartPolicy.getD "" }

/-- Every container is shown with what an inspect reports. -/
def State.Accurate (s : State τ) : Prop :=
  s.containers = s.docker.list.map (DockerContainer.shown parseTime)

/-- After a poll or a refresh every container is shown with what an inspect reports. -/
def AccurateAfter (_ : State τ) (e : Event) (s' : State τ) : Prop :=
  match e with
  | .docker _ => True
  | .poll | .refresh => s'.Accurate parseTime

instance [DecidableEq τ] (s : State τ) (e : Event) (s' : State τ) :
    Decidable (AccurateAfter parseTime s e s') :=
  match e with
  | .docker _ => isTrue trivial
  | .poll | .refresh => inferInstanceAs (Decidable (_ = _))

/-- The entry says what an inspect reports now, as far as it is shown. -/
structure InspectInfo.Current (ii : InspectInfo τ) (c : DockerContainer) : Prop where
  startedAt : ii.startedAt = parseDockerTime parseTime c.inspect.startedAt
  finishedAt : unfinished (fromSummary c : Container τ).state = false →
    ii.finishedAt = parseDockerTime parseTime c.inspect.finishedAt
  restartPol : ii.restartPol = c.inspect.restartPolicy.getD ""

/-- Of the containers in the state that they were inspected in, nothing has changed since. -/
def State.Unchanged (s : State τ) : Prop :=
  ∀ c ∈ s.docker.list, ∀ ii ∈ s.inspect.get? c.id,
    ii.state = (fromSummary c : Container τ).state → ii.Current parseTime c

/-- The containers that are to be inspected have no restart policy. -/
def State.Unrestarted (s : State τ) : Prop :=
  ∀ c ∈ s.docker.list, needed s.inspect (fromSummary c) = true →
    c.inspect.restartPolicy.getD "" = ""

/-- The condition on a step. -/
def Visible (s : State τ) : Event → Prop
  | .docker _ => True
  | .poll => s.Unchanged parseTime
  | .refresh => s.Unchanged parseTime ∧ s.Unrestarted

/-! ### The entries after the inspects -/

variable {parseTime}

private theorem store_of_mem (entry : Container τ → Inspect → InspectInfo τ) {d : Docker}
    {c : DockerContainer} (h : c ∈ d.list) (cache : Dict String (InspectInfo τ)) :
    store entry d cache (fromSummary c) =
      cache.set c.id (entry (fromSummary c) c.inspect) := by
  have hfound : d.containerInspect (fromSummary c : Container τ).id = some c.inspect :=
    Docker.containerInspect_of_mem h
  rw [store, hfound]
  rfl

private theorem get?_foldl_store (entry : Container τ → Inspect → InspectInfo τ) {d : Docker}
    {l : List DockerContainer} (hl : l ⊆ d.list) (hnodup : l.Nodup) {c : DockerContainer}
    (hc : c ∈ d.list) (cache : Dict String (InspectInfo τ)) :
    ((l.map fromSummary).foldl (store entry d) cache).get? c.id =
      if c ∈ l then some (entry (fromSummary c) c.inspect) else cache.get? c.id := by
  induction l generalizing cache with
  | nil => simp
  | cons c' l ih =>
    obtain ⟨hc', hl⟩ := List.cons_subset.mp hl
    obtain ⟨hnot, hnodup⟩ := List.nodup_cons.mp hnodup
    rw [List.map_cons, List.foldl_cons, store_of_mem entry hc', ih hl hnodup, Dict.get?_set]
    by_cases heq : c = c'
    · subst heq
      simp [hnot]
    · have hid : c.id ≠ c'.id := fun hid => heq (List.inj_on_of_nodup_map d.ids hc hc' hid)
      simp [heq, hid]

/-- The entry of a container is new when it was needed, and the old one otherwise. -/
theorem get?_inspectAll (entry : Container τ → Inspect → InspectInfo τ) {d : Docker}
    (cache : Dict String (InspectInfo τ)) {c : DockerContainer} (hc : c ∈ d.list) :
    (inspectAll entry d cache (d.list.map fromSummary)).get? c.id =
      if needed cache (fromSummary c) = true then some (entry (fromSummary c) c.inspect)
      else cache.get? c.id := by
  rw [inspectAll, List.filter_map,
    get?_foldl_store entry (fun _ h => List.mem_of_mem_filter h) (d.ids.of_map.filter _) hc]
  simp [hc]

/-! ### The containers that are shown -/

private theorem fill_of_needed (entry : Container τ → Inspect → InspectInfo τ) {d : Docker}
    {cache : Dict String (InspectInfo τ)} {c : DockerContainer} (hc : c ∈ d.list)
    (hneeded : needed cache (fromSummary c) = true) :
    fill (inspectAll entry d cache (d.list.map fromSummary)) (fromSummary c) =
      { (fromSummary c : Container τ) with
        startedAt := (entry (fromSummary c) c.inspect).startedAt
        finishedAt := if unfinished (fromSummary c : Container τ).state then none
          else (entry (fromSummary c) c.inspect).finishedAt
        restartPolicy := (entry (fromSummary c) c.inspect).restartPol } := by
  have hget := get?_inspectAll entry cache hc
  rw [if_pos hneeded] at hget
  have hid : (fromSummary c : Container τ).id = c.id := rfl
  rw [fill, hid, hget]
  rfl

/-- A container that is not inspected is shown as it is exactly when its entry is current. -/
theorem fill_of_not_needed (entry : Container τ → Inspect → InspectInfo τ) {d : Docker}
    {cache : Dict String (InspectInfo τ)} {c : DockerContainer} (hc : c ∈ d.list)
    (hneeded : needed cache (fromSummary c) = false) :
    fill (inspectAll entry d cache (d.list.map fromSummary)) (fromSummary c) =
        c.shown parseTime ↔
      ∀ ii ∈ cache.get? c.id, ii.state = (fromSummary c : Container τ).state →
        ii.Current parseTime c := by
  have hget := get?_inspectAll entry cache hc
  rw [hneeded, if_neg Bool.false_ne_true] at hget
  have hid : (fromSummary c : Container τ).id = c.id := rfl
  rw [needed, hid] at hneeded
  cases hentry : cache.get? c.id with
  | none =>
    rw [hentry] at hneeded
    cases hneeded
  | some ii =>
    rw [hentry] at hneeded
    have hstate : ii.state = (fromSummary c : Container τ).state := by simpa using hneeded
    rw [fill, hid, hget, hentry]
    simp only [Option.mem_some_iff, forall_eq', hstate, forall_const]
    simp only [DockerContainer.shown, Container.mk.injEq, true_and]
    constructor
    · rintro ⟨-, hstarted, hfinished, hpolicy⟩
      refine ⟨hstarted, fun hstate => ?_, hpolicy⟩
      simpa [hstate] using hfinished
    · rintro ⟨hstarted, hfinished, hpolicy⟩
      refine ⟨rfl, hstarted, ?_, hpolicy⟩
      split_ifs with hstate
      · rfl
      · exact hfinished (by simpa using hstate)

private theorem accurate_look (entry : Container τ → Inspect → InspectInfo τ) {s : State τ}
    {f : Docker → Dict String (InspectInfo τ) → List (Container τ) →
      Dict String (InspectInfo τ) × List (Container τ)}
    (hf : ∀ d cache ctrs, (f d cache ctrs).2 = ctrs.map (fill (inspectAll entry d cache ctrs))) :
    (s.look f).Accurate parseTime ↔ ∀ c ∈ s.docker.list,
      fill (inspectAll entry s.docker s.inspect (s.docker.list.map fromSummary)) (fromSummary c) =
        c.shown parseTime := by
  simp only [State.Accurate, State.look, hf, List.map_map, List.map_inj_left, Function.comp_apply]

/-- Entries with another state than their container are not looked at. -/
theorem current_of_needed {cache : Dict String (InspectInfo τ)} {c : DockerContainer}
    (hneeded : needed cache (fromSummary c) = true) :
    ∀ ii ∈ cache.get? c.id, ii.state = (fromSummary c : Container τ).state →
      ii.Current parseTime c := by
  intro ii hentry hstate
  have hid : (fromSummary c : Container τ).id = c.id := rfl
  rw [needed, hid, Option.mem_def.mp hentry] at hneeded
  exact absurd hstate (by simpa using hneeded)

/-- **A poll** shows every container as it is exactly when those in the state that they were
inspected in have not changed. -/
theorem accurate_poll_iff (s : State τ) :
    (s.look (enrich parseTime)).Accurate parseTime ↔ s.Unchanged parseTime := by
  rw [accurate_look (fullInfo parseTime) fun _ _ _ => rfl]
  refine forall₂_congr fun c hc => ?_
  cases hneeded : needed s.inspect (fromSummary c) with
  | false => exact fill_of_not_needed _ hc hneeded
  | true =>
    rw [fill_of_needed _ hc hneeded]
    exact iff_of_true rfl (current_of_needed hneeded)

/-- **A refresh** shows every container as it is exactly when moreover those that it inspects have
no restart policy. -/
theorem accurate_refresh_iff (s : State τ) :
    (s.look (enrichLight parseTime)).Accurate parseTime ↔
      s.Unchanged parseTime ∧ s.Unrestarted := by
  rw [accurate_look (lightInfo parseTime) fun _ _ _ => rfl, State.Unchanged, State.Unrestarted,
    ← forall₂_and]
  refine forall₂_congr fun c hc => ?_
  cases hneeded : needed s.inspect (fromSummary c) with
  | false =>
    rw [fill_of_not_needed _ hc hneeded]
    simp
  | true =>
    rw [fill_of_needed _ hc hneeded]
    constructor
    · intro h
      exact ⟨current_of_needed hneeded, fun _ => (congrArg Container.restartPolicy h).symm⟩
    · rintro ⟨-, hpolicy⟩
      rw [DockerContainer.shown, hpolicy rfl]
      rfl

end Monitor

/-! ### A container that is restarted -/

/-- A daemon with one container, which was started at the given time. -/
def daemon (startedAt : String) : Docker where
  list := [⟨"c", "running", ⟨startedAt, "0001-01-01T00:00:00Z", 0, [], some "always"⟩⟩]
  ids := List.nodup_singleton _

/-- A container that a refresh finds first is shown without its restart policy. -/
example : ¬ AllSteps (step some) (AccurateAfter some) {}
    [.docker (daemon "2026-01-01T10:00:00Z"), .refresh, .poll] := by decide +kernel

end Dockhand.Monitor.Inspects
