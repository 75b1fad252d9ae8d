import Mathlib.Data.List.Sort
import Mathlib.Data.String.Basic
import Dockhand.Go.Strings

/-!
# References to containers

A container is referred to by its id, the first characters of its id, or its name. Three pieces of
code resolve such a reference in the list of the last poll: `Monitor.Container`, on which
`Service.Remove` and `Service.Action` rest, and the preview of what an action stops. The first one
takes the first container in the order of names that the reference fits in any way, so one that fits
by its id alone shadows the one that is named: `not_resolves`. The preview takes all of them.
-/

namespace Dockhand.Monitor

open Go

/-- What is read of a container of the list. -/
structure CachedContainer where
  id : String
  name : String
  deriving DecidableEq

/-- The list of the last poll. -/
structure Cache where
  containers : List CachedContainer
  ids : (containers.map CachedContainer.id).Nodup
  names : (containers.map CachedContainer.name).Nodup

/-- The reference fits the container. -/
def fits (ref : String) (c : CachedContainer) : Bool :=
  c.id = ref || c.name = ref || (6 ≤ ref.utf8ByteSize && hasPrefix c.id ref)

/-- The reference fits the container in the preview, which takes a beginning of any length. -/
def fitsLoosely (ref : String) (c : CachedContainer) : Bool :=
  c.id = ref || hasPrefix c.id ref || c.name = ref

/-- `Monitor.Containers`: sorted by name. -/
def Cache.sorted (cache : Cache) : List CachedContainer :=
  cache.containers.insertionSort fun a b => a.name ≤ b.name

/-- `Monitor.Container` finds a cached container by id, short id or name. -/
def Cache.container (cache : Cache) (ref : String) : Option CachedContainer :=
  cache.sorted.find? (fits ref)

/-- The containers that the preview of an action on one container lists as stopping. -/
def Cache.mine (cache : Cache) (cid : String) : List CachedContainer :=
  cache.sorted.filter (fitsLoosely cid)

/-! ### Actions on the daemon -/

/-- What the daemon answers to an inspection: the id of the container it finds under a reference. -/
structure Inspector where
  inspect : String → Option String

/-- An id of the list stands for nothing but its container. -/
def Inspector.Knows (e : Inspector) (cache : Cache) : Prop :=
  ∀ c ∈ cache.containers, ∀ id, e.inspect c.id = some id → id = c.id

/-- A call that changes a container. -/
inductive Change where
  | lifecycle (action : String) (id : String)
  | remove (id : String) (force volumes : Bool)
  deriving DecidableEq

/-- The reference by which the change names its container. -/
def Change.id : Change → String
  | .lifecycle _ id => id
  | .remove id _ _ => id

/-- The actions that `Action` knows. -/
def containerActions : List String := ["start", "stop", "restart", "pause", "unpause", "kill"]

namespace Service

/-- `resolve` finds the container id for an id / short id / name reference. -/
def resolve (e : Inspector) (cache : Cache) (ref : String) : Option String :=
  e.inspect (match cache.container ref with
    | some c => c.id
    | none => ref)

/-- `Service.Action`: the call it makes, `none` for an error before it. -/
def action (e : Inspector) (cache : Cache) (ref action : String) : Option Change :=
  if action ∈ containerActions then (resolve e cache ref).map (.lifecycle action) else none

/-- `Service.Remove`. -/
def remove (e : Inspector) (cache : Cache) (ref : String) (force volumes : Bool) : Option Change :=
  (resolve e cache ref).map (.remove · force volumes)

end Service

/-! ### What a reference names -/

/-- The container that a reference names: by its id, else by its name, else as the only one whose id
begins with it. -/
inductive Named (l : List CachedContainer) (ref : String) : CachedContainer → Prop
  | byId {c} (hc : c ∈ l) (hid : c.id = ref) : Named l ref c
  | byName {c} (hids : ∀ d ∈ l, d.id ≠ ref) (hc : c ∈ l) (hname : c.name = ref) : Named l ref c
  | byPrefix {c} (hids : ∀ d ∈ l, d.id ≠ ref) (hnames : ∀ d ∈ l, d.name ≠ ref)
      (hlen : 6 ≤ ref.utf8ByteSize) (hc : c ∈ l) (hstart : hasPrefix c.id ref = true)
      (honly : ∀ d ∈ l, hasPrefix d.id ref = true → d = c) : Named l ref c

/-- The reference is resolved to the container it names, and nothing else is acted on. What the list
does not name is left to the daemon. -/
structure Resolves (cache : Cache) (ref : String) : Prop where
  container : ∀ c, cache.container ref = some c ↔ Named cache.containers ref c
  acts : ∀ e : Inspector, e.Knows cache → ∀ change : Change,
    ((∃ action, Service.action e cache ref action = some change) ∨
      ∃ force volumes, Service.remove e cache ref force volumes = some change) →
    (∀ c, Named cache.containers ref c → change.id = c.id) ∧
      ((∀ c, ¬ Named cache.containers ref c) → e.inspect ref = some change.id)

/-- The preview stops the container that the reference names and no other. -/
def Previews (cache : Cache) (ref : String) : Prop :=
  ∀ c, c ∈ cache.mine ref ↔ Named cache.containers ref c

/-- The container that the reference names comes before the others that it fits, and it is not the
beginning of several ids alone. -/
structure NamedFirst (cache : Cache) (ref : String) : Prop where
  id_first : ∀ c ∈ cache.containers, c.id = ref → ∀ d ∈ cache.containers, fits ref d = true →
    c.name ≤ d.name
  name_first : (∀ d ∈ cache.containers, d.id ≠ ref) → ∀ c ∈ cache.containers, c.name = ref →
    ∀ d ∈ cache.containers, fits ref d = true → c.name ≤ d.name
  prefix_only : (∀ d ∈ cache.containers, d.id ≠ ref ∧ d.name ≠ ref) → ∀ c ∈ cache.containers,
    ∀ d ∈ cache.containers, fits ref c = true → fits ref d = true → c = d

/-- The reference is the beginning of only one id or else one name, and it is not too short for
that. -/
structure FitsOnce (cache : Cache) (ref : String) : Prop where
  once : ∀ c ∈ cache.containers, ∀ d ∈ cache.containers, fitsLoosely ref c = true →
    fitsLoosely ref d = true → c = d
  fits : ∀ c ∈ cache.containers, fitsLoosely ref c = true → fits ref c = true

variable {cache : Cache} {ref : String} {c d : CachedContainer}

private theorem fits_iff : fits ref c = true ↔
    c.id = ref ∨ c.name = ref ∨ 6 ≤ ref.utf8ByteSize ∧ hasPrefix c.id ref = true := by
  simp [fits, or_assoc]

private theorem Cache.mem_sorted : c ∈ cache.sorted ↔ c ∈ cache.containers :=
  (List.perm_insertionSort _ _).mem_iff

private theorem fitsLoosely_iff : fitsLoosely ref c = true ↔
    c.id = ref ∨ hasPrefix c.id ref = true ∨ c.name = ref := by
  simp [fitsLoosely, or_assoc]

private theorem Cache.mem_mine : c ∈ cache.mine ref ↔ c ∈ cache.containers ∧
    fitsLoosely ref c = true := by
  rw [mine, List.mem_filter, mem_sorted]

private theorem Cache.eq_of_name (hc : c ∈ cache.containers) (hd : d ∈ cache.containers)
    (h : c.name = d.name) : c = d :=
  List.inj_on_of_nodup_map cache.names hc hd h

private theorem Cache.eq_of_id (hc : c ∈ cache.containers) (hd : d ∈ cache.containers)
    (h : c.id = d.id) : c = d :=
  List.inj_on_of_nodup_map cache.ids hc hd h

/-- The first of the elements with `p` in a sorted list. -/
private theorem rel_of_find?_eq_some {α : Type} {r : α → α → Prop} {p : α → Bool} {l : List α}
    {x : α}
    (hs : l.Pairwise r) (h : l.find? p = some x) {y : α} (hy : y ∈ l) (hpy : p y = true) :
    y = x ∨ r x y := by
  induction l with
  | nil => cases hy
  | cons z l ih =>
    obtain ⟨hz, hs⟩ := List.pairwise_cons.mp hs
    by_cases hpz : p z = true
    · rw [List.find?_cons_of_pos hpz] at h
      obtain rfl := Option.some.inj h
      exact (List.mem_cons.mp hy).imp id (hz y)
    · rw [List.find?_cons_of_neg hpz] at h
      refine ih hs h ((List.mem_cons.mp hy).resolve_left ?_)
      rintro rfl
      exact hpz hpy

instance : Std.Total fun a b : CachedContainer => a.name ≤ b.name :=
  ⟨fun a b => le_total a.name b.name⟩

instance : IsTrans CachedContainer fun a b => a.name ≤ b.name := ⟨fun _ _ _ => le_trans⟩

/-- The first container in the order of names. -/
theorem Cache.container_eq_some_iff : cache.container ref = some c ↔
    c ∈ cache.containers ∧ fits ref c = true ∧
      ∀ d ∈ cache.containers, fits ref d = true → c.name ≤ d.name := by
  have hfirst : ∀ {c}, cache.container ref = some c → c ∈ cache.containers ∧ fits ref c = true ∧
      ∀ d ∈ cache.containers, fits ref d = true → c.name ≤ d.name := by
    intro c h
    refine ⟨mem_sorted.mp (List.mem_of_find?_eq_some h), List.find?_some h, fun d hd hfits => ?_⟩
    rcases rel_of_find?_eq_some (List.pairwise_insertionSort _ _) h (mem_sorted.mpr hd) hfits with
      rfl | hle
    · exact le_rfl
    · exact hle
  refine ⟨hfirst, fun ⟨hc, hfits, hle⟩ => ?_⟩
  obtain ⟨e, he⟩ : ∃ e, cache.container ref = some e := Option.isSome_iff_exists.mp
    (List.find?_isSome.mpr ⟨c, mem_sorted.mpr hc, hfits⟩)
  obtain ⟨hmem, hefits, hele⟩ := hfirst he
  rw [he, eq_of_name hmem hc (le_antisymm (hele c hc hfits) (hle e hmem hefits))]

/-! ### What is named -/

private theorem Named.mem (h : Named cache.containers ref c) : c ∈ cache.containers := by
  cases h with
  | byId hc _ => exact hc
  | byName _ hc _ => exact hc
  | byPrefix _ _ _ hc _ _ => exact hc

theorem Named.fits (h : Named cache.containers ref c) : fits ref c = true := by
  cases h with
  | byId _ hid => exact fits_iff.mpr (Or.inl hid)
  | byName _ _ hname => exact fits_iff.mpr (Or.inr (Or.inl hname))
  | byPrefix _ _ hlen _ hstart _ => exact fits_iff.mpr (Or.inr (Or.inr ⟨hlen, hstart⟩))

/-- A reference names one container at most. -/
theorem Named.unique (hc : Named cache.containers ref c) (hd : Named cache.containers ref d) :
    c = d := by
  cases hc with
  | byId hc hid =>
    cases hd with
    | byId hd hid' => exact cache.eq_of_id hc hd (hid.trans hid'.symm)
    | byName hids _ _ => exact absurd hid (hids c hc)
    | byPrefix hids _ _ _ _ _ => exact absurd hid (hids c hc)
  | byName hids hc hname =>
    cases hd with
    | byId hd hid => exact absurd hid (hids d hd)
    | byName _ hd hname' => exact cache.eq_of_name hc hd (hname.trans hname'.symm)
    | byPrefix _ hnames _ _ _ _ => exact absurd hname (hnames c hc)
  | byPrefix hids hnames _ hc hstart honly =>
    cases hd with
    | byId hd hid => exact absurd hid (hids d hd)
    | byName _ hd hname => exact absurd hname (hnames d hd)
    | byPrefix _ _ _ hd hstart' _ => exact (honly d hd hstart').symm

/-- What a reference fits and neither is nor names begins with it. -/
theorem hasPrefix_of_fits (h : Monitor.fits ref c = true) (hid : c.id ≠ ref)
    (hname : c.name ≠ ref) :
    6 ≤ ref.utf8ByteSize ∧ hasPrefix c.id ref = true :=
  ((fits_iff.mp h).resolve_left hid).resolve_left hname

/-- **What the loop finds.** It finds what is named when that comes first. -/
theorem container_iff_named :
    (∀ c, cache.container ref = some c ↔ Named cache.containers ref c) ↔ NamedFirst cache ref := by
  constructor
  · intro h
    have hle : ∀ {c}, Named cache.containers ref c → ∀ d ∈ cache.containers, fits ref d = true →
        c.name ≤ d.name := fun hc => (Cache.container_eq_some_iff.mp ((h _).mpr hc)).2.2
    refine ⟨fun c hc hid => hle (.byId hc hid), fun hids c hc hname => hle (.byName hids hc hname),
      fun hnone c hc d hd hfc hfd => ?_⟩
    -- the loop finds one of them, and it is named as the only one
    obtain ⟨e, he⟩ : ∃ e, cache.container ref = some e := Option.isSome_iff_exists.mp
      (List.find?_isSome.mpr ⟨c, Cache.mem_sorted.mpr hc, hfc⟩)
    cases (h e).mp he with
    | byId he hid => exact absurd hid (hnone e he).1
    | byName _ he hname => exact absurd hname (hnone e he).2
    | byPrefix _ _ _ _ _ honly =>
      have hsame : ∀ d ∈ cache.containers, fits ref d = true → d = e := fun d hd hfits =>
        honly d hd (hasPrefix_of_fits hfits (hnone d hd).1 (hnone d hd).2).2
      rw [hsame c hc hfc, hsame d hd hfd]
  · intro h c
    rw [Cache.container_eq_some_iff]
    constructor
    · rintro ⟨hc, hfits, hfirst⟩
      by_cases hids : ∃ e ∈ cache.containers, e.id = ref
      · obtain ⟨e, he, hid⟩ := hids
        have hname := le_antisymm (hfirst e he (fits_iff.mpr (Or.inl hid)))
          (h.id_first e he hid c hc hfits)
        rw [cache.eq_of_name hc he hname]
        exact .byId he hid
      simp only [not_exists, not_and] at hids
      by_cases hnames : ∃ e ∈ cache.containers, e.name = ref
      · obtain ⟨e, he, hname⟩ := hnames
        have hsame := le_antisymm (hfirst e he (fits_iff.mpr (Or.inr (Or.inl hname))))
          (h.name_first hids e he hname c hc hfits)
        rw [cache.eq_of_name hc he hsame]
        exact .byName hids he hname
      simp only [not_exists, not_and] at hnames
      obtain ⟨hlen, hstart⟩ := hasPrefix_of_fits hfits (hids c hc) (hnames c hc)
      refine .byPrefix hids hnames hlen hc hstart fun d hd hdstart => ?_
      exact h.prefix_only (fun e he => ⟨hids e he, hnames e he⟩) d hd c hc
        (fits_iff.mpr (Or.inr (Or.inr ⟨hlen, hdstart⟩))) hfits
    · intro hc
      refine ⟨hc.mem, hc.fits, fun d hd hfits => ?_⟩
      cases hc with
      | byId hc hid => exact h.id_first c hc hid d hd hfits
      | byName hids hc hname => exact h.name_first hids c hc hname d hd hfits
      | byPrefix hids hnames _ _ _ honly =>
        rw [honly d hd (hasPrefix_of_fits hfits (hids d hd) (hnames d hd)).2]

/-- Every change is made to what the daemon finds. -/
theorem resolve_of_change {e : Inspector} {change : Change}
    (h : (∃ action, Service.action e cache ref action = some change) ∨
      ∃ force volumes, Service.remove e cache ref force volumes = some change) :
    Service.resolve e cache ref = some change.id := by
  rcases h with ⟨action, h⟩ | ⟨force, volumes, h⟩
  · unfold Service.action at h
    split_ifs at h
    obtain ⟨id, hid, rfl⟩ := Option.map_eq_some_iff.mp h
    exact hid
  · obtain ⟨id, hid, rfl⟩ := Option.map_eq_some_iff.mp h
    exact hid

private theorem resolves_iff : Resolves cache ref ↔ NamedFirst cache ref := by
  refine ⟨fun h => container_iff_named.mp h.container, fun h => ?_⟩
  have hcontainer := container_iff_named.mpr h
  refine ⟨hcontainer, fun e hknows change hchange => ?_⟩
  have hresolve := resolve_of_change hchange
  constructor
  · intro c hc
    rw [Service.resolve, (hcontainer c).mpr hc] at hresolve
    exact hknows c hc.mem _ hresolve
  · intro hnone
    have hmiss : cache.container ref = none := by
      by_contra hfound
      obtain ⟨c, hc⟩ := Option.ne_none_iff_exists'.mp hfound
      exact hnone c ((hcontainer c).mp hc)
    rwa [Service.resolve, hmiss] at hresolve

private theorem previews_iff : Previews cache ref ↔ FitsOnce cache ref := by
  constructor
  · intro h
    have hnamed : ∀ c ∈ cache.containers, fitsLoosely ref c = true →
        Named cache.containers ref c := fun c hc hfits => (h c).mp (Cache.mem_mine.mpr ⟨hc, hfits⟩)
    exact ⟨fun c hc d hd hfc hfd => (hnamed c hc hfc).unique (hnamed d hd hfd),
      fun c hc hfits => (hnamed c hc hfits).fits⟩
  · intro h c
    rw [Cache.mem_mine]
    constructor
    · rintro ⟨hc, hfits⟩
      have honly : ∀ d ∈ cache.containers, d.id = ref ∨ hasPrefix d.id ref = true ∨ d.name = ref →
          d = c := fun d hd hdfits => h.once d hd c hc (fitsLoosely_iff.mpr hdfits) hfits
      by_cases hid : c.id = ref
      · exact .byId hc hid
      have hids : ∀ d ∈ cache.containers, d.id ≠ ref := fun d hd hdid =>
        hid (honly d hd (Or.inl hdid) ▸ hdid)
      by_cases hname : c.name = ref
      · exact .byName hids hc hname
      have hnames : ∀ d ∈ cache.containers, d.name ≠ ref := fun d hd hdname =>
        hname (honly d hd (Or.inr (Or.inr hdname)) ▸ hdname)
      obtain ⟨hlen, hstart⟩ := hasPrefix_of_fits (h.fits c hc hfits) hid hname
      exact .byPrefix hids hnames hlen hc hstart fun d hd hdstart =>
        honly d hd (Or.inr (Or.inl hdstart))
    · intro hc
      refine ⟨hc.mem, fitsLoosely_iff.mpr ?_⟩
      cases hc with
      | byId _ hid => exact Or.inl hid
      | byName _ _ hname => exact Or.inr (Or.inr hname)
      | byPrefix _ _ _ _ hstart _ => exact Or.inr (Or.inl hstart)

namespace Example

/-- A container whose id begins with the name of another. -/
def alpha : CachedContainer where
  id := "cafe0123c93fbb1c2f0a7a4d9e8d6b5a4f3e2d1c0b9a8f7e6d5c4b3a29181706"
  name := "alpha"

/-- A container whose name is the beginning of that id. -/
def cafe : CachedContainer where
  id := "7d1c04f6b5e2a39880417263544f5e6d7c8b9aa0b1c2d3e4f5061728394a5b6c"
  name := "cafe0123"

/-- A cache with both of them, in this order. -/
def shadowed : Cache where
  containers := [alpha, cafe]
  ids := by decide +kernel
  names := by decide +kernel

end Example

/-- **The wrong container.** The name `cafe0123` is the name of one container and resolves to
another. -/
theorem not_resolves : ¬ Resolves Example.shadowed "cafe0123" := by
  intro h
  have hnamed : Named Example.shadowed.containers "cafe0123" Example.cafe :=
    .byName (by decide +kernel) (by decide) (by decide)
  have hle :=
    (Cache.container_eq_some_iff.mp ((h.container Example.cafe).mpr hnamed)).2.2 Example.alpha
    (by decide)
    (by decide +kernel)
  exact absurd hle (by decide +kernel)

/-- **References.** A reference is resolved to what it names if and only if the container that it
names comes first among those that it fits, and the preview stops what it names if and only if it
fits nothing else. -/
theorem references_iff : (Resolves cache ref ↔ NamedFirst cache ref) ∧
    (Previews cache ref ↔ FitsOnce cache ref) :=
  ⟨resolves_iff, previews_iff⟩

end Dockhand.Monitor
