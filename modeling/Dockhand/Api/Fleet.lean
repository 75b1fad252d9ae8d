import Dockhand.Data.StableSort
import Dockhand.Transition.Workers
import Mathlib.Data.String.Basic

/-!
# Lists of the whole fleet

`gather` asks every reachable host for a list, all hosts side by side, and puts the answers together
in the order in which they come; a host that fails is reported instead of failing the whole list.
`gather_of_run` says that the order of the answers does not show.

`fetch` is what a host answers, its items or the text of an error.
-/

namespace Dockhand.Api.Fleet

open Transition

universe u

variable {α : Type u}

/-- `hosts.Record`. -/
structure Record where
  id : String
  name : String
  status : String
  deriving DecidableEq

/-- `fleetItem`: an element of a host's list with the host that it comes from. -/
structure FleetItem (α : Type u) where
  hostID : String
  hostName : String
  item : α
  deriving DecidableEq

/-- `fleetError`: what went wrong at a host, in place of its list. -/
structure FleetError where
  hostID : String
  hostName : String
  error : String
  deriving DecidableEq

/-- `fleetList`; skipped hosts are offline or not yet connected. -/
structure FleetList (α : Type u) where
  items : List (FleetItem α) := []
  errors : List FleetError := []
  skipped : List FleetError := []
  deriving DecidableEq

/-- The host is left out. -/
def Record.skips (h : Record) : Bool := h.status = "offline" || h.status = "pending"

/-- What the loop over the hosts adds for one that is left out. -/
def Record.skipped (h : Record) : FleetError := ⟨h.id, h.name, "host is " ++ h.status⟩

variable (fetch : String → Except String (List α)) (list : List Record)

/-- What a host's goroutine adds when it has the lock. -/
def collect (out : FleetList α) (h : Record) : FleetList α :=
  match fetch h.id with
  | .error err => { out with errors := out.errors ++ [⟨h.id, h.name, err⟩] }
  | .ok items => { out with items := out.items ++ items.map (⟨h.id, h.name, ·⟩) }

/-- The hosts that are asked. -/
def asked : List Record := list.filter (!·.skips)

/-- `gather`, whose goroutines get the lock in the order `ended`. -/
def gather (ended : List Record) : FleetList α :=
  let out := ended.foldl (collect fetch) { skipped := (list.filter (·.skips)).map (·.skipped) }
  -- stable order: by host name; each host's list keeps its own order
  { out with
    items := out.items.mergeSort fun a b => a.hostName ≤ b.hostName
    errors := out.errors.mergeSort fun a b => a.hostName ≤ b.hostName }

/-! ### One host after the other -/

/-- The items of a host. -/
def itemsOf (h : Record) : List (FleetItem α) :=
  match fetch h.id with
  | .ok items => items.map (⟨h.id, h.name, ·⟩)
  | .error _ => []

/-- The error of a host. -/
def errorsOf (h : Record) : List FleetError :=
  match fetch h.id with
  | .ok _ => []
  | .error err => [⟨h.id, h.name, err⟩]

variable {fetch list}

private theorem foldl_collect (hosts : List Record) (out : FleetList α) :
    hosts.foldl (collect fetch) out =
      { items := out.items ++ hosts.flatMap (itemsOf fetch)
        errors := out.errors ++ hosts.flatMap (errorsOf fetch)
        skipped := out.skipped } := by
  induction hosts generalizing out with
  | nil => simp
  | cons h hosts ih =>
    rw [List.foldl_cons, ih, collect, List.flatMap_cons, List.flatMap_cons, itemsOf, errorsOf]
    cases fetch h.id <;> simp

private theorem hostName_of_mem_itemsOf {h : Record} {x : FleetItem α} (hx : x ∈ itemsOf fetch h) :
    x.hostName = h.name := by
  rw [itemsOf] at hx
  split at hx
  · obtain ⟨a, -, rfl⟩ := List.mem_map.mp hx
    rfl
  · cases hx

private theorem hostName_of_mem_errorsOf {h : Record} {x : FleetError} (hx : x ∈ errorsOf fetch h) :
    x.hostName = h.name := by
  rw [errorsOf] at hx
  split at hx
  · cases hx
  · rw [List.mem_singleton.mp hx]

/-- **The order of the answers does not show.** However the hosts are asked side by side, the list
is the one that is made by asking them one after the other, in the order of their names: a host that
answers is there with all its items in its own order, one that fails with its error, and one that is
left out only as such. The names of hosts are different. -/
theorem gather_of_run (hnames : (list.map Record.name).Nodup) {bound : ℕ}
    {es : List Workers.Event} {t : Workers Record}
    (hrun : exec (Workers.step bound) { waiting := asked list } es = some t)
    (hdone : t.done = true) :
    gather fetch list t.ended =
      { items := ((asked list).mergeSort fun a b => a.name ≤ b.name).flatMap (itemsOf fetch)
        errors := ((asked list).mergeSort fun a b => a.name ≤ b.name).flatMap (errorsOf fetch)
        skipped := (list.filter (·.skips)).map (·.skipped) } := by
  have hasked := Workers.ended_perm hrun hdone
  have hperm := hasked.trans (List.mergeSort_perm (asked list) fun a b => a.name ≤ b.name).symm
  have hnodup : (t.ended.map Record.name).Nodup := by
    refine (hasked.map Record.name).nodup_iff.mpr (hnames.sublist ?_)
    exact List.filter_sublist.map Record.name
  have hsorted : ((asked list).mergeSort fun a b => a.name ≤ b.name).Pairwise
      fun a b => a.name ≤ b.name := Data.pairwise_mergeSort_key _
  rw [gather, foldl_collect]
  simp only [List.nil_append]
  rw [Data.mergeSort_flatMap hperm hnodup hsorted fun h _ x hx => hostName_of_mem_itemsOf hx,
    Data.mergeSort_flatMap hperm hnodup hsorted fun h _ x hx => hostName_of_mem_errorsOf hx]

namespace Example

/-- A host that answers. -/
def pi : Record := ⟨"h1", "pi", "online"⟩

/-- A host that is asked although it is degraded. -/
def nas : Record := ⟨"h2", "nas", "degraded"⟩

/-- A host that is offline, and skipped. -/
def attic : Record := ⟨"h3", "attic", "offline"⟩

/-- A host that is asked, and whose answer is an error. -/
def edge : Record := ⟨"h4", "edge", "online"⟩

/-- One of the hosts fails. -/
def answer (id : String) : Except String (List ℕ) :=
  if id = "h4" then .error "timeout" else .ok [1, 0]

end Example

/-- Three of four hosts are asked, and answer in an order that is not that of their names. -/
theorem gather_of_run_answers :
    gather Example.answer [Example.pi, Example.nas, Example.attic, Example.edge]
      [Example.edge, Example.pi, Example.nas] =
      { items := ([Example.pi, Example.nas, Example.edge].mergeSort fun a b =>
        a.name ≤ b.name).flatMap (itemsOf Example.answer)
        errors :=
          ([Example.pi, Example.nas, Example.edge].mergeSort fun a b => a.name ≤ b.name).flatMap
          (errorsOf Example.answer)
        skipped := [⟨"h3", "attic", "host is offline"⟩] } := by
  have hrun : exec (Workers.step 3) { waiting := asked [Example.pi, Example.nas, Example.attic,
    Example.edge] }
      [.start 0, .start 0, .start 0, .finish 2, .finish 0, .finish 0] =
      some { waiting := [], ended := [Example.edge, Example.pi, Example.nas] } := rfl
  exact gather_of_run (by decide) hrun rfl

end Dockhand.Api.Fleet
