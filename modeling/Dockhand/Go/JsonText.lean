import Dockhand.Go.Json

/-!
# JSON texts

What `json.Unmarshal` stores of a text in a `map[string]any`, and what `json.MarshalIndent` writes
of it. Which value a text is, the text of a value and the rounding of numbers are parameters. A
value is stored as it is but for its numbers, which become float64 numbers. A float64 number is
given as the shortest decimal number that is rounded to it, which is how it is written.
-/

universe u v w

namespace Dict

variable {κ : Type u} {α : Type v} {β : Type w} [LinearOrder κ]

/-- The map of some entries, the later of two entries with one key winning. -/
def ofEntries (m : List (κ × α)) : Dict κ α := m.foldl (fun d e => d.set e.1 e.2) ∅

theorem ofEntries_entries (d : Dict κ α) : ofEntries d.entries = d := by
  refine ext_get? fun k => ?_
  have hfold : (d.entries.foldl (fun (d : Dict κ α) e => d.set e.1 e.2) ∅).get? k = _ :=
    get?_foldl (g := fun _ v _ => some v) (fun m e k => get?_set m e.1 k e.2) ∅ d.sorted k
  rw [ofEntries, hfold]
  cases hk : d.entries.lookup k with
  | none => exact hk.symm
  | some v => exact hk.symm

private theorem get?_ofEntries_map (f : α → β) (m : List (κ × α)) (k : κ) :
    (ofEntries (m.map fun e => (e.1, f e.2))).get? k = ((ofEntries m).get? k).map f := by
  have hfold : ∀ (d : Dict κ β) (d' : Dict κ α), (∀ k, d.get? k = (d'.get? k).map f) → ∀ k,
      ((m.map fun e => (e.1, f e.2)).foldl (fun d e => d.set e.1 e.2) d).get? k =
        ((m.foldl (fun d e => d.set e.1 e.2) d').get? k).map f := by
    induction m with
    | nil => exact fun d d' h => h
    | cons e m ih =>
      intro d d' h
      rw [List.map_cons, List.foldl_cons, List.foldl_cons]
      refine ih _ _ fun k => ?_
      rw [get?_set, get?_set]
      split_ifs
      · rfl
      · exact h k
  exact hfold ∅ ∅ (fun _ => rfl) k

end Dict

namespace Go

namespace Json

/-- The member of an object. -/
def field (v : Json) (k : String) : Option Json := v.asObj?.bind fun m => (Dict.ofEntries m).get? k

@[simp] theorem field_obj (m : Obj) (k : String) : (obj m).field k = (Dict.ofEntries m).get? k :=
  rfl

section Stored

variable (float64 : ℚ → Option ℚ)

mutual

/-- What is stored of a value. A number out of range is left nil. -/
def stored : Json → Json
  | null => null
  | bool b => bool b
  | num q => (float64 q).elim null num
  | str s => str s
  | arr vs => arr (storedArr vs)
  | obj m => obj (storedObj m)

/-- What is stored of the elements of an array. -/
def storedArr : List Json → List Json
  | [] => []
  | v :: vs => stored v :: storedArr vs

/-- What is stored of the members of an object, under their keys. -/
def storedObj : Obj → Obj
  | [] => []
  | (k, v) :: m => (k, stored v) :: storedObj m

end

theorem storedObj_eq (m : Obj) : storedObj float64 m =
    m.map fun e => (e.1, stored float64 e.2) := by
  induction m with
  | nil => rfl
  | cons e m ih => rw [storedObj, ih, List.map_cons]

theorem field_stored (v : Json) (k : String) :
    (stored float64 v).field k = (v.field k).map (stored float64) := by
  cases v with
  | obj m => rw [stored, field_obj, field_obj, storedObj_eq, Dict.get?_ofEntries_map]
  | num q =>
    rw [stored]
    cases float64 q <;> rfl
  | null => rfl
  | bool b => rfl
  | str s => rfl
  | arr vs => rfl

variable {float64}

mutual

/-- What is stored is stored as it is. -/
theorem stored_stored (h : ∀ q r, float64 q = some r → float64 r = some r) :
    (v : Json) → stored float64 (stored float64 v) = stored float64 v
  | null => rfl
  | bool b => rfl
  | num q => by
    rw [stored]
    cases hq : float64 q with
    | none => rfl
    | some r => simp [stored, h q r hq]
  | str s => rfl
  | arr vs => by rw [stored, stored, storedArr_storedArr h vs]
  | obj m => by rw [stored, stored, storedObj_storedObj h m]

theorem storedArr_storedArr (h : ∀ q r, float64 q = some r → float64 r = some r) :
    (vs : List Json) → storedArr float64 (storedArr float64 vs) = storedArr float64 vs
  | [] => rfl
  | v :: vs => by rw [storedArr, storedArr, stored_stored h v, storedArr_storedArr h vs]

theorem storedObj_storedObj (h : ∀ q r, float64 q = some r → float64 r = some r) :
    (m : Obj) → storedObj float64 (storedObj float64 m) = storedObj float64 m
  | [] => rfl
  | (k, v) :: m => by rw [storedObj, storedObj, stored_stored h v, storedObj_storedObj h m]

end

mutual

/-- Where float64 has every number, a value is stored as it is. -/
theorem stored_some : (v : Json) → stored some v = v
  | null | bool _ | num _ | str _ => rfl
  | arr vs => by rw [stored, storedArr_some vs]
  | obj m => by rw [stored, storedObj_some m]

theorem storedArr_some : (vs : List Json) → storedArr some vs = vs
  | [] => rfl
  | v :: vs => by rw [storedArr, stored_some v, storedArr_some vs]

theorem storedObj_some : (m : Obj) → storedObj some m = m
  | [] => rfl
  | (k, v) :: m => by rw [storedObj, stored_some v, storedObj_some m]

end

end Stored

end Json

/-- The package `encoding/json`. -/
structure JsonText where
  /-- The value that a text is, `none` when it is not JSON. -/
  document : List UInt8 → Option Json
  /-- `MarshalIndent`. -/
  marshal : Json → List UInt8
  /-- The float64 number that a number is rounded to, `none` when it is out of range. -/
  float64 : ℚ → Option ℚ
  float64_float64 : ∀ q r, float64 q = some r → float64 r = some r

namespace JsonText

variable (j : JsonText)

/-- `Unmarshal` into an empty `map[string]any`, whose error is ignored. A null makes the map nil,
and a text that is no object leaves it empty. -/
def unmarshalMap (text : List UInt8) : Option (Dict String Json) :=
  match j.document text with
  | some .null => none
  | some (.obj m) => some (.ofEntries (Json.storedObj j.float64 m))
  | _ => some ∅

/-- The member of the object that a text is. -/
def field (text : List UInt8) (k : String) : Option Json := (j.document text).bind (·.field k)

/-- The member of a member. -/
def field₂ (text : List UInt8) (k k' : String) : Option Json := (j.field text k).bind (·.field k')

variable {j} {text : List UInt8} {cfg : Dict String Json}

theorem get?_unmarshalMap (h : j.unmarshalMap text = some cfg) (k : String) :
    cfg.get? k = (j.field text k).map (Json.stored j.float64) := by
  unfold unmarshalMap at h
  rw [field]
  cases hdoc : j.document text with
  | none =>
    rw [hdoc] at h
    obtain rfl := Option.some.inj h
    rfl
  | some v =>
    rw [hdoc] at h
    cases v with
    | null => cases h
    | obj m =>
      obtain rfl := Option.some.inj h
      rw [Json.storedObj_eq, Dict.get?_ofEntries_map]
      rfl
    | bool b =>
      obtain rfl := Option.some.inj h
      rfl
    | num q =>
      obtain rfl := Option.some.inj h
      rfl
    | str s =>
      obtain rfl := Option.some.inj h
      rfl
    | arr vs =>
      obtain rfl := Option.some.inj h
      rfl

theorem unmarshalMap_eq_none : j.unmarshalMap text = none ↔ j.document text = some .null := by
  unfold unmarshalMap
  cases hdoc : j.document text with
  | none => simp
  | some v => cases v <;> simp

end JsonText

end Go
