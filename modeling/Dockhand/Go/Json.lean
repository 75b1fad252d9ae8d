import Dockhand.Go.Dict
import Dockhand.Go.Float64
import Mathlib.Algebra.Ring.Int.Defs
import Mathlib.Data.List.Induction
import Mathlib.Data.List.Nodup
import Mathlib.Data.Rat.Defs

/-!
# JSON values and struct decoding

`Json` is what `encoding/json` decodes into an `any`. Objects are key lists; they are put in key
order when they are decoded, because `json.Marshal` writes map keys sorted and `json.Unmarshal` then
reads them in that order. Numbers are the rationals that their float64s stand for.

A struct is described by its list of `StructField`s. `decodeStruct` is `json.Unmarshal` into an
existing struct value: each key is matched to the field whose tag it equals up to case folding
(`foldName`), a key without a field is ignored, `null` leaves a scalar as it is, a value of the
wrong kind is an error, and of several keys for one field the later ones win. `encodeStruct` is
`json.Marshal` followed by `json.Unmarshal` into a `map[string]any`: an `int` becomes a float64 on
the way, and what is written of that is decoded into the `int` again.
-/

namespace Go

/-- A decoded JSON value. -/
inductive Json
  | null
  | bool (b : Bool)
  | num (q : ℚ)
  | str (s : String)
  | arr (vs : List Json)
  | obj (m : List (String × Json))

/-- The entries of an object. -/
abbrev Obj := List (String × Json)

namespace Json

/-- The type assertion `v.(map[string]any)`. -/
def asObj? : Json → Option Obj
  | obj m => some m
  | _ => none

/-- The type assertion `v.(string)`. -/
def asString? : Json → Option String
  | str s => some s
  | _ => none

/-- The smallest rune of the simple case-folding orbit, for the orbits that contain an ASCII
letter: besides the two cases of a letter these are the long s and the Kelvin sign. A rune
outside them never equals a folded ASCII tag. -/
def foldRune (c : Char) : Char :=
  if 'a' ≤ c ∧ c ≤ 'z' then c.toUpper
  else if c = 'ſ' then 'S'
  else if c = 'K' then 'K'
  else c

/-- The key under which `encoding/json` looks up a struct field. -/
def foldName (s : String) : List Char := s.toList.map foldRune

/-- The entries in key order, the later of two entries with one key winning. -/
def inKeyOrder (m : Obj) : Obj := m.foldl (fun acc e => Assoc.set e.1 e.2 acc) []

end Json

theorem Json.sorted_inKeyOrder (m : Obj) : Assoc.Sorted (Json.inKeyOrder m) := by
  have hfold : ∀ (m acc : Obj), Assoc.Sorted acc →
      Assoc.Sorted (m.foldl (fun acc e => Assoc.set e.1 e.2 acc) acc) := by
    intro m
    induction m with
    | nil => exact fun acc h => h
    | cons e m ih => exact fun acc h => ih _ (h.set e.1 e.2)
  exact hfold m [] List.Pairwise.nil

/-- A sorted object is in key order already. -/
theorem Json.inKeyOrder_eq_self {m : Obj} (h : Assoc.Sorted m) : Json.inKeyOrder m = m := by
  induction m using List.reverseRecOn with
  | nil => rfl
  | append_singleton m e ih =>
    obtain ⟨hm, -, hlt⟩ := List.pairwise_append.mp h
    rw [inKeyOrder, List.foldl_append, ← inKeyOrder, ih hm]
    exact Assoc.set_eq_append e.2 fun e' he' => hlt e' he' e (List.mem_singleton_self e)

/-- Putting an object in key order keeps its lookups when its keys are distinct. -/
theorem Json.lookup_inKeyOrder {m : Obj} (h : (m.map fun e => e.1).Nodup) (k : String) :
    (inKeyOrder m).lookup k = m.lookup k := by
  induction m using List.reverseRecOn with
  | nil => rfl
  | append_singleton m e ih =>
    rw [List.map_append, List.nodup_append] at h
    obtain ⟨hm, -, hne⟩ := h
    rw [inKeyOrder, List.foldl_append, ← inKeyOrder, List.lookup_append]
    rw [List.foldl_cons, List.foldl_nil, Assoc.lookup_set, ih hm, Assoc.lookup_cons]
    by_cases hk : k = e.1
    · have hnone : m.lookup k = none := Assoc.lookup_eq_none_of_notMem fun hmem =>
        hne k hmem e.1 (by simp) hk
      rw [if_pos hk, if_pos hk, hnone]
      rfl
    · rw [if_neg hk, if_neg hk]
      simp

open Json

variable {S : Type} {T : Type}

/-- A struct field: its tag, the part of the struct it stands for, how that part is encoded
(`none` when `omitempty` leaves it out) and how a value is decoded into it (`none` for a value
of the wrong kind). -/
structure StructField (S : Type) where
  name : String
  Part : Type
  get : S → Part
  set : S → Part → S
  enc : Part → Option Json
  dec : Json → Part → Option Part

namespace StructField

/-- The key is decoded into this field. -/
def Matches (f : StructField S) (key : String) : Prop := foldName f.name = foldName key

instance (f : StructField S) (key : String) : Decidable (f.Matches key) :=
  inferInstanceAs (Decidable (foldName f.name = foldName key))

end StructField

/-- The field a key is decoded into. -/
def fieldFor (fs : List (StructField S)) (key : String) : Option (StructField S) :=
  fs.find? fun f => f.Matches key

/-- Decode one entry of an object. -/
def decodeEntry (fs : List (StructField S)) (s : S) (e : String × Json) : Option S :=
  match fieldFor fs e.1 with
  | some f => (f.dec e.2 (f.get s)).map (f.set s)
  | none => some s

/-- Decode an object into the struct value `s`. -/
def decodeStruct (fs : List (StructField S)) (m : Obj) (s : S) : Option S :=
  (inKeyOrder m).foldlM (decodeEntry fs) s

/-- Decode a value into the struct value `s`. -/
def decodeValue (fs : List (StructField S)) (s : S) : Json → Option S
  | .obj m => decodeStruct fs m s
  | .null => some s
  | _ => none

/-- Encode a struct as an object. -/
def encodeStruct (fs : List (StructField S)) (s : S) : Obj :=
  fs.foldl (fun m f => (f.enc (f.get s)).elim m fun v => Assoc.set f.name v m) []

/-! ### The kinds of fields -/

namespace StructField

/-- Decode into a `string`. -/
def decString : Json → String → Option String
  | .str x, _ => some x
  | .null, a => some a
  | _, _ => none

/-- A `string` field. -/
def string (name : String) (get : S → String) (set : S → String → S) : StructField S :=
  ⟨name, String, get, set, fun a => some (.str a), decString⟩

/-- A `string` field with `omitempty`. -/
def stringOmitEmpty (name : String) (get : S → String) (set : S → String → S) : StructField S :=
  ⟨name, String, get, set, fun a => if a = "" then none else some (.str a), decString⟩

/-- Decode into a `bool`. -/
def decBool : Json → Bool → Option Bool
  | .bool x, _ => some x
  | .null, a => some a
  | _, _ => none

/-- A `bool` field. -/
def bool (name : String) (get : S → Bool) (set : S → Bool → S) : StructField S :=
  ⟨name, Bool, get, set, fun a => some (.bool a), decBool⟩

/-- Decode into an `int`: what is written of the float64 must be an integer that fits 64 bits. -/
def decInt : Json → Int64 → Option Int64
  | .num q, _ =>
    if q.den = 1 ∧ -2 ^ 63 ≤ Float64.print q.num ∧ Float64.print q.num < 2 ^ 63 then
      some (Int64.ofInt (Float64.print q.num))
    else none
  | .null, a => some a
  | _, _ => none

/-- An `int` field. -/
def int (name : String) (get : S → Int64) (set : S → Int64 → S) : StructField S :=
  ⟨name, Int64, get, set, fun a => some (.num (Float64.ofInt a.toInt)), decInt⟩

/-- An element of a `[]string`: `null` leaves the zero value. -/
def stringElem : Json → Option String
  | .str x => some x
  | .null => some ""
  | _ => none

/-- Decode into a `[]string`, `null` being the empty slice. -/
def decStrings : Json → List String → Option (List String)
  | .arr vs, _ => vs.mapM stringElem
  | .null, _ => some []
  | _, _ => none

/-- A `[]string` field. -/
def strings (name : String) (get : S → List String) (set : S → List String → S) : StructField S :=
  ⟨name, List String, get, set, fun a => some (.arr (a.map .str)), decStrings⟩

/-- Decode into a map of structs: an entry is decoded into a fresh zero value and replaces what
the map held for its key; `null` makes the map nil. -/
def decMap (fs : List (StructField T)) (zero : T) : Json → Dict String T → Option (Dict String T)
  | .obj m, d => (inKeyOrder m).foldlM (fun d e => (decodeValue fs zero e.2).map (d.set e.1)) d
  | .null, _ => some ∅
  | _, _ => none

/-- Encode a map of structs. -/
def encMap (fs : List (StructField T)) (d : Dict String T) : Obj :=
  d.entries.map fun e => (e.1, .obj (encodeStruct fs e.2))

/-- A `map[string]T` field. -/
def map (name : String) (fs : List (StructField T)) (zero : T) (get : S → Dict String T)
    (set : S → Dict String T → S) : StructField S :=
  ⟨name, Dict String T, get, set, fun d => some (.obj (encMap fs d)), decMap fs zero⟩

end StructField

/-! ### Decoding field by field -/

/-- The fields of a struct: no two tags are matched by one key, and they are independent parts
that together make up the struct. -/
structure LawfulFields (fs : List (StructField S)) : Prop where
  nodup : (fs.map fun f => foldName f.name).Nodup
  get_set : ∀ f ∈ fs, ∀ s a, f.get (f.set s a) = a
  get_set_of_ne : ∀ f ∈ fs, ∀ g ∈ fs, f.name ≠ g.name → ∀ s a, g.get (f.set s a) = g.get s
  ext : ∀ s t, (∀ f ∈ fs, f.get s = f.get t) → s = t

/-- What decoding an object does to one field: the entries matched to it, in key order. -/
def decodeField (f : StructField S) (m : Obj) (a : f.Part) : Option f.Part :=
  ((inKeyOrder m).filter fun e => f.Matches e.1).foldlM (fun a e => f.dec e.2 a) a

namespace LawfulFields

variable {fs : List (StructField S)} {f g : StructField S}

theorem eq_of_matches (h : LawfulFields fs) (hf : f ∈ fs) (hg : g ∈ fs) {key : String}
    (hfk : f.Matches key) (hgk : g.Matches key) : f = g :=
  List.inj_on_of_nodup_map h.nodup hf hg (Eq.trans hfk hgk.symm)

private theorem fieldFor_eq_some (h : LawfulFields fs) (hf : f ∈ fs) {key : String}
    (hfk : f.Matches key) : fieldFor fs key = some f := by
  cases hfind : fieldFor fs key with
  | none => exact absurd (by simpa using hfk) (List.find?_eq_none.mp hfind f hf)
  | some g =>
    have hg : g.Matches key := by simpa using List.find?_some hfind
    rw [h.eq_of_matches hf (List.mem_of_find?_eq_some hfind) hfk hg]

/-- **Decoding is field by field.** An object decodes to `s` exactly when the entries matched to
each field decode to that field of `s`. -/
theorem decodeStruct_eq_some_iff (h : LawfulFields fs) {m : Obj} {z s : S} :
    decodeStruct fs m z = some s ↔ ∀ f ∈ fs, decodeField f m (f.get z) = some (f.get s) := by
  unfold decodeStruct decodeField
  generalize inKeyOrder m = es
  induction es generalizing z with
  | nil =>
    constructor
    · rintro ⟨⟩ f -
      rfl
    · intro hget
      exact congrArg some (h.ext z s fun f hf => Option.some.inj (hget f hf))
  | cons e es ih =>
    rw [List.foldlM_cons]
    by_cases hex : ∃ g ∈ fs, g.Matches e.1
    · obtain ⟨g, hg, hge⟩ := hex
      rw [decodeEntry, h.fieldFor_eq_some hg hge]
      -- the other fields do not see the entry, and writing `g` leaves them alone
      have hother : ∀ f ∈ fs, f ≠ g → ¬ f.Matches e.1 := fun f hf hne hfe =>
        hne (h.eq_of_matches hf hg hfe hge)
      cases hdec : g.dec e.2 (g.get z) with
      | none =>
        refine ⟨fun hnone => by simp [hdec] at hnone, fun hall => ?_⟩
        have hg' := hall g hg
        simp [hge, hdec] at hg'
      | some a =>
        simp only [hdec, Option.map_some, Option.bind_eq_bind, Option.bind_some]
        rw [ih]
        refine forall₂_congr fun f hf => ?_
        by_cases hfg : f = g
        · subst hfg
          simp [hge, hdec, h.get_set f hf]
        · have hne : g.name ≠ f.name := fun hname =>
            hfg (h.eq_of_matches (g := g) hf hg (congrArg foldName hname.symm) rfl)
          rw [h.get_set_of_ne g hg f hf hne, List.filter_cons_of_neg
            (by simpa using hother f hf hfg)]
    · have hnone : fieldFor fs e.1 = none :=
        List.find?_eq_none.mpr fun f hf hfe => hex ⟨f, hf, by simpa using hfe⟩
      rw [decodeEntry, hnone]
      simp only [Option.bind_eq_bind, Option.bind_some]
      rw [ih]
      refine forall₂_congr fun f hf => ?_
      rw [List.filter_cons_of_neg (by simpa using fun hfe => hex ⟨f, hf, hfe⟩)]

end LawfulFields

/-- In a sorted object whose only key for the field is its tag, the field is decoded from the
value of the tag. -/
theorem decodeField_of_exact {f : StructField S} {m : Obj} (hm : Assoc.Sorted m)
    (hexact : ∀ e ∈ m, f.Matches e.1 → e.1 = f.name) (a : f.Part) :
    decodeField f m a = (m.lookup f.name).elim (some a) fun v => f.dec v a := by
  have hfilter : (m.filter fun e => f.Matches e.1) = m.filter fun e => e.1 = f.name :=
    List.filter_congr fun e he =>
      decide_eq_decide.mpr ⟨hexact e he, fun h => congrArg foldName h.symm⟩
  rw [decodeField, inKeyOrder_eq_self hm, hfilter, hm.filter_eq_lookup]
  cases m.lookup f.name with
  | none => rfl
  | some v => simp

/-! ### Encoding field by field -/

section Encode

variable {fs : List (StructField S)} {f : StructField S}

theorem sorted_encodeStruct (fs : List (StructField S)) (s : S) :
    Assoc.Sorted (encodeStruct fs s) := by
  have hfold : ∀ (fs : List (StructField S)) (acc : Obj), Assoc.Sorted acc → Assoc.Sorted
      (fs.foldl (fun m f => (f.enc (f.get s)).elim m fun v => Assoc.set f.name v m) acc) := by
    intro fs
    induction fs with
    | nil => exact fun acc h => h
    | cons f fs ih =>
      intro acc h
      rw [List.foldl_cons]
      refine ih _ ?_
      cases f.enc (f.get s) with
      | none => exact h
      | some v => exact h.set f.name v
  exact hfold fs [] List.Pairwise.nil

/-- Encoding more fields into an object leaves the keys that are not their tags alone. -/
private theorem lookup_foldl_enc_of_notMem {k : String} {acc : Obj} (s : S)
    (hk : ∀ f ∈ fs, f.name ≠ k) :
    (fs.foldl (fun m f => (f.enc (f.get s)).elim m fun v => Assoc.set f.name v m) acc).lookup k =
      acc.lookup k := by
  induction fs generalizing acc with
  | nil => rfl
  | cons f fs ih =>
    rw [List.foldl_cons, ih fun g hg => hk g (List.mem_cons_of_mem _ hg)]
    cases f.enc (f.get s) with
    | none => rfl
    | some v =>
      rw [Option.elim_some, Assoc.lookup_set, if_neg (hk f List.mem_cons_self).symm]

theorem lookup_encodeStruct_of_notMem {k : String} (s : S) (hk : ∀ f ∈ fs, f.name ≠ k) :
    (encodeStruct fs s).lookup k = none :=
  lookup_foldl_enc_of_notMem s hk

/-- The tag of a field holds its encoding. -/
theorem lookup_encodeStruct (h : (fs.map fun f => foldName f.name).Nodup) (hf : f ∈ fs) (s : S) :
    (encodeStruct fs s).lookup f.name = f.enc (f.get s) := by
  have hfold : ∀ (fs : List (StructField S)) (acc : Obj), (fs.map fun f => foldName f.name).Nodup →
      f ∈ fs → acc.lookup f.name = none →
      (fs.foldl (fun m f => (f.enc (f.get s)).elim m fun v => Assoc.set f.name v m) acc).lookup
        f.name = f.enc (f.get s) := by
    intro fs
    induction fs with
    | nil => exact fun acc _ hf => absurd hf List.not_mem_nil
    | cons g fs ih =>
      intro acc hnd hf hacc
      rw [List.map_cons, List.nodup_cons] at hnd
      have hne : ∀ g' ∈ fs, g'.name ≠ g.name := fun g' hg' hname =>
        hnd.1 (List.mem_map.mpr ⟨g', hg', congrArg foldName hname⟩)
      rw [List.foldl_cons]
      rcases List.mem_cons.mp hf with rfl | hf
      · rw [lookup_foldl_enc_of_notMem s hne]
        cases f.enc (f.get s) with
        | none => exact hacc
        | some v => rw [Option.elim_some, Assoc.lookup_set, if_pos rfl]
      · refine ih _ hnd.2 hf ?_
        cases g.enc (g.get s) with
        | none => exact hacc
        | some v => rw [Option.elim_some, Assoc.lookup_set, if_neg (hne f hf), hacc]
  exact hfold fs [] h hf rfl

/-- The keys of an encoded struct are tags. -/
theorem mem_of_mem_encodeStruct {s : S} {e : String × Json} (he : e ∈ encodeStruct fs s) :
    ∃ f ∈ fs, f.name = e.1 := by
  by_contra hno
  push Not at hno
  have hlookup := (sorted_encodeStruct fs s).lookup_eq_some_iff.mpr he
  rw [lookup_encodeStruct_of_notMem s hno] at hlookup
  cases hlookup

/-- What decoding the encoding of a part into the zero value of the field gives. -/
def StructField.reread (f : StructField S) (zero a : f.Part) : Option f.Part :=
  (f.enc a).elim (some zero) fun v => f.dec v zero

/-- Decoding the encoding of the part gives it back. -/
def StructField.RoundTrips (f : StructField S) (zero a : f.Part) : Prop := f.reread zero a = some a

/-- Decoding an encoded struct is rereading each of its fields. -/
theorem LawfulFields.decodeStruct_encodeStruct_iff (h : LawfulFields fs) {z s t : S} :
    decodeStruct fs (encodeStruct fs s) z = some t ↔
      ∀ f ∈ fs, f.reread (f.get z) (f.get s) = some (f.get t) := by
  rw [h.decodeStruct_eq_some_iff]
  refine forall₂_congr fun f hf => ?_
  have hexact : ∀ e ∈ encodeStruct fs s, f.Matches e.1 → e.1 = f.name := fun e he hfe => by
    obtain ⟨g, hg, hge⟩ := mem_of_mem_encodeStruct he
    rw [← hge, h.eq_of_matches hf hg hfe (congrArg foldName hge)]
  rw [decodeField_of_exact (sorted_encodeStruct fs s) hexact, lookup_encodeStruct h.nodup hf,
    StructField.reread]

/-- **The struct round trip.** -/
theorem LawfulFields.decodeStruct_encodeStruct (h : LawfulFields fs) {z s : S}
    (hrt : ∀ f ∈ fs, f.RoundTrips (f.get z) (f.get s)) :
    decodeStruct fs (encodeStruct fs s) z = some s :=
  h.decodeStruct_encodeStruct_iff.mpr hrt

end Encode

/-! ### The kinds of fields round-trip -/

namespace StructField

variable {name : String}

theorem string_roundTrips {get : S → String} {set : S → String → S} {zero a : String} :
    (string name get set).RoundTrips zero a := rfl

/-- Decoding several values into a `string` keeps the last one that is not `null`. -/
theorem foldlM_decString {es : Obj} {a b : String}
    (h : es.foldlM (fun a e => decString e.2 a) a = some b) :
    b = (es.filterMap fun e => e.2.asString?).getLast?.getD a := by
  induction es generalizing a with
  | nil => exact (Option.some.inj h).symm
  | cons e es ih =>
    obtain ⟨key, v⟩ := e
    rw [List.foldlM_cons] at h
    cases v with
    | str x =>
      rw [ih h]
      simp [Json.asString?, List.getLast?_cons]
    | null => exact ih h
    | _ => cases h

theorem bool_roundTrips {get : S → Bool} {set : S → Bool → S} {zero a : Bool} :
    (bool name get set).RoundTrips zero a := rfl

theorem stringOmitEmpty_roundTrips {get : S → String} {set : S → String → S} {a : String} :
    (stringOmitEmpty name get set).RoundTrips "" a := by
  by_cases h : a = "" <;> simp [RoundTrips, reread, stringOmitEmpty, decString, h]

/-- What is decoded of an encoded `int`, if it is in range. -/
theorem reread_int {get : S → Int64} {set : S → Int64 → S} {zero a : Int64} :
    (int name get set).reread zero a =
      if -2 ^ 63 ≤ Float64.through a.toInt ∧ Float64.through a.toInt < 2 ^ 63 then
        some (Int64.ofInt (Float64.through a.toInt))
      else none := by
  simp only [reread, int, Option.elim_some, decInt, Rat.den_intCast, Rat.num_intCast, true_and]
  rfl

/-- An `int` round-trips if the integer survives the float64. -/
theorem int_roundTrips {get : S → Int64} {set : S → Int64 → S} {zero a : Int64}
    (h : Float64.through a.toInt = a.toInt) : (int name get set).RoundTrips zero a := by
  have hrange : -2 ^ 63 ≤ a.toInt ∧ a.toInt < 2 ^ 63 := ⟨a.le_toInt, a.toInt_lt⟩
  refine reread_int.trans ?_
  rw [h, if_pos hrange, Int64.ofInt_toInt]
  rfl

/-- An `int` of which a small one is decoded is that one. -/
theorem int_eq_of_reread {get : S → Int64} {set : S → Int64 → S} {zero a b : Int64}
    (h : (int name get set).reread zero a = some b) (hb : b.toInt.natAbs < 2 ^ 53) :
    Float64.through a.toInt = a.toInt := by
  obtain ⟨hrange, h⟩ := Option.ite_none_right_eq_some.mp (reread_int.symm.trans h)
  obtain rfl : Int64.ofInt (Float64.through a.toInt) = b := Option.some.inj h
  refine Float64.through_eq_of_lt ?_
  rwa [Int64.toInt_ofInt_of_le hrange.1 hrange.2] at hb

theorem strings_roundTrips {get : S → List String} {set : S → List String → S}
    {zero a : List String} : (strings name get set).RoundTrips zero a := by
  have hmap : (a.map Json.str).mapM stringElem = some a := by
    induction a with
    | nil => rfl
    | cons x a ih => simp [List.mapM_cons, stringElem, ih]
  simpa [RoundTrips, reread, strings, decStrings] using hmap

/-- Decoding a sorted object into a map sets each of its keys and leaves the others. -/
theorem decMap_eq_some_iff {fs : List (StructField T)} {zero : T} {m : Obj} (hm : Assoc.Sorted m)
    {d₀ d : Dict String T} :
    decMap fs zero (.obj m) d₀ = some d ↔ ∀ k, (m.lookup k).elim (d.get? k = d₀.get? k)
      fun v => ∃ t, decodeValue fs zero v = some t ∧ d.get? k = some t := by
  rw [decMap, inKeyOrder_eq_self hm]
  induction m generalizing d₀ with
  | nil =>
    constructor
    · rintro ⟨⟩ k
      rfl
    · exact fun h => congrArg some (Dict.ext_get? fun k => (h k).symm)
  | cons e m ih =>
    obtain ⟨he, hm'⟩ := List.pairwise_cons.mp hm
    rw [List.foldlM_cons]
    cases hdec : decodeValue fs zero e.2 with
    | none =>
      refine ⟨fun h => by simp at h, fun h => ?_⟩
      have hk := h e.1
      rw [Assoc.lookup_cons, if_pos rfl] at hk
      obtain ⟨t, ht, -⟩ := hk
      rw [hdec] at ht
      cases ht
    | some t =>
      simp only [Option.map_some, Option.bind_eq_bind, Option.bind_some]
      rw [ih hm']
      refine forall_congr' fun k => ?_
      rw [Assoc.lookup_cons]
      by_cases hk : k = e.1
      · subst hk
        rw [if_pos rfl, Assoc.lookup_eq_none he, Option.elim_none, Option.elim_some,
          Dict.get?_set, if_pos rfl]
        constructor
        · exact fun h => ⟨t, hdec, h⟩
        · rintro ⟨t', ht', h⟩
          rw [hdec] at ht'
          rw [h, ht']
      · rw [if_neg hk, Dict.get?_set, if_neg hk]

theorem sorted_encMap (fs : List (StructField T)) (d : Dict String T) :
    Assoc.Sorted (encMap fs d) :=
  d.sorted.map_snd fun t => Json.obj (encodeStruct fs t)

theorem lookup_encMap (fs : List (StructField T)) (d : Dict String T) (k : String) :
    (encMap fs d).lookup k = (d.get? k).map fun t => .obj (encodeStruct fs t) :=
  Assoc.lookup_map_snd (fun t => Json.obj (encodeStruct fs t)) k d.entries

theorem map_roundTrips {fs : List (StructField T)} {zero : T}
    (h : ∀ t, decodeStruct fs (encodeStruct fs t) zero = some t)
    {get : S → Dict String T} {set : S → Dict String T → S} {d : Dict String T} :
    (map name fs zero get set).RoundTrips (∅ : Dict String T) d := by
  refine (decMap_eq_some_iff (sorted_encMap fs d)).mpr fun k => ?_
  rw [lookup_encMap]
  cases hk : d.get? k with
  | none => rfl
  | some t => exact ⟨t, h t, rfl⟩

end StructField

end Go
