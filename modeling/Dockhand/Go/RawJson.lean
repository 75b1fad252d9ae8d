import Dockhand.Go.Json
import Dockhand.Go.Strings
import Dockhand.Go.Utf8

/-!
# JSON values with their text

A `json.RawMessage` is the text of a value. `Raw` is a value in which strings and numbers keep their
text, and objects the order of their members. A map is decoded from the members by their exact keys,
and a struct by the keys up to case. When a `json.RawMessage` is encoded, some characters of its
text are escaped for HTML.
-/

namespace Go

/-- `bytes.TrimSpace`. -/
def trimSpaceBytes (bs : List UInt8) : List UInt8 :=
  trimMarked (spaceMarks 0 false (bs.map fun b => Char.ofNat b.toNat)) bs

/-- A JSON value. -/
inductive Raw
  | null
  | bool (b : Bool)
  | num (text : List UInt8)
  | str (text : List UInt8) (s : String)
  | arr (vs : List Raw)
  | obj (m : List (String × Raw))

namespace Raw

/-- The entry of a `map[string]json.RawMessage`: the last of several members wins. -/
def lookup (m : List (String × Raw)) (key : String) : Option Raw :=
  (m.filter fun e => e.1 = key).getLast?.map Prod.snd

/-- Decode into a `string`. -/
def decString : Raw → String → Option String
  | .str _ s, _ => some s
  | .null, s => some s
  | _, _ => none

/-- The key is decoded into the struct field with this tag. -/
def Matches (tag key : String) : Prop := Json.foldName tag = Json.foldName key

instance (tag key : String) : Decidable (Matches tag key) :=
  inferInstanceAs (Decidable (Json.foldName tag = Json.foldName key))

/-- What a `string` field is decoded to, `none` for a value of the wrong kind. -/
def decodeString (tag : String) (m : List (String × Raw)) : Option String :=
  (m.filter fun e => Matches tag e.1).foldlM (fun s e => decString e.2 s) ""

/-- What a `json.RawMessage` field is decoded to. -/
def decodeRaw (tag : String) (m : List (String × Raw)) : Option Raw :=
  (m.filter fun e => Matches tag e.1).getLast?.map Prod.snd

/-- The only member for the field has the tag as its key. -/
def Unambiguous (tag : String) (m : List (String × Raw)) : Prop :=
  (m.filter fun e => Matches tag e.1) = m.filter (fun e => e.1 = tag) ∧
    (m.filter fun e => e.1 = tag).length ≤ 1

/-- A field that has one member is decoded from what the map has. -/
theorem decodeString_of_unambiguous {tag : String} {m : List (String × Raw)}
    (h : Unambiguous tag m) :
    decodeString tag m = (lookup m tag).elim (some "") fun v => decString v "" := by
  rw [decodeString, h.1, lookup]
  have hlen := h.2
  generalize m.filter (fun e => e.1 = tag) = es at hlen
  match es, hlen with
  | [], _ => rfl
  | [e], _ => simp

end Raw

/-- `compact` with `escape`: the characters `<`, `>` and `&` and the separators of lines and
paragraphs are written by their number. -/
def escapeHTML : List UInt8 → List UInt8
  | [] => []
  | 0x3C :: bs => [0x5C, 0x75, 0x30, 0x30, 0x33, 0x63] ++ escapeHTML bs
  | 0x3E :: bs => [0x5C, 0x75, 0x30, 0x30, 0x33, 0x65] ++ escapeHTML bs
  | 0x26 :: bs => [0x5C, 0x75, 0x30, 0x30, 0x32, 0x36] ++ escapeHTML bs
  | 0xE2 :: 0x80 :: 0xA8 :: bs => [0x5C, 0x75, 0x32, 0x30, 0x32, 0x38] ++ escapeHTML bs
  | 0xE2 :: 0x80 :: 0xA9 :: bs => [0x5C, 0x75, 0x32, 0x30, 0x32, 0x39] ++ escapeHTML bs
  | b :: bs => b :: escapeHTML bs

/-- Nothing of the text is escaped. -/
structure NoHTML (bs : List UInt8) : Prop where
  mark : ∀ b ∈ bs, b ≠ 0x3C ∧ b ≠ 0x3E ∧ b ≠ 0x26
  separator : ∀ b, b = 0xA8 ∨ b = 0xA9 → ¬ [0xE2, 0x80, b] <:+: bs

theorem escapeHTML_eq_self {bs : List UInt8} (h : NoHTML bs) : escapeHTML bs = bs := by
  induction bs using escapeHTML.induct with
  | case1 => rfl
  | case2 bs ih => exact absurd rfl (h.mark _ List.mem_cons_self).1
  | case3 bs ih => exact absurd rfl (h.mark _ List.mem_cons_self).2.1
  | case4 bs ih => exact absurd rfl (h.mark _ List.mem_cons_self).2.2
  | case5 bs ih => exact absurd ⟨[], bs, rfl⟩ (h.separator _ (Or.inl rfl))
  | case6 bs ih => exact absurd ⟨[], bs, rfl⟩ (h.separator _ (Or.inr rfl))
  | case7 b bs h1 h2 h3 h4 h5 ih =>
    have htail : NoHTML bs :=
      ⟨fun c hc => h.mark c (List.mem_cons_of_mem b hc),
        fun c hc hin => h.separator c hc (hin.trans (List.suffix_cons b bs).isInfix)⟩
    rw [escapeHTML.eq_7 b bs h1 h2 h3 h4 h5, ih htail]

end Go
