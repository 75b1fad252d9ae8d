import Mathlib.Data.List.Basic

/-!
# Base64

`base64.StdEncoding` on bytes. Three bytes make four characters of six bits each, and the last
characters are padded with `=`. `decode_encode` is the round trip.
-/

namespace Go.Base64

/-- The characters of six bits. -/
def alphabet : List Char :=
  "ABCDEFGHIJKLMNOPQRSTUVWXYZabcdefghijklmnopqrstuvwxyz0123456789+/".toList

/-- The character of six bits. -/
def digit (n : ℕ) : Char := alphabet.getD n '='

/-- The six bits of a character. -/
def value (c : Char) : Option ℕ := alphabet.findIdx? fun d => d = c

/-- `EncodeToString`. -/
def encode : List UInt8 → List Char
  | [] => []
  | [a] => [digit (a.toNat / 4), digit (a.toNat % 4 * 16), '=', '=']
  | [a, b] =>
    [digit (a.toNat / 4), digit (a.toNat % 4 * 16 + b.toNat / 16), digit (b.toNat % 16 * 4), '=']
  | a :: b :: c :: rest =>
    digit (a.toNat / 4) :: digit (a.toNat % 4 * 16 + b.toNat / 16) ::
      digit (b.toNat % 16 * 4 + c.toNat / 64) :: digit (c.toNat % 64) :: encode rest

/-- Groups of four characters, the last of which may be padded. -/
def decodeGroups : List Char → Option (List UInt8)
  | [] => some []
  | p :: q :: r :: s :: rest => do
    let a ← value p
    let b ← value q
    if s = '=' ∧ rest = [] then
      if r = '=' then pure [UInt8.ofNat (a * 4 + b / 16)]
      else do
        let c ← value r
        pure [UInt8.ofNat (a * 4 + b / 16), UInt8.ofNat (b % 16 * 16 + c / 4)]
    else do
      let c ← value r
      let d ← value s
      let bytes ← decodeGroups rest
      pure (UInt8.ofNat (a * 4 + b / 16) :: UInt8.ofNat (b % 16 * 16 + c / 4) ::
        UInt8.ofNat (c % 4 * 64 + d) :: bytes)
  | _ => none

/-- `DecodeString`, which skips line ends. -/
def decode (s : List Char) : Option (List UInt8) :=
  decodeGroups (s.filter fun c => c ≠ '\r' && c ≠ '\n')

/-! ### The round trip -/

private theorem value_digit {n : ℕ} (h : n < 64) : value (digit n) = some n := by
  have hall : ∀ i : Fin 64, value (digit i) = some i.val := by decide +kernel
  exact hall ⟨n, h⟩

private theorem digit_mem (n : ℕ) : digit n ∈ '=' :: alphabet := by
  rw [digit, List.getD_eq_getElem?_getD]
  cases h : alphabet[n]? with
  | none => exact List.mem_cons_self
  | some c => exact List.mem_cons_of_mem _ (List.mem_of_getElem? h)

/-- What is written is digits and padding. -/
theorem mem_encode {c : Char} {bs : List UInt8} (h : c ∈ encode bs) : c ∈ '=' :: alphabet := by
  induction bs using encode.induct with
  | case1 => cases h
  | case2 a =>
    simp only [encode, List.mem_cons, List.not_mem_nil, or_false] at h
    rcases h with rfl | rfl | rfl | rfl
    · exact digit_mem _
    · exact digit_mem _
    · exact List.mem_cons_self
    · exact List.mem_cons_self
  | case3 a b =>
    simp only [encode, List.mem_cons, List.not_mem_nil, or_false] at h
    rcases h with rfl | rfl | rfl | rfl
    · exact digit_mem _
    · exact digit_mem _
    · exact digit_mem _
    · exact List.mem_cons_self
  | case4 a b c rest ih =>
    rw [encode, List.mem_cons, List.mem_cons, List.mem_cons, List.mem_cons] at h
    rcases h with rfl | rfl | rfl | rfl | h
    · exact digit_mem _
    · exact digit_mem _
    · exact digit_mem _
    · exact digit_mem _
    · exact ih h

/-- A digit is neither padding nor a line end. -/
theorem digit_ne {n : ℕ} (h : n < 64) : digit n ≠ '=' ∧ digit n ≠ '\r' ∧ digit n ≠ '\n' := by
  have hall : ∀ i : Fin 64, digit i ≠ '=' ∧ digit i ≠ '\r' ∧ digit i ≠ '\n' := by decide +kernel
  exact hall ⟨n, h⟩

private theorem ofNat_eq {n : ℕ} {a : UInt8} (h : n = a.toNat) : UInt8.ofNat n = a := by
  rw [h, UInt8.ofNat_toNat]

section Sextets

variable (a b c : UInt8)

private theorem first_lt : a.toNat / 4 < 64 := by
  have := a.toNat_lt
  omega

private theorem second_lt : a.toNat % 4 * 16 + b.toNat / 16 < 64 := by
  have := b.toNat_lt
  omega

private theorem third_lt : b.toNat % 16 * 4 + c.toNat / 64 < 64 := by
  have := c.toNat_lt
  omega

private theorem fourth_lt : c.toNat % 64 < 64 := Nat.mod_lt _ (by decide)

end Sextets

/-- No line ends are written. -/
theorem filter_encode (bs : List UInt8) :
    (encode bs).filter (fun c => c ≠ '\r' && c ≠ '\n') = encode bs := by
  have hdigit : ∀ {n : ℕ}, n < 64 → (digit n ≠ '\r' && digit n ≠ '\n') = true := by
    intro n hn
    simp [digit_ne hn]
  rw [List.filter_eq_self]
  induction bs using encode.induct with
  | case1 => simp [encode]
  | case2 a =>
    simp only [encode, List.forall_mem_cons]
    exact ⟨hdigit (first_lt a), hdigit (by omega), by decide, by decide, by simp⟩
  | case3 a b =>
    simp only [encode, List.forall_mem_cons]
    exact ⟨hdigit (first_lt a), hdigit (second_lt a b), hdigit (by omega), by decide, by simp⟩
  | case4 a b c rest ih =>
    simp only [encode, List.forall_mem_cons]
    exact ⟨hdigit (first_lt a), hdigit (second_lt a b), hdigit (third_lt b c),
      hdigit (fourth_lt c), ih⟩

private theorem decodeGroups_encode (bs : List UInt8) : decodeGroups (encode bs) = some bs := by
  induction bs using encode.induct with
  | case1 => rfl
  | case2 a =>
    have hsecond : a.toNat % 4 * 16 < 64 := by omega
    have ha : UInt8.ofNat (a.toNat / 4 * 4 + a.toNat % 4 * 16 / 16) = a := ofNat_eq (by omega)
    simp only [encode, decodeGroups, value_digit (first_lt a), value_digit hsecond,
      Option.bind_eq_bind, Option.bind_some, Option.pure_def, and_self, if_true, ha]
  | case3 a b =>
    have hb := b.toNat_lt
    have hthird : b.toNat % 16 * 4 < 64 := by omega
    have hfirst : UInt8.ofNat (a.toNat / 4 * 4 + (a.toNat % 4 * 16 + b.toNat / 16) / 16) = a :=
      ofNat_eq (by omega)
    have hnext : UInt8.ofNat ((a.toNat % 4 * 16 + b.toNat / 16) % 16 * 16 +
        b.toNat % 16 * 4 / 4) = b := ofNat_eq (by omega)
    simp only [encode, decodeGroups, value_digit (first_lt a), value_digit (second_lt a b),
      value_digit hthird, (digit_ne hthird).1, Option.bind_eq_bind, Option.bind_some,
      Option.pure_def, and_self, if_true, if_false, hfirst, hnext]
  | case4 a b c rest ih =>
    have hb := b.toNat_lt
    have hc := c.toNat_lt
    have hfirst : UInt8.ofNat (a.toNat / 4 * 4 + (a.toNat % 4 * 16 + b.toNat / 16) / 16) = a :=
      ofNat_eq (by omega)
    have hnext : UInt8.ofNat ((a.toNat % 4 * 16 + b.toNat / 16) % 16 * 16 +
        (b.toNat % 16 * 4 + c.toNat / 64) / 4) = b := ofNat_eq (by omega)
    have hlast : UInt8.ofNat ((b.toNat % 16 * 4 + c.toNat / 64) % 4 * 64 + c.toNat % 64) = c :=
      ofNat_eq (by omega)
    simp only [encode, decodeGroups, value_digit (first_lt a), value_digit (second_lt a b),
      value_digit (third_lt b c), value_digit (fourth_lt c), (digit_ne (fourth_lt c)).1,
      Option.bind_eq_bind, Option.bind_some, Option.pure_def, false_and, if_false, ih, hfirst,
      hnext, hlast]

/-- **The round trip.** -/
theorem decode_encode (bs : List UInt8) : decode (encode bs) = some bs := by
  rw [decode, filter_encode, decodeGroups_encode]

example : String.ofList (encode [117, 58, 112]) = "dTpw" := by decide +kernel

end Go.Base64
