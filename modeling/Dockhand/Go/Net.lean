import Dockhand.Go.Strings

/-!
# The `net` package

Host and port of an address, and IP addresses as `net.ParseIP` reads them. An address is a list of
16 bytes, an IPv4 address in its mapped form.
-/

namespace Go

/-- `net.SplitHostPort`, `none` for its errors. -/
def splitHostPort (s : String) : Option (String × String) :=
  match cutLast s ':' with
  | none => none
  | some (before, port) =>
    match before.toList with
    | '[' :: rest =>
      -- the first bracket that closes is the last character before the colon
      if rest.getLast? = some ']' ∧ ']' ∉ rest.dropLast ∧ '[' ∉ rest ∧ '[' ∉ port.toList ∧
          ']' ∉ port.toList then
        some (String.ofList rest.dropLast, port)
      else none
    | host => if ':' ∈ host ∨ '[' ∈ s.toList ∨ ']' ∈ s.toList then none else some (before, port)

/-- `net.JoinHostPort`. -/
def joinHostPort (host port : String) : String :=
  if ':' ∈ host.toList then "[" ++ host ++ "]:" ++ port else host ++ ":" ++ port

/-! ### IP addresses -/

/-- The bytes of an address. -/
abbrev IP := List ℕ

/-- The number that digits stand for. -/
def ofDigits (base : ℕ) (cs : List Char) : ℕ :=
  cs.foldl (fun n c => base * n +
    (if c.isDigit then c.toNat - '0'.toNat else c.toLower.toNat - 'a'.toNat + 10)) 0

/-- One field of an IPv4 address: a number up to 255 without leading zeros. -/
def parseOctet (f : List Char) : Option ℕ :=
  if f ≠ [] ∧ f.all Char.isDigit ∧ (f.length = 1 ∨ f.head? ≠ some '0') ∧ ofDigits 10 f ≤ 255 then
    some (ofDigits 10 f)
  else none

/-- An IPv4 address, four numbers with dots between them. -/
def parseIPv4 (cs : List Char) : Option IP :=
  let fields := cs.splitOn '.'
  if fields.length = 4 then fields.mapM parseOctet else none

/-- The hexadecimal digits, in either case. -/
def isHex (c : Char) : Bool :=
  ('0' ≤ c && c ≤ '9') || ('a' ≤ c && c ≤ 'f') || ('A' ≤ c && c ≤ 'F')

/-- The fields of an IPv6 address, at most `fuel` of them, after the bytes read so far. The last
component is the place of the `::`. -/
def parseFields : ℕ → List Char → IP → Option ℕ → Option (List Char × IP × Option ℕ)
  | 0, s, ip, ellipsis => some (s, ip, ellipsis)
  | fuel + 1, s, ip, ellipsis =>
    let field := s.takeWhile isHex
    let rest := s.dropWhile isHex
    if field = [] ∨ 4 < field.length then none
    else if rest.head? = some '.' then
      -- an IPv4 address at the end
      if (ellipsis = none ∧ ip.length ≠ 12) ∨ 16 < ip.length + 4 then none
      else (parseIPv4 s).map fun v4 => ([], ip ++ v4, ellipsis)
    else
      let n := ofDigits 16 field
      let ip := ip ++ [n / 256, n % 256]
      match rest with
      | [] => some ([], ip, ellipsis)
      | [':', ':'] => if ellipsis = none then some ([], ip, some ip.length) else none
      | ':' :: ':' :: s => if ellipsis = none then parseFields fuel s ip (some ip.length) else none
      | ':' :: c :: s => parseFields fuel (c :: s) ip ellipsis
      | _ => none

/-- The address whose `::` stands for the bytes that are missing. -/
def expand : List Char × IP × Option ℕ → Option IP
  | ([], ip, none) => if ip.length = 16 then some ip else none
  | ([], ip, some e) =>
    if ip.length < 16 then some (ip.take e ++ List.replicate (16 - ip.length) 0 ++ ip.drop e)
    else none
  | _ => none

/-- An IPv6 address without a zone, by its fields and at most one `::`. -/
def parseIPv6 (s : List Char) : Option IP :=
  if '%' ∈ s then none
  else
    match s with
    | [':', ':'] => some (List.replicate 16 0)
    | ':' :: ':' :: s => (parseFields 8 s [] (some 0)).bind expand
    | s => (parseFields 8 s [] none).bind expand

/-- `net.ParseIP`. An address with a zone is refused. -/
def parseIP (s : String) : Option IP :=
  match s.toList.find? (· ∈ ['.', ':', '%']) with
  | some '.' => (parseIPv4 s.toList).map (List.replicate 10 0 ++ [255, 255] ++ ·)
  | some ':' => parseIPv6 s.toList
  | _ => none

namespace IP

/-- `IP.To4`. -/
def to4 (ip : IP) : Option IP :=
  if ip.take 12 = List.replicate 10 0 ++ [255, 255] then some (ip.drop 12) else none

/-- `IP.IsLoopback`: in 127.0.0.0/8, or `::1`. -/
def isLoopback (ip : IP) : Bool :=
  match to4 ip with
  | some v4 => v4.head? = some 127
  | none => ip = List.replicate 15 0 ++ [1]

/-- `IP.IsPrivate`: in one of the three private IPv4 networks, or in fc00::/7. -/
def isPrivate (ip : IP) : Bool :=
  match to4 ip with
  | some (a :: b :: _) => a = 10 || (a = 172 && b / 16 = 1) || (a = 192 && b = 168)
  | some _ => false
  | none => (ip.head?).any fun a => a / 2 = 126

end IP

/-! ### What is an address -/

/-- The characters of an address without a zone. -/
def IsAddressChar (c : Char) : Prop := isHex c = true ∨ c = ':' ∨ c = '.'

theorem isAddressChar_of_isDigit {c : Char} (h : c.isDigit = true) : IsAddressChar c := by
  refine Or.inl ?_
  simp only [isHex, Bool.or_eq_true]
  exact Or.inl (Or.inl h)

private theorem exists_mem_splitOn {a c : Char} (hne : c ≠ a) :
    ∀ {cs : List Char}, c ∈ cs → ∃ f ∈ cs.splitOn a, c ∈ f
  | [], h => nomatch h
  | x :: cs, h => by
    rw [List.splitOn_cons_eq_if_modifyHead]
    split_ifs with hx
    · have htail : c ∈ cs := (List.mem_cons.mp h).resolve_left fun hcx =>
        hne (hcx.trans (by simpa using hx))
      obtain ⟨f, hf, hcf⟩ := exists_mem_splitOn hne htail
      exact ⟨f, List.mem_cons_of_mem _ hf, hcf⟩
    · cases hsplit : cs.splitOn a with
      | nil => exact absurd hsplit (List.splitOn_ne_nil a cs)
      | cons g gs =>
        rw [List.modifyHead_cons]
        rcases List.mem_cons.mp h with rfl | htail
        · exact ⟨c :: g, List.mem_cons_self, List.mem_cons_self⟩
        · obtain ⟨f, hf, hcf⟩ := exists_mem_splitOn hne htail
          rw [hsplit] at hf
          rcases List.mem_cons.mp hf with rfl | hf
          · exact ⟨x :: f, List.mem_cons_self, List.mem_cons_of_mem _ hcf⟩
          · exact ⟨f, List.mem_cons_of_mem _ hf, hcf⟩

private theorem isSome_of_mapM {f : List Char → Option ℕ} :
    ∀ {fs : List (List Char)} {ns : List ℕ}, fs.mapM f = some ns → ∀ g ∈ fs, (f g).isSome
  | [], _, _, _, hg => nomatch hg
  | g :: fs, ns, h, g', hg' => by
    rw [List.mapM_cons] at h
    obtain ⟨n, hn, h⟩ := Option.bind_eq_some_iff.mp h
    obtain ⟨ns', hns', -⟩ := Option.bind_eq_some_iff.mp h
    rcases List.mem_cons.mp hg' with rfl | hg'
    · exact hn ▸ rfl
    · exact isSome_of_mapM hns' g' hg'

private theorem isDigit_of_parseOctet {f : List Char} (h : (parseOctet f).isSome) :
    ∀ c ∈ f, c.isDigit = true := by
  unfold parseOctet at h
  split_ifs at h with hf
  · exact List.all_eq_true.mp hf.2.1
  · cases h

private theorem isAddressChar_of_parseIPv4 {cs : List Char} {ip : IP} (h : parseIPv4 cs = some ip) :
    ∀ c ∈ cs, IsAddressChar c := by
  intro c hc
  simp only [parseIPv4] at h
  split_ifs at h
  by_cases hdot : c = '.'
  · exact Or.inr (Or.inr hdot)
  · obtain ⟨f, hf, hcf⟩ := exists_mem_splitOn hdot hc
    have hdigit := isDigit_of_parseOctet (isSome_of_mapM h f hf) c hcf
    exact isAddressChar_of_isDigit hdigit

/-- What the fields were read from. -/
theorem isAddressChar_of_parseFields {fuel : ℕ} {s : List Char} {ip ip' : IP} {e e' : Option ℕ}
    (h : parseFields fuel s ip e = some ([], ip', e')) : ∀ c ∈ s, IsAddressChar c := by
  induction fuel generalizing s ip e with
  | zero =>
    obtain ⟨rfl, -⟩ := Prod.mk.inj (Option.some.inj h)
    exact fun _ hc => nomatch hc
  | succ fuel ih =>
    have hcolon : IsAddressChar ':' := Or.inr (Or.inl rfl)
    have hfield : ∀ c ∈ s.takeWhile isHex, IsAddressChar c := fun c hc =>
      Or.inl (List.mem_takeWhile_imp hc)
    suffices hrest : ∀ c ∈ s.dropWhile isHex, IsAddressChar c by
      intro c hc
      rw [← List.takeWhile_append_dropWhile (p := isHex) (l := s)] at hc
      exact (List.mem_append.mp hc).elim (hfield c) (hrest c)
    simp only [parseFields] at h
    split at h
    · cases h
    split at h
    · -- the rest is the end of an IPv4 address
      split at h
      · cases h
      · obtain ⟨v4, hv4, -⟩ := Option.map_eq_some_iff.mp h
        exact fun c hc => isAddressChar_of_parseIPv4 hv4 c ((List.dropWhile_sublist _).subset hc)
    · generalize s.dropWhile isHex = rest at h
      intro c hc
      split at h
      · cases hc
      · simp only [List.mem_cons, List.not_mem_nil, or_false, or_self] at hc
        exact hc ▸ hcolon
      · split_ifs at h
        simp only [List.mem_cons] at hc
        rcases hc with rfl | rfl | hc
        · exact hcolon
        · exact hcolon
        · exact ih h c hc
      · rcases List.mem_cons.mp hc with rfl | hc
        · exact hcolon
        · exact ih h c hc
      · cases h

private theorem eq_nil_of_expand {s : List Char} {ip ip' : IP} {e : Option ℕ}
    (h : expand (s, ip, e) = some ip') : s = [] := by
  unfold expand at h
  split at h <;> simp_all

private theorem isAddressChar_of_parseIPv6 {s : List Char} {ip : IP} (h : parseIPv6 s = some ip) :
    ∀ c ∈ s, IsAddressChar c := by
  have hcolon : IsAddressChar ':' := Or.inr (Or.inl rfl)
  have hfields : ∀ {t : List Char} {e : Option ℕ},
      (parseFields 8 t [] e).bind expand = some ip → ∀ c ∈ t, IsAddressChar c := by
    intro t e h
    obtain ⟨⟨rest, ip', e'⟩, hparse, hexpand⟩ := Option.bind_eq_some_iff.mp h
    obtain rfl := eq_nil_of_expand hexpand
    exact isAddressChar_of_parseFields hparse
  unfold parseIPv6 at h
  intro c hc
  split_ifs at h
  split at h
  · simp only [List.mem_cons, List.not_mem_nil, or_false, or_self] at hc
    exact hc ▸ hcolon
  · simp only [List.mem_cons] at hc
    rcases hc with rfl | rfl | hc
    · exact hcolon
    · exact hcolon
    · exact hfields h c hc
  · exact hfields h c hc

/-- An address has no other characters. -/
theorem isAddressChar_of_parseIP {s : String} {ip : IP} (h : parseIP s = some ip) :
    ∀ c ∈ s.toList, IsAddressChar c := by
  unfold parseIP at h
  split at h
  · obtain ⟨v4, hv4, -⟩ := Option.map_eq_some_iff.mp h
    exact isAddressChar_of_parseIPv4 hv4
  · exact isAddressChar_of_parseIPv6 h
  · cases h

theorem IsAddressChar.bounds {c : Char} (h : IsAddressChar c) : 46 ≤ c.toNat ∧ c.toNat ≤ 102 := by
  rcases h with h | rfl | rfl
  · simp only [isHex, Bool.or_eq_true, Bool.and_eq_true, decide_eq_true_eq] at h
    rcases h with (⟨hlow, hhigh⟩ | ⟨hlow, hhigh⟩) | ⟨hlow, hhigh⟩
    · exact ⟨le_trans (by decide) hlow, le_trans hhigh (by decide)⟩
    · exact ⟨le_trans (by decide) hlow, le_trans hhigh (by decide)⟩
    · exact ⟨le_trans (by decide) hlow, le_trans hhigh (by decide)⟩
  · decide
  · decide

/-- Nothing of an address is trimmed. -/
theorem IsAddressChar.not_isSpace {c : Char} (h : IsAddressChar c) : isSpace c = false := by
  obtain ⟨hlow, hhigh⟩ := h.bounds
  exact isSpace_eq_false_of_bounds (by omega) (by omega)

theorem not_isAddressChar_comma : ¬ IsAddressChar ',' := by
  simp only [IsAddressChar]
  decide

example : splitHostPort "[::1]:80" = some ("::1", "80") ∧ splitHostPort "::1:80" = none := by
  decide +kernel

example : parseIP "2001:db8::192.0.2.1" =
    some [32, 1, 13, 184, 0, 0, 0, 0, 0, 0, 0, 0, 192, 0, 2, 1] := by decide +kernel

end Go
