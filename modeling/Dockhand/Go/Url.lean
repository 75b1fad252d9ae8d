import Dockhand.Go.Net
import Dockhand.Go.Utf8

/-!
# The `net/url` package

`url.Parse`, as far as it decides the host and the path of a URL or that there is an error. Strings
are lists of bytes (`Go.runes`).
-/

namespace Go.Url

/-- What is read of a parsed URL. `host` is `host` or `host:port`. -/
structure URL where
  scheme : List Char
  host : List Char
  deriving DecidableEq

/-- The letters of ASCII, of which a scheme begins with one. -/
def isLetter (c : Char) : Bool := ('a' ≤ c && c ≤ 'z') || ('A' ≤ c && c ≤ 'Z')

/-- The digits of ASCII. -/
def isDigit (c : Char) : Bool := '0' ≤ c && c ≤ '9'

/-- The parts of a URL that `unescape` is strict about, and the others. -/
inductive Encoding where
  | host
  | zone
  | other
  deriving DecidableEq

/-- `shouldEscape` for a host or a zone. -/
def shouldEscape (c : Char) : Bool :=
  !(isLetter c || isDigit c || "-_.~!$&'()*+,;=:[]<>\"".toList.contains c)

/-- The byte of two hexadecimal digits. -/
def unhex (a b : Char) : Char := Char.ofNat (ofDigits 16 [a, b])

/-- `unescape`, `none` for its errors. -/
def unescape (mode : Encoding) : List Char → Option (List Char)
  | [] => some []
  | '%' :: a :: b :: s =>
    if ¬ (isHex a ∧ isHex b) then none
    -- a host may have escapes of bytes that are not ASCII only, a zone of those it may have anyway
    else if mode = .host ∧ (unhex a b).toNat < 0x80 ∧ unhex a b ≠ '%' then none
    else if mode = .zone ∧ unhex a b ≠ '%' ∧ unhex a b ≠ ' ' ∧ shouldEscape (unhex a b) then none
    else (unescape mode s).map (unhex a b :: ·)
  | c :: s =>
    if c = '%' ∨ mode ≠ .other ∧ c.toNat < 0x80 ∧ shouldEscape c then none
    else (unescape mode s).map (c :: ·)

/-- `getScheme`: the scheme, empty if there is none, and the rest. -/
def getScheme (s : List Char) : Option (List Char × List Char) :=
  let isScheme := fun c => isLetter c || isDigit c || ['+', '-', '.'].contains c
  match s with
  | [] => some ([], [])
  | c :: _ =>
    if c = ':' then none
    else if isLetter c then
      match s.dropWhile isScheme with
      | ':' :: rest => some (s.takeWhile isScheme, rest)
      | _ => some ([], s)
    else some ([], s)

/-- `validOptionalPort`. -/
def validOptionalPort : List Char → Bool
  | [] => true
  | c :: port => c = ':' && port.all isDigit

/-- What stands before and after the last occurrence of a byte. -/
def splitLast (c : Char) (s : List Char) : Option (List Char × List Char) :=
  (cutList [c] s.reverse).map fun p => (p.2.reverse, p.1.reverse)

/-- `netip.ParseAddr` accepts it as an IPv6 address, perhaps with a zone. -/
def isIPv6 (s : List Char) : Bool :=
  s.find? (· ∈ ['.', ':', '%']) = some ':' &&
    match cutList ['%'] s with
    | none => (parseIPv6 s).isSome
    | some (addr, zone) => (parseIPv6 addr).isSome && zone ≠ []

/-- The address between brackets. -/
def parseLiteral (s : List Char) : Option (List Char) :=
  let literal :=
    match cutList ['%', '2', '5'] s with
    | none => unescape .host s
    | some (addr, zone) => (unescape .host addr).bind fun addr =>
      (unescape .zone ("%25".toList ++ zone)).map (addr ++ ·)
  literal.filter isIPv6

/-- `parseHost`. -/
def parseHost (scheme s : List Char) : Option (List Char) :=
  match splitLast '[' s with
  | some (_ :: _, _) => none
  | some ([], rest) =>
    match splitLast ']' rest with
    | none => none
    | some (literal, colonPort) =>
      if validOptionalPort colonPort then
        (parseLiteral literal).map fun l => '[' :: l ++ ']' :: colonPort
      else none
  | none =>
    -- a list of hosts of PostgreSQL has a port at its end
    let port :=
      if scheme ∈ ["postgresql".toList, "postgres".toList] then
        (splitLast ':' s).map (':' :: ·.2)
      else (cutList [':'] s).map (':' :: ·.2)
    if validOptionalPort (port.getD []) then unescape .host s else none

/-- The characters that may stand in front of the `@` of an authority. -/
def validUserinfo (s : List Char) : Bool :=
  s.all fun c => isLetter c || isDigit c || "-._:~!$&'()*+,;=%@".toList.contains c

/-- `parseAuthority`: the host behind the user. -/
def parseAuthority (scheme s : List Char) : Option (List Char) :=
  match splitLast '@' s with
  | none => parseHost scheme s
  | some (userinfo, host) => do
    let host ← parseHost scheme host
    if validUserinfo userinfo ∧ (unescape .other userinfo).isSome then some host else none

/-- What stands before the first occurrence of a byte, or everything. -/
def before (c : Char) (s : List Char) : List Char := s.takeWhile (· ≠ c)

/-- The authority and the path of what follows a scheme, `none` for an error. -/
def parseRest (scheme rest : List Char) : Option URL :=
  if ¬ ['/'].isPrefixOf rest ∧ scheme ≠ [] then some { scheme := scheme, host := [] }
  else if ¬ ['/'].isPrefixOf rest ∧ ':' ∈ before '/' rest then none
  else if ['/', '/'].isPrefixOf rest ∧ (scheme ≠ [] ∨ ¬ ['/', '/', '/'].isPrefixOf rest) then do
    let authority := before '/' (rest.drop 2)
    let host ← parseAuthority scheme authority
    if (unescape .other (rest.drop (2 + authority.length))).isSome then
      some { scheme := scheme, host := host }
    else none
  else if (unescape .other rest).isSome then some { scheme := scheme, host := [] }
  else none

/-- `url.Parse`. -/
def parse (raw : List Char) : Option URL :=
  let s := before '#' raw
  let frag := raw.drop (s.length + 1)
  if s.any fun c => c.toNat < 0x20 || c.toNat = 0x7f then none
  else if s = ['*'] then (unescape .other frag).map fun _ => { scheme := [], host := [] }
  else do
    let (scheme, rest) ← getScheme s
    let u ← parseRest (scheme.map Char.toLower) (before '?' rest)
    if (unescape .other frag).isSome then some u else none

/-- The path as it stands in a URL. -/
def rawPath (raw : List Char) : List Char :=
  match getScheme (before '#' raw) with
  | none => []
  | some (scheme, rest) =>
    let rest := before '?' rest
    if ¬ ['/'].isPrefixOf rest ∧ scheme ≠ [] then []
    else if ['/', '/'].isPrefixOf rest ∧ (scheme ≠ [] ∨ ¬ ['/', '/', '/'].isPrefixOf rest) then
      rest.drop (2 + (before '/' (rest.drop 2)).length)
    else rest

/-- The path of a URL that `parse` accepts. -/
def path (raw : List Char) : List Char := (unescape .other (rawPath raw)).getD []

/-! ### The name of a host -/

/-- What stands between brackets, or everything. -/
def unbracket (host : List Char) : List Char :=
  match host, host.getLast? with
  | '[' :: rest, some ']' => rest.dropLast
  | _, _ => host

/-- `Hostname`: the host without its port and its brackets. -/
def hostname (hostPort : List Char) : List Char :=
  unbracket <|
    match splitLast ':' hostPort with
    | none => hostPort
    | some (host, port) => if port.all isDigit then host else hostPort

/-- `URL.Hostname`: the host of a parsed URL without its port and its brackets. -/
def URL.hostname (u : URL) : List Char := Url.hostname u.host

/-- `Port`: what follows the last colon of the host, when it is a number or empty. -/
def URL.port (u : URL) : List Char :=
  match splitLast ':' u.host with
  | none => []
  | some (_, port) => if port.all isDigit then port else []

example : parse "null".toList = some { scheme := [], host := [] } := by decide +kernel

example : (parse "https://u:p@[fe80::1%25eth0]:8443/x?y#z".toList).map URL.hostname =
    some "fe80::1%eth0".toList := by decide +kernel

/-! ### Hosts that are equal under folding -/

section Folding

variable {orbit : ℕ → ℕ} {x : Char} {s t a b : List Char}

private theorem splitLast_append (h : x ∉ b) : splitLast x (a ++ x :: b) = some (a, b) := by
  have hreverse : (a ++ x :: b).reverse = b.reverse ++ x :: a.reverse := by simp
  rw [splitLast, hreverse, cutList_append (by simpa using h)]
  simp

private theorem splitLast_of_not_mem (h : x ∉ s) : splitLast x s = none := by
  rw [splitLast, cutList_of_not_mem (by simpa using h), Option.map_none]

/-- The last occurrence of a byte. -/
theorem exists_last (h : x ∈ s) : ∃ a b, s = a ++ x :: b ∧ x ∉ b := by
  induction s with
  | nil => cases h
  | cons y s ih =>
    by_cases hs : x ∈ s
    · obtain ⟨a, b, rfl, hb⟩ := ih hs
      exact ⟨y :: a, b, rfl, hb⟩
    · obtain rfl := (List.mem_cons.mp h).resolve_right hs
      exact ⟨[], s, rfl, hs⟩

/-- Marks are equal to nothing else. -/
theorem eq_of_folded_eq (hs : ∀ x ∈ s, IsMark x) (h : folded orbit s = folded orbit t) : t = s := by
  induction s generalizing t with
  | nil => exact folded_eq_nil.mp h.symm
  | cons x s ih =>
    obtain ⟨a', c', rfl, ha, hc⟩ :=
      exists_eq_append_of_folded_eq (a := []) (hs x List.mem_cons_self) h
    obtain rfl : a' = [] := folded_eq_nil.mp ha.symm
    rw [ih (fun y hy => hs y (List.mem_cons_of_mem _ hy)) hc, List.nil_append]

private theorem isMark_of_isDigit (h : isDigit x = true) : IsMark x := by
  simp only [isDigit, Bool.and_eq_true, decide_eq_true_eq] at h
  have hlow : 48 ≤ x.toNat := h.1
  have hhigh : x.toNat ≤ 57 := h.2
  refine ⟨?_, ?_, ?_⟩ <;> omega

private theorem all_isDigit_congr (h : folded orbit s = folded orbit t) :
    s.all isDigit = t.all isDigit := by
  suffices hone : ∀ {s t : List Char}, folded orbit s = folded orbit t → s.all isDigit = true →
      t.all isDigit = true from Bool.eq_iff_iff.mpr ⟨hone h, hone h.symm⟩
  intro s t h hall
  have hmark : ∀ x ∈ s, IsMark x := fun x hx => isMark_of_isDigit (List.all_eq_true.mp hall x hx)
  rwa [eq_of_folded_eq hmark h]

private theorem unbracket_bracket (m : List Char) : unbracket ('[' :: (m ++ [']'])) = m := by
  have hlast : ('[' :: (m ++ [']'])).getLast? = some ']' := by
    rw [← List.cons_append, List.getLast?_append]
    rfl
  simp [unbracket, hlast]

private theorem unbracket_eq_self (h : ∀ m, s ≠ '[' :: (m ++ [']'])) : unbracket s = s := by
  unfold unbracket
  split
  · next rest hlast =>
    rcases List.eq_nil_or_concat rest with rfl | ⟨m, y, rfl⟩
    · cases hlast
    · rw [List.concat_eq_append, ← List.cons_append, List.getLast?_append] at hlast
      obtain rfl : y = ']' := by simpa using hlast
      exact absurd (List.concat_eq_append ▸ rfl) (h m)
  · rfl

/-- A string in brackets is equal to strings in brackets only. -/
theorem exists_bracket_of_folded_eq {m : List Char}
    (h : folded orbit ('[' :: (m ++ [']'])) = folded orbit t) :
    ∃ m', t = '[' :: (m' ++ [']']) ∧ folded orbit m = folded orbit m' := by
  obtain ⟨a', r', rfl, ha, hr⟩ := exists_eq_append_of_folded_eq (a := []) (by decide) h
  obtain ⟨m', c', rfl, hm, hc⟩ := exists_eq_append_of_folded_eq (c := []) (by decide) hr
  obtain rfl : a' = [] := folded_eq_nil.mp ha.symm
  obtain rfl : c' = [] := folded_eq_nil.mp hc.symm
  exact ⟨m', rfl, hm⟩

private theorem unbracket_congr (h : folded orbit s = folded orbit t) :
    folded orbit (unbracket s) = folded orbit (unbracket t) := by
  by_cases hs : ∃ m, s = '[' :: (m ++ [']'])
  · obtain ⟨m, rfl⟩ := hs
    obtain ⟨m', rfl, hm⟩ := exists_bracket_of_folded_eq h
    rwa [unbracket_bracket, unbracket_bracket]
  · have ht : ∀ m, t ≠ '[' :: (m ++ [']']) := by
      rintro m rfl
      obtain ⟨m', hm', -⟩ := exists_bracket_of_folded_eq h.symm
      exact hs ⟨m', hm'⟩
    rwa [unbracket_eq_self fun m hm => hs ⟨m, hm⟩, unbracket_eq_self ht]

/-- **Hosts and their names.** Hosts that are equal under folding have names that are. -/
theorem hostname_congr (h : folded orbit s = folded orbit t) :
    folded orbit (hostname s) = folded orbit (hostname t) := by
  have hcolon : IsMark ':' := by decide
  by_cases hmem : ':' ∈ s
  · obtain ⟨a, b, rfl, hb⟩ := exists_last hmem
    obtain ⟨a', b', rfl, haa, hbb⟩ := exists_eq_append_of_folded_eq hcolon h
    have hb' : ':' ∉ b' := fun hb' => hb ((mem_iff_of_folded_eq hcolon hbb).mpr hb')
    simp only [hostname, splitLast_append hb, splitLast_append hb', all_isDigit_congr hbb]
    split_ifs
    · exact unbracket_congr haa
    · exact unbracket_congr h
  · have hmem' : ':' ∉ t := fun ht => hmem ((mem_iff_of_folded_eq hcolon h).mpr ht)
    simp only [hostname, splitLast_of_not_mem hmem, splitLast_of_not_mem hmem']
    exact unbracket_congr h

end Folding

/-! ### Escapes -/

/-- What `unescape` makes of a string; `host` says that an escape stands for `%` or for a byte that
is not ASCII. -/
inductive Unescaped (mode : Encoding) : List Char → List Char → Prop
  | nil : Unescaped mode [] []
  | escape {a b c : Char} {s t : List Char}
      (hhost : mode = .host → c = '%' ∨ 0x80 ≤ c.toNat) (rest : Unescaped mode s t) :
      Unescaped mode ('%' :: a :: b :: s) (c :: t)
  | byte {c : Char} {s t : List Char} (hc : c ≠ '%') (rest : Unescaped mode s t) :
      Unescaped mode (c :: s) (c :: t)

section Escapes

variable {mode : Encoding} {c : Char} {s t : List Char}

theorem unescaped_of_eq (h : unescape mode s = some t) : Unescaped mode s t := by
  induction s using unescape.induct mode generalizing t with
  | case1 =>
    obtain rfl : [] = t := Option.some.inj h
    exact .nil
  | case2 a b s hhex => rw [unescape, if_pos hhex] at h; cases h
  | case3 a b s hhex hhost => rw [unescape, if_neg hhex, if_pos hhost] at h; cases h
  | case4 a b s hhex hhost hzone =>
    rw [unescape, if_neg hhex, if_neg hhost, if_pos hzone] at h; cases h
  | case5 a b s hhex hhost hzone ih =>
    rw [unescape, if_neg hhex, if_neg hhost, if_neg hzone] at h
    obtain ⟨t', ht', rfl⟩ := Option.map_eq_some_iff.mp h
    refine .escape (fun hmode => ?_) (ih ht')
    by_cases hpercent : unhex a b = '%'
    · exact Or.inl hpercent
    · exact Or.inr (Nat.not_lt.mp fun hlt => hhost ⟨hmode, hlt, hpercent⟩)
  | case6 c s hform hc => rw [unescape.eq_3 _ _ _ hform, if_pos hc] at h; cases h
  | case7 c s hform hc ih =>
    rw [unescape.eq_3 _ _ _ hform, if_neg hc] at h
    obtain ⟨t', ht', rfl⟩ := Option.map_eq_some_iff.mp h
    exact .byte (fun hpercent => hc (Or.inl hpercent)) (ih ht')

private theorem Unescaped.mem (h : Unescaped .host s t) (hc : c ∈ t) :
    c ∈ s ∨ c = '%' ∨ 0x80 ≤ c.toNat := by
  induction h with
  | nil => cases hc
  | escape hhost rest ih =>
    rcases List.mem_cons.mp hc with rfl | hc
    · exact Or.inr (hhost rfl)
    · exact (ih hc).imp_left fun hs => List.mem_cons_of_mem _ (List.mem_cons_of_mem _
        (List.mem_cons_of_mem _ hs))
  | byte hne rest ih =>
    rcases List.mem_cons.mp hc with rfl | hc
    · exact Or.inl List.mem_cons_self
    · exact (ih hc).imp_left (List.mem_cons_of_mem _)

/-- A host that is ASCII without `%` stands in the URL as it is. -/
theorem Unescaped.eq_of_ascii (h : Unescaped .host s t) (ht : ∀ c ∈ t, c.toNat < 0x80 ∧ c ≠ '%') :
    t = s := by
  induction h with
  | nil => rfl
  | escape hhost rest ih =>
    obtain ⟨⟨hlt, hne⟩, -⟩ := List.forall_mem_cons.mp ht
    rcases hhost rfl with hpercent | hge
    · exact absurd hpercent hne
    · exact absurd hlt (Nat.not_lt.mpr hge)
  | byte hne rest ih => rw [ih (List.forall_mem_cons.mp ht).2]

theorem Unescaped.length_le (h : Unescaped mode s t) : t.length ≤ s.length := by
  induction h with
  | nil => exact le_refl _
  | escape hhost rest ih => simp only [List.length_cons]; omega
  | byte hne rest ih => simp only [List.length_cons]; omega

/-- Every escape is shorter than what it stands in for. -/
theorem Unescaped.eq_of_length (h : Unescaped mode s t) (hlen : t.length = s.length) :
    t = s ∧ '%' ∉ s := by
  induction h with
  | nil => exact ⟨rfl, List.not_mem_nil⟩
  | escape hhost rest ih =>
    have hle := rest.length_le
    simp only [List.length_cons] at hlen
    omega
  | byte hne rest ih =>
    obtain ⟨rfl, hs⟩ := ih (by simpa using hlen)
    exact ⟨rfl, fun hmem => (List.mem_cons.mp hmem).elim (fun heq => hne heq.symm) hs⟩

theorem unescape_other_of_not_mem (h : '%' ∉ s) : unescape .other s = some s := by
  induction s with
  | nil => rfl
  | cons c s ih =>
    obtain ⟨hc, hs⟩ := List.ne_and_not_mem_of_not_mem_cons h
    have hform : ∀ a b s', c = '%' → s = a :: b :: s' → False := fun _ _ _ hpercent _ =>
      hc hpercent.symm
    rw [unescape.eq_3 _ _ _ hform, if_neg, ih hs, Option.map_some]
    rintro (hpercent | ⟨hother, -⟩)
    · exact hc hpercent.symm
    · exact hother rfl

end Escapes

/-! ### The authority -/

/-- `[user@]host[:port]`. -/
def Authority (auth host : List Char) : Prop :=
  ∃ user port, auth = user ++ host ++ port ∧ (user = [] ∨ ∃ ui, user = ui ++ ['@']) ∧
    (port = [] ∨ ∃ ds, port = ':' :: ds ∧ ds.all isDigit) ∧ '@' ∉ host ∧ ':' ∉ host

section Authority

variable {x c : Char} {s t a b host auth scheme : List Char}

private theorem eq_of_splitLast (h : splitLast x s = some (a, b)) : s = a ++ x :: b ∧ x ∉ b := by
  by_cases hx : x ∈ s
  · obtain ⟨a', b', rfl, hb⟩ := exists_last hx
    rw [splitLast_append hb, Option.some.injEq, Prod.mk.injEq] at h
    obtain ⟨rfl, rfl⟩ := h
    exact ⟨rfl, hb⟩
  · rw [splitLast_of_not_mem hx] at h
    cases h

private theorem not_mem_of_splitLast (h : splitLast x s = none) : x ∉ s := by
  intro hx
  obtain ⟨a, b, rfl, hb⟩ := exists_last hx
  rw [splitLast_append hb] at h
  cases h

/-- Without brackets the name is the host up to the port. -/
theorem hostname_of_not_mem (h : '[' ∉ host) :
    ∃ port, host = hostname host ++ port ∧
      (port = [] ∨ ∃ ds, port = ':' :: ds ∧ ds.all isDigit) := by
  have hunbracket : ∀ {s : List Char}, '[' ∉ s → unbracket s = s := fun {s} hs =>
    unbracket_eq_self fun m hm => hs (hm ▸ List.mem_cons_self)
  unfold hostname
  split
  · exact ⟨[], by rw [hunbracket h, List.append_nil], Or.inl rfl⟩
  · rename_i name port hsplit
    obtain ⟨rfl, -⟩ := eq_of_splitLast hsplit
    split
    · rename_i hdigits
      have hname : '[' ∉ name := fun hmem => h (List.mem_append_left _ hmem)
      exact ⟨':' :: port, by rw [hunbracket hname], Or.inr ⟨port, rfl, hdigits⟩⟩
    · exact ⟨[], by rw [hunbracket h, List.append_nil], Or.inl rfl⟩

private theorem isIPv6_colon (h : isIPv6 s = true) : ':' ∈ s := by
  simp only [isIPv6, Bool.and_eq_true, decide_eq_true_eq] at h
  exact List.mem_of_find?_eq_some h.1

/-- The name of a host in brackets is an address. -/
theorem colon_mem_hostname {m port : List Char} (hm : ':' ∈ m)
    (hport : validOptionalPort port = true) :
    ':' ∈ hostname ('[' :: m ++ ']' :: port) := by
  have hdigits : ∀ {ds : List Char}, ds.all isDigit = true → ':' ∉ ds := fun hds hmem => by
    have := List.all_eq_true.mp hds _ hmem
    revert this
    decide
  cases port with
  | nil =>
    obtain ⟨a, b, rfl, hb⟩ := exists_last hm
    have hsplit : '[' :: (a ++ ':' :: b) ++ [']'] = ('[' :: a) ++ ':' :: (b ++ [']']) := by simp
    have hlast : ':' ∉ b ++ [']'] := by simpa using hb
    have hport : ¬ (b ++ [']']).all isDigit = true := by simp [isDigit]
    rw [hostname, hsplit, splitLast_append hlast]
    dsimp only
    rw [if_neg hport, ← hsplit, List.cons_append, unbracket_bracket]
    simp
  | cons c ds =>
    obtain ⟨hc, hds⟩ : c = ':' ∧ ds.all isDigit = true := by simpa [validOptionalPort] using hport
    subst hc
    have hsplit : '[' :: m ++ ']' :: ':' :: ds = ('[' :: (m ++ [']'])) ++ ':' :: ds := by simp
    rw [hostname, hsplit, splitLast_append (hdigits hds)]
    dsimp only
    rw [if_pos hds, unbracket_bracket]
    exact hm

/-- A host with a plain name stands in the URL as it is. -/
theorem parseHost_eq (h : parseHost scheme s = some host)
    (hname : ∀ c ∈ hostname host, c.toNat < 0x80 ∧ c ≠ ':' ∧ c ≠ '%') :
    host = s ∧ ∃ port, s = hostname host ++ port ∧
      (port = [] ∨ ∃ ds, port = ':' :: ds ∧ ds.all isDigit) := by
  unfold parseHost at h
  split at h
  · cases h
  · split at h
    · cases h
    · rename_i literal port _
      split at h
      · rename_i hport
        obtain ⟨l, hl, rfl⟩ := Option.map_eq_some_iff.mp h
        have hipv6 : isIPv6 l = true := (Option.filter_eq_some_iff.mp hl).2
        exact absurd rfl (hname ':' (colon_mem_hostname (isIPv6_colon hipv6) hport)).2.1
      · cases h
  · rename_i hbracket
    extract_lets colonPort at h
    split at h
    · have hun := unescaped_of_eq h
      have hopen : '[' ∉ host := by
        intro hmem
        rcases hun.mem hmem with hmem | hpercent | hge
        · exact not_mem_of_splitLast hbracket hmem
        · revert hpercent; decide
        · revert hge; decide
      obtain ⟨port, hhost, hport⟩ := hostname_of_not_mem hopen
      have hascii : ∀ c ∈ host, c.toNat < 0x80 ∧ c ≠ '%' := by
        intro c hc
        rw [hhost] at hc
        rcases List.mem_append.mp hc with hc | hc
        · exact ⟨(hname c hc).1, (hname c hc).2.2⟩
        · rcases hport with rfl | ⟨ds, rfl, hds⟩
          · cases hc
          · rcases List.mem_cons.mp hc with rfl | hc
            · decide
            · obtain ⟨hlt, -, -⟩ := isMark_of_isDigit (List.all_eq_true.mp hds c hc)
              refine ⟨hlt, fun hpercent => ?_⟩
              have := List.all_eq_true.mp hds c hc
              rw [hpercent] at this
              revert this
              decide
      obtain rfl := hun.eq_of_ascii hascii
      exact ⟨rfl, port, hhost, hport⟩
    · cases h

/-- **The name of the host.** A plain name is the host of the authority. -/
theorem authority_of_parse (h : parseAuthority scheme auth = some host)
    (hname : ∀ c ∈ hostname host, c.toNat < 0x80 ∧ c ≠ ':' ∧ c ≠ '%') :
    Authority auth (hostname host) := by
  have hcolon : ':' ∉ hostname host := fun hmem => (hname _ hmem).2.1 rfl
  unfold parseAuthority at h
  split at h
  · rename_i hat
    obtain ⟨rfl, port, heq, hport⟩ := parseHost_eq h hname
    refine ⟨[], port, heq, Or.inl rfl, hport, fun hmem => ?_, hcolon⟩
    refine not_mem_of_splitLast hat ?_
    rw [heq]
    exact List.mem_append_left _ hmem
  · rename_i ui s hat
    obtain ⟨hauth, hs⟩ := eq_of_splitLast hat
    simp only [Option.bind_eq_bind, Option.bind_eq_some_iff] at h
    obtain ⟨host', hparse, h⟩ := h
    split at h
    · obtain rfl : host' = host := Option.some.inj h
      obtain ⟨rfl, port, heq, hport⟩ := parseHost_eq hparse hname
      refine ⟨ui ++ ['@'], port, ?_, Or.inr ⟨ui, rfl⟩, hport, fun hmem => ?_, hcolon⟩
      · rw [hauth, List.append_assoc, ← heq, List.append_assoc, List.singleton_append]
      · refine hs ?_
        rw [heq]
        exact List.mem_append_left _ hmem
    · cases h

end Authority

/-! ### Where the authority stands -/

section Path

variable {x c : Char} {s t a b w rest scheme raw : List Char} {u : URL}

theorem not_mem_before : x ∉ before x s := fun h => by simpa using List.mem_takeWhile_imp h

theorem before_append (h : x ∉ a) : before x (a ++ b) = a ++ before x b :=
  List.takeWhile_append_of_pos fun _ hc => decide_eq_true fun hcx => h (hcx ▸ hc)

theorem before_of_not_mem (h : x ∉ s) : before x s = s :=
  List.takeWhile_eq_self_iff.mpr fun _ hc => decide_eq_true fun hcx => h (hcx ▸ hc)

/-- The host of an authority stands between the last `@` and a colon. -/
theorem Authority.host_eq {auth host : List Char} (h : Authority auth host) :
    host = before ':' (((splitLast '@' auth).map Prod.snd).getD auth) := by
  obtain ⟨user, port, rfl, huser, hport, hat, hcolon⟩ := h
  have hportAt : '@' ∉ port := by
    rcases hport with rfl | ⟨ds, rfl, hds⟩
    · exact List.not_mem_nil
    · refine List.not_mem_cons_of_ne_of_not_mem (by decide) fun hmem => ?_
      have hdigit := List.all_eq_true.mp hds _ hmem
      revert hdigit
      decide
  have hrest : '@' ∉ host ++ port := fun hmem => (List.mem_append.mp hmem).elim hat hportAt
  have hbefore : before ':' (host ++ port) = host := by
    rw [before_append hcolon]
    rcases hport with rfl | ⟨ds, rfl, hds⟩
    · exact List.append_nil host
    · rw [before, List.takeWhile_cons_of_neg (by simp), List.append_nil]
  rcases huser with rfl | ⟨ui, rfl⟩
  · rw [List.nil_append, splitLast_of_not_mem hrest, Option.map_none, Option.getD_none, hbefore]
  · have hsplit : ui ++ ['@'] ++ host ++ port = ui ++ '@' :: (host ++ port) := by simp
    rw [hsplit, splitLast_append hrest, Option.map_some, Option.getD_some, hbefore]

theorem length_before_le : (before x s).length ≤ s.length := (List.takeWhile_prefix _).length_le

/-- A byte that is looked for stands behind what is before it. -/
theorem exists_before (x : Char) (s : List Char) :
    ∃ b, s = before x s ++ b ∧ before x b = [] := by
  refine ⟨s.dropWhile (· ≠ x), List.takeWhile_append_dropWhile.symm, ?_⟩
  cases hb : s.dropWhile (· ≠ x) with
  | nil => rfl
  | cons c b =>
    have hc := List.head?_dropWhile_not (· ≠ x) s
    rw [hb] at hc
    exact List.takeWhile_cons_of_neg (by simpa using hc)

private theorem exists_cons_of_before (h : before x s = []) (hne : s ≠ []) : ∃ t, s = x :: t := by
  cases s with
  | nil => exact absurd rfl hne
  | cons c s =>
    by_cases hc : c = x
    · exact ⟨s, by rw [hc]⟩
    · rw [before, List.takeWhile_cons_of_pos (by simpa using hc)] at h
      cases h

/-- What two strings have before and after their first slash. -/
theorem slash_cancel (ha : x ∉ a) (hs : x ∉ s) (h : a ++ x :: b = s ++ x :: t) : a = s ∧ b = t := by
  have hbefore := congrArg (before x) h
  rw [before_append ha, before_append hs, before, before, List.takeWhile_cons_of_neg (by simp),
    List.takeWhile_cons_of_neg (by simp), List.append_nil, List.append_nil] at hbefore
  subst hbefore
  exact ⟨rfl, (List.cons.inj (List.append_cancel_left h)).2⟩

/-- The text of a scheme and its colon. -/
theorem getScheme_eq (h : getScheme s = some (scheme, rest)) :
    ∃ pre, s = pre ++ rest ∧ (scheme = [] → pre = []) ∧ '/' ∉ pre ∧ '@' ∉ pre := by
  unfold getScheme at h
  extract_lets isScheme at h
  split at h
  · obtain ⟨rfl, rfl⟩ : [] = scheme ∧ [] = rest := by simpa using h
    exact ⟨[], rfl, fun _ => rfl, List.not_mem_nil, List.not_mem_nil⟩
  · rename_i c s
    split at h
    · cases h
    split at h
    · rename_i hletter
      split at h
      · rename_i r hdrop
        obtain ⟨rfl, rfl⟩ : (c :: s).takeWhile isScheme = scheme ∧ r = rest := by simpa using h
        have hnot : ∀ x, isScheme x = false → x ≠ ':' → x ∉ (c :: s).takeWhile isScheme ++
            [':'] := by
          intro x hx hcolon hmem
          rcases List.mem_append.mp hmem with hmem | hmem
          · rw [List.mem_takeWhile_imp hmem] at hx
            cases hx
          · exact hcolon (List.mem_singleton.mp hmem)
        refine ⟨(c :: s).takeWhile isScheme ++ [':'], ?_, fun hnil => ?_,
          hnot _ (by decide) (by decide),
          hnot _ (by decide) (by decide)⟩
        · rw [List.append_assoc, List.singleton_append, ← hdrop, List.takeWhile_append_dropWhile]
        · have hc : isScheme c = true := by
            simp only [isScheme, Bool.or_eq_true]
            exact Or.inl (Or.inl hletter)
          rw [List.takeWhile_cons_of_pos hc] at hnil
          cases hnil
      · obtain ⟨rfl, rfl⟩ : [] = scheme ∧ c :: s = rest := by simpa using h
        exact ⟨[], rfl, fun _ => rfl, List.not_mem_nil, List.not_mem_nil⟩
    · obtain ⟨rfl, rfl⟩ : [] = scheme ∧ c :: s = rest := by simpa using h
      exact ⟨[], rfl, fun _ => rfl, List.not_mem_nil, List.not_mem_nil⟩

/-- The host of the rest behind a scheme stands behind two slashes. -/
theorem parseRest_eq (h : parseRest scheme rest = some u) (hhost : u.host ≠ []) :
    ∃ r, rest = '/' :: '/' :: r ∧ (scheme ≠ [] ∨ ¬ ['/', '/', '/'].isPrefixOf rest) ∧
      parseAuthority scheme (before '/' r) = some u.host ∧
      (unescape .other (r.drop (before '/' r).length)).isSome := by
  unfold parseRest at h
  split at h
  · rw [← Option.some.inj h] at hhost
    exact absurd rfl hhost
  split at h
  · cases h
  split at h
  · rename_i hslashes
    obtain ⟨r, rfl⟩ : ∃ r, rest = '/' :: '/' :: r := by
      obtain ⟨r, hr⟩ := List.isPrefixOf_iff_prefix.mp hslashes.1
      exact ⟨r, hr.symm⟩
    obtain ⟨host, hparse, h⟩ := Option.bind_eq_some_iff.mp h
    split at h
    · rename_i hescape
      obtain rfl := Option.some.inj h
      refine ⟨r, rfl, hslashes.2, hparse, ?_⟩
      rwa [Nat.add_comm] at hescape
    · cases h
  · split at h
    · rw [← Option.some.inj h] at hhost
      exact absurd rfl hhost
    · cases h

/-- **Where the authority stands.** A URL with a host and a path has both behind two slashes. -/
theorem exists_authority (h : parse raw = some u) (hhost : u.host ≠ []) (hpath : path raw ≠ []) :
    ∃ pre scheme auth w, raw = pre ++ '/' :: '/' :: (auth ++ '/' :: w) ∧ '/' ∉ pre ∧ '@' ∉ pre ∧
      (∀ c ∈ ['/', '?', '#'], c ∉ auth) ∧ parseAuthority scheme auth = some u.host ∧
      unescape .other ('/' :: before '?' (before '#' w)) = some (path raw) := by
  unfold parse at h
  extract_lets s frag at h
  split at h
  · cases h
  split at h
  · obtain ⟨-, -, rfl⟩ := Option.map_eq_some_iff.mp h
    exact absurd rfl hhost
  obtain ⟨⟨scheme, rest⟩, hscheme, h⟩ := Option.bind_eq_some_iff.mp h
  obtain ⟨u', hrest, h⟩ := Option.bind_eq_some_iff.mp h
  split at h
  case isFalse => cases h
  obtain rfl : u' = u := Option.some.inj h
  obtain ⟨pre, hs, hpre, hslash, hat⟩ := getScheme_eq hscheme
  obtain ⟨r, hr, hthree, hauth, hescape⟩ := parseRest_eq hrest hhost
  obtain ⟨f, hf, hfnil⟩ := exists_before '#' raw
  obtain ⟨q, hq, hqnil⟩ := exists_before '?' rest
  obtain ⟨p, hp, hpnil⟩ := exists_before '/' r
  have hraw : rawPath raw = p := by
    have hthree' : scheme ≠ [] ∨ ¬ ['/', '/', '/'].isPrefixOf ('/' :: '/' :: r) := by
      rw [hr] at hthree
      exact hthree.imp_left fun hne hnil => hne (by rw [hnil]; rfl)
    have hdrop : ('/' :: '/' :: r).drop (2 + (before '/' r).length) = p := by
      rw [Nat.add_comm]
      exact (congrArg (List.drop _) hp).trans List.drop_left
    rw [rawPath, hscheme]
    dsimp only
    rw [hr, if_neg (by simp), if_pos ⟨rfl, hthree'⟩]
    exact hdrop
  have hdrop : r.drop (before '/' r).length = p := (congrArg (List.drop _) hp).trans List.drop_left
  rw [hdrop] at hescape
  obtain ⟨p', hp'⟩ := Option.isSome_iff_exists.mp hescape
  have hpath' : path raw = p' := by rw [path, hraw, hp', Option.getD_some]
  obtain ⟨w, rfl⟩ : ∃ w, p = '/' :: w := by
    refine exists_cons_of_before hpnil fun hnil => hpath ?_
    rw [hnil] at hp'
    rw [hpath', ← Option.some.inj hp']
  -- neither mark of the end of the path stands before it
  have hquestion : '?' ∉ r := fun hmem => not_mem_before (x := '?') (s := rest)
    (hr ▸ List.mem_cons_of_mem _ (List.mem_cons_of_mem _ hmem))
  have hhash : '#' ∉ r ++ q := by
    intro hmem
    refine not_mem_before (x := '#') (s := raw) ?_
    rw [show before '#' raw = pre ++ rest from hs, hq, hr]
    exact List.mem_append_right _ (List.mem_cons_of_mem _ (List.mem_cons_of_mem _ hmem))
  have hsuffix : w <:+ r := (List.suffix_cons '/' w).trans ⟨_, hp.symm⟩
  have hpre : before '/' r <+: r := List.takeWhile_prefix _
  have hend : before '?' (before '#' (w ++ q ++ f)) = w := by
    have hwq : '#' ∉ w ++ q := fun hmem => hhash (by
      rcases List.mem_append.mp hmem with hmem | hmem
      · exact List.mem_append_left _ (hsuffix.subset hmem)
      · exact List.mem_append_right _ hmem)
    rw [before_append hwq, hfnil, List.append_nil,
      before_append fun hmem => hquestion (hsuffix.subset hmem), hqnil, List.append_nil]
  refine ⟨pre, _, before '/' r, w ++ q ++ f, ?_, hslash, hat, ?_, hauth, ?_⟩
  · calc raw = before '#' raw ++ f := hf
      _ = pre ++ (before '?' rest ++ q) ++ f := by rw [← hq]; exact congrArg (· ++ f) hs
      _ = pre ++ ('/' :: '/' :: (before '/' r ++ '/' :: w) ++ q) ++ f := by rw [hr, ← hp]
      _ = _ := by simp
  · simp only [List.forall_mem_cons, List.not_mem_nil, false_imp_iff, implies_true, and_true]
    exact ⟨not_mem_before, fun hmem => hquestion (hpre.subset hmem),
      fun hmem => hhash (List.mem_append_left _ (hpre.subset hmem))⟩
  · rw [hend, hp', hpath']

/-- The parts of a URL whose authority is known. -/
theorem authority_eq {pre auth : List Char} (h : parse (pre ++ '/' :: '/' :: (auth ++ '/' :: w)) =
    some u)
    (hhost : u.host ≠ []) (hpath : path (pre ++ '/' :: '/' :: (auth ++ '/' :: w)) ≠ [])
    (hpre : '/' ∉ pre) (hauth : '/' ∉ auth) :
    (∃ scheme, parseAuthority scheme auth = some u.host) ∧
      unescape .other ('/' :: before '?' (before '#' w)) =
        some (path (pre ++ '/' :: '/' :: (auth ++ '/' :: w))) := by
  obtain ⟨pre', scheme, auth', w', heq, hpre', -, hclean, hparse, hescape⟩ :=
    exists_authority h hhost hpath
  obtain ⟨rfl, hrest⟩ := slash_cancel hpre hpre' heq
  obtain ⟨rfl, rfl⟩ := slash_cancel hauth (hclean '/' (by simp)) (List.cons.inj hrest).2
  exact ⟨⟨scheme, hparse⟩, hescape⟩

/-! ### Schemes -/

/-- The steps of `parse`: the scheme is cut off, then the rest up to its query is read. -/
theorem exists_rest (h : parse raw = some u) (hne : u.scheme ≠ [] ∨ u.host ≠ []) :
    ∃ scheme rest, getScheme (before '#' raw) = some (scheme, rest) ∧
      parseRest (scheme.map Char.toLower) (before '?' rest) = some u := by
  unfold parse at h
  extract_lets s frag at h
  split at h
  · cases h
  split at h
  · obtain ⟨-, -, rfl⟩ := Option.map_eq_some_iff.mp h
    exact absurd hne (by simp)
  obtain ⟨⟨scheme, rest⟩, hscheme, h⟩ := Option.bind_eq_some_iff.mp h
  obtain ⟨u', hrest, h⟩ := Option.bind_eq_some_iff.mp h
  split at h
  · obtain rfl : u' = u := Option.some.inj h
    exact ⟨scheme, rest, hscheme, hrest⟩
  · cases h

private theorem scheme_of_parseRest (h : parseRest scheme rest = some u) : u.scheme = scheme := by
  unfold parseRest at h
  split at h
  · rw [← Option.some.inj h]
  split at h
  · cases h
  split at h
  · obtain ⟨host, -, h⟩ := Option.bind_eq_some_iff.mp h
    split at h
    · rw [← Option.some.inj h]
    · cases h
  · split at h
    · rw [← Option.some.inj h]
    · cases h

/-- A scheme stands before a colon. -/
theorem getScheme_colon (h : getScheme s = some (scheme, rest)) (hne : scheme ≠ []) :
    s = scheme ++ ':' :: rest := by
  unfold getScheme at h
  extract_lets isScheme at h
  split at h
  · obtain ⟨rfl, -⟩ : [] = scheme ∧ [] = rest := by simpa using h
    exact absurd rfl hne
  · rename_i c s
    split at h
    · cases h
    split at h
    · split at h
      · rename_i r hdrop
        obtain ⟨rfl, rfl⟩ : (c :: s).takeWhile isScheme = scheme ∧ r = rest := by simpa using h
        rw [← hdrop, List.takeWhile_append_dropWhile]
      · obtain ⟨rfl, -⟩ : [] = scheme ∧ c :: s = rest := by simpa using h
        exact absurd rfl hne
    · obtain ⟨rfl, -⟩ : [] = scheme ∧ c :: s = rest := by simpa using h
      exact absurd rfl hne

/-- A URL with a scheme and a host has both on the sides of a colon and two slashes. -/
theorem slashes_infix (h : parse raw = some u) (hscheme : u.scheme ≠ []) (hhost : u.host ≠ []) :
    [':', '/', '/'] <:+: raw := by
  obtain ⟨scheme, rest, hget, hrest⟩ := exists_rest h (Or.inl hscheme)
  have hne : scheme ≠ [] := by
    rintro rfl
    exact hscheme (scheme_of_parseRest hrest)
  obtain ⟨r, hr, -⟩ := parseRest_eq hrest hhost
  obtain ⟨f, hf, -⟩ := exists_before '#' raw
  obtain ⟨q, hq, -⟩ := exists_before '?' rest
  refine ⟨scheme, r ++ q ++ f, ?_⟩
  calc scheme ++ [':', '/', '/'] ++ (r ++ q ++ f) = scheme ++ ':' :: ('/' :: '/' :: r ++ q) ++
    f := by simp
    _ = before '#' raw ++ f := by rw [← hr, ← hq, getScheme_colon hget hne]
    _ = raw := hf.symm

/-- A text that begins with a bracket has no scheme and no host. -/
theorem parse_bracket (h : parse ('[' :: raw) = some u) : u.scheme = [] ∧ u.host = [] := by
  by_contra hne
  rw [not_and_or] at hne
  obtain ⟨scheme, rest, hget, hrest⟩ := exists_rest h hne
  have hbefore : before '#' ('[' :: raw) = '[' :: before '#' raw :=
    List.takeWhile_cons_of_pos (by decide)
  have hnone : getScheme ('[' :: before '#' raw) = some ([], '[' :: before '#' raw) := rfl
  rw [hbefore, hnone] at hget
  obtain ⟨rfl, rfl⟩ := Prod.mk.inj (Option.some.inj hget)
  have hscheme : u.scheme = [] := scheme_of_parseRest hrest
  by_cases hhost : u.host = []
  · exact hne.elim (absurd hscheme) (absurd hhost)
  · obtain ⟨r, hr, -⟩ := parseRest_eq hrest hhost
    have hquery : before '?' ('[' :: before '#' raw) = '[' :: before '?' (before '#' raw) :=
      List.takeWhile_cons_of_pos (by decide)
    rw [hquery] at hr
    exact absurd (List.cons.inj hr).1 (by decide)

end Path

end Go.Url
