import Dockhand.Go.Strconv
import Dockhand.Go.Strings

/-!
# Destinations that are typed in

The dialog for a terminal to an address that is no host, and the two ways in which a terminal shows
its destination, `sshDest` and `sshCommand`. The dialog's address field takes both apart again.
`splitAddress_iff` says when it gets back what was shown: always for a name or an IPv4 address if
the port is shown, for an IPv6 address only from the command. A port that is not shown is taken from
the port field.

A number of the port field or of a text is a natural number.
-/

namespace Dockhand.Hosts.CustomSsh

open Go

/-! ### Texts -/

/-- `\s`, and what `trim` removes. -/
def isWhite (c : Char) : Bool :=
  c ∈ ['\t', '\n', '\x0b', '\x0c', '\r', ' ', '\u00a0', '\u1680', '\u2028', '\u2029', '\u202f',
    '\u205f', '\u3000', '\ufeff'] || ('\u2000' ≤ c && c ≤ '\u200a')

/-- `.`: any character that does not end a line. -/
def isDot (c : Char) : Bool := c ∉ ['\n', '\r', '\u2028', '\u2029']

/-- `trim`. -/
def trimWhite (s : String) : String :=
  String.ofList ((s.toList.dropWhile isWhite).rdropWhile isWhite)

/-- `Number` of digits. -/
def number (ds : List Char) : ℕ := ds.foldl (fun n c => 10 * n + (c.toNat - '0'.toNat)) 0

/-- `(\d+)`. -/
def digits (s : String) : Option ℕ :=
  if s ≠ "" ∧ s.toList.all Char.isDigit then some (number s.toList) else none

/-- `\[(.+)\]`. -/
def brackets (s : String) : Option String :=
  match s.toList with
  | '[' :: r =>
    if r.getLast? = some ']' ∧ r.dropLast ≠ [] ∧ r.dropLast.all isDot then
      some (String.ofList r.dropLast)
    else none
  | _ => none

/-- `/^\[(.+)\]:(\d+)$/`. -/
def matchBrackets (v : String) : Option (String × ℕ) := do
  let (host, ds) ← cutLast v ':'
  let port ← digits ds
  let address ← brackets host
  return (address, port)

/-- `/^([^:]+):(\d+)$/`. -/
def matchPlain (v : String) : Option (String × ℕ) := do
  let (host, ds) ← cutLast v ':'
  let port ← digits ds
  if host ≠ "" ∧ ':' ∉ host.toList then return (host, port) else none

/-- `replace(/^ssh\s+/, "")`. -/
def dropCommand (v : String) : String :=
  match v.toList with
  | 's' :: 's' :: 'h' :: w :: rest =>
    if isWhite w then String.ofList (rest.dropWhile isWhite) else v
  | _ => v

/-- `/\s-p\s*(\d+)/` at the front of a text: the number and what follows it. -/
def portFlagAt : List Char → Option (ℕ × List Char)
  | w :: '-' :: 'p' :: rest =>
    let ds := (rest.dropWhile isWhite).takeWhile Char.isDigit
    if isWhite w ∧ ds ≠ [] then some (number ds, (rest.dropWhile isWhite).dropWhile Char.isDigit)
    else none
  | _ => none

/-- Its first match: what stands before it, the number and what follows. -/
def portFlag : List Char → Option (List Char × ℕ × List Char)
  | [] => none
  | c :: cs =>
    match portFlagAt (c :: cs) with
    | some (n, rest) => some ([], n, rest)
    | none => (portFlag cs).map fun p => (c :: p.1, p.2)

/-! ### Destinations -/

/-- What `parseDest` reads: an address, and the port and the user where they are written. -/
structure Dest where
  address : String
  port : Option ℕ := none
  user : Option String := none
  deriving DecidableEq

/-- The end of `parseDest`: what is left is the host, perhaps with a port. -/
def parseHost (v : String) (port : Option ℕ) (user : Option String) : Dest :=
  match (matchBrackets v).or (matchPlain v) with
  | some (address, n) => { address, port := some n, user }
  | none => { address := trimSuffix (trimPrefix v "[") "]", port, user }

/-- `parseDest`. -/
def parseDest (s : String) : Dest :=
  let v := dropCommand (trimWhite s)
  let (port, v) := match portFlag v.toList with
    | some (pre, n, post) => (some n, trimWhite (String.ofList (pre ++ post)))
    | none => (none, v)
  let (user, v) := match cutLast v '@' with
    | some (user, rest) => if user ≠ "" then (some user, rest) else (none, v)
    | none => (none, v)
  parseHost v port user

/-- An address, a port and a user. -/
@[ext]
structure Place where
  address : String
  port : ℕ
  user : String
  deriving DecidableEq

/-- `Number(port) || 22`. -/
def portOr22 (port : ℕ) : ℕ := if port = 0 then 22 else port

/-- `splitAddress`, with what the fields for the user and the port hold. -/
def splitAddress (v user : String) (port : ℕ) : Place :=
  let t := trimWhite v
  let d : Dest :=
    if t.toList.any (fun c => c = '@' || isWhite c) ∨ (matchPlain t).isSome ∨
      (matchBrackets t).isSome then parseDest t
    else { address := t }
  { address := d.address, port := d.port.getD (portOr22 port), user := d.user.getD user }

/-- `sshDest`. -/
def Place.sshDest (p : Place) : String :=
  p.user ++ "@" ++ p.address ++ if p.port ≠ 0 ∧ p.port ≠ 22 then ":" ++ p.port.repr else ""

/-- `sshCommand`. -/
def Place.sshCommand (p : Place) : String :=
  "ssh " ++ p.user ++ "@" ++ p.address ++
    if p.port ≠ 0 ∧ p.port ≠ 22 then " -p " ++ p.port.repr else ""

/-! ### The dialog -/

/-- `SshAuth`: the three ways of signing in that the dialog offers. -/
inductive SshAuth
  | key
  | password
  | privateKey
  deriving DecidableEq

/-- `/^[a-zA-Z0-9._:%\-[\]]+$/`. -/
def isAddress (a : String) : Bool :=
  a ≠ "" && a.toList.all fun c => c.isAlphanum || c ∈ ['.', '_', ':', '%', '-', '[', ']']

/-- A connection that the dialog opens a terminal for. -/
structure CustomSshConn where
  place : Place
  auth : SshAuth
  password : String := ""
  privateKey : String := ""
  passphrase : String := ""
  address_valid : isAddress place.address = true
  port_pos : 0 < place.port
  port_lt : place.port < 65536
  user_ne_empty : place.user ≠ ""
  deriving DecidableEq

/-- The fields of the dialog. -/
structure Form where
  address : String
  port : ℕ
  user : String
  auth : SshAuth
  password : String := ""
  privateKey : String := ""
  passphrase : String := ""

/-- `connect`. -/
def Form.connect (f : Form) : Except String CustomSshConn :=
  let d := splitAddress f.address f.user f.port
  let p : Place := { d with user := trimWhite d.user }
  if d.address = "" then .error "Enter an address."
  else if haddress : isAddress p.address = true then
    if huser : p.user ≠ "" then
      if hport : 0 < p.port ∧ p.port < 65536 then
        if f.auth = .password ∧ f.password = "" then .error "Enter the password."
        else if f.auth = .privateKey ∧ trimWhite f.privateKey =
          "" then .error "Paste a private key."
        else .ok
          { place := p
            auth := f.auth
            password := if f.auth = .password then f.password else ""
            privateKey := if f.auth = .privateKey then f.privateKey else ""
            passphrase := if f.auth = .privateKey then f.passphrase else ""
            address_valid := haddress
            port_pos := hport.1
            port_lt := hport.2
            user_ne_empty := huser }
      else .error "Port must be 1–65535."
    else .error "Enter a user."
  else .error "That doesn't look like a hostname or IP address."

/-! ### Characters -/

private theorem isWhite_eq_false_of_bounds {c : Char} (hlow : 33 ≤ c.toNat)
    (hhigh : c.toNat ≤ 126) :
    isWhite c = false := by
  rw [← Bool.not_eq_true]
  intro hwhite
  simp only [isWhite, Bool.or_eq_true, Bool.and_eq_true, decide_eq_true_eq, List.mem_cons,
    List.not_mem_nil, or_false] at hwhite
  rcases hwhite with hmem | ⟨hrange, -⟩
  · rcases hmem with rfl | rfl | rfl | rfl | rfl | rfl | rfl | rfl | rfl | rfl | rfl | rfl | rfl |
      rfl <;>
      revert hlow hhigh <;> decide
  · have : 8192 ≤ c.toNat := hrange
    omega

/-- A character of an address. -/
def IsPlace (c : Char) : Prop := isWhite c = false ∧ c ≠ '@'

private theorem isPlace_of_isDigit {c : Char} (h : c.isDigit = true) : IsPlace c := by
  have hbounds := bounds_of_isDigit h
  refine ⟨isWhite_eq_false_of_bounds (by omega) (by omega), ?_⟩
  rintro rfl
  exact absurd h (by decide)

private theorem isPlace_of_isAddress {a : String} (h : isAddress a = true) :
    ∀ c ∈ a.toList, IsPlace c := by
  intro c hc
  simp only [isAddress, Bool.and_eq_true, List.all_eq_true, Bool.or_eq_true, decide_eq_true_eq] at h
  rcases h.2 c hc with halnum | hmem
  · have hbounds := bounds_of_isAlphanum halnum
    refine ⟨isWhite_eq_false_of_bounds (by omega) (by omega), ?_⟩
    rintro rfl
    revert halnum
    decide
  · simp only [List.mem_cons, List.not_mem_nil, or_false] at hmem
    rcases hmem with rfl | rfl | rfl | rfl | rfl | rfl | rfl <;> exact ⟨by decide, by decide⟩

private theorem ne_empty_of_isAddress {a : String} (h : isAddress a = true) : a ≠ "" := by
  simp only [isAddress, Bool.and_eq_true, decide_eq_true_eq] at h
  exact h.1

/-! ### Digits -/

private theorem digits_repr (n : ℕ) : digits n.repr = some n := by
  have hne : n.repr ≠ "" := by
    rw [Ne, ← String.toList_inj, Nat.toList_repr]
    exact Nat.toDigits_ne_nil
  have hall : n.repr.toList.all Char.isDigit = true :=
    List.all_eq_true.mpr fun _ hc => isDigit_of_mem_repr hc
  have hnumber : number n.repr.toList = n := by
    rw [number, Nat.toList_repr, ← Nat.ofDigitChars_eq_foldl, Nat.ofDigitChars_ten_toDigits]
  rw [digits, if_pos ⟨hne, hall⟩, hnumber]

private theorem digits_eq_some {s : String} {n : ℕ} (h : digits s = some n) :
    s ≠ "" ∧ s.toList.all Char.isDigit = true ∧ number s.toList = n := by
  rw [digits, Option.ite_none_right_eq_some, Option.some.injEq] at h
  exact ⟨h.1.1, h.1.2, h.2⟩

/-! ### Trimming -/

private theorem trimWhite_eq_self {s : String} (hhead : ∀ c ∈ s.toList.head?, isWhite c = false)
    (hlast : ∀ c ∈ s.toList.getLast?, isWhite c = false) : trimWhite s = s := by
  have hdrop : s.toList.dropWhile isWhite = s.toList := by
    cases hs : s.toList with
    | nil => rfl
    | cons c r => rw [List.dropWhile_cons_of_neg (by simp [hhead c (by simp [hs])])]
  have hrdrop : s.toList.rdropWhile isWhite = s.toList := by
    rw [List.rdropWhile_eq_self_iff]
    intro hne
    simp [hlast _ (List.getLast?_eq_some_getLast hne)]
  rw [trimWhite, hdrop, hrdrop, String.ofList_toList]

private theorem trimWhite_of_forall {s : String} (h : ∀ c ∈ s.toList, isWhite c = false) :
    trimWhite s = s :=
  trimWhite_eq_self (fun c hc => h c (List.mem_of_mem_head? hc))
    fun c hc => h c (List.mem_of_mem_getLast? hc)

/-- Nothing is trimmed of a command that ends with its host or port, and `ssh` is cut off. -/
theorem dropCommand_ssh {s t : String} {c d : Char} {r r' : List Char} (hs : s.toList = c :: r)
    (ht : t.toList = r' ++ [d]) (hc : isWhite c = false) (hd : isWhite d = false) :
    trimWhite ("ssh " ++ s ++ t) = "ssh " ++ s ++ t ∧ dropCommand ("ssh " ++ s ++ t) = s ++ t := by
  have hlist : ("ssh " ++ s ++ t).toList = 's' :: 's' :: 'h' :: ' ' :: c :: (r ++ t.toList) := by
    simp [hs]
  have hspace : isWhite ' ' = true := by decide
  constructor
  · refine trimWhite_eq_self (fun c' hc' => ?_) fun d' hd' => ?_
    · obtain rfl : 's' = c' := by simpa [hlist] using hc'
      decide
    · have hend : ("ssh " ++ s ++ t).toList = ("ssh " ++ s).toList ++ r' ++ [d] := by simp [ht]
      rw [hend, List.getLast?_concat] at hd'
      exact Option.some.inj hd' ▸ hd
  · simp only [dropCommand, hlist, hspace, if_true]
    rw [List.dropWhile_cons_of_neg (by simp [hc]), ← String.toList_inj]
    simp [hs]

private theorem dropCommand_of_forall {v : String} (h : ∀ c ∈ v.toList, isWhite c = false) :
    dropCommand v = v := by
  rw [dropCommand]
  split
  · rename_i w rest heq
    rw [if_neg (by simp [h w (by simp [heq])])]
  · rfl

/-! ### The flag -/

private theorem portFlagAt_of_not_white {c : Char} {cs : List Char} (hc : isWhite c = false) :
    portFlagAt (c :: cs) = none := by
  rw [portFlagAt.eq_def]
  split
  · rename_i heq
    obtain ⟨rfl, -⟩ := List.cons.inj heq
    simp [hc]
  · rfl

private theorem portFlag_append {v : List Char} (h : ∀ c ∈ v, isWhite c = false) (l : List Char) :
    portFlag (v ++ l) = (portFlag l).map fun p => (v ++ p.1, p.2) := by
  induction v with
  | nil => simp
  | cons c v ih =>
    have hflag : portFlagAt (c :: (v ++ l)) = none :=
      portFlagAt_of_not_white (h c List.mem_cons_self)
    rw [List.cons_append, portFlag, hflag, ih fun d hd => h d (List.mem_cons_of_mem _ hd)]
    simp [Function.comp_def]

private theorem portFlag_of_forall {v : List Char} (h : ∀ c ∈ v, isWhite c = false) :
    portFlag v = none := by
  simpa [portFlag] using portFlag_append h []

private theorem portFlag_repr (n : ℕ) : portFlag (" -p " ++ n.repr).toList = some ([], n, []) := by
  obtain ⟨hne, hall, hnumber⟩ := digits_eq_some (digits_repr n)
  obtain ⟨d, ds, hds⟩ := List.exists_cons_of_ne_nil (mt String.toList_eq_nil_iff.mp hne)
  have hlist : (" -p " ++ n.repr).toList = ' ' :: '-' :: 'p' :: ' ' :: n.repr.toList := by simp
  have hdrop : (' ' :: n.repr.toList).dropWhile isWhite = n.repr.toList := by
    have hd : isWhite d = false :=
      (isPlace_of_isDigit (isDigit_of_mem_repr (n := n) (by simp [hds]))).1
    rw [hds, List.dropWhile_cons_of_pos (by decide), List.dropWhile_cons_of_neg (by simp [hd])]
  have htake : n.repr.toList.takeWhile Char.isDigit = n.repr.toList := by
    simpa [List.takeWhile_eq_self_iff] using fun c hc => isDigit_of_mem_repr hc
  have hrest : n.repr.toList.dropWhile Char.isDigit = [] := by
    simpa [List.dropWhile_eq_nil_iff] using fun c hc => isDigit_of_mem_repr hc
  have hat : portFlagAt (' ' :: '-' :: 'p' :: ' ' :: n.repr.toList) = some (n, []) := by
    rw [portFlagAt, hdrop, htake, hrest, hnumber]
    simp [hds, isWhite]
  rw [hlist, portFlag, hat]

/-! ### What is left of a destination -/

variable {a v user : String} {port : Option ℕ} {u : Option String}

/-- The address is read as it is: it has no brackets, and nothing of it is taken for a port. -/
def Plain (a : String) : Prop :=
  hasPrefix a "[" = false ∧ hasSuffix a "]" = false ∧ matchPlain a = none

instance Plain.decidable (a : String) : Decidable (Plain a) :=
  inferInstanceAs (Decidable (_ ∧ _ ∧ _))

private theorem brackets_eq_some {x : String} (h : brackets a = some x) :
    a.toList = '[' :: (x.toList ++ [']']) := by
  rw [brackets] at h
  split at h
  · rename_i r heq
    rw [Option.ite_none_right_eq_some, Option.some.injEq] at h
    obtain ⟨⟨hlast, -, -⟩, rfl⟩ := h
    have hr : r = r.dropLast ++ [']'] := (List.dropLast_append_getLast? _ hlast).symm
    rw [heq, String.toList_ofList, ← hr]
  · cases h

private theorem cutLast_eq_some {x y : String} {c : Char} (h : cutLast v c = some (x, y)) :
    v.toList = x.toList ++ c :: y.toList := by
  rw [cutLast, Option.map_eq_some_iff] at h
  obtain ⟨⟨b, r⟩, hcut, hxy⟩ := h
  obtain ⟨hx, hy⟩ := Prod.mk.inj hxy
  obtain ⟨heq, -⟩ := eq_of_cutList hcut
  rw [← hx, ← hy, String.toList_ofList, String.toList_ofList, ← List.reverse_reverse v.toList, heq]
  simp

private theorem matchBrackets_eq_some {x : String} {n : ℕ} (h : matchBrackets v = some (x, n)) :
    ∃ ds, v.toList = '[' :: (x.toList ++ ']' :: ':' :: ds) := by
  simp only [matchBrackets, Option.bind_eq_bind, Option.bind_eq_some_iff, Option.pure_def,
    Option.some.injEq] at h
  obtain ⟨⟨host, ds⟩, hcut, m, -, y, hy, hxn⟩ := h
  obtain ⟨rfl, rfl⟩ := Prod.mk.inj hxn
  exact ⟨ds.toList, by rw [cutLast_eq_some hcut, brackets_eq_some hy]; simp⟩

private theorem matchPlain_eq_some {x : String} {n : ℕ} (h : matchPlain v = some (x, n)) :
    ∃ ds, v.toList = x.toList ++ ':' :: ds := by
  simp only [matchPlain, Option.bind_eq_bind, Option.bind_eq_some_iff, Option.pure_def] at h
  obtain ⟨⟨host, ds⟩, hcut, m, -, h⟩ := h
  rw [Option.ite_none_right_eq_some, Option.some.injEq] at h
  obtain ⟨rfl, rfl⟩ := Prod.mk.inj h.2
  exact ⟨ds.toList, cutLast_eq_some hcut⟩

private theorem length_trimSuffix_le (s p : String) :
    (trimSuffix s p).toList.length ≤ s.toList.length := by
  rw [trimSuffix]
  split_ifs <;> simp

private theorem trimBrackets_eq_iff :
    trimSuffix (trimPrefix a "[") "]" = a ↔ hasPrefix a "[" = false ∧ hasSuffix a "]" = false := by
  constructor
  · intro heq
    have hleft : hasPrefix a "[" = false := by
      rw [← Bool.not_eq_true]
      intro hleft
      have hle := length_trimSuffix_le (trimPrefix a "[") "]"
      have hpos : 0 < a.toList.length := by
        rw [hasPrefix, List.isPrefixOf_iff_prefix] at hleft
        exact List.length_pos_of_mem (hleft.subset (List.mem_singleton_self '['))
      rw [heq, trimPrefix, if_pos hleft] at hle
      simp at hle
      omega
    refine ⟨hleft, ?_⟩
    rw [← Bool.not_eq_true]
    intro hsuffix
    have hpos : 0 < a.toList.length := by
      rw [hasSuffix, List.isSuffixOf_iff_suffix] at hsuffix
      exact List.length_pos_of_mem (hsuffix.subset (List.mem_singleton_self ']'))
    have hlen := congrArg (fun s => s.toList.length) heq
    simp [trimPrefix, trimSuffix, hleft, hsuffix] at hlen
    omega
  · rintro ⟨hleft, hsuffix⟩
    simp [trimPrefix, trimSuffix, hleft, hsuffix]

/-- An address is got back exactly if it is plain. -/
theorem parseHost_address_iff : (parseHost a port u).address = a ↔ Plain a := by
  rw [parseHost]
  cases hbrackets : matchBrackets a with
  | some p =>
    obtain ⟨ds, heq⟩ := matchBrackets_eq_some (x := p.1) (n := p.2) hbrackets
    have hleft : hasPrefix a "[" = true := by
      rw [hasPrefix, heq]
      rfl
    refine iff_of_false (fun h => ?_) fun h => by simp [h.1] at hleft
    have hpa : p.1 = a := h
    have hlen := congrArg List.length heq
    simp [hpa] at hlen
    omega
  | none =>
    cases hplain : matchPlain a with
    | some p =>
      obtain ⟨ds, heq⟩ := matchPlain_eq_some (x := p.1) (n := p.2) hplain
      refine iff_of_false (fun h => ?_) fun h => by simp [h.2.2] at hplain
      have hpa : p.1 = a := h
      have hlen := congrArg List.length heq
      simp [hpa] at hlen
    | none => simp only [Option.none_or, trimBrackets_eq_iff, Plain, hplain, and_true]

private theorem parseHost_of_plain (h : Plain a) : parseHost a port u = ⟨a, port, u⟩ := by
  have hbrackets : matchBrackets a = none := by
    cases hbrackets : matchBrackets a with
    | none => rfl
    | some p =>
      obtain ⟨ds, heq⟩ := matchBrackets_eq_some (x := p.1) (n := p.2) hbrackets
      have hleft : hasPrefix a "[" = true := by
        rw [hasPrefix, heq]
        rfl
      simp [h.1] at hleft
  rw [parseHost, hbrackets, h.2.2, Option.none_or, trimBrackets_eq_iff.mpr ⟨h.1, h.2.1⟩]

private theorem count_trimBrackets (s : String) :
    (trimSuffix (trimPrefix s "[") "]").toList.count ':' = s.toList.count ':' := by
  have hleft : (trimPrefix s "[").toList.count ':' = s.toList.count ':' := by
    rw [trimPrefix]
    split_ifs with h
    · rw [hasPrefix, List.isPrefixOf_iff_prefix] at h
      obtain ⟨t, ht⟩ := h
      simp [← ht]
    · rfl
  rw [← hleft, trimSuffix]
  split_ifs with h
  · rw [hasSuffix, List.isSuffixOf_iff_suffix] at h
    obtain ⟨t, ht⟩ := h
    simp [← ht]
  · rfl

section

variable (hne : a ≠ "") (n : ℕ)
include hne

private theorem parseHost_port : parseHost (a ++ ":" ++ n.repr) none u =
    match brackets a with
    | some x => ⟨x, some n, u⟩
    | none =>
      if ':' ∉ a.toList then ⟨a, some n, u⟩
      else ⟨trimSuffix (trimPrefix (a ++ ":" ++ n.repr) "[") "]", none, u⟩ := by
  have hcut : cutLast (a ++ ":" ++ n.repr) ':' = some (a, n.repr) :=
    cutLast_append rfl (not_mem_repr (by decide))
  have hbrackets : matchBrackets (a ++ ":" ++ n.repr) = (brackets a).map fun x => (x, n) := by
    rw [matchBrackets, hcut]
    cases hx : brackets a <;> simp [digits_repr, hx]
  have hplain : matchPlain (a ++ ":" ++ n.repr) = if ':' ∉ a.toList then some (a, n) else none := by
    rw [matchPlain, hcut]
    simp [digits_repr, hne]
  rw [parseHost, hbrackets, hplain]
  cases brackets a with
  | some x => rfl
  | none => by_cases hcolon : ':' ∈ a.toList <;> simp [hcolon]

/-- An address before a port is got back exactly if it has no colon and no brackets around it. -/
theorem parseHost_port_address_iff :
    (parseHost (a ++ ":" ++ n.repr) none u).address = a ↔
      ':' ∉ a.toList ∧ brackets a = none := by
  rw [parseHost_port hne]
  cases hx : brackets a with
  | some x =>
    refine iff_of_false (fun h => ?_) fun h => by simp at h
    have hxa : x = a := h
    have hlen := congrArg List.length (brackets_eq_some hx)
    simp only [hxa, List.length_cons, List.length_append, List.length_nil] at hlen
    omega
  | none =>
    by_cases hcolon : ':' ∈ a.toList
    · refine iff_of_false (fun h => ?_) fun h => h.1 hcolon
      -- the colon before the port is still there
      have hcount := congrArg (fun s => s.toList.count ':') h
      simp only [hcolon, not_true, if_false, count_trimBrackets] at hcount
      simp at hcount
    · simp [hcolon]

end

/-! ### What is shown is read -/

section Shown

variable {p : Place} {n : ℕ} {u' : String}

/-- `parseDest`, once the command and the flag are off. -/
theorem parseDest_of_flag {s v host : String} (hs : dropCommand (trimWhite s) = v)
    (hflag : (match portFlag v.toList with
      | some (pre, n, post) => (some n, trimWhite (String.ofList (pre ++ post)))
      | none => (none, v)) = (port, user ++ "@" ++ host))
    (huser : user ≠ "") (hhost : '@' ∉ host.toList) :
    parseDest s = parseHost host port (some user) := by
  have hcut : cutLast (user ++ "@" ++ host) '@' = some (user, host) := cutLast_append rfl hhost
  simp only [parseDest, hs, hflag, hcut, huser, ne_eq, not_false_eq_true, if_true]

private theorem splitAddress_eq_iff {s : String} {Q : Prop} (htrim : trimWhite s = s)
    (hmark : '@' ∈ s.toList) (haddress : (parseDest s).address = p.address ↔ Q)
    (hdest : Q → parseDest s = ⟨p.address, port, some p.user⟩) :
    splitAddress s u' n = p ↔ Q ∧ port.getD (portOr22 n) = p.port := by
  have htest : s.toList.any (fun c => c = '@' || isWhite c) = true :=
    List.any_eq_true.mpr ⟨'@', hmark, by simp⟩
  have hsplit : splitAddress s u' n =
      ⟨(parseDest s).address, (parseDest s).port.getD (portOr22 n),
        (parseDest s).user.getD u'⟩ := by
    simp only [splitAddress, htrim, htest, true_or, if_true]
  rw [hsplit]
  generalize parseDest s = d at haddress hdest
  by_cases hQ : Q
  · rw [hdest hQ]
    simp [hQ, Place.ext_iff]
  · refine iff_of_false (fun h => ?_) fun h => hQ h.1
    exact hQ (haddress.mp (congrArg Place.address h))

variable (huser : ∀ c ∈ p.user.toList, isWhite c = false) (hne : p.user ≠ "")
  (haddress : isAddress p.address = true)
include huser hne haddress

omit hne in
private theorem white_of_base {c : Char} (hc : c ∈ (p.user ++ "@" ++ p.address).toList) :
    isWhite c = false := by
  simp only [String.toList_append, List.mem_append] at hc
  rcases hc with (hc | hc) | hc
  · exact huser c hc
  · rw [List.mem_singleton.mp hc]
    decide
  · exact (isPlace_of_isAddress haddress c hc).1

theorem parseDest_sshCommand (hport : p.port ≠ 0) :
    trimWhite p.sshCommand = p.sshCommand ∧
      parseDest p.sshCommand =
        parseHost p.address (if p.port = 22 then none else some p.port) (some p.user) := by
  have hhost : '@' ∉ p.address.toList := fun h => (isPlace_of_isAddress haddress _ h).2 rfl
  have hbase := fun c hc => white_of_base (c := c) huser haddress hc
  obtain ⟨c, r, hc⟩ := List.exists_cons_of_ne_nil (mt String.toList_eq_nil_iff.mp hne)
  have hwhite : isWhite c = false := huser c (by simp [hc])
  by_cases h22 : p.port = 22
  -- The last character, which the trimming leaves, is that of the address or of the port.
  · obtain ⟨r', d, hd⟩ : ∃ r' d, p.address.toList = r' ++ [d] :=
      ⟨_, _, (List.dropLast_append_getLast
        (mt String.toList_eq_nil_iff.mp (ne_empty_of_isAddress haddress))).symm⟩
    have htext : p.sshCommand = "ssh " ++ p.user ++ ("@" ++ p.address) := by
      simp [Place.sshCommand, h22, String.append_assoc]
    have hend : ("@" ++ p.address).toList = '@' :: r' ++ [d] := by simp [hd]
    obtain ⟨htrim, hdrop⟩ :=
      dropCommand_ssh hc hend hwhite (isPlace_of_isAddress haddress d (by simp [hd])).1
    rw [← htext] at htrim hdrop
    refine ⟨htrim, parseDest_of_flag (v := p.user ++ "@" ++ p.address) ?_ ?_ hne hhost⟩
    · rw [htrim, hdrop, String.append_assoc]
    · rw [portFlag_of_forall hbase, if_pos h22]
  · obtain ⟨r', d, hd⟩ : ∃ r' d, p.port.repr.toList = r' ++ [d] :=
      ⟨_, _, (List.dropLast_append_getLast
        (mt String.toList_eq_nil_iff.mp (digits_eq_some (digits_repr p.port)).1)).symm⟩
    have htext : p.sshCommand =
        "ssh " ++ p.user ++ ("@" ++ p.address ++ (" -p " ++ p.port.repr)) := by
      simp [Place.sshCommand, h22, hport, String.append_assoc]
    have hend : ("@" ++ p.address ++ (" -p " ++ p.port.repr)).toList =
        ("@" ++ p.address ++ " -p ").toList ++ r' ++ [d] := by simp [hd]
    obtain ⟨htrim, hdrop⟩ := dropCommand_ssh hc hend hwhite
      (isPlace_of_isDigit (isDigit_of_mem_repr (n := p.port) (by simp [hd]))).1
    rw [← htext] at htrim hdrop
    refine ⟨htrim, parseDest_of_flag
      (v := p.user ++ "@" ++ p.address ++ (" -p " ++ p.port.repr)) ?_ ?_ hne hhost⟩
    · rw [htrim, hdrop]
      simp [String.append_assoc]
    · rw [String.toList_append, portFlag_append hbase, portFlag_repr, if_neg h22]
      simp [← String.append_assoc, trimWhite_of_forall hbase]

private theorem parseDest_sshDest (hport : p.port ≠ 0) :
    trimWhite p.sshDest = p.sshDest ∧
      parseDest p.sshDest =
        parseHost (if p.port = 22 then p.address else p.address ++ ":" ++ p.port.repr) none
          (some p.user) := by
  obtain ⟨host, hhost, hif, htext⟩ : ∃ host : String, (∀ c ∈ host.toList, IsPlace c) ∧
      (if p.port = 22 then p.address else p.address ++ ":" ++ p.port.repr) = host ∧
      p.sshDest = p.user ++ "@" ++ host := by
    by_cases h22 : p.port = 22
    · exact ⟨p.address, isPlace_of_isAddress haddress, if_pos h22, by simp [Place.sshDest, h22]⟩
    · refine ⟨p.address ++ ":" ++ p.port.repr, fun c hc => ?_, if_neg h22, ?_⟩
      · simp only [String.toList_append, List.mem_append] at hc
        rcases hc with (hc | hc) | hc
        · exact isPlace_of_isAddress haddress c hc
        · rw [List.mem_singleton.mp hc]
          exact ⟨by decide, by decide⟩
        · exact isPlace_of_isDigit (isDigit_of_mem_repr hc)
      · simp [Place.sshDest, h22, hport, String.append_assoc]
  have hwhite : ∀ c ∈ p.sshDest.toList, isWhite c = false := by
    intro c hc
    simp only [htext, String.toList_append, List.mem_append] at hc
    rcases hc with (hc | hc) | hc
    · exact huser c hc
    · rw [List.mem_singleton.mp hc]
      decide
    · exact (hhost c hc).1
  have htrim : trimWhite p.sshDest = p.sshDest := trimWhite_of_forall hwhite
  refine ⟨htrim, ?_⟩
  rw [hif]
  refine parseDest_of_flag (v := p.sshDest) ?_ ?_ hne fun h => (hhost _ h).2 rfl
  · rw [htrim, dropCommand_of_forall hwhite]
  · rw [portFlag_of_forall hwhite, htext]

end Shown

/-- The address field reads the command of a connection exactly if its address is plain, and its
destination exactly if that is, or has no colon where a port follows; the port field has to hold a
port 22, which is not shown. -/
theorem splitAddress_iff (c : CustomSshConn) (huser : ∀ d ∈ c.place.user.toList, isWhite d = false)
    (user : String) (port : ℕ) :
    (splitAddress c.place.sshCommand user port = c.place ↔
      Plain c.place.address ∧ (c.place.port = 22 → portOr22 port = 22)) ∧
    (splitAddress c.place.sshDest user port = c.place ↔
      if c.place.port = 22 then Plain c.place.address ∧ portOr22 port = 22
      else ':' ∉ c.place.address.toList ∧ brackets c.place.address = none) := by
  have hport : c.place.port ≠ 0 := c.port_pos.ne'
  obtain ⟨htrim, hcommand⟩ := parseDest_sshCommand huser c.user_ne_empty c.address_valid hport
  obtain ⟨htrim', hdest⟩ := parseDest_sshDest huser c.user_ne_empty c.address_valid hport
  have hmark : '@' ∈ c.place.sshCommand.toList := by simp [Place.sshCommand]
  have hmark' : '@' ∈ c.place.sshDest.toList := by simp [Place.sshDest]
  by_cases h22 : c.place.port = 22
  · simp only [h22, if_true, forall_const] at hcommand hdest ⊢
    constructor
    · rw [splitAddress_eq_iff htrim hmark (by rw [hcommand, parseHost_address_iff])
        fun h => by rw [hcommand, parseHost_of_plain h]]
      simp [h22]
    · rw [splitAddress_eq_iff htrim' hmark' (by rw [hdest, parseHost_address_iff])
        fun h => by rw [hdest, parseHost_of_plain h]]
      simp [h22]
  · simp only [h22, if_false, false_imp_iff, and_true] at hcommand hdest ⊢
    constructor
    · rw [splitAddress_eq_iff htrim hmark (by rw [hcommand, parseHost_address_iff])
        fun h => by rw [hcommand, parseHost_of_plain h]]
      simp
    · have hne := ne_empty_of_isAddress c.address_valid
      rw [splitAddress_eq_iff htrim' hmark' (by rw [hdest, parseHost_port_address_iff hne])
        fun h => by rw [hdest, parseHost_port hne, h.2, if_pos h.1]]
      simp

namespace Example

/-- A host in the local network, with a port of its own. -/
def nas : CustomSshConn where
  place := ⟨"nas", 2222, "root"⟩
  auth := .key
  address_valid := by decide
  port_pos := by decide
  port_lt := by decide
  user_ne_empty := by decide

end Example

/-- A host with a port of its own, read from both texts that the dialog makes. -/
theorem splitAddress_iff_nas :
    (splitAddress Example.nas.place.sshCommand "admin" 22 = Example.nas.place ↔
      Plain Example.nas.place.address ∧ (Example.nas.place.port = 22 → portOr22 22 = 22)) ∧
    (splitAddress Example.nas.place.sshDest "admin" 22 = Example.nas.place ↔
      if Example.nas.place.port = 22 then Plain Example.nas.place.address ∧ portOr22 22 = 22
      else ':' ∉ Example.nas.place.address.toList ∧ brackets Example.nas.place.address = none) :=
  splitAddress_iff Example.nas (List.forall_iff_forall_mem.mp (by decide)) "admin" 22

example : splitAddress "ssh root@fd00::7 -p 2222" "" 0 = ⟨"fd00::7", 2222, "root"⟩ ∧
    splitAddress "root@fd00::7:2222" "" 0 = ⟨"fd00::7:2222", 22, "root"⟩ := by
  decide +kernel

end Dockhand.Hosts.CustomSsh
