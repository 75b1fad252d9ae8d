import Dockhand.Data.MergeBy
import Dockhand.Go.Net
import Dockhand.Machines.Firewall
import Mathlib.Data.Finset.Card

/-!
# Exposed ports

The `ports` section lists the listening sockets, as `ss` or as `netstat` prints them. A machine has
one port for each number and process: `parsePorts` keeps the first line of both. A process can
listen on a loopback address and on a public one, and which of the two it is known by is left to the
order of the lines. `exposes_iff` says for which sections the public ports are the ones shown.
-/

namespace Dockhand.Machines

open Go

/-! ### What the tools print -/

/-- The address of a socket. -/
inductive Address
  | any
  | ip (text : String) (bytes : IP) (parses : parseIP text = some bytes)

namespace Address

/-- The address without brackets, as `netstat` prints it. -/
def text : Address → String
  | any => "*"
  | ip text .. => text

/-- `ss` puts brackets around an IPv6 address. -/
def bracketed : Address → String
  | any => "*"
  | ip text .. => if ':' ∈ text.toList then "[" ++ text ++ "]" else text

/-- The socket takes connections from other machines: it is bound to any address, or to one that is
not a loopback address. -/
def isPublic : Address → Bool
  | any => true
  | ip _ bytes _ => !bytes.isLoopback

end Address

/-- The interface that a socket is bound to. -/
structure Device where
  name : Word
  colon : ':' ∉ name.text.toList
  quote : '"' ∉ name.text.toList

/-- A process with the socket open. -/
structure User where
  name : String
  quote : '"' ∉ name.toList
  newline : '\n' ∉ name.toList
  pid : ℕ
  fd : ℕ

/-- A process in the list of `ss`: its name in quotes, its number and the number of the socket. -/
def User.text (u : User) : String :=
  "(\"" ++ u.name ++ "\",pid=" ++ u.pid.repr ++ ",fd=" ++ u.fd.repr ++ ")"

/-- The program of a socket; its name has several words when the program has set its title. -/
structure Program where
  pid : ℕ
  name : Word
  title : List Word
  quote : ∀ w ∈ name :: title, '"' ∉ w.text.toList

/-- The last column of `netstat`, where the title of a program follows its number. -/
def Program.text (p : Program) : String := phrase (p.pid.repr ++ "/" ++ p.name.text) p.title

/-- A socket, and how many spaces its columns are padded with. -/
structure Socket where
  received : ℕ
  backlog : ℕ
  host : Address
  port : ℕ
  bound : port < 65536
  peer : Address
  pad : ℕ → ℕ

/-- A line of `ss -Hltnp` or of `netstat -ltnp`. -/
inductive Listener
  | ss (s : Socket) (device : Option Device) (users : List User)
  | netstat (s : Socket) (v6 : Bool) (program : Option Program)

/-- The cells of a line, each with its padding. -/
def columns (cells : List (String × ℕ)) (s : String) : String :=
  cells.foldr (fun c s => c.1 ++ blanks (c.2 + 1) ++ s) s

/-- How a process is called: a colon behind its name belongs to the title. -/
def label (name : String) : String := trimSuffix (trimSpace name) ":"

namespace Listener

/-- The socket that the line is about. -/
def socket : Listener → Socket
  | ss s .. => s
  | netstat s .. => s

/-- The interface of a socket, which `ss` alone shows. -/
def device : Listener → Option Device
  | ss _ device _ => device
  | netstat .. => none

/-- The host of the local address. -/
def hostText : Listener → String
  | ss s device _ => s.host.bracketed ++ device.elim "" fun d => "%" ++ d.name.text
  | netstat s .. => s.host.text

/-- The local address of the socket with its port. -/
def localText (l : Listener) : String := l.hostText ++ ":" ++ l.socket.port.repr

/-- The first word of the line. -/
def kind : Listener → String
  | ss .. => "LISTEN"
  | netstat _ v6 _ => if v6 then "tcp6" else "tcp"

/-- The cells but the last one. -/
def cells (l : Listener) : List (String × ℕ) :=
  let s := l.socket
  [(l.kind, s.pad 0), (s.received.repr, s.pad 1), (s.backlog.repr, s.pad 2),
    (l.localText, s.pad 3)] ++
    match l with
    | ss _ _ [] => []
    | ss _ _ (_ :: _) => [(s.peer.bracketed ++ ":*", s.pad 4)]
    | netstat .. => [(s.peer.text ++ ":*", s.pad 4), ("LISTEN", s.pad 5)]

/-- The last cell. -/
def final : Listener → String
  | ss s _ [] => s.peer.bracketed ++ ":*"
  | ss _ _ (u :: us) => "users:(" ++ ",".intercalate ((u :: us).map User.text) ++ ")"
  | netstat _ _ program => program.elim "-" Program.text

/-- The line, with the spaces at its end. -/
def text (l : Listener) : String := columns l.cells l.final ++ blanks (l.socket.pad 6)

/-- The line shows a socket that other machines can reach. -/
def isPublic (l : Listener) : Bool := l.socket.host.isPublic

/-- The processes that the line shows; a line without any shows an empty name. -/
def processes : Listener → List String
  | ss _ _ [] => [""]
  | ss _ _ users => users.map fun u => label u.name
  | netstat _ _ none => [""]
  | netstat _ _ (some p) => [label (phrase p.name.text p.title)]

/-- The process that the line is told by: the first one, or what stands behind the slash in the last
word of a title. -/
def told : Listener → String
  | ss _ _ [] => ""
  | ss _ _ (u :: _) => label u.name
  | netstat _ _ none => ""
  | netstat _ _ (some p) =>
    match p.title.getLast? with
    | none => label p.name.text
    | some w => label (((cut w.text "/").map Prod.snd).getD "")

/-- The address is written `127.…`, or `::1` without an interface. -/
def writtenLoopback (l : Listener) : Bool :=
  hasPrefix l.socket.host.text "127." || (l.socket.host.text = "::1" && l.device.isNone)

end Listener

/-- The section of the output has these lines. -/
def ShowsPorts (out : String) (ls : List Listener) : Prop :=
  linesOf out "ports" = ls.map Listener.text

/-! ### What is asked of the ports -/

/-- The ports and processes that are shown on public addresses. -/
def shownPublic (ls : List Listener) : Finset (ℤ × String) :=
  ((ls.filter Listener.isPublic).flatMap fun l => l.processes.map ((l.socket.port : ℤ), ·)).toFinset

/-- A port with its process and whether it is public. -/
def Port.triple (p : Port) : (ℤ × String) × Bool := ((p.port, p.process), p.isPublic)

/-- The ports that the section gives, each with its process and whether it is public. -/
def triples (out : String) : Finset ((ℤ × String) × Bool) :=
  ((parse out).ports.map Port.triple).toFinset

/-- What is asked of `parse` and of the check on a section. -/
structure Exposes (ls : List Listener) : Prop where
  entry : ∀ out, ShowsPorts out ls → ∀ k ∈ shownPublic ls, (k, true) ∈ triples out
  order : ∀ out out' ls', ShowsPorts out ls → ShowsPorts out' ls' → ls'.Perm ls →
    triples out' = triples out
  check : ∀ out, ShowsPorts out ls → ls ≠ [] →
    (exposedPortsCheck (parse out)).sub =
        toString (shownPublic ls).card ++ " port(s) listening on all interfaces" ∧
      (exposedPortsCheck (parse out)).status =
        if (shownPublic ls).card ≤ 3 then .ok else .warn

/-- The ports and processes that lines are told by, of the addresses that are written loopback or
not. -/
def toldOn (ls : List Listener) (loopback : Bool) : Finset (ℤ × String) :=
  ((ls.filter (·.writtenLoopback = loopback)).map fun l => ((l.socket.port : ℤ), l.told)).toFinset

/-! ### The ports of a section -/

/-- The port that `parsePort` reads. -/
def Listener.entry (l : Listener) : Port where
  port := l.socket.port
  address := trim l.hostText "[]"
  process := l.told
  isPublic := !l.writtenLoopback

/-! ### Reading a line -/

/-- Neither a space nor a quote. -/
def Bare (s : String) : Prop := ∀ c ∈ s.toList, isSpace c = false ∧ c ≠ '"'

theorem Bare.append {s t : String} (hs : Bare s) (ht : Bare t) : Bare (s ++ t) := by
  intro c hc
  rw [String.toList_append, List.mem_append] at hc
  exact hc.elim (hs c) (ht c)

private theorem bare_repr (n : ℕ) : Bare n.repr := by
  intro c hc
  rw [Nat.toList_repr] at hc
  have hdigit := Nat.isDigit_of_mem_toDigits (by decide) (by decide) hc
  have hchar := IsAddressChar.bounds (isAddressChar_of_isDigit hdigit)
  refine ⟨IsAddressChar.not_isSpace (isAddressChar_of_isDigit hdigit), ?_⟩
  rintro rfl
  exact absurd hchar (by decide)

private theorem Address.bare_text (h : Address) : Bare h.text := by
  cases h with
  | any => exact fun c hc => by simp [text] at hc; subst hc; decide
  | ip text bytes parses =>
    intro c hc
    have hchar := isAddressChar_of_parseIP parses c hc
    refine ⟨hchar.not_isSpace, ?_⟩
    rintro rfl
    exact absurd hchar.bounds (by decide)

private theorem bare_of_forall {s : String} (h : s.toList.all fun c => !isSpace c && c ≠ '"') :
    Bare s := by
  intro c hc
  simpa using List.all_eq_true.mp h c hc

private theorem Address.bare_bracketed (h : Address) : Bare h.bracketed := by
  cases h with
  | any => exact bare_of_forall (by decide)
  | ip text bytes parses =>
    have htext := (Address.ip text bytes parses).bare_text
    rw [bracketed]
    split
    · exact ((bare_of_forall (by decide)).append htext).append (bare_of_forall (by decide))
    · exact htext

theorem Word.bare {w : Word} (h : '"' ∉ w.text.toList) : Bare w.text := fun c hc =>
  ⟨w.dark c hc, fun hquote => h (hquote ▸ hc)⟩

namespace Listener

private theorem bare_hostText (l : Listener) : Bare l.hostText := by
  cases l with
  | ss s device users =>
    refine s.host.bare_bracketed.append ?_
    cases device with
    | none => exact bare_of_forall (by decide)
    | some d => exact (bare_of_forall (by decide)).append (Word.bare d.quote)
  | netstat s v6 program => exact s.host.bare_text

private theorem bare_localText (l : Listener) : Bare l.localText :=
  (l.bare_hostText.append (bare_of_forall (by decide))).append (bare_repr _)

private theorem bare_cells (l : Listener) : ∀ cell ∈ l.cells, Bare cell.1 ∧ cell.1 ≠ "" := by
  have hcolon : ∀ s t : String, s ++ ":" ++ t ≠ "" := fun s t h => by
    simpa using congrArg String.toList h
  have hnum : ∀ n : ℕ, n.repr ≠ "" := fun n h => by
    have := congrArg String.toList h
    rw [Nat.toList_repr] at this
    exact Nat.toDigits_ne_nil this
  have hpeer : ∀ s : String, Bare s → Bare (s ++ ":*") ∧ s ++ ":*" ≠ "" := fun s hs =>
    ⟨hs.append (bare_of_forall (by decide)), fun h => by simpa using congrArg String.toList h⟩
  have hlisten : Bare "LISTEN" ∧ "LISTEN" ≠ "" := ⟨bare_of_forall (by decide), by decide⟩
  have htcp : Bare "tcp" ∧ "tcp" ≠ "" := ⟨bare_of_forall (by decide), by decide⟩
  have htcp6 : Bare "tcp6" ∧ "tcp6" ≠ "" := ⟨bare_of_forall (by decide), by decide⟩
  have hkind : Bare l.kind ∧ l.kind ≠ "" := by
    cases l with
    | ss => exact hlisten
    | netstat s v6 program =>
      cases v6 with
      | false => exact htcp
      | true => exact htcp6
  intro cell hcell
  unfold cells at hcell
  rw [List.mem_append] at hcell
  rcases hcell with hcell | hcell
  · simp only [List.mem_cons, List.not_mem_nil, or_false] at hcell
    rcases hcell with rfl | rfl | rfl | rfl
    · exact hkind
    · exact ⟨bare_repr _, hnum _⟩
    · exact ⟨bare_repr _, hnum _⟩
    · exact ⟨l.bare_localText, hcolon _ _⟩
  · cases l with
    | ss s device users =>
      cases users with
      | nil => cases hcell
      | cons u us =>
        obtain rfl := List.mem_singleton.mp hcell
        exact hpeer _ s.peer.bare_bracketed
    | netstat s v6 program =>
      simp only [List.mem_cons, List.not_mem_nil, or_false] at hcell
      rcases hcell with rfl | rfl
      · exact hpeer _ s.peer.bare_text
      · exact hlisten

end Listener

private theorem columns_append (cells : List (String × ℕ)) (s : String) :
    columns cells s = columns cells "" ++ s := by
  induction cells with
  | nil => simp [columns]
  | cons c cells ih =>
    have hcons : ∀ s, columns (c :: cells) s = c.1 ++ blanks (c.2 + 1) ++ columns cells s :=
      fun s => rfl
    rw [hcons, hcons, ih]
    simp only [String.append_assoc]

private theorem fields_columns {cells : List (String × ℕ)}
    (h : ∀ cell ∈ cells, Bare cell.1 ∧ cell.1 ≠ "")
    (s : String) : fields (columns cells s) = cells.map Prod.fst ++ fields s := by
  induction cells with
  | nil => rfl
  | cons c cells ih =>
    obtain ⟨⟨hbare, hne⟩, hcells⟩ := List.forall_mem_cons.mp h
    have hcons : columns (c :: cells) s = c.1 ++ blanks (c.2 + 1) ++ columns cells s := rfl
    rw [hcons, fields_column, fields_of_dark hne fun x hx => (hbare x hx).1, ih hcells]
    rfl

/-- What stands in the columns is in a cell, or a space between them. -/
theorem of_mem_columns {cells : List (String × ℕ)} {c : Char}
    (h : c ∈ (columns cells "").toList) : c = ' ' ∨ ∃ cell ∈ cells, c ∈ cell.1.toList := by
  induction cells with
  | nil => cases h
  | cons cell cells ih =>
    have hcons : columns (cell :: cells) "" =
        cell.1 ++ blanks (cell.2 + 1) ++ columns cells "" := rfl
    rw [hcons, String.toList_append, String.toList_append, toList_blanks, List.mem_append,
      List.mem_append] at h
    rcases h with (h | h) | h
    · exact .inr ⟨cell, List.mem_cons_self, h⟩
    · exact .inl (List.eq_of_mem_replicate h)
    · exact (ih h).imp_right fun ⟨cell', hmem, hc⟩ => ⟨cell', List.mem_cons_of_mem _ hmem, hc⟩

private theorem fields_pad (s : String) (n : ℕ) : fields (s ++ blanks n) = fields s := by
  cases n with
  | zero => rw [show blanks 0 = "" from rfl, String.append_empty]
  | succ n =>
    have h := fields_column s n ""
    rw [String.append_empty] at h
    rw [h]
    exact List.append_nil _

namespace Listener

private theorem fields_text (l : Listener) : fields l.text = l.cells.map Prod.fst ++
    fields l.final := by
  rw [text, fields_pad, fields_columns l.bare_cells]

private theorem quote_columns (l : Listener) : '"' ∉ (columns l.cells "").toList := by
  intro h
  rcases of_mem_columns h with h | ⟨cell, hcell, h⟩
  · exact absurd h (by decide)
  · exact ((l.bare_cells cell hcell).1 _ h).2 rfl

private theorem cut_text_of_not_mem (l : Listener) (h : '"' ∉ l.final.toList) :
    cut l.text "users:((\"" = none := by
  have hquote : '"' ∉ l.text.toList := by
    rw [text, columns_append]
    simp only [String.toList_append, toList_blanks, List.mem_append, not_or]
    exact ⟨⟨l.quote_columns, h⟩, fun hmem => absurd (List.eq_of_mem_replicate hmem) (by decide)⟩
  exact cut_eq_none (show '"' ∈ "users:((\"".toList by decide) hquote

end Listener

private theorem processOf_of_cut_eq_none {l : String} {f : List String}
    (h : cut l "users:((\"" = none) :
    processOf l f =
      label (if f.length ≥ 7 then ((cut (f.getLastD "") "/").map Prod.snd).getD "" else "") := by
  rw [processOf, h]
  rfl

private theorem exists_intercalate_users (u : User) (us : List User) :
    ∃ rest, "users:(" ++ ",".intercalate ((u :: us).map User.text) ++ ")" =
      "users:((\"" ++ (u.name ++ "\"" ++ rest) := by
  obtain ⟨tail, htail⟩ : ∃ tail, ",".intercalate ((u :: us).map User.text) = u.text ++ tail := by
    cases us with
    | nil => exact ⟨"", by simp⟩
    | cons v us => exact ⟨"," ++ ",".intercalate ((v :: us).map User.text), by
        simp [String.intercalate_cons_cons, String.append_assoc]⟩
  refine ⟨",pid=" ++ u.pid.repr ++ ",fd=" ++ u.fd.repr ++ ")" ++ tail ++ ")", ?_⟩
  have hopen : "users:(" ++ "(\"" = "users:((\"" := by decide
  have hclose : "\",pid=" = "\"" ++ ",pid=" := by decide
  rw [htail, User.text, ← hopen, hclose]
  simp only [String.append_assoc]

private theorem quote_phrase {s : String} {ws : List Word} (hs : '"' ∉ s.toList)
    (hws : ∀ w ∈ ws, '"' ∉ w.text.toList) : '"' ∉ (phrase s ws).toList := by
  induction ws generalizing s with
  | nil => exact hs
  | cons w ws ih =>
    obtain ⟨hw, hws⟩ := List.forall_mem_cons.mp hws
    refine ih ?_ hws
    simp [hs, hw]

/-- The process id with the first word of the name. -/
theorem Program.bare_first (p : Program) : Bare (p.pid.repr ++ "/" ++ p.name.text) :=
  ((bare_repr _).append (bare_of_forall (by decide))).append
    (Word.bare (p.quote _ List.mem_cons_self))

private theorem Program.quote_text (p : Program) : '"' ∉ p.text.toList :=
  quote_phrase (fun h => (p.bare_first _ h).2 rfl) (List.forall_mem_cons.mp p.quote).2

private theorem Program.fields_text (p : Program) :
    fields p.text = (p.pid.repr ++ "/" ++ p.name.text) :: p.title.map Word.text := by
  have hne : p.pid.repr ++ "/" ++ p.name.text ≠ "" := fun h => by
    simpa using congrArg String.toList h
  rw [text, fields_phrase, fields_of_dark hne fun c hc => (p.bare_first c hc).1]
  rfl

namespace Listener

variable (s : Socket) (device : Option Device) (v6 : Bool)

private theorem processOf_ss_nil : processOf (ss s device []).text (fields (ss s device []).text) =
    "" := by
  have hfinal : Bare (ss s device []).final :=
    s.peer.bare_bracketed.append (bare_of_forall (by decide))
  have hne : (ss s device []).final ≠ "" := fun h => by
    simpa [final] using congrArg String.toList h
  have hlen : ¬ (fields (ss s device []).text).length ≥ 7 := by
    rw [fields_text, fields_of_dark hne fun c hc => (hfinal c hc).1]
    simp [cells]
  have hcut := (ss s device []).cut_text_of_not_mem fun h => (hfinal _ h).2 rfl
  rw [processOf_of_cut_eq_none hcut, if_neg hlen]
  decide

private theorem processOf_ss_cons (u : User) (us : List User) :
    processOf (ss s device (u :: us)).text (fields (ss s device (u :: us)).text) =
      label u.name := by
  obtain ⟨rest, hrest⟩ := exists_intercalate_users u us
  have htext : (ss s device (u :: us)).text = columns (ss s device (u :: us)).cells "" ++
      ("users:((\"" ++ (u.name ++ "\"" ++ (rest ++ blanks (s.pad 6)))) := by
    rw [text, columns_append, final, hrest]
    simp only [String.append_assoc, socket]
  have hcut : cut (ss s device (u :: us)).text "users:((\"" = some
      (columns (ss s device (u :: us)).cells "", u.name ++ "\"" ++ (rest ++ blanks (s.pad 6))) := by
    have hsep : "users:((\"".toList = "users:((".toList ++ ['"'] := by decide
    rw [htext]
    exact cut_append_of_last hsep (by decide) (quote_columns _) _
  have hname : cut (u.name ++ "\"" ++ (rest ++ blanks (s.pad 6))) "\"" =
      some (u.name, rest ++ blanks (s.pad 6)) := cut_append rfl u.quote
  simp only [processOf, hcut, hname]
  rfl

private theorem processOf_netstat_none :
    processOf (netstat s v6 none).text (fields (netstat s v6 none).text) = "" := by
  have hquote : '"' ∉ (netstat s v6 none).final.toList := show '"' ∉ "-".toList by decide
  have hlast : fields (netstat s v6 none).text =
      (netstat s v6 none).cells.map Prod.fst ++ ["-"] := by
    rw [fields_text]
    exact congrArg _ (show fields "-" = ["-"] by decide)
  rw [processOf_of_cut_eq_none (cut_text_of_not_mem _ hquote), hlast, if_pos (by simp [cells]),
    List.getLastD_concat]
  decide

private theorem processOf_netstat_some (p : Program) :
    processOf (netstat s v6 (some p)).text (fields (netstat s v6 (some p)).text) =
      (netstat s v6 (some p)).told := by
  have hfields : fields (netstat s v6 (some p)).text = (netstat s v6 (some p)).cells.map Prod.fst ++
      (p.pid.repr ++ "/" ++ p.name.text) :: p.title.map Word.text := by
    rw [fields_text]
    exact congrArg _ p.fields_text
  have hcut := (netstat s v6 (some p)).cut_text_of_not_mem p.quote_text
  rw [processOf_of_cut_eq_none hcut, hfields, if_pos (by simp [cells])]
  cases htitle : p.title using List.reverseRecOn with
  | nil =>
    have hslash : '/' ∉ p.pid.repr.toList := fun h => by
      rw [Nat.toList_repr] at h
      exact absurd (Nat.isDigit_of_mem_toDigits (by decide) (by decide) h) (by decide)
    have hlast : cut (p.pid.repr ++ "/" ++ p.name.text) "/" = some (p.pid.repr, p.name.text) :=
      cut_append rfl hslash
    rw [List.map_nil, List.getLastD_concat, hlast, told, htitle]
    rfl
  | append_singleton ws w =>
    rw [List.map_append, List.map_singleton, ← List.cons_append, ← List.append_assoc,
      List.getLastD_concat, told, htitle, List.getLast?_concat]

private theorem processOf_text (l : Listener) : processOf l.text (fields l.text) = l.told := by
  cases l with
  | ss s device users =>
    cases users with
    | nil => exact processOf_ss_nil s device
    | cons u us => exact processOf_ss_cons s device u us
  | netstat s v6 program =>
    cases program with
    | none => exact processOf_netstat_none s v6
    | some p => exact processOf_netstat_some s v6 p

end Listener

/-! ### The address of a line -/

/-- A character that the host is trimmed of. -/
def isBracket (c : Char) : Bool := c ∈ ['[', ']']

private theorem trim_brackets {s : String} {pre t rest : List Char}
    (hs : s.toList = pre ++ (t ++ rest))
    (hpre : ∀ c ∈ pre, isBracket c = true) (hne : t ≠ []) (ht : ∀ c ∈ t, isBracket c = false) :
    (trim s "[]").toList = t ++ rest.rdropWhile isBracket := by
  have hdrop : s.toList.dropWhile isBracket = t ++ rest := by
    obtain ⟨x, r, rfl⟩ := List.exists_cons_of_ne_nil hne
    have hx : ¬ isBracket x = true := by simp [ht x List.mem_cons_self]
    rw [hs, List.dropWhile_append_of_pos hpre, List.cons_append, List.dropWhile_cons_of_neg hx]
  have htrim : (trim s "[]").toList = (s.toList.dropWhile isBracket).rdropWhile isBracket := by
    rw [trim, trimRight, String.toList_ofList, String.toList_ofList, String.toList_ofList]
    rfl
  rw [htrim, hdrop]
  obtain ⟨r, y, rfl⟩ : ∃ r y, t = r ++ [y] :=
    ⟨_, _, (List.dropLast_append_getLast hne).symm⟩
  have hy : isBracket y = false := ht y (by simp)
  rw [List.append_assoc, List.singleton_append, rdropWhile_append_of_neg hy]
  simp

private theorem Address.text_bracketless (h : Address) :
    h.text.toList ≠ [] ∧ ∀ c ∈ h.text.toList, isBracket c = false := by
  cases h with
  | any => exact ⟨by decide, List.all_iff_forall_prop.mp (by decide)⟩
  | ip text bytes parses =>
    refine ⟨fun hnil => ?_, fun c hc => ?_⟩
    · obtain rfl : text = "" := String.toList_eq_nil_iff.mp hnil
      cases parses
    · have hchar := isAddressChar_of_parseIP parses c hc
      rw [Bool.eq_false_iff]
      intro hb
      have hopen : c = '[' ∨ c = ']' := by simpa [isBracket] using hb
      rcases hopen with rfl | rfl <;> exact absurd hchar (by simp only [IsAddressChar]; decide)

/-- What stands behind the host after the brackets are trimmed: the interface. -/
theorem Listener.exists_trim_hostText (l : Listener) :
    ∃ tail, (trim l.hostText "[]").toList = l.socket.host.text.toList ++ tail ∧
      (tail = [] ↔ l.device = none) ∧ ∀ c r, tail = c :: r → c = ']' ∨ c = '%' := by
  obtain ⟨hne, hbracket⟩ := l.socket.host.text_bracketless
  cases l with
  | netstat s v6 program =>
    have htext : s.host.text.toList = [] ++ (s.host.text.toList ++ []) := by simp
    refine ⟨[], ?_, by simp [device], by simp⟩
    exact trim_brackets htext (by simp) hne hbracket
  | ss s device users =>
    obtain ⟨pre, post, htext, hpre, hpost⟩ : ∃ pre post,
        s.host.bracketed.toList = pre ++ (s.host.text.toList ++ post) ∧
          (∀ c ∈ pre, isBracket c = true) ∧ (post = [] ∨ post = [']']) := by
      cases s.host with
      | any => exact ⟨[], [], rfl, by simp, .inl rfl⟩
      | ip text bytes parses =>
        simp only [Address.bracketed, Address.text]
        split
        · exact ⟨['['], [']'], by simp, List.all_iff_forall_prop.mp (by decide), .inr rfl⟩
        · exact ⟨[], [], by simp, by simp, .inl rfl⟩
    cases device with
    | none =>
      have hhost : (ss s none users).hostText.toList = pre ++ (s.host.text.toList ++ post) := by
        rw [← htext]
        simp [hostText]
      have htail : post.rdropWhile isBracket = [] := by
        rcases hpost with rfl | rfl <;> decide
      refine ⟨[], ?_, by simp [Listener.device], by simp⟩
      rw [trim_brackets hhost hpre hne hbracket, htail]
      rfl
    | some d =>
      have hhost : (ss s (some d) users).hostText.toList =
          pre ++ (s.host.text.toList ++ (post ++ '%' :: d.name.text.toList)) := by
        simp [hostText, htext]
      have htail : (post ++ '%' :: d.name.text.toList).rdropWhile isBracket =
          post ++ '%' :: d.name.text.toList.rdropWhile isBracket :=
        rdropWhile_append_of_neg (by decide : isBracket '%' = false) _ _
      refine ⟨_, trim_brackets hhost hpre hne hbracket, ?_, ?_⟩
      · simp [htail, Listener.device]
      · rintro c r hcr
        rw [htail] at hcr
        rcases hpost with rfl | rfl
        · exact .inr (List.cons.inj hcr).1.symm
        · exact .inl (List.cons.inj hcr).1.symm

/-- A beginning of a text that does not go on with one of its characters is one of the text. -/
theorem prefix_of_prefix_append {p t tail : List Char} (h : p <+: t ++ tail)
    (htail : ∀ c r, tail = c :: r → c ∉ p) : p <+: t := by
  rcases List.prefix_or_prefix_of_prefix h (List.prefix_append t tail) with hp | ⟨u, rfl⟩
  · exact hp
  · cases u with
    | nil => simp
    | cons x u =>
      obtain ⟨r, hr⟩ := (List.prefix_append_right_inj t).mp h
      exact absurd (List.mem_append_right t List.mem_cons_self) (htail x (u ++ r) hr.symm)

private theorem Listener.isPublic_trim (l : Listener) :
    (!(trim l.hostText "[]" = "127.0.0.1" || trim l.hostText "[]" = "::1" ||
      hasPrefix (trim l.hostText "[]") "127.")) = !l.writtenLoopback := by
  obtain ⟨tail, htrim, hnil, hhead⟩ := l.exists_trim_hostText
  have hprefix : hasPrefix (trim l.hostText "[]") "127." = true ↔
      hasPrefix l.socket.host.text "127." = true := by
    rw [hasPrefix, hasPrefix, List.isPrefixOf_iff_prefix, List.isPrefixOf_iff_prefix, htrim]
    refine ⟨fun h => prefix_of_prefix_append h fun c r hcr => ?_,
      fun h => h.trans (List.prefix_append _ _)⟩
    rcases hhead c r hcr with rfl | rfl <;> decide
  have hlocal : trim l.hostText "[]" = "127.0.0.1" → hasPrefix l.socket.host.text "127." = true :=
    fun h => hprefix.mp (by rw [h]; decide)
  have hone : trim l.hostText "[]" = "::1" ↔ l.socket.host.text = "::1" ∧ l.device = none := by
    rw [← String.toList_inj, htrim, ← String.toList_inj, ← hnil]
    constructor
    · intro h
      cases tail with
      | nil => exact ⟨by simpa using h, rfl⟩
      | cons c r =>
        have hmem : c ∈ "::1".toList := h ▸ by simp
        rcases hhead c r rfl with rfl | rfl <;> exact absurd hmem (by decide)
    · rintro ⟨h, rfl⟩
      rw [h, List.append_nil]
  rw [Bool.not_inj_iff, Bool.eq_iff_iff, writtenLoopback]
  simp only [Bool.or_eq_true, Bool.and_eq_true, decide_eq_true_eq, Option.isNone_iff_eq_none, hone,
    hprefix]
  constructor
  · rintro ((h | h) | h)
    · exact .inl (hlocal h)
    · exact .inr h
    · exact .inl h
  · exact fun h => h.elim .inr fun h => .inl (.inr h)

private theorem Listener.parsePort_text (l : Listener) : parsePort l.text = some l.entry := by
  have hlocal : (fields l.text).getD 3 "" = l.localText := by
    rw [l.fields_text]
    rfl
  have hlen : ¬ (fields l.text).length < 4 := by
    rw [l.fields_text]
    simp [cells]
  have hcolon : ':' ∉ l.socket.port.repr.toList := fun h => by
    rw [Nat.toList_repr] at h
    exact absurd (Nat.isDigit_of_mem_toDigits (by decide) (by decide) h) (by decide)
  have hcut : cutLast l.localText ':' = some (l.hostText, l.socket.port.repr) :=
    cutLast_append rfl hcolon
  have hport : atoi l.socket.port.repr = some (l.socket.port : ℤ) :=
    atoi_repr (lt_trans l.socket.bound (by decide))
  have hpublic := l.isPublic_trim
  simp only [parsePort, if_neg hlen, hlocal, hcut, Option.bind_some, hport, Option.map_some,
    l.processOf_text, hpublic]
  rfl

/-- What a port is told apart by. -/
def Port.key (p : Port) : ℤ × String := (p.port, p.process)

private theorem parsePorts_eq (lines : List String) :
    parsePorts lines = MergeBy.appendMissing Port.key [] (lines.filterMap parsePort) := by
  rw [parsePorts, MergeBy.appendMissing]
  congr 1
  funext ports p
  simp [MergeBy.addMissing, Port.key]

/-! ### Every section can be printed -/

private theorem trimRight_pad {s : String} (h : EndsDark s) (n : ℕ) :
    trimRight (s ++ blanks n) "\r" = s ++ blanks n := by
  cases n with
  | zero =>
    rw [show blanks 0 = "" from rfl, String.append_empty]
    exact trimRight_of_endsDark h
  | succ n =>
    have hlist : (s ++ blanks (n + 1)).toList = s.toList ++ List.replicate n ' ' ++ [' '] := by
      rw [String.toList_append, toList_blanks, List.replicate_succ', List.append_assoc]
    rw [trimRight, hlist, List.rdropWhile_concat_neg _ _ _ (by decide), ← hlist,
      String.ofList_toList]

namespace Listener

private theorem endsDark_final (l : Listener) : EndsDark l.final := by
  cases l with
  | ss s device users =>
    cases users with
    | nil => exact EndsDark.append ⟨[':'], '*', by decide, by decide⟩ _
    | cons u us => exact EndsDark.append ⟨[], ')', by decide, by decide⟩ _
  | netstat s v6 program =>
    cases program with
    | none => exact ⟨[], '-', show "-".toList = ['-'] by decide, by decide⟩
    | some p => exact endsDark_phrase (p.name.endsDark.append _) p.title

private theorem newline_final (l : Listener) : '\n' ∉ l.final.toList := by
  have hnewline : ∀ {s}, Bare s → '\n' ∉ s.toList := fun hs h => absurd (hs _ h).1 (by decide)
  cases l with
  | ss s device users =>
    cases users with
    | nil => exact hnewline (s.peer.bare_bracketed.append (bare_of_forall (by decide)))
    | cons u us =>
      have husers : '\n' ∉ (",".intercalate ((u :: us).map User.text)).toList := by
        refine not_mem_intercalate (by decide) fun s hs => ?_
        obtain ⟨v, -, rfl⟩ := List.mem_map.mp hs
        have hpid := hnewline (bare_repr v.pid)
        have hfd := hnewline (bare_repr v.fd)
        simp only [User.text, String.toList_append, List.mem_append, not_or]
        exact ⟨⟨⟨⟨⟨⟨by decide, v.newline⟩, by decide⟩, hpid⟩, by decide⟩, hfd⟩, by decide⟩
      simp only [final, String.toList_append, List.mem_append, not_or]
      exact ⟨⟨by decide, husers⟩, by decide⟩
  | netstat s v6 program =>
    cases program with
    | none => exact show '\n' ∉ "-".toList by decide
    | some p => exact not_mem_phrase (by decide) (by decide) (hnewline p.bare_first) p.title

private theorem kept_text (l : Listener) : KeptLine l.text := by
  obtain ⟨rest, hrest⟩ : ∃ rest, l.text = l.kind ++ rest := by
    refine ⟨blanks (l.socket.pad 0 + 1) ++ columns l.cells.tail l.final ++
      blanks (l.socket.pad 6), ?_⟩
    have hcons : columns l.cells l.final =
        l.kind ++ blanks (l.socket.pad 0 + 1) ++ columns l.cells.tail l.final := rfl
    rw [text, hcons]
    simp only [String.append_assoc]
  obtain ⟨x, r, hkind, hx⟩ : ∃ x r, l.kind.toList = x :: r ∧ isSpace x = false ∧ x ≠ '@' := by
    cases l with
    | ss => exact ⟨'L', "ISTEN".toList, show "LISTEN".toList = _ by decide, by decide⟩
    | netstat s v6 program =>
      cases v6 with
      | false => exact ⟨'t', "cp".toList, show "tcp".toList = _ by decide, by decide⟩
      | true => exact ⟨'t', "cp6".toList, show "tcp6".toList = _ by decide, by decide⟩
  have hlist : l.text.toList = x :: (r ++ rest.toList) := by
    rw [hrest, String.toList_append, hkind, List.cons_append]
  refine ⟨?_, ?_, ⟨x, by rw [hlist]; exact List.mem_cons_self, hx.1⟩, ?_⟩
  · rw [text, columns_append]
    simp only [String.toList_append, toList_blanks, List.mem_append, not_or]
    refine ⟨⟨fun h => ?_, l.newline_final⟩,
      fun h => absurd (List.eq_of_mem_replicate h) (by decide)⟩
    rcases of_mem_columns h with h | ⟨cell, hcell, h⟩
    · exact absurd h (by decide)
    · exact absurd ((l.bare_cells cell hcell).1 _ h).1 (by decide)
  · rw [text, columns_append]
    exact trimRight_pad (l.endsDark_final.append _) _
  · rw [hasPrefix, hlist, Bool.eq_false_iff, ne_eq, List.isPrefixOf_iff_prefix]
    intro hprefix
    exact hx.2 (List.cons_prefix_cons.mp hprefix).1.symm

end Listener

private theorem exists_showsPorts (ls : List Listener) : ∃ out, ShowsPorts out ls := by
  refine ⟨_, linesOf_printed ⟨"ports", by decide, List.all_iff_forall_prop.mp (by decide)⟩ (by
    decide) ?_⟩
  intro l hl
  obtain ⟨l', -, rfl⟩ := List.mem_map.mp hl
  exact l'.kept_text

section

variable {ls ls' : List Listener} {out : String} {k : ℤ × String}

theorem ShowsPorts.ports (h : ShowsPorts out ls) :
    (parse out).ports = MergeBy.appendMissing Port.key [] (ls.map Listener.entry) := by
  have hread : (ls.map Listener.text).filterMap parsePort = ls.map Listener.entry := by
    rw [List.filterMap_map, show parsePort ∘ Listener.text = fun l => some l.entry from
      funext Listener.parsePort_text]
    exact congrFun List.filterMap_eq_map' ls
  rw [← hread, ← h, ← parsePorts_eq]
  rfl

private theorem mem_toldOn {loopback : Bool} :
    k ∈ toldOn ls loopback ↔ ∃ l ∈ ls, l.entry.triple = (k, !loopback) := by
  rw [toldOn, List.mem_toFinset, List.mem_map]
  constructor
  · rintro ⟨l, hl, rfl⟩
    obtain ⟨hmem, hwritten⟩ := List.mem_filter.mp hl
    exact ⟨l, hmem, by rw [← of_decide_eq_true hwritten]; rfl⟩
  · rintro ⟨l, hl, hkb⟩
    obtain ⟨hkey, hpublic⟩ := Prod.mk.inj hkb
    have hwritten : l.writtenLoopback = loopback := Bool.not_inj hpublic
    exact ⟨l, List.mem_filter.mpr ⟨hl, decide_eq_true hwritten⟩, hkey⟩

private theorem ShowsPorts.exists_of_mem (h : ShowsPorts out ls) {b : Bool}
    (hk : (k, b) ∈ triples out) :
    ∃ l ∈ ls, l.entry.triple = (k, b) := by
  obtain ⟨p, hp, hkb⟩ := List.mem_map.mp (List.mem_toFinset.mp hk)
  rw [h.ports] at hp
  rcases MergeBy.mem_of_mem_appendMissing hp with hp | hp
  · cases hp
  · obtain ⟨l, hl, rfl⟩ := List.mem_map.mp hp
    exact ⟨l, hl, hkb⟩

/-- A port is public or not. -/
theorem ShowsPorts.not_both (h : ShowsPorts out ls) (hk : (k, true) ∈ triples out) :
    (k, false) ∉ triples out := by
  intro hk'
  have hnodup : ((parse out).ports.map Port.key).Nodup := by
    rw [h.ports]
    exact MergeBy.nodup_map_appendMissing List.nodup_nil
  obtain ⟨p, hp, hkp⟩ := List.mem_map.mp (List.mem_toFinset.mp hk)
  obtain ⟨q, hq, hkq⟩ := List.mem_map.mp (List.mem_toFinset.mp hk')
  have hkey : p.key = q.key := (Prod.mk.inj hkp).1.trans (Prod.mk.inj hkq).1.symm
  obtain rfl := List.inj_on_of_nodup_map hnodup hp hq hkey
  exact absurd ((Prod.mk.inj hkp).2.symm.trans (Prod.mk.inj hkq).2) (by decide)

/-- The first line of a section is kept. -/
theorem ShowsPorts.head {l : Listener} (h : ShowsPorts out (l :: ls)) :
    l.entry.triple ∈ triples out := by
  have hmem : l.entry ∈ (parse out).ports := by
    rw [h.ports, List.map_cons, MergeBy.appendMissing_cons]
    exact MergeBy.mem_appendMissing_of_mem (by simp [MergeBy.addMissing])
  exact List.mem_toFinset.mpr (List.mem_map_of_mem hmem)

/-- When the lines of a port and process agree, every one of them is told. -/
theorem ShowsPorts.mem_triples_iff (h : ShowsPorts out ls)
    (hd : Disjoint (toldOn ls false) (toldOn ls true)) {b : Bool} :
    (k, b) ∈ triples out ↔ ∃ l ∈ ls, l.entry.triple = (k, b) := by
  refine ⟨h.exists_of_mem, ?_⟩
  rintro ⟨l, hl, hkb⟩
  have hcover : ∃ p ∈ (parse out).ports, p.key = l.entry.key := by
    rw [h.ports]
    exact MergeBy.exists_mem_appendMissing (List.mem_map_of_mem hl)
  obtain ⟨p, hp, hkey⟩ := hcover
  have hpk : p.triple = (k, p.isPublic) := Prod.ext (hkey.trans (Prod.mk.inj hkb).1) rfl
  have hmem : (k, p.isPublic) ∈ triples out :=
    List.mem_toFinset.mpr (hpk ▸ List.mem_map_of_mem hp)
  obtain ⟨l', hl', hkb'⟩ := h.exists_of_mem hmem
  have hsame : p.isPublic = b := by
    by_contra hne
    have hboth : ∀ c, ∃ l ∈ ls, l.entry.triple = (k, c) := fun c => by
      by_cases hc : c = b
      · exact hc ▸ ⟨l, hl, hkb⟩
      · have hother : c = p.isPublic :=
          (Bool.eq_not_of_ne hc).trans (Bool.eq_not_of_ne hne).symm
        exact hother ▸ ⟨l', hl', hkb'⟩
    exact Finset.disjoint_left.mp hd (mem_toldOn.mpr (hboth _)) (mem_toldOn.mpr (hboth _))
  exact hsame ▸ hmem

private theorem countP_eq_card (h : ShowsPorts out ls)
    (hd : Disjoint (toldOn ls false) (toldOn ls true)) :
    (parse out).ports.countP (·.isPublic) = (toldOn ls false).card := by
  have hnodup : (((parse out).ports.filter (·.isPublic)).map Port.key).Nodup := by
    have hall : ((parse out).ports.map Port.key).Nodup := by
      rw [h.ports]
      exact MergeBy.nodup_map_appendMissing List.nodup_nil
    exact hall.sublist (List.filter_sublist.map _)
  have hset :
      (((parse out).ports.filter (·.isPublic)).map Port.key).toFinset = toldOn ls false := by
    ext k
    have hmem : k ∈ toldOn ls false ↔ (k, true) ∈ triples out := by
      rw [h.mem_triples_iff hd, mem_toldOn]
      rfl
    rw [hmem, triples, List.mem_toFinset, List.mem_toFinset, List.mem_map, List.mem_map]
    constructor
    · rintro ⟨p, hp, rfl⟩
      obtain ⟨hp, hpublic⟩ := List.mem_filter.mp hp
      exact ⟨p, hp, Prod.ext rfl hpublic⟩
    · rintro ⟨p, hp, hk⟩
      obtain ⟨hkey, hpublic⟩ := Prod.mk.inj hk
      exact ⟨p, List.mem_filter.mpr ⟨hp, hpublic⟩, hkey⟩
  rw [List.countP_eq_length_filter, ← hset, List.toFinset_card_of_nodup hnodup, List.length_map]

private theorem exposedPortsCheck_sub {m : Machine} (h : m.ports ≠ []) : (exposedPortsCheck m).sub =
    toString (m.ports.countP (·.isPublic)) ++ " port(s) listening on all interfaces" := by
  simp [exposedPortsCheck, h]

private theorem exposedPortsCheck_status {m : Machine} (h : m.ports ≠ []) :
    (exposedPortsCheck m).status =
    if m.ports.countP (·.isPublic) ≤ 3 then .ok else .warn := by
  have hempty : m.ports.isEmpty = false := List.isEmpty_eq_false_iff.mpr h
  simp only [exposedPortsCheck, statusOf, hempty, Bool.false_eq_true, if_false, decide_eq_true_eq]
  split_ifs with h1 h2
  · rfl
  · rfl
  · omega

private theorem ShowsPorts.ports_ne_nil (h : ShowsPorts out ls) (hls : ls ≠ []) :
    (parse out).ports ≠ [] := by
  obtain ⟨l, ls, rfl⟩ := List.exists_cons_of_ne_nil hls
  intro hnil
  have hhead := h.head
  rw [triples, hnil] at hhead
  cases List.mem_toFinset.mp hhead

private theorem Exposes.disjoint (h : Exposes ls) : Disjoint (toldOn ls false)
    (toldOn ls true) := by
  rw [Finset.disjoint_left]
  intro k hk hk'
  obtain ⟨out, hout⟩ := exists_showsPorts ls
  -- the port is public or not as the first line says
  have hfirst : ∀ {b}, (∃ l ∈ ls, l.entry.triple = (k, b)) → (k, b) ∈ triples out := by
    rintro b ⟨l, hl, hkb⟩
    obtain ⟨a, c, rfl⟩ := List.append_of_mem hl
    obtain ⟨out', hout'⟩ := exists_showsPorts (l :: (a ++ c))
    rw [← h.order out out' _ hout hout' List.perm_middle.symm, ← hkb]
    exact hout'.head
  exact hout.not_both (hfirst (mem_toldOn.mp hk)) (hfirst (mem_toldOn.mp hk'))

/-- **Exposed ports.** The ports that are public are the ones shown, in whatever order the lines
come, exactly when the ports and processes that lines of no written loopback address are told by are
the ones shown on public addresses, and no line of a written loopback address is told by one. -/
theorem exposes_iff (ls : List Listener) : Exposes ls ↔
    shownPublic ls = toldOn ls false ∧ Disjoint (toldOn ls false) (toldOn ls true) := by
  obtain ⟨out, hout⟩ := exists_showsPorts ls
  constructor
  · intro h
    have hd := h.disjoint
    have hsub : shownPublic ls ⊆ toldOn ls false := fun k hk =>
      mem_toldOn.mpr (hout.exists_of_mem (h.entry out hout k hk))
    refine ⟨?_, hd⟩
    by_cases hls : ls = []
    · subst hls
      rfl
    · have hcheck := (h.check out hout hls).1
      rw [exposedPortsCheck_sub (hout.ports_ne_nil hls), String.append_left_inj,
        countP_eq_card hout hd] at hcheck
      exact Finset.eq_of_subset_of_card_le hsub (repr_inj hcheck).le
  · rintro ⟨heq, hd⟩
    refine ⟨fun out hout k hk => ?_, fun out out' ls' hout hout' hperm => ?_,
      fun out hout hls => ?_⟩
    · rw [hout.mem_triples_iff hd]
      exact mem_toldOn.mp (heq ▸ hk)
    · have htold : ∀ b, toldOn ls' b = toldOn ls b := fun b => by
        ext k
        rw [mem_toldOn, mem_toldOn]
        simp only [hperm.mem_iff]
      have hd' : Disjoint (toldOn ls' false) (toldOn ls' true) := by rwa [htold, htold]
      ext ⟨k, b⟩
      rw [hout.mem_triples_iff hd, hout'.mem_triples_iff hd']
      simp only [hperm.mem_iff]
    · have hports := hout.ports_ne_nil hls
      rw [exposedPortsCheck_sub hports, exposedPortsCheck_status hports, countP_eq_card hout hd,
        heq]
      exact ⟨rfl, rfl⟩

/-- A database listens on the loopback address first, then on the network. -/
def postgres (text : String) (bytes : IP) (parses : parseIP text = some bytes) : Listener :=
  .ss { received := 0, backlog := 244, host := .ip text bytes parses, port := 5432,
        bound := by decide, peer := .any, pad := fun _ => 0 } none
    [{ name := "postgres", quote := by decide, newline := by decide, pid := 812, fd := 7 }]

/-- A database that listens on the loopback address and, in the line below, on one of the network.
-/
def loopbackFirst : List Listener :=
  [postgres "127.0.0.1" (List.replicate 10 0 ++ [255, 255, 127, 0, 0, 1]) (by decide +kernel),
    postgres "192.168.1.5" (List.replicate 10 0 ++ [255, 255, 192, 168, 1, 5]) (by decide +kernel)]

/-- The address on the network is not shown. -/
theorem not_exposes_loopbackFirst : ¬ Exposes loopbackFirst := by
  intro h
  obtain ⟨out, hout⟩ := exists_showsPorts loopbackFirst
  have hshown : ((5432 : ℤ), "postgres") ∈ shownPublic loopbackFirst := by decide +kernel
  have hhead : (((5432 : ℤ), "postgres"), false) ∈ triples out := hout.head
  exact hout.not_both (h.entry out hout _ hshown) hhead

end

end Dockhand.Machines
