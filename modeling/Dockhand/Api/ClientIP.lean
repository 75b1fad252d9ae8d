import Dockhand.Auth.Limiter
import Dockhand.Go.Net

/-!
# The address of the caller

`clientIP` keys the limiter of failed sign-ins. From a peer that is neither loopback nor private it
takes the peer's own address. Every other peer may be a reverse proxy, so it walks through
X-Forwarded-For from the end and passes over what is loopback or private itself. What a proxy has
appended for a client of the local network is passed over too, and with it the walk gets to what the
client has sent: `not_honestKey`.

A header can have several lines, and `Header.Get` reads the first one only. A proxy that leaves the
lines it gets as they are and puts the address behind them is not heard. So the walk ends at the
appended address for clients of the Internet behind a proxy that joins the lines: `honestKey_iff`.
-/

namespace Dockhand.Api

open Go

/-- What `clientIP` reads of a request: the peer and the lines of X-Forwarded-For and X-Real-IP. -/
structure Request where
  remoteAddr : String
  forwardedFor : List String
  realIP : List String
  deriving DecidableEq

/-- `Header.Get` of the lines of a header: the first one, or an empty string when it is absent. -/
def headerGet (lines : List String) : String := lines.headD ""

/-- An address that may be a proxy's. -/
def trusted (ip : IP) : Bool := ip.isLoopback || ip.isPrivate

/-- The host of `r.RemoteAddr`, or all of it. -/
def peerHost (remoteAddr : String) : String :=
  match splitHostPort remoteAddr with
  | none => remoteAddr
  | some (host, _) => host

/-- The peer of the connection is loopback or private. -/
def trustedPeer (remoteAddr : String) : Bool := (parseIP (peerHost remoteAddr)).any trusted

/-- The loop over the parts of X-Forwarded-For, the last one first. -/
def walk : List String → Option String
  | [] => none
  | part :: before =>
    let p := trimSpace part
    match parseIP p with
    | none => walk before
    | some pip => if ¬ trusted pip ∨ before = [] then some p else walk before

/-- The caller's address, trusting X-Forwarded-For only from private proxies. -/
def clientIP (r : Request) : String :=
  let host := peerHost r.remoteAddr
  let xff := headerGet r.forwardedFor
  if trustedPeer r.remoteAddr then
    match if xff = "" then none else walk (splitChar xff ',').reverse with
    | some p => p
    | none =>
      let xr := trimSpace (headerGet r.realIP)
      if xr ≠ "" ∧ (parseIP xr).isSome then xr else host
  else host

/-- The attempt to sign in that the limiter sees. -/
def attempt (r : Request) (door : Auth.Door) (outcome : Auth.Outcome) : Auth.Attempt :=
  { door := door, ip := clientIP r, outcome := outcome }

/-! ### Behind a proxy -/

/-- The address of a client as the proxy writes it. -/
structure Client where
  text : String
  ip : IP
  parses : parseIP text = some ip

/-- The lines of the two headers that a client sends itself. -/
structure Sent where
  forwardedFor : List String
  realIP : List String

/-- The way in which a proxy appends an address to X-Forwarded-For. -/
inductive Proxy
  /-- The lines it gets and the address are joined into one line. -/
  | joins
  /-- The address ends the last of the lines. -/
  | extendsLast
  /-- The address is a line of its own behind the others. -/
  | addsLine
  deriving DecidableEq

/-- X-Forwarded-For as the proxy sends it on. -/
def Proxy.append : Proxy → List String → String → List String
  | .joins, lines, addr => [", ".intercalate (lines ++ [addr])]
  | .extendsLast, lines, addr =>
    match lines.getLast? with
    | none => [addr]
    | some line => lines.dropLast ++ [line ++ ", " ++ addr]
  | .addsLine, lines, addr => lines ++ [addr]

/-- What arrives through a proxy that appends the client's address to X-Forwarded-For. -/
def forward (proxy : Proxy) (remoteAddr : String) (client : Client) (sent : Sent) : Request where
  remoteAddr := remoteAddr
  forwardedFor := proxy.append sent.forwardedFor client.text
  realIP := sent.realIP

/-- The key of the limiter cannot be forged over a peer: what the client sends does not change it,
and a peer that is not private or loopback stands for itself. -/
structure HonestKey (proxy : Proxy) (remoteAddr : String) (client : Client) : Prop where
  forwarded : trustedPeer remoteAddr = true → ∀ sent sent' door outcome,
    clientIP (forward proxy remoteAddr client sent) =
        clientIP (forward proxy remoteAddr client sent') ∧
      (attempt (forward proxy remoteAddr client sent) door outcome).key =
        (attempt (forward proxy remoteAddr client sent') door outcome).key
  direct : trustedPeer remoteAddr = false → ∀ r : Request, r.remoteAddr = remoteAddr →
    clientIP r = peerHost remoteAddr

namespace Client

variable (client : Client)

private theorem not_mem_comma : ',' ∉ client.text.toList := fun h =>
  not_isAddressChar_comma (isAddressChar_of_parseIP client.parses ',' h)

private theorem text_ne_empty : client.text ≠ "" := by
  intro h
  have hparses := client.parses
  rw [h] at hparses
  cases hparses

private theorem trimSpace_text : trimSpace client.text = client.text :=
  trimSpace_of_forall fun c hc => (isAddressChar_of_parseIP client.parses c hc).not_isSpace

/-- The walk begins at the client's address. It ends there unless the address may be a proxy's and
something stands before it. -/
theorem walk_cons {part : String} (hpart : trimSpace part = client.text) (before : List String) :
    walk (part :: before) =
      if ¬ trusted client.ip ∨ before = [] then some client.text else walk before := by
  simp only [walk, hpart, client.parses]

/-- What the walk through the appended header gives. -/
theorem walk_appended (s : String) :
    walk (splitChar (s ++ ", " ++ client.text) ',').reverse =
      if ¬ trusted client.ip then some client.text else walk (splitChar s ',').reverse := by
  have hassoc : s ++ ", " ++ client.text = s ++ "," ++ (" " ++ client.text) := by
    apply String.toList_injective
    simp
  have hcomma : ',' ∉ (" " ++ client.text).toList := by
    simpa using client.not_mem_comma
  have hparts : (splitChar s ',').reverse ≠ [] := by
    simp [splitChar, List.splitOn_ne_nil]
  rw [hassoc, Go.splitChar_append rfl hcomma, List.reverse_append, List.reverse_singleton,
    List.singleton_append,
    client.walk_cons (by rw [trimSpace_space_append, client.trimSpace_text])]
  simp only [hparts, or_false]

/-- Nothing stands before the address when the client has sent no header. -/
theorem walk_alone : walk (splitChar client.text ',').reverse = some client.text := by
  rw [splitChar, List.splitOn_eq_singleton client.not_mem_comma, List.map_singleton,
    String.ofList_toList, List.reverse_singleton, client.walk_cons client.trimSpace_text,
    if_pos (Or.inr rfl)]

end Client

/-- One line that ends in the address: nothing stands before it when the client has sent none. -/
private theorem intercalate_append_singleton (lines : List String) (addr : String) :
    ", ".intercalate (lines ++ [addr]) =
      if lines = [] then addr else ", ".intercalate lines ++ ", " ++ addr := by
  induction lines with
  | nil => simp
  | cons line lines ih =>
    cases lines with
    | nil => simp
    | cons line' lines =>
      simp only [List.cons_append, String.intercalate_cons_cons] at ih ⊢
      rw [ih, if_neg (List.cons_ne_nil _ _), if_neg (List.cons_ne_nil _ _)]
      simp only [String.append_assoc]

variable {proxy : Proxy} {remoteAddr : String} {client : Client}

/-- The request of a trusted peer is keyed by what the walk through the first line finds. -/
theorem clientIP_of_walk {r : Request} {line p : String} (hpeer : trustedPeer r.remoteAddr = true)
    (hline : headerGet r.forwardedFor = line) (hne : line ≠ "")
    (hwalk : walk (splitChar line ',').reverse = some p) : clientIP r = p := by
  simp only [clientIP, hpeer, hline, hne, hwalk, if_true, if_false]

/-- A client of the Internet is its own key when the proxy joins the lines. -/
theorem clientIP_forward_of_public (hpeer : trustedPeer remoteAddr = true)
    (hclient : trusted client.ip = false) (sent : Sent) :
    clientIP (forward .joins remoteAddr client sent) = client.text := by
  have hline : headerGet (forward .joins remoteAddr client sent).forwardedFor = _ :=
    intercalate_append_singleton sent.forwardedFor client.text
  by_cases hlines : sent.forwardedFor = []
  · rw [if_pos hlines] at hline
    exact clientIP_of_walk hpeer hline client.text_ne_empty client.walk_alone
  · rw [if_neg hlines] at hline
    refine clientIP_of_walk hpeer hline (fun h => client.text_ne_empty
      (String.append_eq_empty_iff.mp h).2) ?_
    simp [client.walk_appended, hclient]

/-- A client of the local network is what it says it is. -/
theorem clientIP_forward_of_private (hpeer : trustedPeer remoteAddr = true)
    (hclient : trusted client.ip = true) (forged : Client) (realIP : List String) :
    clientIP (forward .joins remoteAddr client { forwardedFor := [forged.text], realIP }) =
      forged.text := by
  have hline : headerGet (forward .joins remoteAddr client
      { forwardedFor := [forged.text], realIP }).forwardedFor = _ :=
    intercalate_append_singleton [forged.text] client.text
  rw [if_neg (List.cons_ne_nil _ _), String.intercalate_singleton] at hline
  refine clientIP_of_walk hpeer hline (fun h => client.text_ne_empty
    (String.append_eq_empty_iff.mp h).2) ?_
  simp [client.walk_appended, hclient, forged.walk_alone]

/-- Behind a proxy that does not join the lines, every client is what its first line says it is. -/
theorem clientIP_forward_of_lines (hpeer : trustedPeer remoteAddr = true) (hproxy : proxy ≠ .joins)
    (forged : Client) (realIP : List String) :
    clientIP (forward proxy remoteAddr client
      { forwardedFor := [forged.text, forged.text], realIP }) = forged.text := by
  refine clientIP_of_walk hpeer ?_ forged.text_ne_empty forged.walk_alone
  cases proxy with
  | joins => exact absurd rfl hproxy
  | extendsLast => rfl
  | addsLine => rfl

namespace Example

/-- A proxy in the network of its containers. -/
def proxyAddr : String := "172.18.0.2:43122"

/-- A client in the network of the proxy, whose address is private. -/
def lanClient : Client where
  text := "192.168.1.50"
  ip := [0, 0, 0, 0, 0, 0, 0, 0, 0, 0, 255, 255, 192, 168, 1, 50]
  parses := by decide +kernel

/-- The first address that a client makes up for its header. -/
def forgedOnce : Client where
  text := "198.51.100.1"
  ip := [0, 0, 0, 0, 0, 0, 0, 0, 0, 0, 255, 255, 198, 51, 100, 1]
  parses := by decide +kernel

/-- Another made-up address, with which the same client gets a key of its own. -/
def forgedTwice : Client where
  text := "198.51.100.2"
  ip := [0, 0, 0, 0, 0, 0, 0, 0, 0, 0, 255, 255, 198, 51, 100, 2]
  parses := by decide +kernel

end Example

/-- Two headers that stand for two forged addresses are two keys. -/
private theorem not_honestKey_of_forged (lines : Client → List String)
    (hpeer : trustedPeer remoteAddr = true)
    (h : ∀ forged, clientIP (forward proxy remoteAddr client
      { forwardedFor := lines forged, realIP := [] }) = forged.text) :
    ¬ HonestKey proxy remoteAddr client := by
  intro honest
  have hsame := (honest.forwarded hpeer { forwardedFor := lines Example.forgedOnce, realIP := [] }
    { forwardedFor := lines Example.forgedTwice, realIP := [] } .login .invalid).1
  rw [h, h] at hsame
  exact absurd hsame (by simp [Example.forgedOnce, Example.forgedTwice])

private theorem not_honestKey_of_private (hpeer : trustedPeer remoteAddr = true)
    (hclient : trusted client.ip = true) : ¬ HonestKey .joins remoteAddr client :=
  not_honestKey_of_forged (fun forged => [forged.text]) hpeer fun forged =>
    clientIP_forward_of_private hpeer hclient forged []

private theorem not_honestKey_of_lines (hpeer : trustedPeer remoteAddr = true)
    (hproxy : proxy ≠ .joins) :
    ¬ HonestKey proxy remoteAddr client :=
  not_honestKey_of_forged (fun forged => [forged.text, forged.text]) hpeer fun forged =>
    clientIP_forward_of_lines hpeer hproxy forged []

/-- **A forged key.** Somebody on the local network is another address for each guess. -/
theorem not_honestKey : ¬ HonestKey .joins Example.proxyAddr Example.lanClient :=
  not_honestKey_of_private (by decide +kernel) (by decide +kernel)

/-- **The key of the limiter.** It cannot be forged over a peer if and only if the client comes
without a proxy, or has an address of the Internet and comes through one that joins the lines. -/
theorem honestKey_iff :
    HonestKey proxy remoteAddr client ↔
      (trustedPeer remoteAddr = true → proxy = .joins ∧ trusted client.ip = false) := by
  constructor
  · intro h hpeer
    by_cases hproxy : proxy = .joins
    · subst hproxy
      refine ⟨rfl, ?_⟩
      by_contra hclient
      exact not_honestKey_of_private hpeer (by simpa using hclient) h
    · exact absurd h (not_honestKey_of_lines hpeer hproxy)
  · intro h
    constructor
    · intro hpeer sent sent' door outcome
      obtain ⟨rfl, hclient⟩ := h hpeer
      have hsame : clientIP (forward .joins remoteAddr client sent) =
          clientIP (forward .joins remoteAddr client sent') := by
        rw [clientIP_forward_of_public hpeer hclient, clientIP_forward_of_public hpeer hclient]
      exact ⟨hsame, by rw [attempt, attempt, hsame]⟩
    · rintro hpeer r rfl
      simp [clientIP, hpeer]

end Dockhand.Api
