import Dockhand.Go.Url

/-!
# The origin of a WebSocket

`checkOrigin` decides which sites may open a WebSocket: the request's own host, two public URLs and
the local machine. Each of them is compared with the host of the `Origin` header, and every one of
these hosts can be empty: an origin such as `null` has none, and a public URL that is a host without
a scheme parses to none. Then the two are equal and the opaque origin is accepted: `not_sameSite`.
An origin with a host is only accepted for its name: `sameSite_iff`.
-/

namespace Dockhand.Api

open Go Go.Url

/-- The public URLs of the settings and of the configuration. -/
structure PublicURLs where
  stored : List Char
  configured : List Char

/-- The hostname of the `Host` header as `net.SplitHostPort` reads it, or all of it. -/
def headerHost (host : List Char) : List Char :=
  match splitHostPort (String.ofList host) with
  | none => host
  | some (rh, _) => rh.toList

/-- The hostnames by which a browser reaches a server on its own machine. -/
def loopbackNames : List (List Char) := ["localhost".toList, "127.0.0.1".toList, "::1".toList]

/-- `checkOrigin` allows same-origin requests, the configured public URL and localhost (dev). The
origin is `none` if there is no such header, which `Get` does not tell from an empty one. -/
def checkOrigin (orbit : ℕ → ℕ) (pub : PublicURLs) (host : List Char)
    (origin : Option (List Char)) :
    Bool :=
  let origin := origin.getD []
  if origin = [] then true
  else
    match parse origin with
    | none => false
    | some u =>
      if equalFold orbit u.host host then true
      else if (parse pub.stored).any fun p => equalFold orbit p.host u.host then true
      else if (parse pub.configured).any fun p => equalFold orbit p.host u.host then true
      else
        let h := u.hostname
        if h ∈ loopbackNames then true
        -- the same hostname on a different port
        else equalFold orbit (headerHost host) h

/-! ### Which sites may -/

/-- A URL that the request is meant for: it has a host, whose name is that of the `Host` header,
read as the host of a URL or as a network address, that of a public URL, or one of the local
machine. -/
structure Belongs (orbit : ℕ → ℕ) (pub : PublicURLs) (host : List Char) (u : URL) : Prop where
  named : u.hostname ≠ []
  known : equalFold orbit (hostname host) u.hostname = true ∨
    equalFold orbit (headerHost host) u.hostname = true ∨
    (∃ raw ∈ [pub.stored, pub.configured], ∃ p, parse raw = some p ∧
      equalFold orbit p.hostname u.hostname = true) ∨
    u.hostname ∈ loopbackNames

/-- No other site gets in. -/
def SameSite (orbit : ℕ → ℕ) (pub : PublicURLs) (host : List Char) (origin : Option (List Char)) :
    Prop :=
  checkOrigin orbit pub host origin = true → ∀ o, origin = some o →
    ∃ u, parse o = some u ∧ Belongs orbit pub host u

/-- What the empty name of an origin is equal to. -/
def MeetsNothing (orbit : ℕ → ℕ) (pub : PublicURLs) (host : List Char) (u : URL) : Prop :=
  equalFold orbit u.host host = true ∨ headerHost host = [] ∨
    ∃ raw ∈ [pub.stored, pub.configured], ∃ p, parse raw = some p ∧
      equalFold orbit p.host u.host = true

/-- The header is there without a value, or it has no name of a host and meets another that has
none. -/
def Hostless (orbit : ℕ → ℕ) (pub : PublicURLs) (host : List Char) (origin : Option (List Char)) :
    Prop :=
  ∃ o, origin = some o ∧
    (o = [] ∨ ∃ u, parse o = some u ∧ u.hostname = [] ∧ MeetsNothing orbit pub host u)

variable {orbit : ℕ → ℕ} {pub : PublicURLs} {host o : List Char} {u : URL}

private theorem equalFold_symm {s t : List Char} (h : equalFold orbit s t = true) :
    equalFold orbit t s = true := by
  simp only [equalFold, decide_eq_true_eq] at h ⊢
  exact h.symm

private theorem equalFold_hostname {s t : List Char} (h : equalFold orbit s t = true) :
    equalFold orbit (hostname s) (hostname t) = true := by
  simp only [equalFold, decide_eq_true_eq] at h ⊢
  exact hostname_congr h

private theorem equalFold_nil {s : List Char} : equalFold orbit s [] = true ↔ s = [] := by
  rw [equalFold, decide_eq_true_eq, folded_nil, folded_eq_nil]

/-- The ways in. -/
theorem checkOrigin_eq_true_iff (ho : o ≠ []) :
    checkOrigin orbit pub host (some o) = true ↔ ∃ u, parse o = some u ∧
      (equalFold orbit u.host host = true ∨
        (∃ raw ∈ [pub.stored, pub.configured], ∃ p, parse raw = some p ∧
          equalFold orbit p.host u.host = true) ∨
        u.hostname ∈ loopbackNames ∨ equalFold orbit (headerHost host) u.hostname = true) := by
  simp only [checkOrigin, Option.getD_some, if_neg ho]
  cases parse o with
  | none => simp
  | some u =>
    simp only [Option.some.injEq, exists_eq_left', List.mem_cons, List.not_mem_nil, or_false,
      exists_eq_or_imp, exists_eq_left, ← Option.any_eq_true]
    split_ifs <;> simp_all

/-- An origin with a name is accepted for it. -/
theorem belongs_of_named (h : checkOrigin orbit pub host (some o) = true) (ho : o ≠ [])
    (hu : parse o = some u) (hnamed : u.hostname ≠ []) : Belongs orbit pub host u := by
  obtain ⟨u', hu', hways⟩ := (checkOrigin_eq_true_iff ho).mp h
  obtain rfl : u = u' := Option.some.inj (hu.symm.trans hu')
  refine ⟨hnamed, ?_⟩
  rcases hways with hhost | ⟨raw, hraw, p, hp, heq⟩ | hloop | hrh
  · exact Or.inl (equalFold_symm (equalFold_hostname hhost))
  · exact Or.inr (Or.inr (Or.inl ⟨raw, hraw, p, hp, equalFold_hostname heq⟩))
  · exact Or.inr (Or.inr (Or.inr hloop))
  · exact Or.inr (Or.inl hrh)

private theorem hostname_of_parse_nil (hu : parse [] = some u) : u.hostname = [] := by
  obtain rfl := Option.some.inj hu
  rfl

/-- What meets nothing is let in. -/
theorem checkOrigin_of_meetsNothing (ho : o ≠ []) (hu : parse o = some u) (hname : u.hostname = [])
    (hmeets : MeetsNothing orbit pub host u) : checkOrigin orbit pub host (some o) = true := by
  refine (checkOrigin_eq_true_iff ho).mpr ⟨u, hu, ?_⟩
  rcases hmeets with hhost | hrh | hpub
  · exact Or.inl hhost
  · exact Or.inr (Or.inr (Or.inr (by rw [hname, hrh]; exact equalFold_nil.mpr rfl)))
  · exact Or.inr (Or.inl hpub)

namespace Example

/-- A public URL that was entered without its scheme. -/
def lanURLs : PublicURLs where
  stored := "dockhand.lan".toList
  configured := "http://localhost:5773".toList

/-- The `Host` header of a request to the server at its entered name. -/
def lanHost : List Char := "dockhand.lan:5773".toList

/-- The origin of a sandboxed frame on any site. -/
def opaqueOrigin : List Char := "null".toList

end Example

/-- **An opaque origin gets in.** Its host and the host of the public URL are both empty. -/
theorem not_sameSite : ¬ SameSite id Example.lanURLs Example.lanHost
    (some Example.opaqueOrigin) := by
  intro h
  obtain ⟨u, hu, hbelongs⟩ := h (by decide +kernel) Example.opaqueOrigin rfl
  have hnull : parse Example.opaqueOrigin = some { scheme := [], host := [] } := by decide +kernel
  obtain rfl := Option.some.inj (hu.symm.trans hnull)
  exact hbelongs.named (by decide +kernel)

/-- **Cross-site WebSockets.** They are refused if and only if no origin without a host meets a host
that is empty too. -/
theorem sameSite_iff {origin : Option (List Char)} :
    SameSite orbit pub host origin ↔ ¬ Hostless orbit pub host origin := by
  constructor
  · rintro h ⟨o, rfl, rfl | ⟨u, hu, hname, hmeets⟩⟩
    · obtain ⟨u, hu, hbelongs⟩ := h rfl [] rfl
      exact hbelongs.named (hostname_of_parse_nil hu)
    · by_cases ho : o = []
      · obtain ⟨u, hu, hbelongs⟩ := h (by rw [ho]; rfl) o rfl
        exact hbelongs.named (hostname_of_parse_nil (ho ▸ hu))
      · obtain ⟨u', hu', hbelongs⟩ := h (checkOrigin_of_meetsNothing ho hu hname hmeets) o rfl
        obtain rfl := Option.some.inj (hu'.symm.trans hu)
        exact hbelongs.named hname
  · rintro hhost haccepts o rfl
    have ho : o ≠ [] := fun ho => hhost ⟨o, rfl, Or.inl ho⟩
    obtain ⟨u, hu, hways⟩ := (checkOrigin_eq_true_iff ho).mp haccepts
    refine ⟨u, hu, belongs_of_named haccepts ho hu fun hname => ?_⟩
    refine hhost ⟨o, rfl, Or.inr ⟨u, hu, hname, ?_⟩⟩
    rcases hways with hhost | hpub | hloop | hrh
    · exact Or.inl hhost
    · exact Or.inr (Or.inr hpub)
    · rw [hname] at hloop
      exact absurd hloop (by decide)
    · rw [hname] at hrh
      exact Or.inr (Or.inl (equalFold_nil.mp hrh))

end Dockhand.Api
