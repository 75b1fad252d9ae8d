import Dockhand.DeployCheck.Conflicts
import Mathlib.Order.Interval.Finset.Nat

/-!
# The suggestions of a preflight

What the check of an image deployment is for: the issues are about the conflicts there are, the
ports it suggests can be used, and a form that takes every suggestion has no conflict left.
`preflight_iff` says for which forms and hosts this is so.

The suggested ports are found one after another, each the first above the requested port that is
free and not suggested before. They are the places that the requests fill, so that a condition can
speak of them without running through the form.
-/

namespace Dockhand.DeployCheck

open Go

/-! ### Names -/

private theorem numbered_inj {base : String} {i j : ℕ} (h : numbered base i = numbered base j) :
    i = j := by
  have hlist := congrArg String.toList h
  simp only [numbered, String.toList_append, Nat.toList_repr] at hlist
  have hread := congrArg (Nat.ofDigitChars 10 · 0) (List.append_cancel_left hlist)
  simpa [Nat.ofDigitChars_ten_toDigits] using hread

private theorem numbered_mem_of_nextFreeNameFrom {base : String} {taken : List String} {fuel i : ℕ}
    (h : nextFreeNameFrom base taken fuel i ∈ taken) :
      ∀ k ≤ fuel, numbered base (i + k) ∈ taken := by
  induction fuel generalizing i with
  | zero =>
    intro k hk
    obtain rfl : k = 0 := Nat.le_zero.mp hk
    exact h
  | succ fuel ih =>
    rw [nextFreeNameFrom] at h
    split_ifs at h with hmem
    · rintro (_ | k) hk
      · exact hmem
      · have hnext := ih h k (Nat.le_of_succ_le_succ hk)
        rwa [Nat.add_assoc, Nat.add_comm 1] at hnext
    · exact absurd h hmem

/-- The name that is suggested is free: the loop has a name for each that is taken and one more. -/
theorem nextFreeName_not_mem (base : String) (taken : List String) :
    nextFreeName base taken ∉ taken := by
  intro h
  have hall := numbered_mem_of_nextFreeNameFrom h
  have hnodup : ((List.range (taken.length + 1)).map fun k => numbered base (2 + k)).Nodup := by
    refine List.nodup_range.map fun j k hjk => ?_
    exact Nat.add_left_cancel (numbered_inj hjk)
  have hsub : ((List.range (taken.length + 1)).map fun k => numbered base (2 + k)) ⊆ taken := by
    intro n hn
    obtain ⟨k, hk, rfl⟩ := List.mem_map.mp hn
    exact hall k (Nat.lt_succ_iff.mp (List.mem_range.mp hk))
  have hlen := (List.subperm_of_subset hnodup hsub).length_le
  simp at hlen

private theorem nextFreeName_ne_empty (base : String) (taken : List String) :
    nextFreeName base taken ≠ "" := by
  have hne : ∀ i, numbered base i ≠ "" := fun i h => by
    have hlist := congrArg String.toList h
    simp [numbered] at hlist
  have hfrom : ∀ fuel i, nextFreeNameFrom base taken fuel i ≠ "" := by
    intro fuel
    induction fuel with
    | zero => exact hne
    | succ fuel ih =>
      intro i
      rw [nextFreeNameFrom]
      split_ifs
      · exact ih (i + 1)
      · exact hne i
  exact hfrom _ 2

/-! ### Ports -/

/-- The ports that are not taken. -/
def freePorts (taken : Finset ℕ) : Finset ℕ := (Finset.Icc 1 65535).filter (· ∉ taken)

private theorem mem_freePorts {taken : Finset ℕ} {q : ℕ} : q ∈ freePorts taken ↔
    (1 ≤ q ∧ q ≤ 65535) ∧
    q ∉ taken := by
  rw [freePorts, Finset.mem_filter, Finset.mem_Icc]

private theorem freePorts_insert (taken : Finset ℕ) (q : ℕ) :
    freePorts (insert q taken) = (freePorts taken).erase q := by
  ext s
  simp only [mem_freePorts, Finset.mem_erase, Finset.mem_insert]
  tauto

/-- `NextFreePort` returns the first free port above, and 0 when there is none. -/
theorem nextFreePort_eq (n : ℕ) (taken : Finset ℕ) :
    nextFreePort n taken = (firstAbove (freePorts taken) n).getD 0 := by
  rw [nextFreePort]
  congr 1
  cases hfind : (List.range' (n + 1) (65535 - n)).find? (· ∉ taken) with
  | none =>
    refine (firstAbove_eq_none_iff.mpr fun s hs => ?_).symm
    obtain ⟨⟨-, hle⟩, hs⟩ := mem_freePorts.mp hs
    by_contra hlt
    have hmem : s ∈ List.range' (n + 1) (65535 - n) := List.mem_range'_1.mpr (by omega)
    simpa [hs] using List.find?_eq_none.mp hfind s hmem
  | some q =>
    refine (firstAbove_eq_some_iff.mpr ?_).symm
    obtain ⟨hq, as, bs, hsplit, has⟩ := List.find?_eq_some_iff_append.mp hfind
    have hmem : q ∈ List.range' (n + 1) (65535 - n) := hsplit ▸ by simp
    rw [List.mem_range'_1] at hmem
    refine ⟨mem_freePorts.mpr ⟨by omega, by simpa using hq⟩, by omega, fun s hs hns => ?_⟩
    obtain ⟨⟨-, hle⟩, hs⟩ := mem_freePorts.mp hs
    have hsmem : s ∈ as ++ q :: bs := hsplit ▸ List.mem_range'_1.mpr (by omega)
    have hsorted : (as ++ q :: bs).Pairwise (· < ·) := hsplit ▸ List.pairwise_lt_range'
    rcases List.mem_append.mp hsmem with hsas | hsbs
    · exact absurd (has s hsas) (by simpa using hs)
    · rcases List.mem_cons.mp hsbs with rfl | hsbs
      · exact le_rfl
      · exact (List.rel_of_pairwise_cons (List.pairwise_append.mp hsorted).2.1 hsbs).le

/-! ### The loop over the requested ports -/

section Loop

variable (own : CtrInfo → Bool) (hostName : String) (f : HostFacts)

/-- The requested ports that an issue is about. -/
def conflicting (req : List HostPort) : List HostPort :=
  req.filter fun p => conflictText own hostName f p ≠ ""

/-- Those of them that a port is looked for, in the order in which they come. -/
def singles (req : List HostPort) : List HostPort :=
  (conflicting own hostName f req).filter fun p => !p.range

/-- The ports that are suggested, each with the port it is suggested for. -/
def offers (taken : Finset ℕ) (req : List HostPort) : List (HostPort × ℕ) :=
  let ps := singles own hostName f req
  (ps.zip (placed (freePorts taken) (ps.map HostPort.port))).filterMap fun x => x.2.map (x.1, ·)

variable {own hostName f}

private theorem map_fst_portIssues (taken : Finset ℕ) (req : List HostPort) :
    (portIssues own hostName f taken req).map Prod.fst = conflicting own hostName f req := by
  induction req generalizing taken with
  | nil => rfl
  | cons p req ih =>
    rw [portIssues]
    by_cases htext : conflictText own hostName f p = ""
    · rw [if_pos htext, ih, conflicting, conflicting,
        List.filter_cons_of_neg (by simpa using htext)]
    rw [if_neg htext, conflicting, List.filter_cons_of_pos (by simpa using htext)]
    dsimp only
    split_ifs <;> rw [List.map_cons, ih, conflicting]

/-- The fixes that the loop offers, each with the port it is for. -/
theorem fixes_portIssues (taken : Finset ℕ) (req : List HostPort) :
    (portIssues own hostName f taken req).filterMap (fun x => x.2.fix.map (x.1, ·)) =
      (offers own hostName f taken req).map fun x => (x.1, portFix x.1 x.2) := by
  induction req generalizing taken with
  | nil => rfl
  | cons p req ih =>
    rw [portIssues]
    by_cases htext : conflictText own hostName f p = ""
    · rw [if_pos htext, ih]
      simp [offers, singles, conflicting, htext]
    rw [if_neg htext]
    by_cases hrange : p.range = true
    · rw [if_pos hrange, List.filterMap_cons_none rfl, ih]
      simp [offers, singles, conflicting, hrange]
    rw [if_neg hrange]
    have hsingles : singles own hostName f (p :: req) = p :: singles own hostName f req := by
      simp [singles, conflicting, htext, hrange]
    rw [nextFreePort_eq]
    cases hfirst : firstAbove (freePorts taken) p.port with
    | none =>
      simp only [Option.getD_none, lt_irrefl, if_false]
      rw [List.filterMap_cons_none rfl, ih]
      simp [offers, hsingles, placed, hfirst]
    | some q =>
      have hpos : q > 0 := (mem_freePorts.mp (firstAbove_eq_some_iff.mp hfirst).1).1.1
      simp only [Option.getD_some, hpos, if_true]
      have hfix : (portIssue own hostName f p (some (portFix p q))).fix.map (p, ·) =
        some (p, portFix p q) := rfl
      rw [List.filterMap_cons_some (f := fun x : HostPort × DeployIssue => x.2.fix.map (x.1, ·))
        hfix, ih]
      simp [offers, hsingles, placed, hfirst, freePorts_insert]

private theorem mem_singles {req : List HostPort} {p : HostPort} :
    p ∈ singles own hostName f req ↔ p ∈ req ∧ conflictText own hostName f p ≠ "" ∧
      p.range = false := by
  simp only [singles, conflicting, List.mem_filter, decide_eq_true_eq, Bool.not_eq_true', and_assoc]

private theorem mem_offers {taken : Finset ℕ} {req : List HostPort} {p : HostPort} {q : ℕ} :
    (p, q) ∈ offers own hostName f taken req ↔
      ∃ pre post, singles own hostName f req = pre ++ p :: post ∧
        firstAbove (leftFree (freePorts taken) (pre.map HostPort.port)) p.port = some q := by
  rw [← mem_zip_placed, offers, List.mem_filterMap]
  constructor
  · rintro ⟨⟨p', o⟩, hmem, ho⟩
    obtain ⟨q', rfl, hq⟩ := Option.map_eq_some_iff.mp ho
    obtain ⟨rfl, rfl⟩ := Prod.mk.inj hq
    exact hmem
  · exact fun hmem => ⟨(p, some q), hmem, rfl⟩

private theorem map_snd_offers (taken : Finset ℕ) (req : List HostPort) :
    (offers own hostName f taken req).map Prod.snd =
      (placed (freePorts taken) ((singles own hostName f req).map HostPort.port)).filterMap id := by
  have hlen : (placed (freePorts taken) ((singles own hostName f req).map HostPort.port)).length ≤
      (singles own hostName f req).length := by simp [length_placed]
  have hsnd : ∀ x : HostPort × Option ℕ, (x.2.map (x.1, ·)).map Prod.snd = id x.2 := by
    rintro ⟨p, _ | q⟩ <;> rfl
  rw [offers, List.map_filterMap]
  conv_rhs => rw [← List.map_snd_zip hlen, List.filterMap_map]
  exact List.filterMap_congr fun x _ => hsnd x

/-- The suggested ports are those that the requests fill. -/
theorem mem_offers_snd {taken : Finset ℕ} {req : List HostPort} {q : ℕ} :
    (∃ p, (p, q) ∈ offers own hostName f taken req) ↔
      Filled (freePorts taken) ((singles own hostName f req).map HostPort.port) q := by
  have hmem : (∃ p, (p, q) ∈ offers own hostName f taken req) ↔
      q ∈ (offers own hostName f taken req).map Prod.snd := by simp
  rw [hmem, map_snd_offers, ← some_mem_placed_iff]
  simp

/-- A port is offered a suggestion when the requests before it leave a free one. -/
theorem mem_offers_fst {taken : Finset ℕ} {req : List HostPort} {n : ℕ} :
    (∃ p q, (p, q) ∈ offers own hostName f taken req ∧ p.port = n) ↔
      ∃ pre p post, singles own hostName f req = pre ++ p :: post ∧ p.port = n ∧
        ∃ q ∈ freePorts taken, n < q ∧ ¬ Filled (freePorts taken) (pre.map HostPort.port) q := by
  constructor
  · rintro ⟨p, q, hmem, rfl⟩
    obtain ⟨pre, post, hsplit, hfirst⟩ := mem_offers.mp hmem
    obtain ⟨hfree, hlt, -⟩ := firstAbove_eq_some_iff.mp hfirst
    obtain ⟨hfree, hfilled⟩ := mem_leftFree.mp hfree
    exact ⟨pre, p, post, hsplit, rfl, q, hfree, hlt, hfilled⟩
  · rintro ⟨pre, p, post, hsplit, rfl, q, hfree, hlt, hfilled⟩
    cases hfirst : firstAbove (leftFree (freePorts taken) (pre.map HostPort.port)) p.port with
    | none =>
      have hle := firstAbove_eq_none_iff.mp hfirst q (mem_leftFree.mpr ⟨hfree, hfilled⟩)
      exact absurd hlt (not_lt.mpr hle)
    | some q' => exact ⟨p, q', mem_offers.mpr ⟨pre, post, hsplit, hfirst⟩, rfl⟩

private theorem of_mem_offers {taken : Finset ℕ} {req : List HostPort} {p : HostPort} {q : ℕ}
    (h : (p, q) ∈ offers own hostName f taken req) :
    p ∈ singles own hostName f req ∧ p.port < q ∧ q ∈ freePorts taken := by
  obtain ⟨pre, post, hsplit, hfirst⟩ := mem_offers.mp h
  obtain ⟨hfree, hlt, -⟩ := firstAbove_eq_some_iff.mp hfirst
  exact ⟨hsplit ▸ by simp, hlt, (mem_leftFree.mp hfree).1⟩

private theorem exists_fix_of_mem {taken : Finset ℕ} {req : List HostPort}
    {x : HostPort × DeployIssue}
    (h : x ∈ portIssues own hostName f taken req) :
      ∃ fix, x.2 = portIssue own hostName f x.1 fix := by
  induction req generalizing taken with
  | nil => cases h
  | cons p req ih =>
    rw [portIssues] at h
    by_cases htext : conflictText own hostName f p = ""
    · rw [if_pos htext] at h
      exact ih h
    rw [if_neg htext] at h
    dsimp only at h
    split_ifs at h <;> rcases List.mem_cons.mp h with rfl | h <;>
      first | exact ⟨_, rfl⟩ | exact ih h

private theorem filterMap_fix_portIssues (taken : Finset ℕ) (req : List HostPort) :
    (portIssues own hostName f taken req).filterMap (fun x => x.2.fix) =
      (offers own hostName f taken req).map fun x => portFix x.1 x.2 := by
  have hfixes : (portIssues own hostName f taken req).filterMap (fun x => x.2.fix.map (x.1, ·)) =
    _ :=
    fixes_portIssues taken req
  have hsnd := congrArg (List.map Prod.snd) hfixes
  rw [List.map_filterMap, List.map_map] at hsnd
  refine Eq.trans (List.filterMap_congr fun x _ => ?_) hsnd
  cases x.2.fix <;> rfl

end Loop

/-! ### A form that takes the suggestions -/

private theorem isJsSpace_of_isDigit {c : Char} (h : c.isDigit = true) : isJsSpace c = false := by
  obtain ⟨hlow, hhigh⟩ := bounds_of_isDigit h
  rw [← Bool.not_eq_true]
  intro hspace
  simp only [isJsSpace, Bool.or_eq_true, Bool.and_eq_true, decide_eq_true_eq, List.mem_cons,
    List.not_mem_nil, or_false] at hspace
  rcases hspace with hmem | ⟨hrange, -⟩
  · rcases hmem with rfl | rfl | rfl | rfl | rfl | rfl | rfl | rfl | rfl | rfl | rfl | rfl | rfl |
      rfl <;>
      revert hlow hhigh <;> decide
  · have hge : 8192 ≤ c.toNat := hrange
    omega

private theorem jsTrim_repr (n : ℕ) : jsTrim n.repr = n.repr := by
  have hnot : ∀ c ∈ n.repr.toList, isJsSpace c = false := fun c hc => by
    rw [Nat.toList_repr] at hc
    exact isJsSpace_of_isDigit (Nat.isDigit_of_mem_toDigits (by decide) (by decide) hc)
  have hdrop : n.repr.toList.dropWhile isJsSpace = n.repr.toList := by
    rw [List.dropWhile_eq_self_iff]
    intro hlen
    rw [hnot _ (List.getElem_mem hlen)]
    exact Bool.false_ne_true
  have hrdrop : n.repr.toList.rdropWhile isJsSpace = n.repr.toList := by
    rw [List.rdropWhile_eq_self_iff]
    intro hne
    rw [hnot _ (List.getLast_mem hne)]
    exact Bool.false_ne_true
  rw [jsTrim, hdrop, hrdrop, String.ofList_toList]

/-- A row after the suggestions: the first one that is about its text puts a port in its place. -/
def moved (os : List (HostPort × ℕ)) (r : PortPair) : PortPair :=
  match os.find? fun x => x.1.port.repr = jsTrim r.host with
  | some x => { r with host := x.2.repr }
  | none => r

private theorem foldl_patchRow {os : List (HostPort × ℕ)} (h : ∀ x ∈ os, ∀ y ∈ os, x.2 ≠ y.1.port)
    (r : PortPair) :
    os.foldl (fun r x => patchRow (portFix x.1 x.2).patch.ports r) r = moved os r := by
  induction os generalizing r with
  | nil => rfl
  | cons x os ih =>
    have hos : ∀ x ∈ os, ∀ y ∈ os, x.2 ≠ y.1.port := fun a ha b hb =>
      h a (List.mem_cons_of_mem _ ha) b (List.mem_cons_of_mem _ hb)
    rw [List.foldl_cons, ih hos]
    by_cases hx : x.1.port.repr = jsTrim r.host
    · -- The port that is put in is no port that a suggestion is about.
      have hrow : patchRow (portFix x.1 x.2).patch.ports r = { r with host := x.2.repr } := by
        simp [patchRow, portFix, hx]
      have hnone : os.find? (fun y => y.1.port.repr = jsTrim x.2.repr) = none := by
        refine List.find?_eq_none.mpr fun y hy => ?_
        rw [jsTrim_repr, decide_eq_true_eq]
        exact fun heq => h x List.mem_cons_self y (List.mem_cons_of_mem _ hy) (repr_inj heq).symm
      rw [hrow, moved, moved, List.find?_cons_of_pos (by simpa using hx)]
      simp only [hnone]
    · have hrow : patchRow (portFix x.1 x.2).patch.ports r = r := by
        simp [patchRow, portFix, hx]
      rw [hrow, moved, moved, List.find?_cons_of_neg (by simpa using hx)]

private theorem foldl_applyFix (os : List (HostPort × ℕ)) (i : DeployCheckInput) :
    (os.map fun x => portFix x.1 x.2).foldl applyFix i =
      { i with ports := i.ports.map fun r =>
          os.foldl (fun r x => patchRow (portFix x.1 x.2).patch.ports r) r } := by
  induction os generalizing i with
  | nil => simp
  | cons x os ih =>
    rw [List.map_cons, List.foldl_cons, ih]
    simp [applyFix, portFix, List.map_map, Function.comp_def]

/-! ### Conflicts -/

/-- The container publishes a port with a protocol. -/
def Publishes (c : CtrInfo) (key : ℕ × String) : Prop := ∃ x ∈ c.ports, x.key = key

instance (c : CtrInfo) (key : ℕ × String) : Decidable (Publishes c key) :=
  inferInstanceAs (Decidable (∃ x ∈ c.ports, x.key = key))

/-- A container that is not replaced publishes the port with the same protocol, or something listens
on it that is not the port of a container that is replaced. -/
def InConflict (own : CtrInfo → Bool) (f : HostFacts) (p : HostPort) : Prop :=
  (∃ c ∈ f.containers, own c = false ∧ Publishes c p.key) ∨
    (p.proto = "tcp" ∧ p.port ∈ f.listening ∧
      ¬ ∃ c ∈ f.containers, own c = true ∧ Publishes c (p.port, "tcp"))

instance (own : CtrInfo → Bool) (f : HostFacts) (p : HostPort) : Decidable (InConflict own f p) :=
  inferInstanceAs (Decidable (_ ∨ _))

section

variable {own : CtrInfo → Bool} {hostName : String} {f : HostFacts} {p : HostPort}

private theorem mem_ownPorts {n : ℕ} :
    n ∈ ownPorts own f ↔ ∃ c ∈ f.containers, own c = true ∧ ∃ x ∈ c.ports, x.port = n := by
  simp only [ownPorts, List.mem_map, List.mem_flatMap, List.mem_filter]
  constructor
  · rintro ⟨x, ⟨c, ⟨hc, hown⟩, hx⟩, rfl⟩
    exact ⟨c, hc, hown, x, hx, rfl⟩
  · rintro ⟨c, hc, hown, x, hx, rfl⟩
    exact ⟨x, ⟨c, ⟨hc, hown⟩, hx⟩, rfl⟩

private theorem mem_othersPorts {x : HostPort} :
    x ∈ othersPorts own f ↔ ∃ c ∈ f.containers, own c = false ∧ x ∈ c.ports := by
  simp [othersPorts, and_assoc]

private theorem owner_isSome {key : ℕ × String} :
    (owner own f key).isSome ↔ ∃ c ∈ f.containers, own c = false ∧ Publishes c key := by
  simp [owner, Publishes]

/-- The test of the code: like `InConflict`, but any port of a container that is replaced explains a
listening socket. -/
theorem conflictText_ne_empty_iff :
    conflictText own hostName f p ≠ "" ↔
      (∃ c ∈ f.containers, own c = false ∧ Publishes c p.key) ∨
        (p.proto = "tcp" ∧ p.port ∈ f.listening ∧ p.port ∉ ownPorts own f) := by
  rw [← owner_isSome, conflictText]
  cases howner : owner own f p.key with
  | none =>
    simp only [Option.isSome_none, Bool.false_eq_true, false_or]
    split_ifs with h
    · exact iff_of_true (by decide) h
    · exact iff_of_false (by simp) h
  | some c =>
    refine iff_of_true (fun h => ?_) (Or.inl rfl)
    have hlist := congrArg String.toList h
    simp at hlist

private theorem mem_ownPorts_of_publishes (h : ∃ c ∈ f.containers, own c = true ∧
    Publishes c (p.port, "tcp")) :
    p.port ∈ ownPorts own f := by
  obtain ⟨c, hc, hown, x, hx, hkey⟩ := h
  exact mem_ownPorts.mpr ⟨c, hc, hown, x, hx, congrArg Prod.fst hkey⟩

/-- The test is right about a port when it is right about the protocol of a listening one. -/
theorem conflictText_iff_inConflict :
    (conflictText own hostName f p ≠ "" ↔ InConflict own f p) ↔
      (p.proto = "tcp" → p.port ∈ f.listening → p.port ∈ ownPorts own f →
        (∃ c ∈ f.containers, own c = false ∧ Publishes c p.key) ∨
          ∃ c ∈ f.containers, own c = true ∧ Publishes c (p.port, "tcp")) := by
  have hown : _ → p.port ∈ ownPorts own f := mem_ownPorts_of_publishes
  rw [conflictText_ne_empty_iff, InConflict]
  generalize (∃ c ∈ f.containers, own c = false ∧ Publishes c p.key) = others at *
  generalize (∃ c ∈ f.containers, own c = true ∧ Publishes c (p.port, "tcp")) = replaced at *
  tauto

/-- Only whether the containers of the host are replaced matters. -/
theorem conflictText_ne_empty_congr {own' : CtrInfo → Bool}
    (h : ∀ c ∈ f.containers, own c = own' c) :
    conflictText own hostName f p ≠ "" ↔ conflictText own' hostName f p ≠ "" := by
  have hothers : (∃ c ∈ f.containers, own c = false ∧ Publishes c p.key) ↔
      ∃ c ∈ f.containers, own' c = false ∧ Publishes c p.key :=
    exists_congr fun c => and_congr_right fun hc => by rw [h c hc]
  have hports : p.port ∈ ownPorts own f ↔ p.port ∈ ownPorts own' f := by
    rw [mem_ownPorts, mem_ownPorts]
    exact exists_congr fun c => and_congr_right fun hc => by rw [h c hc]
  rw [conflictText_ne_empty_iff, conflictText_ne_empty_iff, hothers, hports]

/-- The test looks at the port and the protocol. -/
theorem conflictText_congr {q : HostPort} (h : p.key = q.key) :
    conflictText own hostName f p = conflictText own hostName f q := by
  have hport : p.port = q.port := congrArg Prod.fst h
  have hproto : p.proto = q.proto := congrArg Prod.snd h
  rw [conflictText, conflictText, h, hport, hproto]

end

/-! ### Requested ports -/

/-- Every port and protocol stays. -/
theorem exists_mem_firsts {seen : List (ℕ × String)} {ps : List HostPort} {p : HostPort}
    (h : p ∈ ps) (hseen : p.key ∉ seen) : ∃ q ∈ firsts seen ps, q.key = p.key := by
  induction ps generalizing seen with
  | nil => cases h
  | cons q ps ih =>
    rw [firsts]
    by_cases hq : q.key ∈ seen
    · rw [if_pos hq]
      rcases List.mem_cons.mp h with rfl | h
      · exact absurd hq hseen
      · exact ih h hseen
    · rw [if_neg hq]
      by_cases hqp : q.key = p.key
      · exact ⟨q, List.mem_cons_self, hqp⟩
      · rcases List.mem_cons.mp h with rfl | h
        · exact absurd rfl hqp
        · obtain ⟨x, hx, hkey⟩ := ih h (List.not_mem_cons_of_ne_of_not_mem (Ne.symm hqp) hseen)
          exact ⟨x, List.mem_cons_of_mem _ hx, hkey⟩

/-! ### The preflight of an image -/

section Preflight

variable (lower : String → String) (composeHostPorts : String → Dict String String → List HostPort)
  (hostName : String) (f : HostFacts) (i : DeployCheckInput)

/-- The container has the name of the form. -/
def replaced (c : CtrInfo) : Bool := c.name = i.name

/-- The requested ports that an issue is about. -/
def reported : List HostPort :=
  (portConflicts (sameDeploy i) hostName f (requestedPorts lower composeHostPorts i)).map Prod.fst

/-- The form with every suggestion taken. -/
def fixedForm : DeployCheckInput :=
  applyFixes i (conflictIssues lower composeHostPorts hostName f i)

/-- What the check is for. -/
structure Preflight : Prop where
  /-- The ports that are reported are those in conflict. -/
  reports : reported lower composeHostPorts hostName f i =
    (requestedPorts lower composeHostPorts i).filter (InConflict (replaced i) f ·)
  /-- A port that is suggested is above the requested one, and nothing has it. -/
  suggests : ∀ x ∈ portConflicts (sameDeploy i) hostName f
    (requestedPorts lower composeHostPorts i),
    ∀ fix, x.2.fix = some fix → ∃ q, fix.patch = { ports := [⟨x.1.port.repr, q.repr⟩] } ∧
      x.1.port < q ∧ q ≤ 65535 ∧ (∀ c ∈ f.containers, ∀ y ∈ c.ports, y.port ≠ q) ∧ q ∉ f.listening ∧
      ∀ y ∈ requestedPorts lower composeHostPorts i, y.port ≠ q
  /-- No port is suggested twice. -/
  distinct : (((conflictIssues lower composeHostPorts hostName f i).filterMap
    DeployIssue.fix).flatMap
    fun fix => fix.patch.ports.map PortPatch.toPort).Nodup
  /-- With every suggestion taken the name is free. -/
  named : ∀ x ∈ conflictIssues lower composeHostPorts hostName f
    (fixedForm lower composeHostPorts hostName f i),
    x.field ≠ "Name"
  /-- With every suggestion taken no port of a row for one port is reported. -/
  resolved : ∀ r ∈ (fixedForm lower composeHostPorts hostName f i).ports, ∀ p ∈ rowPorts lower r,
    p.range = false →
      ∀ x ∈ reported lower composeHostPorts hostName f
        (fixedForm lower composeHostPorts hostName f i),
        x.key ≠ p.key

/-- The requested single ports that are in conflict. -/
def wanting : List HostPort :=
  ((requestedPorts lower composeHostPorts i).filter (InConflict (replaced i) f ·)).filter fun p =>
    !p.range

/-- The ports that no other container publishes, that nothing listens on and that are not requested.
-/
def usable : Finset ℕ :=
  freePorts (takenPorts (replaced i) f (requestedPorts lower composeHostPorts i))

/-- The port is in conflict and the ones before it leave a usable port above. -/
def Movable (n : ℕ) : Prop :=
  ∃ pre p post, wanting lower composeHostPorts f i = pre ++ p :: post ∧ p.port = n ∧
    ∃ q ∈ usable lower composeHostPorts f i, n < q ∧
      ¬ Filled (usable lower composeHostPorts f i) (pre.map HostPort.port) q

section

variable {lower composeHostPorts hostName f i} (hk : i.kind = .image)
include hk

private theorem sameDeploy_image : sameDeploy i = replaced i :=
  funext fun c => by simp [sameDeploy, replaced, hk]

private theorem requestedPorts_image : requestedPorts lower composeHostPorts i = firsts []
    (formHostPorts lower i.ports) := by
  simp [requestedPorts, hk]

/-- A port of a row is reported when the test finds a conflict. -/
theorem exists_reported_iff {r : PortPair} (hr : r ∈ i.ports) {p : HostPort}
    (hp : p ∈ rowPorts lower r) :
    (∃ x ∈ reported lower composeHostPorts hostName f i, x.key = p.key) ↔
      conflictText (replaced i) hostName f p ≠ "" := by
  rw [reported, portConflicts, map_fst_portIssues, sameDeploy_image hk]
  constructor
  · rintro ⟨x, hx, hkey⟩
    rw [← conflictText_congr hkey]
    simpa using (List.mem_filter.mp hx).2
  · intro htext
    have hmem : p ∈ formHostPorts lower i.ports := List.mem_flatMap.mpr ⟨r, hr, hp⟩
    obtain ⟨x, hx, hkey⟩ := exists_mem_firsts hmem (List.not_mem_nil : p.key ∉ [])
    have hreq : requestedPorts lower composeHostPorts i = firsts [] (formHostPorts lower i.ports) :=
      requestedPorts_image hk
    rw [← hreq] at hx
    refine ⟨x, List.mem_filter.mpr ⟨hx, ?_⟩, hkey⟩
    rw [conflictText_congr hkey]
    simpa using htext

end

/-- The ports that are suggested for the form. -/
def suggested : List (HostPort × ℕ) :=
  offers (replaced i) hostName f (takenPorts (replaced i) f
    (requestedPorts lower composeHostPorts i))
    (requestedPorts lower composeHostPorts i)

/-- The name of the form with the suggestions taken. -/
def freedName : String :=
  if i.name ≠ "" ∧ validDockerName i.name ∧ i.name ∈ takenNames i.kind f then
    nextFreeName i.name (takenNames i.kind f)
  else i.name

variable {lower composeHostPorts hostName f i}

/-- A suggestion is for a requested port, and is none itself. -/
theorem of_mem_suggested {p : HostPort} {q : ℕ}
    (h : (p, q) ∈ suggested lower composeHostPorts hostName f i) :
    p ∈ requestedPorts lower composeHostPorts i ∧ p.port < q ∧
      q ∈ usable lower composeHostPorts f i := by
  obtain ⟨hp, hlt, hfree⟩ := of_mem_offers h
  exact ⟨(mem_singles.mp hp).1, hlt, hfree⟩

private theorem mem_usable {q : ℕ} :
    q ∈ usable lower composeHostPorts f i ↔ (1 ≤ q ∧ q ≤ 65535) ∧
      (∀ c ∈ f.containers, replaced i c = false → ∀ x ∈ c.ports, x.port ≠ q) ∧ q ∉ f.listening ∧
      ∀ y ∈ requestedPorts lower composeHostPorts i, y.port ≠ q := by
  rw [usable, mem_freePorts]
  refine and_congr_right fun _ => ?_
  simp only [takenPorts, Finset.mem_union, List.mem_toFinset, List.mem_map, mem_othersPorts, not_or,
    not_exists, not_and, and_assoc]
  constructor
  · rintro ⟨hothers, hlisten, hreq⟩
    exact ⟨fun c hc hown x hx => hothers x ⟨c, hc, hown, hx⟩, hlisten, hreq⟩
  · rintro ⟨hothers, hlisten, hreq⟩
    exact ⟨fun x ⟨c, hc, hown, hx⟩ => hothers c hc hown x hx, hlisten, hreq⟩

section

variable (hk : i.kind = .image)
include hk

private theorem pathConflict_image : pathConflict i f = [] := by
  rw [pathConflict, if_neg]
  simp [hk]

private theorem fixes_conflictIssues :
    (conflictIssues lower composeHostPorts hostName f i).filterMap DeployIssue.fix =
      (nameConflict i hostName f).filterMap DeployIssue.fix ++
        (suggested lower composeHostPorts hostName f i).map fun x => portFix x.1 x.2 := by
  rw [conflictIssues, pathConflict_image hk, List.append_nil, List.filterMap_append,
    List.filterMap_map, sameDeploy_image hk, portConflicts]
  exact congrArg _ (filterMap_fix_portIssues _ _)

omit hk in
private theorem foldl_nameConflict :
    ((nameConflict i hostName f).filterMap DeployIssue.fix).foldl applyFix i =
      { i with name := freedName f i } := by
  have hrows : i.ports.map (patchRow []) = i.ports := List.map_id'' (fun _ => rfl) _
  rw [nameConflict, freedName]
  split_ifs <;> simp [applyFix, nextFreeName_ne_empty, hrows]

private theorem fixedForm_eq :
    fixedForm lower composeHostPorts hostName f i =
      { i with
        name := freedName f i
        ports := i.ports.map (moved (suggested lower composeHostPorts hostName f i)) } := by
  have hne : ∀ x ∈ suggested lower composeHostPorts hostName f i,
      ∀ y ∈ suggested lower composeHostPorts hostName f i, x.2 ≠ y.1.port := fun x hx y hy heq =>
    (mem_usable.mp (of_mem_suggested hx).2.2).2.2.2 y.1 (of_mem_suggested hy).1 heq.symm
  rw [fixedForm, applyFixes, fixes_conflictIssues hk, List.foldl_append, foldl_nameConflict,
    foldl_applyFix]
  have hmoved := funext (foldl_patchRow hne)
  rw [hmoved]

/-- The container of the form's name is not replaced any more when the name is one a container may
have. -/
theorem replaced_fixedForm {c : CtrInfo} (hc : c ∈ f.containers) :
    replaced (fixedForm lower composeHostPorts hostName f i) c =
      (replaced i c && !validDockerName i.name) := by
  have hnames : takenNames i.kind f = f.containers.map CtrInfo.name := if_pos hk
  have hmem : c.name ∈ takenNames i.kind f := hnames ▸ List.mem_map_of_mem hc
  rw [fixedForm_eq hk, replaced, replaced]
  by_cases hvalid : validDockerName i.name = true
  · have hne : i.name ≠ "" := by
      rintro h
      rw [h] at hvalid
      exact absurd hvalid (by decide)
    have hfreed : c.name ≠ freedName f i := by
      intro heq
      rw [freedName] at heq
      split_ifs at heq with htaken
      · exact nextFreeName_not_mem _ _ (heq ▸ hmem)
      · exact htaken ⟨hne, hvalid, heq ▸ hmem⟩
    simp [hvalid, hfreed]
  · have hfreed : freedName f i = i.name := if_neg fun h => hvalid h.2.1
    simp [hvalid, hfreed]

/-- With the suggestions taken the name is free. -/
theorem named_fixedForm : ∀ x ∈ conflictIssues lower composeHostPorts hostName f
    (fixedForm lower composeHostPorts hostName f i), x.field ≠ "Name" := by
  set i' := fixedForm lower composeHostPorts hostName f i with hi'
  have hkind : i'.kind = .image := by rw [hi', fixedForm_eq hk]; exact hk
  have hname : nameConflict i' hostName f = [] := by
    rw [nameConflict, if_neg]
    rintro ⟨-, hvalid, hmem⟩
    rw [takenNames, if_pos hkind] at hmem
    obtain ⟨c, hc, hcname⟩ := List.mem_map.mp hmem
    have hown : replaced i' c = (replaced i c && !validDockerName i.name) :=
      replaced_fixedForm hk hc
    have hreplaced : replaced i' c = true := decide_eq_true hcname
    rw [hreplaced, eq_comm, Bool.and_eq_true, Bool.not_eq_true'] at hown
    have hsame : i'.name = i.name := by
      rw [← hcname]
      simpa [replaced] using hown.1
    rw [hsame] at hvalid
    exact Bool.false_ne_true (hown.2.symm.trans hvalid)
  intro x hx
  rw [conflictIssues, hname, pathConflict_image hkind, List.nil_append, List.append_nil] at hx
  obtain ⟨y, hy, rfl⟩ := List.mem_map.mp hx
  obtain ⟨fix, hfix⟩ := exists_fix_of_mem hy
  intro hfield
  have hlist := congrArg String.toList (hfix ▸ hfield)
  simp [portIssue] at hlist

/-- Where something listens on a requested port that a replaced container publishes, the port with
this protocol is published by a replaced container or by another one. -/
def ByProtocol (req : List HostPort) (own : CtrInfo → Bool) (f : HostFacts) : Prop :=
  ∀ p ∈ req, p.proto = "tcp" → p.port ∈ f.listening → p.port ∈ ownPorts own f →
    (∃ c ∈ f.containers, own c = false ∧ Publishes c p.key) ∨
      ∃ c ∈ f.containers, own c = true ∧ Publishes c (p.port, "tcp")

omit hk in
private theorem conflicting_eq_iff (own : CtrInfo → Bool) (req : List HostPort) :
    conflicting own hostName f req = req.filter (InConflict own f ·) ↔ ByProtocol req own f := by
  constructor
  · intro heq p hp
    have hmem : p ∈ conflicting own hostName f req ↔
      p ∈ req.filter (InConflict own f ·) := by rw [heq]
    have htest : conflictText own hostName f p ≠ "" ↔ InConflict own f p := by
      simpa [conflicting, hp] using hmem
    exact conflictText_iff_inConflict.mp htest
  · intro h
    refine List.filter_congr fun p hp => ?_
    rw [decide_eq_decide]
    exact conflictText_iff_inConflict.mpr (h p hp)

private theorem reports_iff :
    reported lower composeHostPorts hostName f i =
        (requestedPorts lower composeHostPorts i).filter (InConflict (replaced i) f ·) ↔
      ByProtocol (requestedPorts lower composeHostPorts i) (replaced i) f := by
  rw [reported, portConflicts, map_fst_portIssues, sameDeploy_image hk]
  exact conflicting_eq_iff (replaced i) _

omit hk in
private theorem singles_eq_wanting (h : ByProtocol (requestedPorts lower composeHostPorts i)
    (replaced i)
    f) :
    singles (replaced i) hostName f (requestedPorts lower composeHostPorts i) =
      wanting lower composeHostPorts f i := by
  rw [singles, (conflicting_eq_iff (replaced i) _).mpr h, wanting]

private theorem suggests_iff :
    (∀ x ∈ portConflicts (sameDeploy i) hostName f (requestedPorts lower composeHostPorts i),
      ∀ fix, x.2.fix = some fix → ∃ q, fix.patch = { ports := [⟨x.1.port.repr, q.repr⟩] } ∧
        x.1.port < q ∧ q ≤ 65535 ∧ (∀ c ∈ f.containers, ∀ y ∈ c.ports, y.port ≠ q) ∧
          q ∉ f.listening ∧
        ∀ y ∈ requestedPorts lower composeHostPorts i, y.port ≠ q) ↔
      ∀ n ∈ ownPorts (replaced i) f, ¬ ∃ p, (p, n) ∈ suggested lower composeHostPorts hostName f
        i := by
  have hfix : ∀ p fix, (∃ x ∈ portConflicts (sameDeploy i) hostName f
    (requestedPorts lower composeHostPorts i),
      x.1 = p ∧ x.2.fix = some fix) ↔
        ∃ q, (p, q) ∈ suggested lower composeHostPorts hostName f i ∧ portFix p q = fix := by
    intro p fix
    have hmem : (p, fix) ∈ (portConflicts (sameDeploy i) hostName f
        (requestedPorts lower composeHostPorts i)).filterMap (fun x => x.2.fix.map (x.1, ·)) ↔
          (p, fix) ∈ (suggested lower composeHostPorts hostName f i).map fun x =>
            (x.1, portFix x.1 x.2) := by
      rw [portConflicts, fixes_portIssues, sameDeploy_image hk, suggested]
    simpa [List.mem_filterMap] using hmem
  constructor
  · rintro h n hn ⟨p, hp⟩
    obtain ⟨x, hx, rfl, hxfix⟩ := (hfix p (portFix p n)).mpr ⟨n, hp, rfl⟩
    obtain ⟨q, hpatch, -, -, hpub, -⟩ := h x hx _ hxfix
    obtain ⟨c, hc, -, y, hy, rfl⟩ := mem_ownPorts.mp hn
    refine hpub c hc y hy (repr_inj ?_)
    simpa [portFix] using hpatch
  · rintro h x hx fix hxfix
    obtain ⟨q, hq, rfl⟩ := (hfix x.1 fix).mp ⟨x, hx, rfl, hxfix⟩
    obtain ⟨-, hlt, huse⟩ := of_mem_suggested hq
    obtain ⟨⟨-, hle⟩, hothers, hlisten, hreq⟩ := mem_usable.mp huse
    refine ⟨q, rfl, hlt, hle, fun c hc y hy heq => ?_, hlisten, hreq⟩
    cases hown : replaced i c with
    | false => exact hothers c hc hown y hy heq
    | true => exact h q (mem_ownPorts.mpr ⟨c, hc, hown, y, hy, heq⟩) ⟨x.1, hq⟩

private theorem distinct_suggestions :
    (((conflictIssues lower composeHostPorts hostName f i).filterMap DeployIssue.fix).flatMap
      fun fix => fix.patch.ports.map PortPatch.toPort).Nodup := by
  have hname : (((nameConflict i hostName f).filterMap DeployIssue.fix).flatMap
      fun fix => fix.patch.ports.map PortPatch.toPort) = [] := by
    rw [nameConflict]
    split_ifs <;> rfl
  have hports : ((suggested lower composeHostPorts hostName f i).map fun x =>
    portFix x.1 x.2).flatMap
      (fun fix => fix.patch.ports.map PortPatch.toPort) =
        ((suggested lower composeHostPorts hostName f i).map Prod.snd).map Nat.repr := by
    rw [List.flatMap_map, List.map_map]
    exact List.flatMap_pure_eq_map _ _
  rw [fixes_conflictIssues hk, List.flatMap_append, hname, List.nil_append, hports, suggested,
    map_snd_offers]
  exact (nodup_placed _ _).map fun _ _ => repr_inj

/-- A replaced container after the suggestions, on the containers of the host. -/
def stillReplaced (i : DeployCheckInput) (c : CtrInfo) : Bool :=
  replaced i c && !validDockerName i.name

/-- With the suggestions taken the test finds a conflict of a port that was requested before when
there is one. -/
theorem conflictText_fixedForm_iff (h : ByProtocol (requestedPorts lower composeHostPorts i)
    (replaced i) f)
    {r : PortPair} (hr : r ∈ i.ports) {p : HostPort} (hp : p ∈ rowPorts lower r) :
    conflictText (replaced (fixedForm lower composeHostPorts hostName f i)) hostName f p ≠ "" ↔
      InConflict (stillReplaced i) f p := by
  have hcongr : conflictText (replaced (fixedForm lower composeHostPorts hostName f i)) hostName f
    p ≠ "" ↔
      conflictText (stillReplaced i) hostName f p ≠ "" :=
    conflictText_ne_empty_congr fun c hc => replaced_fixedForm hk hc
  rw [hcongr]
  refine conflictText_iff_inConflict.mpr fun htcp hlisten hown => ?_
  obtain ⟨c, hc, hcown, -⟩ := mem_ownPorts.mp hown
  -- Where a container is still replaced, the form keeps its name: the ports are compared as before.
  have hinvalid : validDockerName i.name = false := by
    rw [stillReplaced, Bool.and_eq_true, Bool.not_eq_true'] at hcown
    exact hcown.2
  have hsame : stillReplaced i = replaced i := funext fun c => by simp [stillReplaced, hinvalid]
  rw [hsame] at hown ⊢
  have hmem : p ∈ formHostPorts lower i.ports := List.mem_flatMap.mpr ⟨r, hr, hp⟩
  obtain ⟨x, hx, hkey⟩ := exists_mem_firsts hmem (List.not_mem_nil : p.key ∉ [])
  have hreq : requestedPorts lower composeHostPorts i = firsts [] (formHostPorts lower i.ports) :=
    requestedPorts_image hk
  rw [← hreq] at hx
  have hport : x.port = p.port := congrArg Prod.fst hkey
  have hproto : x.proto = p.proto := congrArg Prod.snd hkey
  have hbyx := h x hx
  rw [hport, hproto, hkey] at hbyx
  exact hbyx htcp hlisten hown

omit hk in
/-- A port that is suggested, and that no replaced container publishes, has no conflict. -/
theorem conflictText_suggested {q : ℕ} (huse : q ∈ usable lower composeHostPorts f i)
    (hown : q ∉ ownPorts (replaced i) f) {own : CtrInfo → Bool} {p : HostPort} (hp : p.port = q) :
    conflictText own hostName f p = "" := by
  by_contra htext
  obtain ⟨-, hothers, hlisten, -⟩ := mem_usable.mp huse
  rcases conflictText_ne_empty_iff.mp htext with ⟨c, hc, -, x, hx, hkey⟩ | ⟨-, hmem, -⟩
  · have hport : x.port = q := (congrArg Prod.fst hkey).trans hp
    cases hreplaced : replaced i c with
    | false => exact hothers c hc hreplaced x hx hport
    | true => exact hown (mem_ownPorts.mpr ⟨c, hc, hreplaced, x, hx, hport⟩)
  · exact hlisten (hp ▸ hmem)

omit hk in
private theorem movable_iff (h : ByProtocol (requestedPorts lower composeHostPorts i) (replaced i)
    f)
    {n : ℕ} :
    Movable lower composeHostPorts f i n ↔
      ∃ p q, (p, q) ∈ suggested lower composeHostPorts hostName f i ∧ p.port = n := by
  rw [suggested, mem_offers_fst, singles_eq_wanting h, Movable, usable]

/-- A row with the suggestions taken has no conflict when a suggestion was about it, or when the
port it asks for has none. -/
theorem resolved_row_iff (h : ByProtocol (requestedPorts lower composeHostPorts i) (replaced i) f)
    (hown : ∀ n ∈ ownPorts (replaced i) f, ¬ ∃ p, (p, n) ∈ suggested lower composeHostPorts hostName
      f i)
    {r : PortPair} (hr : r ∈ i.ports) :
    (∀ p ∈ rowPorts lower (moved (suggested lower composeHostPorts hostName f i) r), p.range =
      false →
        conflictText (replaced (fixedForm lower composeHostPorts hostName f i)) hostName f p = "") ↔
      (∃ n, jsTrim r.host = n.repr ∧ Movable lower composeHostPorts f i n) ∨
        ∀ p ∈ rowPorts lower r, p.range = false → ¬ InConflict (stillReplaced i) f p := by
  rw [moved]
  cases hfind : (suggested lower composeHostPorts hostName f i).find? fun x =>
      x.1.port.repr = jsTrim r.host with
  | some x =>
    have hmem : (x.1, x.2) ∈ suggested lower composeHostPorts hostName f i :=
      List.mem_of_find?_eq_some hfind
    have hhost : x.1.port.repr = jsTrim r.host := by simpa using List.find?_some hfind
    have huse := (of_mem_suggested hmem).2.2
    obtain ⟨⟨hpos, hle⟩, -⟩ := mem_usable.mp huse
    refine iff_of_true (fun p hp _ => ?_) (Or.inl ⟨x.1.port, hhost.symm, ?_⟩)
    · rw [rowPorts_repr lower hpos hle, List.mem_singleton] at hp
      exact conflictText_suggested huse (fun hmine => hown x.2 hmine ⟨x.1, hmem⟩)
        (congrArg HostPort.port hp)
    · exact (movable_iff h).mpr ⟨x.1, x.2, hmem, rfl⟩
  | none =>
    have hnone := List.find?_eq_none.mp hfind
    constructor
    · intro hall
      refine Or.inr fun p hp hrange hconflict => ?_
      exact (conflictText_fixedForm_iff hk h hr hp).mpr hconflict (hall p hp hrange)
    · rintro (⟨n, hhost, hmov⟩ | hall) p hp hrange
      · have hoffer : ∃ p q, (p, q) ∈ suggested lower composeHostPorts hostName f i ∧ p.port = n :=
          (movable_iff h).mp hmov
        obtain ⟨p', q, hmem, rfl⟩ := hoffer
        exact absurd (hnone _ hmem) (by simp [hhost])
      · by_contra htext
        exact hall p hp hrange ((conflictText_fixedForm_iff hk h hr hp).mp htext)

private theorem resolved_iff :
    (∀ r ∈ (fixedForm lower composeHostPorts hostName f i).ports,
      ∀ p ∈ rowPorts lower r, p.range = false →
      ∀ x ∈ reported lower composeHostPorts hostName f
        (fixedForm lower composeHostPorts hostName f i),
        x.key ≠ p.key) ↔
      ∀ r ∈ i.ports, ∀ p ∈ rowPorts lower (moved (suggested lower composeHostPorts hostName f i) r),
        p.range = false →
          conflictText (replaced (fixedForm lower composeHostPorts hostName f i)) hostName f p =
            "" := by
  have hports : (fixedForm lower composeHostPorts hostName f i).ports =
      i.ports.map (moved (suggested lower composeHostPorts hostName f i)) := by rw [fixedForm_eq hk]
  have hkind : (fixedForm lower composeHostPorts hostName f i).kind =
    .image := by rw [fixedForm_eq hk]; exact hk
  have hrow : ∀ r ∈ (fixedForm lower composeHostPorts hostName f i).ports, ∀ p ∈ rowPorts lower r,
      (∀ x ∈ reported lower composeHostPorts hostName f
        (fixedForm lower composeHostPorts hostName f i),
        x.key ≠ p.key) ↔
          conflictText (replaced (fixedForm lower composeHostPorts hostName f i)) hostName f p =
            "" := by
    intro r hr p hp
    have hreported : (∃ x ∈ reported lower composeHostPorts hostName f _, x.key = p.key) ↔ _ :=
      exists_reported_iff hkind hr hp
    rw [← not_iff_not, ← ne_eq (conflictText _ _ _ _), ← hreported]
    simp
  rw [hports] at hrow ⊢
  constructor
  · intro hall r hr p hp hrange
    have hr' := List.mem_map_of_mem (f := moved (suggested lower composeHostPorts hostName f i)) hr
    exact (hrow _ hr' p hp).mp (hall _ hr' p hp hrange)
  · intro hall r hr p hp hrange
    obtain ⟨r, hr₀, rfl⟩ := List.mem_map.mp hr
    exact (hrow _ hr p hp).mpr (hall r hr₀ p hp hrange)

/-- **Preflight.** The check of an image deployment does what it is for when a replaced container
explains a listening socket by the port with its protocol, no port that such a container publishes
is suggested, and each row for one port either names a port alone for which there is a suggestion or
asks for a port that is not in conflict once the container that has the name is no longer replaced.
-/
theorem preflight_iff : Preflight lower composeHostPorts hostName f i ↔
    ByProtocol (requestedPorts lower composeHostPorts i) (replaced i) f ∧
      (∀ n ∈ ownPorts (replaced i) f,
        ¬ Filled (usable lower composeHostPorts f i)
          ((wanting lower composeHostPorts f i).map HostPort.port) n) ∧
      ∀ r ∈ i.ports, (∃ n, jsTrim r.host = n.repr ∧ Movable lower composeHostPorts f i n) ∨
        ∀ p ∈ rowPorts lower r, p.range = false → ¬ InConflict (stillReplaced i) f p := by
  have hfilled : ByProtocol (requestedPorts lower composeHostPorts i) (replaced i) f → ∀ n,
      (∃ p, (p, n) ∈ suggested lower composeHostPorts hostName f i) ↔
        Filled (usable lower composeHostPorts f i)
          ((wanting lower composeHostPorts f i).map HostPort.port) n := by
    intro h n
    rw [suggested, mem_offers_snd, singles_eq_wanting h, usable]
  constructor
  · intro hp
    have hby := (reports_iff hk).mp hp.reports
    have hown := (suggests_iff hk).mp hp.suggests
    refine ⟨hby, fun n hn hn' => hown n hn ((hfilled hby n).mpr hn'), fun r hr => ?_⟩
    exact (resolved_row_iff hk hby hown hr).mp ((resolved_iff hk).mp hp.resolved r hr)
  · rintro ⟨hby, hfree, hrows⟩
    have hown : ∀ n ∈ ownPorts (replaced i) f,
      ¬ ∃ p, (p, n) ∈ suggested lower composeHostPorts hostName f i :=
      fun n hn hn' => hfree n hn ((hfilled hby n).mp hn')
    exact {
      reports := (reports_iff hk).mpr hby
      suggests := (suggests_iff hk).mpr hown
      distinct := distinct_suggestions hk
      named := named_fixedForm hk
      resolved :=
        (resolved_iff hk).mpr fun r hr => (resolved_row_iff hk hby hown hr).mpr (hrows r hr) }

end

end Preflight

/-- A host with a container that publishes 8081 and a socket on 8082. -/
private def busyHost : HostFacts :=
  { containers := [{ name := "other", ports := [⟨8081, "tcp", "", false⟩] }], listening := {8082} }

/-- A form that publishes the port of the other container. -/
private def webForm : DeployCheckInput :=
  { kind := .image, name := "web", ports := [⟨"8081", "80"⟩] }

/-- A free name and a port that is used. -/
theorem preflight_webForm : webForm.kind = .image ∧ Preflight toLower
    (fun _ _ => []) "nas" busyHost webForm := by
  refine ⟨rfl, (preflight_iff rfl).mpr ⟨?_, fun n hn => ?_, fun r hr => Or.inl ⟨8081, ?_, ?_⟩⟩⟩
  · unfold ByProtocol
    decide +kernel
  · have hnone : ownPorts (replaced webForm) busyHost = [] := by decide +kernel
    simp [hnone] at hn
  · obtain rfl : r = ⟨"8081", "80"⟩ := List.mem_singleton.mp hr
    decide +kernel
  · refine ⟨[], ⟨8081, "tcp", "8081", false⟩,
      [], by decide +kernel, rfl, 8083, ?_, by decide, not_filled_nil⟩
    exact mem_usable.mpr ⟨by decide, by decide +kernel, by decide +kernel, by decide +kernel⟩

/-- A container that is deployed again under its name: the new name that is suggested makes its port
a conflict. -/
theorem renamed_conflict : ¬ ∀ (lower : String → String) composeHostPorts hostName f
    (i : DeployCheckInput),
    i.kind = .image → Preflight lower composeHostPorts hostName f i := by
  intro h
  have hp := h toLower (fun _ _ => []) "nas"
    { containers := [{ name := "web", ports := [⟨8080, "tcp", "", false⟩] }] }
    { kind := .image, name := "web", ports := [⟨"8080", "80"⟩] } rfl
  refine hp.resolved ⟨"8080", "80"⟩ ?_ ⟨8080, "tcp", "8080", false⟩ ?_
    rfl ⟨8080, "tcp", "8080", false⟩ ?_ rfl
  all_goals decide +kernel

end Dockhand.DeployCheck
