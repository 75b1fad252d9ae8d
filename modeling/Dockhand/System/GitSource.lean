import Dockhand.Go.Path
import Dockhand.Go.Url

/-!
# The repository of the checkout

Dockhand updates itself by fetching from the repository that the origin of its checkout names.
`parseGitHubRemote` reads owner and name off the remote, and `remoteName` makes of a remote what is
shown of it. The host of a URL is checked. What looks like `git@host:path` is taken for a repository
of GitHub, whatever its host is, so that a checkout from elsewhere is updated from a repository that
has the same path on GitHub: `gitlab_taken`. `faithful_iff` says for which remotes the two functions
do what they are for.
-/

namespace Dockhand.System.GitSource

open Go Go.Url

/-! ### The remote -/

/-- The checkout that the stack was built from. -/
structure Checkout where
  sha : List Char
  branch : List Char
  owner : List Char
  repo : List Char

/-- The path behind a colon is taken for one of GitHub. -/
def scpToURL (r : List Char) : List Char :=
  if "git@".toList.isPrefixOf r then
    match cutList [':'] r with
    | some (_, after) => "https://github.com/".toList ++ after
    | none => r
  else r

/-- What `parseGitHubRemote` hands to `url.Parse`. -/
def remoteURL (remote : List Char) : List Char :=
  scpToURL (trimSuffixList ".git".toList (trimSuffixList ['/'] (trimSpaceUtf8 remote)))

/-- The parts of a path without the slashes around it. -/
def segments (p : List Char) : List (List Char) :=
  ((p.dropWhile (· = '/')).rdropWhile (· = '/')).splitOn '/'

/-- `parseGitHubRemote` extracts owner and repo from https, ssh or scp-style GitHub remotes. -/
def parseGitHubRemote (orbit : ℕ → ℕ) (remote : List Char) : List Char × List Char :=
  let r := remoteURL remote
  match parse r with
  | none => ([], [])
  | some u =>
    if equalFold orbit (trimPrefixList "www.".toList u.hostname) "github.com".toList then
      match segments (path r) with
      | owner :: repo :: _ => (owner, repo)
      | _ => ([], [])
    else ([], [])

/-- `readCheckout`, from what git says. -/
def readCheckout (orbit : ℕ → ℕ) (sha branch remote : List Char) : Checkout where
  sha := sha
  branch := branch
  owner := (parseGitHubRemote orbit remote).1
  repo := (parseGitHubRemote orbit remote).2

/-- What `startGit` fetches from. -/
def fetchURL (c : Checkout) (token : List Char) : List Char :=
  if c.owner = [] then "origin".toList
  else if token = [] then
    "https://github.com/".toList ++ c.owner ++ "/".toList ++ c.repo ++ ".git".toList
  else
    "https://x-access-token:".toList ++ token ++ "@github.com/".toList ++ c.owner ++
      "/".toList ++ c.repo ++ ".git".toList

/-! ### The name that is shown -/

/-- The first colon of what stands behind `git@` becomes a slash. -/
def scpToPath (u : List Char) : List Char :=
  if "git@".toList.isPrefixOf u then
    match cutList [':'] (trimPrefixList "git@".toList u) with
    | some (host, path) => host ++ '/' :: path
    | none => trimPrefixList "git@".toList u
  else u

/-- What `remoteName` takes off in front of a URL, in this order. -/
def schemes : List (List Char) :=
  ["https://".toList, "http://".toList, "ssh://git@".toList, "ssh://".toList]

/-- The URL without its scheme; each is tried once. -/
def dropSchemes (u : List Char) : List Char := schemes.foldl (fun u p => trimPrefixList p u) u

/-- Drop credentials embedded in the URL. -/
def dropCredentials (u : List Char) : List Char :=
  match cutList ['@'] u with
  | some (before, after) => if '/' ∉ before ∧ '/' ∈ after then after else u
  | none => u

/-- `remoteName` of `gitdeploy`. -/
def remoteName (u : List Char) : List Char :=
  dropCredentials (dropSchemes (scpToPath (trimSuffixList ".git".toList (trimSpaceUtf8 u))))

/-! ### What they are for -/

/-- What stands behind the host of a name. -/
def ownerRepo (name : List Char) : Option (List Char) := (cutList ['/'] name).map Prod.snd

/-- The host and the path of a remote, which is a URL or in the style of scp. -/
inductive Located : List Char → List Char → List Char → Prop
  | url {scheme auth host path : List Char} (hscheme : scheme ∈ ["https:".toList, "ssh:".toList])
      (hslash : '/' ∉ auth) (hauth : Authority auth host) :
      Located (scheme ++ '/' :: '/' :: (auth ++ '/' :: path)) host path
  | scp {auth host path : List Char} (hslash : '/' ∉ auth) (hcolon : ':' ∉ auth)
      (hauth : Authority auth host) : Located (auth ++ ':' :: path) host path

section Spec

variable (orbit : ℕ → ℕ)

/-- The host is GitHub's, with or without `www` and in any case. -/
def IsGitHub (host : List Char) : Prop :=
  equalFold orbit host "github.com".toList = true ∨
    equalFold orbit host "www.github.com".toList = true

/-- The remote is a repository of GitHub, whose owner and name are the first parts of its path. -/
def IsRepo (remote owner repo : List Char) : Prop :=
  ∃ host path name rest, Located remote host path ∧ IsGitHub orbit host ∧
    segments path = owner :: name :: rest ∧ repo = trimSuffixList ".git".toList name ∧
    owner ≠ [] ∧ repo ≠ []

/-- The remote is read as the repository that it is, and so is the name that is shown. -/
structure Faithful (remote : List Char) : Prop where
  recognised : ∀ owner repo, parseGitHubRemote orbit remote = (owner, repo) → owner ≠ [] →
    repo ≠ [] → IsRepo orbit (trimSpaceUtf8 remote) owner repo
  fetched : ∀ sha branch token,
    fetchURL (readCheckout orbit sha branch remote) token ≠ "origin".toList →
      IsRepo orbit (trimSpaceUtf8 remote) (readCheckout orbit sha branch remote).owner
        (readCheckout orbit sha branch remote).repo
  named : ∀ owner repo, parseGitHubRemote orbit remote = (owner, repo) → owner ≠ [] →
    repo ≠ [] → ownerRepo (remoteName remote) = some (owner ++ '/' :: repo)

/-! ### When they do it -/

/-- What is parsed is a URL of GitHub with two or more parts in its path. -/
def TakenForGitHub (remote : List Char) : Prop :=
  ∃ u, parse (remoteURL remote) = some u ∧
    equalFold orbit (trimPrefixList "www.".toList u.hostname) "github.com".toList = true ∧
    2 ≤ (segments (path (remoteURL remote))).length

/-- A part of a path that is written as it is. -/
def Segment (s : List Char) : Prop := s ≠ [] ∧ ∀ c ∈ ['/', '?', '#', '%'], c ∉ s

/-- A URL, or `git@` and a host that is GitHub's, with an owner and a name and nothing else. -/
inductive Plain : List Char → Prop
  | url {scheme auth owner repo : List Char} (hscheme : scheme ∈ ["https:".toList, "ssh:".toList])
      (hauth : ∀ c ∈ ['/', '?', '#'], c ∉ auth) (howner : Segment owner) (hrepo : Segment repo) :
      Plain (scheme ++ '/' :: '/' :: (auth ++ '/' :: (owner ++ '/' :: repo)))
  | scp {user host owner repo : List Char} (hslash : '/' ∉ user) (hcolon : ':' ∉ user)
      (hauth : Authority ("git@".toList ++ user) host) (hhost : IsGitHub orbit host)
      (howner : Segment owner) (hrepo : Segment repo) :
      Plain ("git@".toList ++ user ++ ':' :: (owner ++ '/' :: repo))

end Spec

/-! ### Hosts -/

variable {orbit : ℕ → ℕ} {host : List Char}

private theorem isGitHub_of_trimPrefix
    (h : equalFold orbit (trimPrefixList "www.".toList host) "github.com".toList = true) :
    IsGitHub orbit host := by
  by_cases hwww : "www.".toList <+: host
  · obtain ⟨rest, rfl⟩ := hwww
    right
    rw [trimPrefixList_append, equalFold, decide_eq_true_eq] at h
    rw [equalFold, decide_eq_true_eq]
    have hleft : "www.".toList ++ rest = "www".toList ++ '.' :: rest := rfl
    have hright : "www.github.com".toList = "www".toList ++ '.' :: "github.com".toList := rfl
    rw [hleft, hright, folded_append (by decide), folded_append (by decide), h]
  · rw [trimPrefixList_eq_self hwww] at h
    exact Or.inl h

private theorem folded_github : folded orbit "github.com".toList = "github.com".toList.map
    Char.toNat := rfl

private theorem folded_wwwgithub :
    folded orbit "www.github.com".toList = "www.github.com".toList.map Char.toNat := rfl

/-- A host that is GitHub's is written in ASCII, without escapes and a port. -/
theorem IsGitHub.plain (h : IsGitHub orbit host) :
    ∀ c ∈ host, c.toNat < 0x80 ∧ c ≠ ':' ∧ c ≠ '%' := by
  have hall : ∀ {name : List Char}, folded orbit name = name.map Char.toNat →
      (∀ n ∈ name.map Char.toNat, n < 128 ∧ n ≠ 'k'.toNat ∧ n ≠ 's'.toNat) → ':' ∉ name →
      '%' ∉ name → equalFold orbit host name = true →
      ∀ c ∈ host, c.toNat < 0x80 ∧ c ≠ ':' ∧ c ≠ '%' := by
    intro name hname hascii hcolon hpercent heq c hc
    rw [equalFold, decide_eq_true_eq] at heq
    refine ⟨ascii_of_folded (show ∀ n ∈ folded orbit host,
      _ by rw [heq, hname]; exact hascii) c hc, ?_, ?_⟩
    · rintro rfl
      exact hcolon ((mem_iff_of_folded_eq (by decide) heq).mp hc)
    · rintro rfl
      exact hpercent ((mem_iff_of_folded_eq (by decide) heq).mp hc)
  rcases h with h | h
  · exact hall folded_github (by decide) (by decide) (by decide) h
  · exact hall folded_wwwgithub (by decide) (by decide) (by decide) h

private theorem not_isGitHub {name : List Char} (hname : folded orbit name = name.map Char.toNat)
    (hne : name ≠ "github.com".toList) (hne' : name ≠ "www.github.com".toList) :
    ¬ IsGitHub orbit name := by
  have hinj : Function.Injective Char.toNat := fun _ _ => Char.toNat_inj.mp
  rintro (h | h)
  · rw [equalFold, decide_eq_true_eq, hname, folded_github] at h
    exact hne (List.map_injective_iff.mpr hinj h)
  · rw [equalFold, decide_eq_true_eq, hname, folded_wwwgithub] at h
    exact hne' (List.map_injective_iff.mpr hinj h)

/-- An authority of GitHub is none that stands for another host. -/
theorem ne_of_isGitHub {auth other : List Char} (hauth : Authority auth host)
    (hhost : IsGitHub orbit host)
    (hother : ¬ IsGitHub orbit (before ':' (((splitLast '@' other).map Prod.snd).getD other))) :
    auth ≠ other := by
  rintro rfl
  exact hother (hauth.host_eq ▸ hhost)

/-! ### Paths -/

section Paths

variable {p w owner repo : List Char} {rest : List (List Char)}

private theorem segments_slash (p : List Char) : segments ('/' :: p) = segments p := by
  rw [segments, List.dropWhile_cons_of_pos (by simp), segments]

private theorem segments_pair (howner : owner ≠ [] ∧ '/' ∉ owner) (hrepo : repo ≠ [] ∧ '/' ∉ repo) :
    segments (owner ++ '/' :: repo) = [owner, repo] := by
  have hdrop : (owner ++ '/' :: repo).dropWhile (· = '/') = owner ++ '/' :: repo := by
    cases owner with
    | nil => exact absurd rfl howner.1
    | cons c owner =>
      refine List.dropWhile_cons_of_neg ?_
      simpa using fun hc : c = '/' => howner.2 (hc ▸ List.mem_cons_self)
  have hrdrop : (owner ++ '/' :: repo).rdropWhile (· = '/') = owner ++ '/' :: repo := by
    rcases List.eq_nil_or_concat repo with rfl | ⟨repo, c, rfl⟩
    · exact absurd rfl hrepo.1
    · rw [List.concat_eq_append, ← List.cons_append, ← List.append_assoc]
      refine List.rdropWhile_concat_neg _ _ _ ?_
      simpa using fun hc : c = '/' => hrepo.2 (by simp [hc])
  rw [segments, hdrop, hrdrop, List.splitOn_append_cons_self, List.splitOn_eq_singleton howner.2,
    List.splitOn_eq_singleton hrepo.2]
  rfl

/-- The first two parts of a path stand in it, and there is no slash in them. -/
theorem of_segments (h : segments p = owner :: repo :: rest) :
    owner ≠ [] ∧ '/' ∉ owner ∧ '/' ∉ repo ∧ (owner ++ '/' :: repo).length ≤ p.length := by
  have hmem : ∀ s ∈ owner :: repo :: rest, '/' ∉ s := fun s hs =>
    not_mem_of_mem_splitOn (h ▸ hs)
  have hjoin : ['/'].intercalate (owner :: repo :: rest) =
      (p.dropWhile (· = '/')).rdropWhile (· = '/') := by
    rw [← h, segments]
    exact List.intercalate_splitOn '/'
  have hgitPre : owner ++ '/' :: repo <+: (p.dropWhile (· = '/')).rdropWhile (· = '/') := by
    rw [← hjoin]
    cases rest with
    | nil => simp [List.intercalate]
    | cons r rest => simp [List.intercalate]
  refine ⟨?_, hmem _ (by simp), hmem _ (by simp), ?_⟩
  · rintro rfl
    -- the slashes at the beginning have been trimmed
    have hhead := hgitPre.trans (List.rdropWhile_prefix _ _)
    obtain ⟨t, ht⟩ := hhead
    have hnot := List.head?_dropWhile_not (fun c => decide (c = '/')) p
    rw [← ht] at hnot
    simp at hnot
  · exact (hgitPre.length_le.trans (List.rdropWhile_prefix _ _).length_le).trans
      (List.dropWhile_suffix _).length_le

/-- **Nothing is left out.** When the first two parts of what is decoded are all of the text, it
has no marks. -/
theorem segment_of_segments (hescape : unescape .other ('/' :: before '?' (before '#' w)) = some p)
    (hseg : segments p = owner :: repo :: rest) (hw : w = owner ++ '/' :: repo)
      (hrepo : repo ≠ []) :
    Segment owner ∧ Segment repo := by
  have hun := unescaped_of_eq hescape
  obtain ⟨p', rfl⟩ : ∃ p', p = '/' :: p' := by
    cases hun with
    | byte _ rest => exact ⟨_, rfl⟩
  rw [segments_slash] at hseg
  obtain ⟨howner, hoslash, hrslash, hlen⟩ := of_segments hseg
  have hle := hun.length_le
  simp only [List.length_cons] at hle
  have hquestion := length_before_le (x := '?') (s := before '#' w)
  have hhash := length_before_le (x := '#') (s := w)
  rw [← hw] at hlen
  have hhash' : before '#' w = w :=
    (List.takeWhile_prefix _).eq_of_length (by simp only [before] at *; omega)
  have hquestion' : before '?' w = w :=
    (List.takeWhile_prefix _).eq_of_length (by
      rw [hhash'] at hle hquestion; simp only [before] at *; omega)
  rw [hhash', hquestion'] at hun hle
  have hpercent := (hun.eq_of_length (by simp only [List.length_cons]; omega)).2
  have hclean : ∀ c ∈ ['?', '#', '%'], c ∉ w := by
    simp only [List.forall_mem_cons, List.not_mem_nil, false_imp_iff, implies_true, and_true]
    exact ⟨hquestion' ▸ not_mem_before, hhash' ▸ not_mem_before,
      fun hmem => hpercent (List.mem_cons_of_mem _ hmem)⟩
  have hsub : ∀ {s : List Char}, s ⊆ w → '/' ∉ s → ∀ c ∈ ['/', '?', '#', '%'], c ∉ s := by
    intro s hs hslash c hc hmem
    rcases List.mem_cons.mp hc with rfl | hc
    · exact hslash hmem
    · exact hclean c hc (hs hmem)
  refine ⟨⟨howner, hsub ?_ hoslash⟩, ⟨hrepo, hsub ?_ hrslash⟩⟩
  · exact hw ▸ List.subset_append_left _ _
  · exact hw ▸ fun c hc => List.mem_append_right _ (List.mem_cons_of_mem _ hc)

end Paths

/-! ### Names -/

section Names

variable {a b w x y user scheme : List Char}

private theorem ownerRepo_append (h : '/' ∉ a) : ownerRepo (a ++ '/' :: w) = some w := by
  rw [ownerRepo, cutList_append h, Option.map_some]

private theorem ownerRepo_suffix (h : ownerRepo x = some w) : w <:+ x := by
  obtain ⟨⟨a, b⟩, hcut, rfl⟩ := Option.map_eq_some_iff.mp h
  obtain ⟨rfl, -⟩ := eq_of_cutList hcut
  exact ⟨a ++ ['/'], by simp⟩

private theorem dropCredentials_suffix (x : List Char) : dropCredentials x <:+ x := by
  unfold dropCredentials
  split
  · rename_i hcut
    split
    · obtain ⟨rfl, -⟩ := eq_of_cutList hcut
      exact (List.suffix_cons _ _).trans (List.suffix_append _ _)
    · exact List.suffix_refl x
  · exact List.suffix_refl x

private theorem dropSchemes_suffix (x : List Char) : dropSchemes x <:+ x := by
  unfold dropSchemes
  induction schemes generalizing x with
  | nil => exact List.suffix_refl x
  | cons p ps ih => exact (ih (trimPrefixList p x)).trans (trimPrefixList_suffix p x)

/-- Credentials stand before the first slash. -/
theorem ownerRepo_dropCredentials (h : '/' ∉ a) :
    ownerRepo (dropCredentials (a ++ '/' :: w)) = some w := by
  by_cases hat : '@' ∈ a
  · obtain ⟨ui, host, rfl, hui⟩ := List.eq_append_cons_of_mem hat
    have hslash : '/' ∉ ui ∧ '/' ∈ host ++ '/' :: w :=
      ⟨fun hmem => h (List.mem_append_left _ hmem), by simp⟩
    rw [dropCredentials, List.append_assoc, List.cons_append, cutList_append hui]
    dsimp only
    rw [if_pos hslash]
    exact ownerRepo_append fun hmem => h (by simp [hmem])
  · have hkeep : dropCredentials (a ++ '/' :: w) = a ++ '/' :: w := by
      unfold dropCredentials
      split
      · rename_i ui after hcut
        refine if_neg fun hslash => ?_
        rcases List.append_eq_append_iff.mp (eq_of_cutList hcut).1 with ⟨c, rfl, hc⟩ | ⟨c, rfl, hc⟩
        · cases c with
          | nil => cases hc
          | cons d c => exact hslash.1 (by rw [← (List.cons.inj hc).1]; simp)
        · cases c with
          | nil => cases hc
          | cons d c => exact hat (by rw [← (List.cons.inj hc).1]; simp)
      · rfl
    rw [hkeep, ownerRepo_append h]

private theorem trimPrefixList_slash {p : List Char} (hp : '/' ∉ p) (hx : '/' ∉ x) (hne : p ≠ x) :
    trimPrefixList (p ++ '/' :: a) (x ++ '/' :: y) = x ++ '/' :: y := by
  refine trimPrefixList_eq_self fun hgitPre => hne ?_
  obtain ⟨t, ht⟩ := hgitPre
  rw [List.append_assoc, List.cons_append] at ht
  exact (slash_cancel hp hx ht).1

private theorem prefix_of_not_mem {p : List Char} {c : Char} (hp : c ∉ p) (h : p <+: a ++ c :: w) :
    p <+: a := by
  rcases List.prefix_or_prefix_of_prefix h (List.prefix_append a (c :: w)) with h' | ⟨t, rfl⟩
  · exact h'
  · cases t with
    | nil => simp
    | cons d t =>
      rw [List.prefix_append_right_inj] at h
      exact absurd (by rw [(List.cons_prefix_cons.mp h).1]; simp) hp

/-- What does not begin with the scheme of a prefix keeps what it begins with. -/
theorem keep_https (hx : '/' ∉ x) (hne : x ≠ "https:".toList) :
    trimPrefixList "https://".toList (x ++ '/' :: y) = x ++ '/' :: y :=
  trimPrefixList_slash (p := "https:".toList) (a := ['/']) (by decide) hx (Ne.symm hne)

private theorem keep_http (hx : '/' ∉ x) (hne : x ≠ "http:".toList) :
    trimPrefixList "http://".toList (x ++ '/' :: y) = x ++ '/' :: y :=
  trimPrefixList_slash (p := "http:".toList) (a := ['/']) (by decide) hx (Ne.symm hne)

private theorem keep_sshGit (hx : '/' ∉ x) (hne : x ≠ "ssh:".toList) :
    trimPrefixList "ssh://git@".toList (x ++ '/' :: y) = x ++ '/' :: y :=
  trimPrefixList_slash (p := "ssh:".toList) (a := "/git@".toList) (by decide) hx (Ne.symm hne)

private theorem keep_ssh (hx : '/' ∉ x) (hne : x ≠ "ssh:".toList) :
    trimPrefixList "ssh://".toList (x ++ '/' :: y) = x ++ '/' :: y :=
  trimPrefixList_slash (p := "ssh:".toList) (a := ['/']) (by decide) hx (Ne.symm hne)

private theorem dropSchemes_eq (x : List Char) :
    dropSchemes x = trimPrefixList "ssh://".toList (trimPrefixList "ssh://git@".toList
      (trimPrefixList "http://".toList (trimPrefixList "https://".toList x))) := rfl

/-- What begins with another scheme keeps it. -/
theorem dropSchemes_eq_self (hx : '/' ∉ x) (hhttps : x ≠ "https:".toList)
    (hhttp : x ≠ "http:".toList) (hssh : x ≠ "ssh:".toList) :
    dropSchemes (x ++ '/' :: y) = x ++ '/' :: y := by
  rw [dropSchemes_eq, keep_https hx hhttps, keep_http hx hhttp, keep_sshGit hx hssh,
    keep_ssh hx hssh]

/-- What stands behind a scheme is kept from the path on. -/
theorem exists_dropSchemes
    (hscheme : scheme ∈ ["https:".toList, "http:".toList, "ssh:".toList]) (ha : '/' ∉ a)
    (hhttp : a ≠ "http:".toList) (hssh : a ≠ "ssh:".toList) (hgit : a ≠ "git@ssh:".toList) :
    ∃ a', '/' ∉ a' ∧ dropSchemes (scheme ++ '/' :: '/' :: (a ++ '/' :: w)) = a' ++ '/' :: w := by
  simp only [List.mem_cons, List.not_mem_nil, or_false] at hscheme
  rcases hscheme with rfl | rfl | rfl
  · have hdrop : trimPrefixList "https://".toList
        ("https:".toList ++ '/' :: '/' :: (a ++ '/' :: w)) = a ++ '/' :: w :=
      trimPrefixList_append "https://".toList _
    exact ⟨a, ha, by rw [dropSchemes_eq, hdrop, keep_http ha hhttp, keep_sshGit ha hssh,
      keep_ssh ha hssh]⟩
  · have hdrop : trimPrefixList "http://".toList
        ("http:".toList ++ '/' :: '/' :: (a ++ '/' :: w)) = a ++ '/' :: w :=
      trimPrefixList_append "http://".toList _
    exact ⟨a, ha, by rw [dropSchemes_eq, keep_https (by decide) (by decide), hdrop,
      keep_sshGit ha hssh, keep_ssh ha hssh]⟩
  · by_cases huser : "git@".toList <+: a
    · obtain ⟨a', rfl⟩ := huser
      have hdrop : trimPrefixList "ssh://git@".toList
          ("ssh:".toList ++ '/' :: '/' :: ("git@".toList ++ a' ++ '/' :: w)) = a' ++ '/' :: w :=
        trimPrefixList_append "ssh://git@".toList _
      have ha' : '/' ∉ a' := fun hmem => ha (List.mem_append_right _ hmem)
      have hssh' : a' ≠ "ssh:".toList := fun heq => hgit (by rw [heq]; rfl)
      exact ⟨a', ha', by rw [dropSchemes_eq, keep_https (by decide) (by decide),
        keep_http (by decide) (by decide), hdrop, keep_ssh ha' hssh']⟩
    · have hkeep : ¬ "ssh://git@".toList <+: "ssh:".toList ++ '/' :: '/' :: (a ++ '/' :: w) := by
        intro hgitPre
        have hgit' : "ssh://".toList ++ "git@".toList <+: "ssh://".toList ++ (a ++ '/' :: w) :=
          hgitPre
        rw [List.prefix_append_right_inj] at hgit'
        exact huser (prefix_of_not_mem (by decide) hgit')
      have hdrop : trimPrefixList "ssh://".toList
          ("ssh:".toList ++ '/' :: '/' :: (a ++ '/' :: w)) = a ++ '/' :: w :=
        trimPrefixList_append "ssh://".toList _
      exact ⟨a, ha, by rw [dropSchemes_eq, keep_https (by decide) (by decide),
        keep_http (by decide) (by decide), trimPrefixList_eq_self hkeep, hdrop]⟩

private theorem exists_dropSchemes_of_isGitHub
    (hscheme : scheme ∈ ["https:".toList, "http:".toList, "ssh:".toList]) (ha : '/' ∉ a)
    (hauth : Authority a host) (hhost : IsGitHub orbit host) :
    ∃ a', '/' ∉ a' ∧ dropSchemes (scheme ++ '/' :: '/' :: (a ++ '/' :: w)) = a' ++ '/' :: w := by
  have hother : ∀ {other : List Char},
      ¬ IsGitHub orbit (before ':' (((splitLast '@' other).map Prod.snd).getD other)) →
      a ≠ other := fun hno => ne_of_isGitHub hauth hhost hno
  exact exists_dropSchemes hscheme ha (hother (not_isGitHub rfl (by decide) (by decide)))
    (hother (not_isGitHub rfl (by decide) (by decide)))
    (hother (not_isGitHub rfl (by decide) (by decide)))

private theorem cutList_scp (huser : ':' ∉ user) :
    cutList [':'] ("git@".toList ++ user ++ ':' :: w) = some ("git@".toList ++ user, w) :=
  cutList_append fun hmem => (List.mem_append.mp hmem).elim (by decide) huser

private theorem scpToURL_scp (huser : ':' ∉ user) :
    scpToURL ("git@".toList ++ user ++ ':' :: w) = "https://github.com/".toList ++ w := by
  rw [scpToURL, cutList_scp huser]
  exact if_pos (List.isPrefixOf_iff_prefix.mpr
    (by rw [List.append_assoc]; exact List.prefix_append _ _))

private theorem scpToPath_scp (huser : ':' ∉ user) :
    scpToPath ("git@".toList ++ user ++ ':' :: w) = user ++ '/' :: w := by
  have hgitPre : "git@".toList.isPrefixOf ("git@".toList ++ user ++ ':' :: w) = true :=
    List.isPrefixOf_iff_prefix.mpr (by rw [List.append_assoc]; exact List.prefix_append _ _)
  rw [scpToPath, if_pos hgitPre, List.append_assoc, trimPrefixList_append, cutList_append huser]

/-- A remote is in the style of scp, or one function leaves it as it is and the other one takes
something from its beginning at most. -/
theorem scp_cases (s : List Char) :
    (∃ user w, s = "git@".toList ++ user ++ ':' :: w ∧ ':' ∉ user) ∨
      scpToURL s = s ∧ scpToPath s <:+ s := by
  by_cases hgitPre : "git@".toList <+: s
  · have hgit := List.isPrefixOf_iff_prefix.mpr hgitPre
    by_cases hcolon : ':' ∈ s
    · obtain ⟨auth, w, rfl, hauth⟩ := List.eq_append_cons_of_mem hcolon
      obtain ⟨user, rfl⟩ := prefix_of_not_mem (by decide) hgitPre
      exact Or.inl ⟨user, w, rfl, fun hmem => hauth (List.mem_append_right _ hmem)⟩
    · have hsuffix := trimPrefixList_suffix "git@".toList s
      refine Or.inr ⟨?_, ?_⟩
      · rw [scpToURL, cutList_of_not_mem hcolon]
        exact if_pos hgit
      · rw [scpToPath, if_pos hgit, cutList_of_not_mem fun hmem => hcolon (hsuffix.subset hmem)]
        exact hsuffix
  · have hgit : ¬ "git@".toList.isPrefixOf s = true := fun h =>
      hgitPre (List.isPrefixOf_iff_prefix.mp h)
    exact Or.inr ⟨if_neg hgit, by rw [scpToPath, if_neg hgit]⟩

/-- What begins with a scheme is not in the style of scp. -/
theorem scpToPath_of_scheme (hx : '@' ∉ x) : scpToPath (x ++ '/' :: y) = x ++ '/' :: y :=
  if_neg fun h => hx ((prefix_of_not_mem (by decide) (List.isPrefixOf_iff_prefix.mp h)).subset
    (by decide))

private theorem scpToURL_of_scheme (hx : '@' ∉ x) : scpToURL (x ++ '/' :: y) = x ++ '/' :: y :=
  if_neg fun h => hx ((prefix_of_not_mem (by decide) (List.isPrefixOf_iff_prefix.mp h)).subset
    (by decide))

end Names

/-! ### Remotes that are taken for GitHub -/

section Taken

variable {remote owner repo s w : List Char} {rest : List (List Char)} {u : URL}

private theorem IsRepo.repo_ne_nil (h : IsRepo orbit remote owner repo) : repo ≠ [] := by
  obtain ⟨host, path, name, rest, -, -, -, -, -, hne⟩ := h
  exact hne

private theorem parseGitHubRemote_of_not_taken (h : ¬ TakenForGitHub orbit remote) :
    parseGitHubRemote orbit remote = ([], []) := by
  unfold parseGitHubRemote
  dsimp only
  split
  · rfl
  · rename_i u hu
    split
    · rename_i hhost
      split
      · rename_i hseg
        exact absurd ⟨u, hu, hhost, by rw [hseg]; simp⟩ h
      · rfl
    · rfl

/-- A URL of GitHub, and the first parts of its path. -/
structure Taken (orbit : ℕ → ℕ) (remote owner repo : List Char) (u : URL) : Prop where
  parsed : parse (remoteURL remote) = some u
  isGitHub : IsGitHub orbit u.hostname
  parts : ∃ rest, segments (path (remoteURL remote)) = owner :: repo :: rest
  eq : parseGitHubRemote orbit remote = (owner, repo)

private theorem exists_taken (h : TakenForGitHub orbit remote) :
    ∃ owner repo u, Taken orbit remote owner repo u := by
  obtain ⟨u, hu, hhost, hlen⟩ := h
  match hseg : segments (path (remoteURL remote)), hlen with
  | owner :: repo :: rest, _ =>
    refine ⟨owner, repo, u, hu, isGitHub_of_trimPrefix hhost, ⟨rest, hseg⟩, ?_⟩
    rw [parseGitHubRemote]
    simp only [hu, hhost, hseg, if_true]

namespace Taken

private theorem owner_ne_nil (h : Taken orbit remote owner repo u) : owner ≠ [] := by
  obtain ⟨rest, hseg⟩ := h.parts
  exact (of_segments hseg).1

private theorem host_ne_nil (h : Taken orbit remote owner repo u) : u.host ≠ [] := by
  intro hnil
  have hname : u.hostname = [] := by rw [URL.hostname, hnil]; rfl
  exact not_isGitHub rfl (by decide) (by decide) (hname ▸ h.isGitHub)

private theorem path_ne_nil (h : Taken orbit remote owner repo u) :
    path (remoteURL remote) ≠ [] := by
  obtain ⟨rest, hseg⟩ := h.parts
  intro hnil
  rw [hnil] at hseg
  cases hseg

/-- The host and the path of a URL whose text is known. -/
theorem authority (h : Taken orbit remote owner repo u) {pre auth : List Char}
    (htext : remoteURL remote = pre ++ '/' :: '/' :: (auth ++ '/' :: w)) (hpre : '/' ∉ pre)
    (hauth : '/' ∉ auth) :
    Authority auth u.hostname ∧
      ∃ p, unescape .other ('/' :: before '?' (before '#' w)) = some p ∧
        ∃ rest, segments p = owner :: repo :: rest := by
  have hparsed := h.parsed
  have hpath := h.path_ne_nil
  have hparts := h.parts
  rw [htext] at hparsed hpath hparts
  obtain ⟨⟨scheme, hhost⟩, hescape⟩ := authority_eq hparsed h.host_ne_nil hpath hpre hauth
  exact ⟨authority_of_parse hhost h.isGitHub.plain, _, hescape, hparts⟩

/-- Such a remote is read as it should be when it is a repository and its name is shown. -/
theorem faithful_iff_named (h : Taken orbit remote owner repo u) :
    Faithful orbit remote ↔ IsRepo orbit (trimSpaceUtf8 remote) owner repo ∧
      ownerRepo (remoteName remote) = some (owner ++ '/' :: repo) := by
  have hcheckout : ∀ sha branch, readCheckout orbit sha branch remote =
    ⟨sha, branch, owner, repo⟩ :=
    fun sha branch => by rw [readCheckout, h.eq]
  constructor
  · intro hfaithful
    have hfetch : fetchURL (readCheckout orbit [] [] remote) [] ≠ "origin".toList := by
      rw [hcheckout, fetchURL, if_neg h.owner_ne_nil, if_pos rfl]
      exact fun heq => absurd (List.cons.inj heq).1 (by decide)
    have hrepo := hfaithful.fetched [] [] [] hfetch
    rw [hcheckout] at hrepo
    exact ⟨hrepo, hfaithful.named owner repo h.eq h.owner_ne_nil hrepo.repo_ne_nil⟩
  · rintro ⟨hrepo, hname⟩
    refine ⟨?_, ?_, ?_⟩
    · intro owner' repo' heq _ _
      obtain ⟨rfl, rfl⟩ := Prod.mk.inj (h.eq.symm.trans heq)
      exact hrepo
    · intro sha branch token _
      rw [hcheckout]
      exact hrepo
    · intro owner' repo' heq _ _
      obtain ⟨rfl, rfl⟩ := Prod.mk.inj (h.eq.symm.trans heq)
      exact hname

end Taken

end Taken

/-! ### Plain remotes -/

section Main

variable {remote owner repo s w y : List Char} {u : URL}

private theorem remoteName_eq (remote : List Char) : remoteName remote = dropCredentials
    (dropSchemes (scpToPath (trimSuffixList ".git".toList (trimSpaceUtf8 remote)))) := rfl

/-- Without a slash at its end a remote is handed on less one `.git`. -/
theorem remoteURL_of_not_slash (h : ¬ ['/'] <:+ trimSpaceUtf8 remote) :
    remoteURL remote = scpToURL (trimSuffixList ".git".toList (trimSpaceUtf8 remote)) := by
  rw [remoteURL, trimSuffixList_of_not_suffix h]

private theorem slash_suffix_iff : ['/'] <:+ s ↔ s.getLast? = some '/' := by
  constructor
  · rintro ⟨t, rfl⟩
    simp
  · intro h
    obtain ⟨t, rfl⟩ := List.getLast?_eq_some_iff.mp h
    exact List.suffix_append t _

private theorem getLast?_of_suffix {t : List Char} (h : t <:+ s) (hne : t ≠ []) :
    t.getLast? = s.getLast? := by
  obtain ⟨a, rfl⟩ := h
  cases ht : t.getLast? with
  | none => exact absurd (List.getLast?_eq_none_iff.mp ht) hne
  | some c => rw [List.getLast?_append, ht, Option.some_or]

private theorem getLast?_cons_of_ne {c d : Char} {t : List Char} (h : (c :: t).getLast? = some d)
    (hne : c ≠ d) : t.getLast? = some d := by
  cases t with
  | nil => exact absurd (Option.some.inj h) hne
  | cons x t => rwa [List.getLast?_cons_cons] at h

/-- A name is shown with the slash that its remote ends with. -/
theorem not_slash_of_named (hname : ownerRepo (remoteName remote) = some (owner ++ '/' :: repo))
    (hrepo : repo ≠ []) (hslash : '/' ∉ repo) : ¬ ['/'] <:+ trimSpaceUtf8 remote := by
  intro hend
  have hlast := slash_suffix_iff.mp hend
  have htrim : trimSuffixList ".git".toList (trimSpaceUtf8 remote) = trimSpaceUtf8 remote := by
    refine trimSuffixList_of_not_suffix fun hgit => ?_
    rw [← getLast?_of_suffix hgit (by decide)] at hlast
    revert hlast
    decide
  have hsuffix := (ownerRepo_suffix hname).trans
    ((dropCredentials_suffix _).trans (dropSchemes_suffix _))
  rw [htrim] at hsuffix
  have hrepoSuffix : repo <:+ scpToPath (trimSpaceUtf8 remote) :=
    (List.suffix_cons '/' repo).trans ((List.suffix_append owner _).trans hsuffix)
  have hrepoLast : repo.getLast? = some '/' := by
    rcases scp_cases (trimSpaceUtf8 remote) with ⟨user, w, hs, huser⟩ | ⟨-, hpath⟩
    · rw [hs, scpToPath_scp huser] at hrepoSuffix
      rw [hs, ← getLast?_of_suffix (List.suffix_append _ _) (List.cons_ne_nil _ _)] at hlast
      have hw := getLast?_cons_of_ne hlast (by decide)
      have hwne : w ≠ [] := fun hnil => by rw [hnil] at hw; cases hw
      rw [getLast?_of_suffix hrepoSuffix hrepo, ← hw]
      exact (getLast?_of_suffix ((List.suffix_cons '/' w).trans (List.suffix_append _ _)) hwne).symm
    · rw [getLast?_of_suffix (hrepoSuffix.trans hpath) hrepo, hlast]
  exact hslash (List.mem_of_getLast? hrepoLast)

/-- The authority of a remote in the style of scp stands before its first colon. -/
theorem Located.of_git {user path : List Char}
    (h : Located ("git@".toList ++ user ++ ':' :: w) host path) (huser : ':' ∉ user) :
    '/' ∉ user ∧ Authority ("git@".toList ++ user) host := by
  generalize hr : "git@".toList ++ user ++ ':' :: w = r at h
  cases h with
  | url hscheme hslash hauth =>
    simp only [List.mem_cons, List.not_mem_nil, or_false] at hscheme
    rcases hscheme with rfl | rfl
    · exact absurd (List.cons.inj hr).1 (by decide)
    · exact absurd (List.cons.inj hr).1 (by decide)
  | scp hslash hcolon hauth =>
    have hgit : ':' ∉ "git@".toList ++ user := fun hmem =>
      (List.mem_append.mp hmem).elim (by decide) huser
    obtain ⟨rfl, rfl⟩ := slash_cancel hgit hcolon hr
    exact ⟨fun hmem => hslash (List.mem_append_right _ hmem), hauth⟩

/-- A remote with the scheme http is none that has a host of GitHub. -/
theorem Located.not_http {path : List Char} (h : Located ("http:".toList ++ '/' :: y) host path) :
    ¬ IsGitHub orbit host := by
  generalize hr : "http:".toList ++ '/' :: y = r at h
  cases h with
  | url hscheme hslash hauth =>
    simp only [List.mem_cons, List.not_mem_nil, or_false] at hscheme
    rcases hscheme with rfl | rfl
    · exact absurd (slash_cancel (by decide) (by decide) hr).1 (by decide)
    · exact absurd (slash_cancel (by decide) (by decide) hr).1 (by decide)
  | scp hslash hcolon hauth =>
    have hcut : "http".toList ++ ':' :: ('/' :: y) = _ := hr
    obtain ⟨rfl, -⟩ := slash_cancel (by decide) hcolon hcut
    rw [hauth.host_eq]
    exact not_isGitHub rfl (by decide) (by decide)

/-- A remote that is read as the repository that it is and shown so is plain. -/
theorem plain_of_isRepo (h : Taken orbit remote owner repo u)
    (hrepo : IsRepo orbit (trimSpaceUtf8 remote) owner repo)
    (hname : ownerRepo (remoteName remote) = some (owner ++ '/' :: repo)) :
    Plain orbit (trimSuffixList ".git".toList (trimSpaceUtf8 remote)) := by
  obtain ⟨rest, hseg⟩ := h.parts
  obtain ⟨howner, hoslash, hrslash, -⟩ := of_segments hseg
  have hne := hrepo.repo_ne_nil
  have hurl := remoteURL_of_not_slash (not_slash_of_named hname hne hrslash)
  obtain ⟨g, hg, -⟩ := exists_trimSuffixList ".git".toList (trimSpaceUtf8 remote)
  obtain ⟨host, path', name, rest', hlocated, hhost, -, -, -, -⟩ := hrepo
  rw [remoteName_eq] at hname
  generalize trimSuffixList ".git".toList (trimSpaceUtf8 remote) = s at hname hurl hg ⊢
  rcases scp_cases s with ⟨user, w, rfl, huser⟩ | ⟨hkeep, -⟩
  · rw [hg, List.append_assoc, List.cons_append] at hlocated
    obtain ⟨hslash, hauthority⟩ := hlocated.of_git huser
    have hcolon : ∀ {x : List Char}, ':' ∈ x → user ≠ x := fun hx heq => huser (heq ▸ hx)
    rw [scpToPath_scp huser, dropSchemes_eq_self hslash (hcolon (by decide)) (hcolon (by decide))
      (hcolon (by decide)), ownerRepo_dropCredentials hslash, Option.some.injEq] at hname
    have htext : remoteURL remote =
        "https:".toList ++ '/' :: '/' :: ("github.com".toList ++ '/' :: w) := by
      rw [hurl, scpToURL_scp huser]
      rfl
    obtain ⟨-, p, hescape, rest, hparts⟩ := h.authority htext (by decide) (by decide)
    obtain ⟨howner', hrepo'⟩ := segment_of_segments hescape hparts hname hne
    rw [hname]
    exact .scp hslash huser hauthority hhost howner' hrepo'
  · rw [hkeep] at hurl
    obtain ⟨pre, scheme, auth, w, htext, hpre, hat, hclean, -, -⟩ :=
      exists_authority h.parsed h.host_ne_nil h.path_ne_nil
    have hauth : '/' ∉ auth := hclean '/' (by simp)
    obtain ⟨hauthority, p, hescape, rest, hparts⟩ := h.authority htext hpre hauth
    rw [hurl] at htext
    subst htext
    rw [scpToPath_of_scheme hat] at hname
    by_cases hscheme : pre ∈ ["https:".toList, "http:".toList, "ssh:".toList]
    · obtain ⟨a, ha, hdrop⟩ := exists_dropSchemes_of_isGitHub (w := w) hscheme hauth hauthority
        h.isGitHub
      rw [hdrop, ownerRepo_dropCredentials ha, Option.some.injEq] at hname
      obtain ⟨howner', hrepo'⟩ := segment_of_segments hescape hparts hname hne
      rw [hname]
      simp only [List.mem_cons, List.not_mem_nil, or_false] at hscheme
      rcases hscheme with rfl | rfl | rfl
      · exact .url (by simp) hclean howner' hrepo'
      · rw [hg, List.append_assoc, List.cons_append] at hlocated
        exact absurd hhost hlocated.not_http
      · exact .url (by simp) hclean howner' hrepo'
    · simp only [List.mem_cons, List.not_mem_nil, or_false, not_or] at hscheme
      rw [dropSchemes_eq_self hpre hscheme.1 hscheme.2.1 hscheme.2.2,
        ownerRepo_dropCredentials hpre, Option.some.injEq] at hname
      cases owner with
      | nil => exact absurd rfl howner
      | cons c owner => exact absurd (by rw [← (List.cons.inj hname).1]; simp) hoslash

/-- A path that is written as it is has the parts that are written. -/
theorem segments_of_segment {p : List Char} (howner : Segment owner) (hrepo : Segment repo)
    (h : unescape .other ('/' :: before '?' (before '#' (owner ++ '/' :: repo))) = some p) :
    segments p = [owner, repo] := by
  have hclean : ∀ c ∈ ['?', '#', '%'], c ∉ owner ++ '/' :: repo := by
    intro c hc hmem
    have hc' : c ∈ ['/', '?', '#', '%'] := List.mem_cons_of_mem _ hc
    rcases List.mem_append.mp hmem with hmem | hmem
    · exact howner.2 c hc' hmem
    · rcases List.mem_cons.mp hmem with rfl | hmem
      · revert hc
        decide
      · exact hrepo.2 c hc' hmem
  have hpercent : '%' ∉ '/' :: (owner ++ '/' :: repo) :=
    List.not_mem_cons_of_ne_of_not_mem (by decide) (hclean _ (by simp))
  rw [before_of_not_mem (hclean '#' (by simp)), before_of_not_mem (hclean '?' (by simp)),
    unescape_other_of_not_mem hpercent] at h
  rw [← Option.some.inj h, segments_slash]
  exact segments_pair ⟨howner.1, howner.2 _ (by simp)⟩ ⟨hrepo.1, hrepo.2 _ (by simp)⟩

/-- The name at the end of a remote, with what has been trimmed off. -/
theorem segments_git {g : List Char} (howner : Segment owner) (hrepo : Segment repo)
    (hsuffix : repo <:+ s) (hg : g = ".git".toList ∨ g = [] ∧ ¬ ".git".toList <:+ s ++ g) :
    ∃ name rest, segments (owner ++ '/' :: (repo ++ g)) = owner :: name :: rest ∧
      repo = trimSuffixList ".git".toList name ∧ owner ≠ [] ∧ repo ≠ [] := by
  have hoslash := howner.2 '/' (by simp)
  have hrslash := hrepo.2 '/' (by simp)
  have hgslash : '/' ∉ repo ++ g := by
    rcases hg with rfl | ⟨rfl, -⟩
    · exact fun hmem => (List.mem_append.mp hmem).elim hrslash (by decide)
    · rwa [List.append_nil]
  refine ⟨repo ++ g, [], segments_pair ⟨howner.1, hoslash⟩ ⟨by simp [hrepo.1], hgslash⟩, ?_,
    howner.1, hrepo.1⟩
  rcases hg with rfl | ⟨rfl, hno⟩
  · rw [trimSuffixList_append]
  · rw [List.append_nil] at hno ⊢
    rw [trimSuffixList_of_not_suffix fun hgit => hno (hgit.trans hsuffix)]

private theorem suffix_cons_append (a : List Char) (c : Char) (t : List Char) : t <:+ a ++ c :: t :=
  (List.suffix_cons c t).trans (List.suffix_append a _)

private theorem Plain.not_slash (h : Plain orbit s) : ¬ ['/'] <:+ s := by
  intro hend
  have hlast := slash_suffix_iff.mp hend
  obtain ⟨repo, hrepo, hsuffix⟩ : ∃ repo, Segment repo ∧ repo <:+ s := by
    cases h with
    | url _ _ _ hrepo =>
      exact ⟨_, hrepo, (suffix_cons_append _ _ _).trans ((suffix_cons_append _ _ _).trans
        ((List.suffix_cons _ _).trans (suffix_cons_append _ _ _)))⟩
    | scp _ _ _ _ _ hrepo =>
      exact ⟨_, hrepo, (suffix_cons_append _ _ _).trans (suffix_cons_append _ _ _)⟩
  rw [← getLast?_of_suffix hsuffix hrepo.1] at hlast
  exact hrepo.2 '/' (by simp) (List.mem_of_getLast? hlast)

/-- A plain remote that is taken for GitHub is the repository that it is read as. -/
theorem isRepo_of_plain (h : Taken orbit remote owner repo u)
    (hplain : Plain orbit (trimSuffixList ".git".toList (trimSpaceUtf8 remote))) :
    IsRepo orbit (trimSpaceUtf8 remote) owner repo ∧
      ownerRepo (remoteName remote) = some (owner ++ '/' :: repo) := by
  obtain ⟨g, hg, hgit⟩ := exists_trimSuffixList ".git".toList (trimSpaceUtf8 remote)
  have hend : ¬ ['/'] <:+ trimSpaceUtf8 remote := by
    rw [slash_suffix_iff, hg]
    rcases hgit with rfl | ⟨rfl, -⟩
    · rw [List.getLast?_append]
      exact fun hlast : some 't' = some '/' => absurd hlast (by decide)
    · rw [List.append_nil, ← slash_suffix_iff]
      exact hplain.not_slash
  have hurl := remoteURL_of_not_slash hend
  rw [remoteName_eq]
  generalize trimSuffixList ".git".toList (trimSpaceUtf8 remote) = s at hurl hg hplain ⊢
  rw [hg] at hgit ⊢
  cases hplain with
  | @url scheme auth owner' repo' hscheme hclean howner hrepo =>
    have hauth : '/' ∉ auth := hclean '/' (by simp)
    have hpre : '/' ∉ scheme ∧ '@' ∉ scheme := by
      simp only [List.mem_cons, List.not_mem_nil, or_false] at hscheme
      rcases hscheme with rfl | rfl
      · decide
      · decide
    rw [scpToURL_of_scheme hpre.2] at hurl
    obtain ⟨hauthority, p, hescape, rest, hparts⟩ := h.authority hurl hpre.1 hauth
    rw [segments_of_segment howner hrepo hescape] at hparts
    obtain ⟨heq, hrest⟩ := List.cons.inj hparts
    obtain ⟨heq', -⟩ := List.cons.inj hrest
    subst heq heq'
    constructor
    · obtain ⟨name, rest, hseg, hname, hne⟩ := segments_git (s := _) howner hrepo
        ((suffix_cons_append _ _ _).trans ((suffix_cons_append _ _ _).trans
          ((List.suffix_cons _ _).trans (suffix_cons_append _ _ _)))) hgit
      refine ⟨u.hostname, _, name, rest, ?_, h.isGitHub, hseg, hname, hne⟩
      have hlocated : Located (scheme ++ '/' :: '/' ::
        (auth ++ '/' :: (owner' ++ '/' :: (repo' ++ g))))
          u.hostname _ := Located.url hscheme hauth hauthority
      simpa using hlocated
    · have hscheme' : scheme ∈ ["https:".toList, "http:".toList, "ssh:".toList] := by
        simp only [List.mem_cons, List.not_mem_nil, or_false] at hscheme ⊢
        exact hscheme.imp_right Or.inr
      obtain ⟨a, ha, hdrop⟩ := exists_dropSchemes_of_isGitHub (w := owner' ++ '/' :: repo') hscheme'
        hauth hauthority h.isGitHub
      rw [scpToPath_of_scheme hpre.2, hdrop, ownerRepo_dropCredentials ha]
  | @scp user host owner' repo' hslash hcolon hauth hhost howner hrepo =>
    rw [scpToURL_scp hcolon] at hurl
    have htext : remoteURL remote = "https:".toList ++ '/' :: '/' :: ("github.com".toList ++
      '/' :: (owner' ++ '/' :: repo')) := hurl
    obtain ⟨-, p, hescape, rest, hparts⟩ := h.authority htext (by decide) (by decide)
    rw [segments_of_segment howner hrepo hescape] at hparts
    obtain ⟨heq, hrest⟩ := List.cons.inj hparts
    obtain ⟨heq', -⟩ := List.cons.inj hrest
    subst heq heq'
    constructor
    · obtain ⟨name, rest, hseg, hname, hne⟩ := segments_git (s := _) howner hrepo
        ((suffix_cons_append _ _ _).trans (suffix_cons_append _ _ _)) hgit
      refine ⟨host, _, name, rest, ?_, hhost, hseg, hname, hne⟩
      have hgitSlash : '/' ∉ "git@".toList ++ user := fun hmem =>
        (List.mem_append.mp hmem).elim (by decide) hslash
      have hgitColon : ':' ∉ "git@".toList ++ user := fun hmem =>
        (List.mem_append.mp hmem).elim (by decide) hcolon
      have hlocated : Located ("git@".toList ++ user ++ ':' :: (owner' ++ '/' :: (repo' ++ g))) host
        _ :=
        Located.scp hgitSlash hgitColon hauth
      simpa using hlocated
    · have hne : ∀ {x : List Char}, ':' ∈ x → user ≠ x := fun hx heq => hcolon (heq ▸ hx)
      rw [scpToPath_scp hcolon, dropSchemes_eq_self hslash (hne (by decide)) (hne (by decide))
        (hne (by decide)), ownerRepo_dropCredentials hslash]

/-- **When an update comes from the repository of the checkout.** A remote is read as what it is and
shown so if and only if it is not taken for GitHub, or it is plain: less one `.git` at its end, it
is `https://` or `ssh://` and an authority, or `git@` and a host of GitHub, with an owner and a name
behind it. -/
theorem faithful_iff (orbit : ℕ → ℕ) (remote : List Char) :
    Faithful orbit remote ↔ (TakenForGitHub orbit remote →
      Plain orbit (trimSuffixList ".git".toList (trimSpaceUtf8 remote))) := by
  by_cases htaken : TakenForGitHub orbit remote
  · obtain ⟨owner, repo, u, h⟩ := exists_taken htaken
    rw [h.faithful_iff_named]
    constructor
    · rintro ⟨hrepo, hname⟩ -
      exact plain_of_isRepo h hrepo hname
    · intro hplain
      exact isRepo_of_plain h (hplain htaken)
  · have heq := parseGitHubRemote_of_not_taken htaken
    refine iff_of_true ⟨?_, ?_, ?_⟩ fun h => absurd h htaken
    · intro owner repo hparse howner _
      exact absurd (Prod.mk.inj (heq.symm.trans hparse)).1.symm howner
    · intro sha branch token hfetch
      refine absurd ?_ hfetch
      rw [readCheckout, heq]
      exact if_pos rfl
    · intro owner repo hparse howner _
      exact absurd (Prod.mk.inj (heq.symm.trans hparse)).1.symm howner

end Main

/-! ### A foreign host -/

/-- A repository of the same path at another host. -/
def gitlab : List Char := "git@gitlab.com:o/r.git".toList

/-- A checkout of a repository of another host is updated from one of GitHub. -/
theorem gitlab_taken :
    fetchURL (readCheckout id [] [] gitlab) [] = "https://github.com/o/r.git".toList := by
  decide +kernel

/-- **Another host.** A remote of GitLab is taken for the repository of the same path on GitHub. -/
theorem not_faithful_gitlab : ¬ ∀ orbit remote, Faithful orbit remote := by
  intro hall
  have htrim : trimSpaceUtf8 gitlab =
      "git@".toList ++ "gitlab.com".toList ++ ':' :: "o/r.git".toList := by decide +kernel
  have hrepo := (hall id gitlab).fetched [] [] [] (by rw [gitlab_taken]; decide)
  obtain ⟨host, path, name, rest, hlocated, hhost, -⟩ := hrepo
  rw [htrim] at hlocated
  have hauth := (hlocated.of_git (by decide)).2
  rw [hauth.host_eq] at hhost
  exact not_isGitHub rfl (by decide) (by decide) hhost

end Dockhand.System.GitSource
