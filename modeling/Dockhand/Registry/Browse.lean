import Dockhand.Data.StableSort
import Dockhand.Go.Strings
import Dockhand.Transition.Workers
import Mathlib.Algebra.Order.Group.Int
import Mathlib.Algebra.Order.Group.Unbundled.Basic
import Mathlib.Data.Int.ConditionallyCompleteOrder
import Mathlib.Data.String.Basic
import Mathlib.Order.ConditionallyCompleteLattice.Basic
import Mathlib.Order.WithBot

/-!
# The images of the built-in registry

`Repos` and `Tags` list what the registry holds. Both ask it for each entry of a list, several at a
time, and each answer is written at the place of its entry: `repos_of_run` and `tags_of_run` say
that the lists are those which are made by asking for one entry after the other, and what they hold.

`Upstream` is the registry: what it answers to the requests of the two, `none` for an error.
-/

namespace Dockhand.Registry.Browse

open Go Transition

/-- The platform that an image is made for. -/
structure Platform where
  os : String
  architecture : String
  variant : String
  deriving DecidableEq

/-- An entry of an index; `reference` is its annotation `vnd.docker.reference.type`. -/
structure Child where
  digest : String
  platform : Option Platform
  reference : String
  deriving DecidableEq

/-- `manifest`, of an image or of an index. -/
structure Manifest where
  manifests : List Child := []
  configDigest : String := ""
  configSize : ℤ := 0
  layers : List ℤ := []
  deriving DecidableEq

/-- What is read of an image's configuration. -/
structure Config where
  created : Option ℤ
  os : String
  architecture : String
  deriving DecidableEq

/-- What the storage answers: the catalogue, the tags of a repository, and the manifests and
configurations behind them. -/
structure Upstream where
  catalog : Option (List String)
  tags : String → Option (List String)
  /-- The digest and the manifest of a reference, a tag or a digest. -/
  manifest : String → String → Option (String × Manifest)
  config : String → String → Option Config

/-- `RegistryRepo`: a repository in the list. -/
structure RegistryRepo where
  name : String
  tags : ℕ := 0
  latest : String := ""
  deriving DecidableEq

/-- `RegistryTag`: a tag in the list of a repository. -/
structure RegistryTag where
  tag : String
  digest : String := ""
  size : ℤ := 0
  platforms : List String := []
  createdAt : Option ℤ := none
  deriving DecidableEq

namespace Upstream

variable (up : Upstream)

/-! ### Repositories -/

/-- The loop over the sorted tags of a repository. -/
def latestOf : String → List String → String
  | latest, [] => latest
  | _, t :: ts => if t = "latest" then t else latestOf t ts

/-- What a goroutine of `Repos` writes. -/
def repo (name : String) : RegistryRepo :=
  match up.tags name with
  | some tags => ⟨name, tags.length, latestOf "" (tags.mergeSort (· ≤ ·))⟩
  | none => { name }

/-- `Repos`, whose goroutines write in the order `ended`. -/
def repos (ended : List ℕ) : Option (List RegistryRepo) :=
  up.catalog.map fun names =>
    let out := ended.foldl (fun out i => out.set i (up.repo (names.getD i "")))
      (names.map fun name => { name })
    -- those whose tags were all deleted stay in the catalog until they are collected
    out.filter (0 < ·.tags)

/-! ### Tags -/

/-- A platform in one word, as the interface shows it. -/
def Platform.name (p : Platform) : String :=
  p.os ++ "/" ++ p.architecture ++ if p.variant ≠ "" then "/" ++ p.variant else ""

/-- A platform that an image can run on, as the loop over an index keeps it. -/
def real (c : Child) : Option (Platform × String) :=
  match c.platform with
  | none => none
  | some p => if p.os = "unknown" || c.reference = "attestation-manifest" then none
    else some (p, c.digest)

/-- The size, the time and the platform of an image, from its manifest and its configuration. -/
def image (repo : String) (m : Manifest) (t : RegistryTag) : RegistryTag :=
  let t := { t with size := m.layers.foldl (· + ·) m.configSize }
  if m.configDigest ≠ "" then
    match up.config repo m.configDigest with
    | some cfg =>
      { t with
        createdAt := cfg.created
        platforms := if t.platforms = [] ∧ cfg.os ≠ "" then [cfg.os ++ "/" ++ cfg.architecture]
          else t.platforms }
    | none => t
  else t

/-- `describe`: of an index, the first real platform. -/
def describe (repo tag : String) : RegistryTag :=
  match up.manifest repo tag with
  | none => { tag }
  | some (digest, m) =>
    let t : RegistryTag := { tag, digest }
    if m.manifests = [] then up.image repo m t
    else
      let reals := m.manifests.filterMap real
      let t := { t with platforms := reals.map fun r => Platform.name r.1 }
      match (reals.find? fun r => r.2 ≠ "").map (·.2) with
      | none => t
      | some child =>
        match up.manifest repo child with
        | none => t
        | some (_, m) => up.image repo m t

/-- `validRepo`. -/
def validRepo (repo : String) : Bool :=
  !(repo = "" || contains repo ".." || hasPrefix repo "/" || containsAny repo " ?#")

/-- The order in which `Tags` sorts. -/
def newer (a b : RegistryTag) : Bool :=
  match a.createdAt, b.createdAt with
  | some s, some t => t < s
  | some _, none => true
  | none, _ => false

/-- `Tags`, whose goroutines write in the order `ended`. -/
def tagList (repo : String) (ended : List ℕ) : Option (List RegistryTag) :=
  if validRepo repo then
    (up.tags repo).map fun tags =>
      let tags := tags.take 200
      let out := ended.foldl (fun out i => out.set i (up.describe repo (tags.getD i "")))
        (List.replicate tags.length { tag := "" })
      out.mergeSort fun a b => !newer b a
  else none

/-! ### What the lists hold -/

variable {up}

private theorem latestOf_eq (latest : String) (l : List String) :
    latestOf latest l = if "latest" ∈ l then "latest" else l.getLast?.getD latest := by
  induction l generalizing latest with
  | nil => rfl
  | cons t ts ih =>
    rw [latestOf]
    rcases eq_or_ne t "latest" with rfl | ht
    · simp
    · rw [if_neg ht, ih]
      have hmem : "latest" ∈ t :: ts ↔ "latest" ∈ ts := by simp [ht.symm]
      simp only [hmem, List.getLast?_cons, Option.getD_some]

/-- The tag shown for a repository is `latest`, or the last one in the order of strings. -/
structure Shown (tags : List String) (shown : String) : Prop where
  mem : shown ∈ tags
  latest : "latest" ∈ tags → shown = "latest"
  last : "latest" ∉ tags → ∀ t ∈ tags, t ≤ shown

private theorem shown_repo {name : String} {tags : List String} (htags : up.tags name = some tags)
    (hne : tags ≠ []) : Shown tags (up.repo name).latest := by
  have hsorted : (tags.mergeSort fun a b => decide (a ≤ b)).Pairwise fun a b => a ≤ b :=
    Data.pairwise_mergeSort_key tags
  generalize hl : tags.mergeSort (fun a b => decide (a ≤ b)) = l at hsorted
  have hmem : ∀ t, t ∈ l ↔ t ∈ tags := fun t => by rw [← hl]; exact List.mem_mergeSort
  have hrepo : (up.repo name).latest = if "latest" ∈ l then "latest" else l.getLast?.getD "" := by
    rw [repo, htags, ← latestOf_eq, ← hl]
  have hlast : l ≠ [] := by
    obtain ⟨t, ht⟩ := List.exists_mem_of_ne_nil tags hne
    exact List.ne_nil_of_mem ((hmem t).mpr ht)
  rw [hrepo]
  by_cases hlatest : "latest" ∈ l
  · rw [if_pos hlatest]
    exact ⟨(hmem _).mp hlatest, fun _ => rfl, fun h => absurd ((hmem _).mp hlatest) h⟩
  · rw [if_neg hlatest, List.getLast?_eq_some_getLast hlast, Option.getD_some]
    refine ⟨(hmem _).mp (List.getLast_mem hlast), fun h => absurd ((hmem _).mpr h) hlatest,
      fun _ t ht => ?_⟩
    rw [← List.dropLast_append_getLast hlast] at hsorted
    rcases List.mem_append.mp (List.dropLast_append_getLast hlast ▸ (hmem t).mpr ht) with h | h
    · exact (List.pairwise_append.mp hsorted).2.2 t h _ (List.mem_singleton_self _)
    · exact (List.mem_singleton.mp h).le

private theorem filter_repo (names : List String) :
    ((names.map up.repo).filter (0 < ·.tags)) =
      (names.filter fun name => (up.tags name).any (· ≠ [])).map up.repo := by
  rw [List.filter_map]
  refine congrArg (List.map up.repo) (List.filter_congr fun name _ => ?_)
  rw [Function.comp_apply, repo]
  cases htags : up.tags name with
  | none => simp
  | some tags => cases tags <;> simp

private theorem map_getD_range {α : Type*} (l : List String) (f : String → α) :
    (List.range l.length).map (fun i => f (l.getD i "")) = l.map f := by
  refine List.ext_getElem (by simp) fun i hi hi' => ?_
  have hlt : i < l.length := by simpa using hi'
  simp [hlt]

/-- However the requests are scheduled, the list is the one that is made by asking for one
repository after the other: those of the catalog that have a tag, in its order. -/
theorem repos_of_run {names : List String} (hcatalog : up.catalog = some names) {bound : ℕ}
    {es : List Workers.Event} {t : Workers ℕ}
    (hrun : exec (Workers.step bound) { waiting := List.range names.length } es = some t)
    (hdone : t.done = true) :
    up.repos t.ended =
        some ((names.filter fun name => (up.tags name).any (· ≠ [])).map up.repo) ∧
      ∀ name tags, up.tags name = some tags → tags ≠ [] → Shown tags (up.repo name).latest := by
  have hended := Workers.ended_perm hrun hdone
  refine ⟨?_, fun _ _ => shown_repo⟩
  rw [repos, hcatalog, Option.map_some]
  dsimp only
  rw [set_of_perm (fun i => up.repo (names.getD i "")) (by simpa using hended), List.length_map,
    map_getD_range, filter_repo]

/-- A registry with an image for two platforms, an older one, and a repository without tags. -/
def Example.registry : Upstream where
  catalog := some ["app", "gone"]
  tags repo := if repo = "app" then some ["v1", "latest"] else some []
  manifest _ reference :=
    if reference = "v1" then some ("sha256:1", { configDigest := "c1", configSize := 2 })
    else if reference = "latest" then
      some ("sha256:2", { manifests := [⟨"sha256:3", some ⟨"linux", "arm64", "v8"⟩, ""⟩] })
    else some ("sha256:3", { configDigest := "c3", configSize := 2, layers := [30, 12] })
  config _ digest := some ⟨some (if digest = "c1" then 100 else 200), "linux", "amd64"⟩

/-- Two repositories are looked up at once, and the one without tags is left out. -/
theorem repos_of_run_registry :
    Example.registry.repos [1, 0] = some [Example.registry.repo "app"] ∧
      ∀ name tags, Example.registry.tags name = some tags → tags ≠ [] →
        Shown tags (Example.registry.repo name).latest := by
  have hrun : exec (Workers.step 8) { waiting := List.range ["app", "gone"].length }
      [.start 0, .start 0, .finish 1, .finish 0] = some { waiting := [], ended := [1, 0] } := rfl
  exact repos_of_run rfl hrun rfl

/-- The time at which an image was made, the newest first, one without a time last. -/
def age (t : RegistryTag) : WithTop ℤ :=
  match t.createdAt with
  | some c => ((-c : ℤ) : WithTop ℤ)
  | none => ⊤

theorem not_newer (a b : RegistryTag) : (!newer b a) = decide (age a ≤ age b) := by
  rw [newer, age, age]
  cases a.createdAt with
  | none => cases b.createdAt <;> simp
  | some s =>
    cases b.createdAt with
    | none => simp
    | some t =>
      have hle : ((-s : ℤ) : WithTop ℤ) ≤ ((-t : ℤ) : WithTop ℤ) ↔ t ≤ s := by
        rw [WithTop.coe_le_coe, neg_le_neg_iff]
      -- the later of two times is the lower age
      have hright : decide (((-s : ℤ) : WithTop ℤ) ≤ ((-t : ℤ) : WithTop ℤ)) = decide (t ≤ s) :=
        decide_eq_decide.mpr hle
      refine Eq.trans ?_ hright.symm
      change (!decide (s < t)) = decide (t ≤ s)
      rw [← decide_not]
      exact decide_eq_decide.mpr not_lt

theorem age_eq_iff (d : RegistryTag) (time : Option ℤ) :
    d.createdAt = time ↔ age d = age { tag := "", createdAt := time } := by
  rw [age, age]
  cases d.createdAt with
  | none =>
    cases time with
    | none => exact iff_of_true rfl rfl
    | some t => exact iff_of_false (Option.some_ne_none t).symm WithTop.top_ne_coe
  | some s =>
    cases time with
    | none => exact iff_of_false (Option.some_ne_none s) WithTop.coe_ne_top
    | some t =>
      change some s = some t ↔ ((-s : ℤ) : WithTop ℤ) = ((-t : ℤ) : WithTop ℤ)
      rw [Option.some_inj, WithTop.coe_inj, neg_inj]

/-- However the requests are scheduled, each of the first two hundred tags is described once, the
newest first, those of one time in the order of the registry and those without a time at the end. -/
theorem tags_of_run {repo : String} (hrepo : validRepo repo = true) {tags : List String}
    (htags : up.tags repo = some tags) {bound : ℕ} {es : List Workers.Event} {t : Workers ℕ}
    (hrun : exec (Workers.step bound) { waiting := List.range (tags.take 200).length } es = some t)
    (hdone : t.done = true) :
    ∃ out, up.tagList repo t.ended = some out ∧
      out.Perm ((tags.take 200).map (up.describe repo)) ∧
      out.Pairwise (fun a b => newer b a = false) ∧
      ∀ time, (out.filter fun d => d.createdAt = time) =
        ((tags.take 200).map (up.describe repo)).filter fun d => d.createdAt = time := by
  have hended := Workers.ended_perm hrun hdone
  have hout : up.tagList repo t.ended =
      some (((tags.take 200).map (up.describe repo)).mergeSort fun a b => age a ≤ age b) := by
    rw [tagList, if_pos hrepo, htags, Option.map_some]
    dsimp only
    rw [set_of_perm (fun i => up.describe repo ((tags.take 200).getD i "")) (by simpa using hended),
      List.length_replicate, map_getD_range]
    simp only [not_newer]
  refine ⟨_, hout, List.mergeSort_perm _ _, ?_, fun time => ?_⟩
  · refine (Data.pairwise_mergeSort_key _).imp fun {a b} hab => ?_
    have hold := not_newer a b
    rw [decide_eq_true hab] at hold
    simpa using hold
  · simp only [age_eq_iff]
    exact Data.filter_mergeSort _ _

/-- Two tags of one image are described in the reverse order. -/
theorem tags_of_run_registry :
    ∃ out, Example.registry.tagList "app" [1, 0] = some out ∧
      out.Perm (["v1", "latest"].map (Example.registry.describe "app")) ∧
      out.Pairwise (fun a b => newer b a = false) ∧
      ∀ time, (out.filter fun d => d.createdAt = time) =
        (["v1", "latest"].map (Example.registry.describe "app")).filter fun d =>
          d.createdAt = time := by
  have htags : Example.registry.tags "app" = some ["v1", "latest"] := rfl
  have hrun : exec (Workers.step 6) { waiting := List.range (["v1", "latest"].take 200).length }
      [.start 0, .start 0, .finish 1, .finish 0] = some { waiting := [], ended := [1, 0] } := rfl
  exact tags_of_run (by decide +kernel) htags hrun rfl

end Upstream

end Dockhand.Registry.Browse
