import Mathlib.Data.List.Sort
import Mathlib.Logic.Function.Basic
import Dockhand.Go.Dict
import Dockhand.Go.Path
import Dockhand.Transition.Exec
import Dockhand.Transition.Pool

/-!
# The sync of repositories

A sync of an account lists its repositories, looks for compose files in those that were pushed since
the last sync, and stores what it has found with the time of the push. Syncs of different accounts
and pushes interleave. A lookup that fails is stored like one that finds nothing, so that the files
of the repository are missing until its next push: `not_cached`. In a run whose lookups are answered
in full, unless a push overtakes them, every row that a later sync would take over is right:
`cached_of_run`.
-/

namespace Dockhand.GitDeploy.RepoSync

open Go Transition

/-! ### Compose files -/

/-- How many folders deep a compose file is looked for. -/
def composeMaxDepth : ℕ := 3

/-- `composeRank` returns 0 for canonical names, 1 for variants, -1 for no match. -/
def composeRank (base : String) : ℤ :=
  let rank (stem : String) : ℤ :=
    if stem = "compose" ∨ stem = "docker-compose" then 0
    else if hasSuffix stem ".compose" ∧ stem ≠ ".compose" then 1
    else if hasPrefix stem "docker-compose." ∧ stem ≠ "docker-compose." then 1
    else -1
  if hasSuffix base ".yaml" then rank (trimSuffix base ".yaml")
  else if hasSuffix base ".yml" then rank (trimSuffix base ".yml")
  else -1

/-- `IsComposeFile` reports whether a repository path looks like a Compose file. -/
def isComposeFile (p : String) : Bool :=
  let p := trim p "/"
  let parts := splitChar p '/'
  let dirs := parts.dropLast
  p ≠ "" && dirs.length ≤ composeMaxDepth &&
    dirs.all (fun d => d ≠ "node_modules" && d ≠ "vendor" && !hasPrefix d ".") &&
    0 ≤ composeRank (toLower (parts.getLastD ""))

/-- `SortComposeFiles`: by depth, then canonical names before variants, then by name. -/
def composeBefore (p q : String) : Bool :=
  let depth (p : String) := p.toList.count '/'
  let rank (p : String) := composeRank (toLower (pathBase p))
  if depth p ≠ depth q then depth p < depth q
  else if rank p ≠ rank q then rank p < rank q
  else p < q

/-- `FilterComposeFiles` returns the matching paths, sorted. -/
def filterComposeFiles (paths : List String) : List String :=
  ((paths.filter isComposeFile).map (trim · "/")).insertionSort fun p q => ¬ composeBefore q p

/-! ### GitHub -/

/-- A path of a repository as GitHub lists it, and whether it is a file or a folder. -/
structure TreeEntry where
  path : String
  type : String
  deriving DecidableEq

/-- A repository: the time of its last push, 0 if there was none, and the tree of its default
branch since then. -/
structure Remote where
  pushed : ℕ
  tree : List TreeEntry
  deriving DecidableEq

/-- The paths of the files. -/
def blobs (tree : List TreeEntry) : List String :=
  (tree.filter (·.type = "blob")).map TreeEntry.path

/-- The compose files of the repository. -/
def Remote.composeFiles (r : Remote) : List String := filterComposeFiles (blobs r.tree)

/-- What GitHub answers to a request for a tree: all of it, the first entries of one that is too
large, that it is not there, or an error. -/
inductive TreeAnswer where
  | full
  | truncated (n : ℕ)
  | notFound
  | failed
  deriving DecidableEq

/-- `FindComposeFiles` at the head of the default branch, `none` for an error. -/
def findComposeFiles (r : Remote) : TreeAnswer → Option (List String)
  | .full => some (filterComposeFiles (blobs r.tree))
  | .truncated n => some (filterComposeFiles (blobs (r.tree.take n)))
  -- empty repositories have no tree
  | .notFound => some []
  | .failed => none

/-- The entries of the tree that are missing from the answer. -/
def TreeAnswer.missing (r : Remote) : TreeAnswer → List TreeEntry
  | .full => []
  | .truncated n => r.tree.drop n
  | .notFound | .failed => r.tree

/-- An answer without the compose files is as good as the tree if there are none in what is
missing. -/
theorem getD_findComposeFiles {r : Remote} {answer : TreeAnswer}
    (h : ∀ p ∈ blobs (answer.missing r), isComposeFile p = false) :
    (findComposeFiles r answer).getD [] = r.composeFiles := by
  have hnone (tree : List TreeEntry) (htree : ∀ p ∈ blobs tree, isComposeFile p = false) :
      (blobs tree).filter isComposeFile = [] :=
    List.filter_eq_nil_iff.mpr fun p hp => by simp [htree p hp]
  cases answer with
  | full => rfl
  | truncated n =>
    have hblobs : blobs r.tree = blobs (r.tree.take n) ++ blobs (r.tree.drop n) := by
      simp only [blobs, ← List.map_append, ← List.filter_append, List.take_append_drop]
    simp only [findComposeFiles, Option.getD_some, Remote.composeFiles, filterComposeFiles, hblobs,
      List.filter_append, hnone (r.tree.drop n) h, List.append_nil]
  | notFound =>
    simp only [findComposeFiles, Option.getD_some, Remote.composeFiles, filterComposeFiles,
      hnone r.tree h, List.map_nil, List.insertionSort_nil]
  | failed =>
    simp only [findComposeFiles, Option.getD_none, Remote.composeFiles, filterComposeFiles,
      hnone r.tree h, List.map_nil, List.insertionSort_nil]

/-! ### Syncs -/

/-- A row of the repositories. -/
structure RepoRow where
  account : String
  pushed : Option ℕ
  files : List String
  deriving DecidableEq

/-- A repository of a sync: when it was last pushed according to the listing, and its compose files
once they are known. -/
structure Item where
  id : ℕ
  pushed : ℕ
  compose : Option (List String) := none
  deriving DecidableEq

/-- A running sync: the repositories it has listed, whether it has read the rows of the account, and
how many it has written. -/
structure Sync where
  account : String
  items : List Item
  read : Bool := false
  written : ℕ := 0
  deriving DecidableEq

/-- GitHub's repositories, the rows of the database, and the syncs that are running. -/
structure Repos where
  github : ℕ → Remote
  rows : Dict ℕ RepoRow := ∅
  syncs : List Sync := []

/-- What happens next: at GitHub, in a running sync, or to an account. -/
inductive RepoEvent where
  | push (id t : ℕ) (tree : List TreeEntry)
  /-- A sync of the account begins, and lists these repositories. -/
  | list (account : String) (ids : List ℕ)
  /-- The sync `k` reads the rows. -/
  | read (k : ℕ)
  /-- The lookup of its repository `i` is answered. -/
  | lookup (k i : ℕ) (answer : TreeAnswer)
  /-- It writes the next repository, or fails to and ends. -/
  | write (k : ℕ) (ok : Bool)
  /-- It deletes the rows of repositories that are gone, and ends. -/
  | finish (k : ℕ)
  /-- It ends in between. -/
  | abort (k : ℕ)
  | deleteAccount (account : String)
  deriving DecidableEq

/-- A sync skips the lookup of a repository with such a row. -/
def RepoRow.skips (row : RepoRow) (pushed : ℕ) : Bool := pushed ≠ 0 && row.pushed = some pushed

/-- The repository is not looked up if its row is known and it was not pushed since. -/
def Item.takeKnown (known : Dict ℕ RepoRow) (account : String) (it : Item) : Item :=
  match known.get? it.id with
  | some row =>
    if row.account = account ∧ row.skips it.pushed then { it with compose := some row.files } else
      it
  | none => it

/-- The row that is written for the repository. -/
def Item.row (account : String) (it : Item) : RepoRow where
  account := account
  pushed := if it.pushed = 0 then none else some it.pushed
  files := it.compose.getD []

namespace Repos

/-- The next step of the system. -/
def step (s : Repos) : RepoEvent → Option Repos
  | .push id t tree =>
    if (s.github id).pushed < t then
      some { s with github := Function.update s.github id { pushed := t, tree := tree } }
    else none
  | .list account ids =>
    if s.syncs.any (·.account = account) then none
    else some { s with syncs := s.syncs ++ [{ account := account, items := ids.map fun id =>
        { id := id, pushed := (s.github id).pushed } }] }
  | .read k =>
    (s.syncs[k]?).bind fun sy =>
      if sy.read then none
      else some { s with syncs := s.syncs.set k { sy with
        read := true, items := sy.items.map (Item.takeKnown s.rows sy.account) } }
  | .lookup k i answer =>
    (s.syncs[k]?).bind fun sy => (sy.items[i]?).bind fun it =>
      if sy.read ∧ it.compose = none then
        some { s with syncs := s.syncs.set k { sy with items := sy.items.set i { it with
          compose := some ((findComposeFiles (s.github it.id) answer).getD []) } } }
      else none
  | .write k ok =>
    (s.syncs[k]?).bind fun sy => (sy.items[sy.written]?).bind fun it =>
      if sy.read ∧ sy.items.all (·.compose.isSome) then
        if ok then
          some { s with rows := s.rows.set it.id (it.row sy.account),
                        syncs := s.syncs.set k { sy with written := sy.written + 1 } }
        else some { s with syncs := s.syncs.eraseIdx k }
      else none
  | .finish k =>
    (s.syncs[k]?).bind fun sy =>
      if sy.read ∧ sy.written = sy.items.length then
        some { s with rows := s.rows.filter fun id row =>
                        row.account ≠ sy.account ∨ id ∈ sy.items.map Item.id,
                      syncs := s.syncs.eraseIdx k }
      else none
  | .abort k => (s.syncs[k]?).map fun _ => { s with syncs := s.syncs.eraseIdx k }
  | .deleteAccount account =>
    some { s with rows := s.rows.filter fun _ row => row.account ≠ account }

/-- No row that a sync would take over for its files has others than the repository. -/
def Cached (s : Repos) : Prop :=
  ∀ id row, s.rows.get? id = some row → row.skips (s.github id).pushed = true →
    row.files = (s.github id).composeFiles

/-- The files are those of the repository, unless it was pushed since. -/
structure Current (s : Repos) (id pushed : ℕ) (files : List String) : Prop where
  le : pushed ≤ (s.github id).pushed
  files : pushed ≠ 0 → pushed = (s.github id).pushed → files = (s.github id).composeFiles

/-- No compose file is missing from the answer to a lookup of a repository that was not pushed since
it was listed. -/
def LookupsAnswered (s : Repos) : RepoEvent → Prop
  | .lookup k i answer => ∀ sy ∈ s.syncs[k]?, ∀ it ∈ sy.items[i]?,
      it.pushed ≠ 0 → it.pushed = (s.github it.id).pushed →
        ∀ p ∈ blobs (answer.missing (s.github it.id)), isComposeFile p = false
  | _ => True

/-- Dockhand has not synced yet. -/
structure New (s : Repos) : Prop where
  rows : s.rows = ∅
  syncs : s.syncs = []

/-! ### What the syncs know -/

/-- What is stored and what a sync has found is current. -/
structure Inv (s : Repos) : Prop where
  rows : ∀ id row, s.rows.get? id = some row → ∀ p, row.pushed = some p → s.Current id p row.files
  listed : ∀ sy ∈ s.syncs, ∀ it ∈ sy.items, it.pushed ≤ (s.github it.id).pushed
  found : ∀ sy ∈ s.syncs, ∀ it ∈ sy.items, ∀ files, it.compose = some files →
    s.Current it.id it.pushed files

variable {s s' : Repos}

theorem Inv.cached (h : s.Inv) : s.Cached := by
  intro id row hrow hskips
  simp only [RepoRow.skips, Bool.and_eq_true, decide_eq_true_eq] at hskips
  exact (h.rows id row hrow _ hskips.2).files hskips.1 rfl

private theorem New.inv (h : s.New) : s.Inv where
  rows id row hrow := by simp [h.rows] at hrow
  listed sy hsy := by simp [h.syncs] at hsy
  found sy hsy := by simp [h.syncs] at hsy

/-- After a push nothing that was found before is current any more. -/
theorem Current.push {id p : ℕ} {files : List String} (h : s.Current id p files) {i t : ℕ}
    {tree : List TreeEntry} (ht : (s.github i).pushed < t) :
    Current { s with github := Function.update s.github i { pushed := t, tree := tree } } id p
      files := by
  by_cases hid : id = i
  · subst hid
    have hlt : p < t := h.le.trans_lt ht
    refine ⟨?_, fun _ hp => ?_⟩
    · simpa using hlt.le
    · simp only [Function.update_self] at hp
      omega
  · refine ⟨?_, fun hne hp => ?_⟩
    · simpa [Function.update_of_ne hid] using h.le
    · simp only [Function.update_of_ne hid] at hp ⊢
      exact h.files hne hp

theorem Inv.push (h : s.Inv) {i t : ℕ} {tree : List TreeEntry} (ht : (s.github i).pushed < t) :
    Inv { s with github := Function.update s.github i { pushed := t, tree := tree } } where
  rows id row hrow p hp := (h.rows id row hrow p hp).push ht
  listed sy hsy it hit := by
    have hle := h.listed sy hsy it hit
    by_cases hid : it.id = i
    · rw [hid] at hle
      simp only [hid, Function.update_self]
      omega
    · simpa [Function.update_of_ne hid] using hle
  found sy hsy it hit files hfiles := (h.found sy hsy it hit files hfiles).push ht

/-- The syncs change, and what they know is current. -/
theorem Inv.setSyncs (h : s.Inv) {syncs : List Sync} (hsyncs : ∀ sy ∈ syncs, ∀ it ∈ sy.items,
      it.pushed ≤ (s.github it.id).pushed ∧
        ∀ files, it.compose = some files → s.Current it.id it.pushed files) :
    Inv { s with syncs := syncs } where
  rows id row hrow p hp := ⟨(h.rows id row hrow p hp).le, (h.rows id row hrow p hp).files⟩
  listed sy hsy it hit := (hsyncs sy hsy it hit).1
  found sy hsy it hit files hfiles :=
    ⟨((hsyncs sy hsy it hit).2 files hfiles).le, ((hsyncs sy hsy it hit).2 files hfiles).files⟩

theorem Inv.items (h : s.Inv) {sy : Sync} (hsy : sy ∈ s.syncs) : ∀ it ∈ sy.items,
    it.pushed ≤ (s.github it.id).pushed ∧
      ∀ files, it.compose = some files → s.Current it.id it.pushed files := fun it hit =>
  ⟨h.listed sy hsy it hit, h.found sy hsy it hit⟩

/-- One sync takes a step. -/
theorem Inv.setSync (h : s.Inv) {k : ℕ} {sy : Sync} (hk : s.syncs[k]? = some sy) {sy' : Sync}
    (hitems : ∀ it ∈ sy'.items, it.pushed ≤ (s.github it.id).pushed ∧
      ∀ files, it.compose = some files → s.Current it.id it.pushed files) :
    Inv { s with syncs := s.syncs.set k sy' } := by
  refine h.setSyncs fun sy₁ hsy₁ => ?_
  rcases (mem_pool_set hk).mp hsy₁ with rfl | hrest
  · exact hitems
  · exact h.items (List.mem_of_mem_eraseIdx hrest)

private theorem Inv.eraseSync (h : s.Inv) (k : ℕ) : Inv { s with syncs := s.syncs.eraseIdx k } :=
  h.setSyncs fun _ hsy => h.items (List.mem_of_mem_eraseIdx hsy)

/-- Rows are deleted. -/
theorem Inv.filterRows (h : s.Inv) (keep : ℕ → RepoRow → Bool) :
    Inv { s with rows := s.rows.filter keep } where
  rows id row hrow p hp := by
    rw [Dict.get?_filter, Option.filter_eq_some_iff] at hrow
    exact ⟨(h.rows id row hrow.1 p hp).le, (h.rows id row hrow.1 p hp).files⟩
  listed := h.listed
  found sy hsy it hit files hfiles :=
    ⟨(h.found sy hsy it hit files hfiles).le, (h.found sy hsy it hit files hfiles).files⟩

/-- What a sync has found is written. -/
theorem Inv.write (h : s.Inv) {sy : Sync} (hsy : sy ∈ s.syncs) {it : Item} (hit : it ∈ sy.items)
    (hfound : it.compose.isSome) :
    Inv { s with rows := s.rows.set it.id (it.row sy.account) } where
  rows id row hrow p hp := by
    rw [Dict.get?_set] at hrow
    split_ifs at hrow with hid
    · subst hid
      obtain rfl := Option.some.inj hrow
      obtain ⟨files, hfiles⟩ := Option.isSome_iff_exists.mp hfound
      have hcurrent := h.found sy hsy it hit files hfiles
      simp only [Item.row] at hp
      split_ifs at hp with hzero
      obtain rfl := Option.some.inj hp
      simp only [Item.row, hfiles, Option.getD_some]
      exact ⟨hcurrent.le, hcurrent.files⟩
    · exact ⟨(h.rows id row hrow p hp).le, (h.rows id row hrow p hp).files⟩
  listed := h.listed
  found sy hsy it hit files hfiles :=
    ⟨(h.found sy hsy it hit files hfiles).le, (h.found sy hsy it hit files hfiles).files⟩

/-- An item takes over the files of a row that is current. -/
theorem Inv.takeKnown (h : s.Inv) (account : String) {it : Item}
    (hit : it.pushed ≤ (s.github it.id).pushed ∧
      ∀ files, it.compose = some files → s.Current it.id it.pushed files) :
    (it.takeKnown s.rows account).pushed ≤ (s.github (it.takeKnown s.rows account).id).pushed ∧
      ∀ files, (it.takeKnown s.rows account).compose = some files →
        s.Current (it.takeKnown s.rows account).id (it.takeKnown s.rows account).pushed files := by
  unfold Item.takeKnown
  split
  · next row hrow =>
    split_ifs with hskips
    · -- the row is taken over for a repository that is listed with the same push
      obtain ⟨-, hskips⟩ := hskips
      simp only [RepoRow.skips, Bool.and_eq_true, decide_eq_true_eq] at hskips
      refine ⟨hit.1, fun files hfiles => ?_⟩
      obtain rfl := Option.some.inj hfiles
      exact h.rows _ row hrow _ hskips.2
    · exact hit
  · exact hit

/-- **One step.** What is stored and found stays current when lookups are answered. -/
theorem Inv.step (h : s.Inv) {e : RepoEvent} (hC : s.LookupsAnswered e)
    (hstep : s.step e = some s') : s'.Inv := by
  cases e with
  | push i t tree =>
    simp only [Repos.step] at hstep
    split_ifs at hstep with ht
    obtain rfl := Option.some.inj hstep
    exact h.push ht
  | list account ids =>
    simp only [Repos.step] at hstep
    split_ifs at hstep
    obtain rfl := Option.some.inj hstep
    refine h.setSyncs fun sy hsy it hit => ?_
    rcases List.mem_append.mp hsy with hsy | hsy
    · exact h.items hsy it hit
    · obtain rfl := List.mem_singleton.mp hsy
      obtain ⟨id, -, rfl⟩ := List.mem_map.mp hit
      exact ⟨le_rfl, fun files hfiles => nomatch hfiles⟩
  | read k =>
    obtain ⟨sy, hk, hstep⟩ := Option.bind_eq_some_iff.mp hstep
    split_ifs at hstep
    obtain rfl := Option.some.inj hstep
    refine h.setSync hk fun it hit => ?_
    obtain ⟨it₀, hit₀, rfl⟩ := List.mem_map.mp hit
    exact h.takeKnown sy.account (h.items (List.mem_of_getElem? hk) it₀ hit₀)
  | lookup k i answer =>
    obtain ⟨sy, hk, hstep⟩ := Option.bind_eq_some_iff.mp hstep
    obtain ⟨it, hi, hstep⟩ := Option.bind_eq_some_iff.mp hstep
    split_ifs at hstep
    obtain rfl := Option.some.inj hstep
    have hmem := List.mem_of_getElem? hk
    refine h.setSync hk fun it' hit' => ?_
    rcases (mem_pool_set hi).mp hit' with rfl | hrest
    · have hle := h.listed sy hmem it (List.mem_of_getElem? hi)
      refine ⟨hle, fun files hfiles => ⟨hle, fun hne hp => ?_⟩⟩
      obtain rfl := Option.some.inj hfiles
      exact getD_findComposeFiles (hC sy hk it hi hne hp)
    · exact h.items hmem it' (List.mem_of_mem_eraseIdx hrest)
  | write k ok =>
    obtain ⟨sy, hk, hstep⟩ := Option.bind_eq_some_iff.mp hstep
    obtain ⟨it, hi, hstep⟩ := Option.bind_eq_some_iff.mp hstep
    split_ifs at hstep with hready
    · obtain rfl := Option.some.inj hstep
      have hit := List.mem_of_getElem? hi
      have hmem := List.mem_of_getElem? hk
      have hwrite := h.write hmem hit (List.all_eq_true.mp hready.2 it hit)
      exact hwrite.setSync hk fun it' hit' => hwrite.items hmem it' hit'
    · obtain rfl := Option.some.inj hstep
      exact h.eraseSync k
  | finish k =>
    obtain ⟨sy, hk, hstep⟩ := Option.bind_eq_some_iff.mp hstep
    split_ifs at hstep
    obtain rfl := Option.some.inj hstep
    exact (h.filterRows fun id row =>
      decide (row.account ≠ sy.account ∨ id ∈ sy.items.map Item.id)).eraseSync k
  | abort k =>
    obtain ⟨sy, hk, rfl⟩ := Option.map_eq_some_iff.mp hstep
    exact h.eraseSync k
  | deleteAccount account =>
    obtain rfl := Option.some.inj hstep
    exact h.filterRows _

namespace Example

/-- A repository with a compose file. -/
def shop : Remote := { pushed := 7, tree := [{ path := "compose.yml", type := "blob" }] }

/-- The server before the first sync. -/
def repos : Repos := { github := fun _ => shop }

/-- A sync of one repository. -/
def sync (answer : TreeAnswer) : List RepoEvent :=
  [.list "acme" [1], .read 0, .lookup 0 0 answer, .write 0 true, .finish 0]

end Example

/-- **A failed lookup.** The repository is stored without its compose files, and every later sync
skips it. -/
theorem not_cached : ¬ AllStates step Cached Example.repos (Example.sync .failed) := by
  intro h
  have hrun : ∃ t, exec step Example.repos (Example.sync .failed) = some t ∧
      t.rows.get? 1 = some { account := "acme", pushed := some 7, files := [] } ∧
      t.github 1 = Example.shop := ⟨_, rfl, by decide +kernel, rfl⟩
  obtain ⟨t, hexec, hrow, hgithub⟩ := hrun
  have hfiles := h.last hexec 1 _ hrow (by rw [hgithub]; decide)
  rw [hgithub] at hfiles
  exact absurd hfiles (by decide +kernel)

/-- **Repositories.** In a run whose lookups are answered, unless a push overtakes them, every row
that a later sync would take over has the compose files of its repository. -/
theorem cached_of_run {es : List RepoEvent} (hnew : s.New) (hC : Along step LookupsAnswered s es) :
    AllStates step Cached s es :=
  (allStates_of_along (fun _ _ _ h hC hstep => h.step hC hstep) hnew.inv hC).imp fun _ h => h.cached

/-- A sync that finds the file, and one that takes it over. -/
theorem cached_of_sync :
    AllStates step Cached Example.repos (Example.sync .full ++
      [.list "acme" [1], .read 0, .write 0 true]) :=
  cached_of_run ⟨rfl, rfl⟩ (by
    simp [along_cons, LookupsAnswered, TreeAnswer.missing, blobs, Example.sync])

end Repos

end Dockhand.GitDeploy.RepoSync
