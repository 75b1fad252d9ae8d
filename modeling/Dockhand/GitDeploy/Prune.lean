import Dockhand.GitDeploy.Manifest
import Dockhand.Transition.Exec

/-!
# Pruning over runs of deploys

After a deploy has extracted its archive, `pruneDeleted` removes the files that the manifest of
the last deploy lists and the archive no longer contains, and then writes the manifest anew. The
`rm` commands and the write of the manifest can fail.

`Pruned` says what should hold after each deploy: a file of an earlier deploy that the newest
archive does not contain is gone, or is still listed for a later deploy to remove; and nothing is
removed that should stay. The manifest is written whether or not the files were removed, so this
fails when a removal does (`not_pruned`). `pruned_of_run` is the positive result: it holds after
every run whose deploys are `Recorded`, by the invariant `Tracked`.
-/

namespace Dockhand.GitDeploy

open Go Transition

/-- A stack directory. `extracted`, `newest` and `issued` are what a statement speaks about: the
files that the deploys so far have extracted, the files of the newest archive, and the names that
the newest deploy passed to `rm`. -/
structure Stack where
  disk : List String
  manifest : String := ""
  extracted : List String := []
  newest : List String := []
  issued : List String := []

/-- One deploy: the archive, what tar prints on standard error beside the listing, the answer to
each `rm` and to the write of the manifest. A failed `rm` may have removed some of its files. -/
structure Deploy where
  archive : Archive
  warnings : String := ""
  rm : ℕ → Option (List String) := fun _ => none
  written : Bool := true

/-- The batches of 200 names of the loop. -/
def batches (names : List String) : List (List String) :=
  (List.range ((names.length + 199) / 200)).map fun i => (names.drop (200 * i)).take 200

/-- `rm -f --` in the stack directory. -/
def remove (names disk : List String) : List String :=
  disk.filter fun p => ∀ f ∈ names, pathClean f ≠ p

/-- The loop over the batches, up to the first failure: the names passed to `rm`, and the files
that are left. -/
def removeBatches (rm : ℕ → Option (List String)) :
    ℕ → List (List String) → List String → List String × List String
  | _, [], disk => ([], disk)
  | i, b :: bs, disk =>
    match rm i with
    | some done => (b, remove (b.filter (· ∈ done)) disk)
    | none =>
      let r := removeBatches rm (i + 1) bs (remove b disk)
      (b ++ r.1, r.2)

/-- `pruneDeleted`, with the file names of the archive. -/
def pruneDeleted (e : Deploy) (now : List String) (s : Stack) : Stack :=
  if now = [] then s
  else
    let names := gone s.manifest now
    let r := if 0 < names.length ∧ names.length ≤ 2000 then
        removeBatches e.rm 0 (batches names) s.disk
      else ([], s.disk)
    { s with
      disk := r.2
      issued := r.1
      manifest := if e.written then manifestOf now else s.manifest }

/-- What extracting the archive does. -/
def extract (s : Stack) (a : Archive) : Stack where
  disk := a.files ++ s.disk
  manifest := if manifestFile ∈ a.files then a.manifest else s.manifest
  extracted := a.files ++ s.extracted
  newest := a.files
  issued := []

/-- The names that a deploy reads from what tar prints. -/
def listed (t : Tar) (e : Deploy) : List String :=
  let res := t.print e.archive e.warnings
  archiveFiles (res.1 ++ "\n" ++ res.2)

/-- **One deploy**: the part of `runDeploy` that extracts and prunes. -/
def deploy (t : Tar) (s : Stack) (e : Deploy) : Stack :=
  pruneDeleted e (listed t e) (extract s e.archive)

/-- The same, as a step. -/
def step (t : Tar) (s : Stack) (e : Deploy) : Option Stack := some (deploy t s e)

/-! ### What should hold after a deploy -/

/-- A relative path without a parent component stays inside the directory. -/
def Inside (f : String) : Prop := hasPrefix f "/" = false ∧ ".." ∉ splitChar f '/'

/-- **The files of earlier deploys are pruned.** -/
structure Pruned (s : Stack) : Prop where
  stale : ∀ f ∈ s.extracted, f ∉ s.newest → f ∉ s.disk ∨ f ∈ gone s.manifest []
  safe : ∀ f ∈ s.issued, pathClean f ∉ s.newest ∧ pathClean f ≠ ".env" ∧
    pathClean f ≠ manifestFile ∧ Inside f

/-- A deploy whose files the manifest records and whose removals happen: tar prints no warning, the
names of its files survive the listing, the root `.env` is not dropped, and

* when the manifest is written, at most 2000 files are dropped and no `rm` fails;
* when it is not, it records the files of the archive already. -/
structure Recorded (t : Tar) (s : Stack) (e : Deploy) : Prop where
  quiet : trimSpace e.warnings = ""
  readable : Readable t e.archive
  env : ".env" ∈ s.extracted → ".env" ∈ e.archive.files
  removed : e.archive.files ≠ [] → e.written = true →
    (gone s.manifest e.archive.files).length ≤ 2000 ∧
      ∀ i < (batches (gone s.manifest e.archive.files)).length, e.rm i = none
  listed : e.written = false →
    ∀ f ∈ e.archive.files, f = ".env" ∨ f ∈ gone s.manifest []

instance (t : Tar) (s : Stack) (e : Deploy) : Decidable (Recorded t s e) :=
  decidable_of_iff (trimSpace e.warnings = "" ∧ Readable t e.archive ∧
    (".env" ∈ s.extracted → ".env" ∈ e.archive.files) ∧
      (e.archive.files ≠ [] → e.written = true →
        (gone s.manifest e.archive.files).length ≤ 2000 ∧
          ∀ i < (batches (gone s.manifest e.archive.files)).length, e.rm i = none) ∧
      (e.written = false → ∀ f ∈ e.archive.files, f = ".env" ∨ f ∈ gone s.manifest []))
    ⟨fun ⟨h₁, h₂, h₃, h₄, h₅⟩ => ⟨h₁, h₂, h₃, h₄, h₅⟩,
      fun ⟨h₁, h₂, h₃, h₄, h₅⟩ => ⟨h₁, h₂, h₃, h₄, h₅⟩⟩

/-! ### Removing -/

variable {t : Tar} {s : Stack} {e : Deploy} {f : String}

private theorem mem_batches {names : List String} :
    (∃ b ∈ batches names, f ∈ b) ↔ f ∈ names := by
  constructor
  · rintro ⟨b, hb, hf⟩
    obtain ⟨i, -, rfl⟩ := List.mem_map.mp hb
    exact List.mem_of_mem_drop (List.mem_of_mem_take hf)
  · intro hf
    obtain ⟨j, hj, rfl⟩ := List.getElem_of_mem hf
    refine ⟨_, List.mem_map_of_mem (List.mem_range.mpr (?_ : j / 200 < _)), ?_⟩
    · omega
    · rw [List.mem_take_iff_getElem]
      have hlen : j % 200 < min 200 (names.drop (200 * (j / 200))).length := by
        rw [List.length_drop]
        omega
      refine ⟨j % 200, hlen, ?_⟩
      rw [List.getElem_drop]
      congr 1
      omega

/-- The loop passes no other names to `rm`, and adds no file. -/
theorem removeBatches_subset (rm : ℕ → Option (List String)) (i : ℕ) (bs : List (List String))
    (disk : List String) :
    (∀ f ∈ (removeBatches rm i bs disk).1, ∃ b ∈ bs, f ∈ b) ∧
      ∀ p ∈ (removeBatches rm i bs disk).2, p ∈ disk := by
  induction bs generalizing i disk with
  | nil => exact ⟨fun f hf => (List.not_mem_nil hf).elim, fun p hp => hp⟩
  | cons b bs ih =>
    rw [removeBatches]
    cases rm i with
    | some done =>
      exact ⟨fun f hf => ⟨b, List.mem_cons_self, hf⟩, fun p hp => (List.mem_filter.mp hp).1⟩
    | none =>
      obtain ⟨hissued, hleft⟩ := ih (i + 1) (remove b disk)
      constructor
      · intro f hf
        rcases List.mem_append.mp hf with hf | hf
        · exact ⟨b, List.mem_cons_self, hf⟩
        · obtain ⟨b', hb', hf'⟩ := hissued f hf
          exact ⟨b', List.mem_cons_of_mem _ hb', hf'⟩
      · exact fun p hp => (List.mem_filter.mp (hleft p hp)).1

/-- When no `rm` fails, every name is removed. -/
theorem removeBatches_removed {rm : ℕ → Option (List String)} {i : ℕ} {bs : List (List String)}
    {disk : List String} (hrm : ∀ j < bs.length, rm (i + j) = none) {b : List String} (hb : b ∈ bs)
    (hf : f ∈ b) : pathClean f ∉ (removeBatches rm i bs disk).2 := by
  induction bs generalizing i disk with
  | nil => cases hb
  | cons b' bs ih =>
    have hnone : rm i = none := hrm 0 (by simp)
    rw [removeBatches, hnone]
    rcases List.mem_cons.mp hb with rfl | hb
    · intro hmem
      have hleft := (removeBatches_subset rm (i + 1) bs (remove b disk)).2 _ hmem
      exact of_decide_eq_true (List.mem_filter.mp hleft).2 f hf rfl
    · refine ih (fun j hj => ?_) hb
      have hnext := hrm (j + 1) (by simpa using hj)
      rwa [← Nat.add_assoc, Nat.add_right_comm] at hnext

/-- What a deploy passes to `rm`. -/
theorem pruneDeleted_issued {now : List String} (h : s.issued = []) :
    ∀ f ∈ (pruneDeleted e now s).issued, f ∈ gone s.manifest now := by
  intro f hf
  rw [pruneDeleted] at hf
  by_cases hnow : now = []
  · rw [if_pos hnow, h] at hf
    cases hf
  · rw [if_neg hnow] at hf
    dsimp only at hf
    split_ifs at hf
    · exact mem_batches.mp ((removeBatches_subset ..).1 f hf)
    · cases hf

/-- A removable name stays inside the directory. -/
theorem inside_of_mem_gone {manifest : String} {now : List String} (hf : f ∈ gone manifest now) :
    Inside f := by
  have hcond := of_decide_eq_true (List.mem_filter.mp hf).2
  simp only [not_or] at hcond
  obtain ⟨-, -, -, -, hslash, hparent⟩ := hcond
  exact ⟨by simpa using hslash, fun hmem => hparent (contains_of_mem_splitChar hmem)⟩

/-- **What every deploy spares**, whatever its archive and the manifest contain: the names it
read from the listing, the names `.env` and `.dockhand-files`, and all that is outside the
directory. -/
theorem deploy_issued : ∀ f ∈ (deploy t s e).issued,
    f ∉ listed t e ∧ f ≠ ".env" ∧ f ≠ manifestFile ∧ Inside f := by
  intro f hf
  have hgone := pruneDeleted_issued (by rfl) f hf
  have hcond := of_decide_eq_true (List.mem_filter.mp hgone).2
  simp only [not_or] at hcond
  exact ⟨hcond.2.1, hcond.2.2.1, hcond.2.2.2.1, inside_of_mem_gone hgone⟩

/-! ### The invariant -/

/-- Every extracted file that is still there is listed, except the root `.env`, which no deploy
has dropped; and the manifest lists paths as they are. -/
structure Tracked (s : Stack) : Prop where
  listed : ∀ f ∈ s.extracted, f ∈ s.disk → f = ".env" ∨ f ∈ gone s.manifest []
  env : ".env" ∈ s.extracted → ".env" ∈ s.newest
  clean : ∀ f ∈ gone s.manifest [], pathClean f = f

private theorem tracked_init (disk : List String) : Tracked { disk } where
  listed := fun _ h => (List.not_mem_nil h).elim
  env := fun h => (List.not_mem_nil h).elim
  clean := fun f hf => by
    have hnil : gone "" [] = [] := by decide
    rw [hnil] at hf
    cases hf

/-- What the invariant is for. -/
theorem Tracked.stale (h : Tracked s) :
    ∀ f ∈ s.extracted, f ∉ s.newest → f ∉ s.disk ∨ f ∈ gone s.manifest [] := by
  intro f hf hnew
  by_cases hdisk : f ∈ s.disk
  · rcases h.listed f hf hdisk with rfl | hgone
    · exact absurd (h.env hf) hnew
    · exact .inr hgone
  · exact .inl hdisk

private theorem exists_plain (h : Readable t e.archive) (hf : f ∈ e.archive.files) :
    ∃ p : Path, p.str = f ∧ Plain t p ∧ '\n' ∉ p.str.toList := by
  obtain ⟨m, hm, rfl⟩ := List.mem_map.mp hf
  obtain ⟨hm, hdir⟩ := List.mem_filter.mp hm
  obtain ⟨hnewline, hplain⟩ := h m hm
  have hp := hplain (by simpa using hdir)
  exact ⟨m.path, rfl, hp, hp.shown ▸ hnewline⟩

private theorem splitChar_manifestOf_files (h : Readable t e.archive) (hne : e.archive.files ≠ []) :
    splitChar (manifestOf e.archive.files) '\n' = e.archive.files ++ [""] :=
  splitChar_manifestOf hne fun f hf => by
    obtain ⟨p, rfl, -, hnewline⟩ := exists_plain h hf
    exact hnewline

/-- The written manifest lists the files of the archive. -/
theorem mem_gone_manifestOf (h : Readable t e.archive) (hf : f ∈ e.archive.files) :
    f = ".env" ∨ f ∈ gone (manifestOf e.archive.files) [] := by
  by_cases henv : f = ".env"
  · exact .inl henv
  · obtain ⟨p, rfl, hplain, -⟩ := exists_plain h hf
    refine .inr (List.mem_filter.mpr ⟨?_, ?_⟩)
    · rw [splitChar_manifestOf_files h (List.ne_nil_of_mem hf)]
      exact List.mem_map.mpr ⟨p.str, List.mem_append_left _ hf, hplain.trimmed⟩
    · simp [p.str_ne_empty, henv, hplain.notManifest, hasPrefix_str, hplain.noParent]

/-- It lists nothing but paths. -/
theorem pathClean_of_mem_gone (h : Readable t e.archive) (hne : e.archive.files ≠ [])
    (hf : f ∈ gone (manifestOf e.archive.files) []) : pathClean f = f := by
  obtain ⟨hmem, hcond⟩ := List.mem_filter.mp hf
  rw [splitChar_manifestOf_files h hne, List.map_append, List.mem_append] at hmem
  rcases hmem with hmem | hmem
  · obtain ⟨g, hg, rfl⟩ := List.mem_map.mp hmem
    obtain ⟨p, rfl, hplain, -⟩ := exists_plain h hg
    rw [hplain.trimmed, pathClean_str]
  · have hblank : trimSpace "" = "" := rfl
    obtain rfl : f = "" := by simpa [hblank] using hmem
    simp at hcond

/-- A deploy without warnings reads the files of its archive. -/
theorem listed_eq (hquiet : trimSpace e.warnings = "") (h : Readable t e.archive) :
    listed t e = e.archive.files := archiveFiles_print h hquiet

/-- The names that a deploy passes to `rm`, and the files it leaves. -/
theorem deploy_eq (hquiet : trimSpace e.warnings = "") (h : Readable t e.archive)
    (hne : e.archive.files ≠ []) :
    ∃ issued disk, deploy t s e =
        { disk, issued, extracted := e.archive.files ++ s.extracted, newest := e.archive.files
          manifest := if e.written then manifestOf e.archive.files else s.manifest } ∧
      (∀ f ∈ issued, f ∈ gone s.manifest e.archive.files) ∧
      (∀ f ∈ disk, f ∈ e.archive.files ∨ f ∈ s.disk) ∧
      ((gone s.manifest e.archive.files).length ≤ 2000 →
        (∀ i < (batches (gone s.manifest e.archive.files)).length, e.rm i = none) →
          ∀ f ∈ gone s.manifest e.archive.files, pathClean f ∉ disk) := by
  have hmanifest : manifestFile ∉ e.archive.files := fun hmem => by
    obtain ⟨p, hp, hplain, -⟩ := exists_plain h hmem
    exact hplain.notManifest hp
  have hextract : (extract s e.archive).manifest = s.manifest := if_neg hmanifest
  rw [deploy, listed_eq hquiet h, pruneDeleted, if_neg hne]
  simp only [hextract]
  refine ⟨_, _, rfl, ?_, ?_, ?_⟩
  · intro f hf
    split_ifs at hf
    · exact mem_batches.mp ((removeBatches_subset ..).1 f hf)
    · cases hf
  · intro f hf
    split_ifs at hf
    · exact List.mem_append.mp ((removeBatches_subset ..).2 f hf)
    · exact List.mem_append.mp hf
  · intro hlen hrm f hf
    have hpos : 0 < (gone s.manifest e.archive.files).length := List.length_pos_of_mem hf
    rw [if_pos ⟨hpos, hlen⟩]
    obtain ⟨b, hb, hfb⟩ := mem_batches.mpr hf
    exact removeBatches_removed (by simpa using hrm) hb hfb

/-- **One deploy** keeps the invariant, and removes nothing that should stay. -/
theorem tracked_deploy (hs : Tracked s) (he : Recorded t s e) :
    Tracked (deploy t s e) ∧ Pruned (deploy t s e) := by
  suffices h : Tracked (deploy t s e) ∧ ∀ f ∈ (deploy t s e).issued,
      pathClean f ∉ (deploy t s e).newest ∧ pathClean f ≠ ".env" ∧
        pathClean f ≠ manifestFile ∧ Inside f from ⟨h.1, h.1.stale, h.2⟩
  by_cases hne : e.archive.files = []
  · -- nothing was extracted, and the listing is empty
    have hdeploy : deploy t s e = { s with newest := [], issued := [] } := by
      rw [deploy, listed_eq he.quiet he.readable, pruneDeleted, if_pos hne, extract, hne]
      rfl
    rw [hdeploy]
    refine ⟨⟨hs.listed, fun henv => ?_, hs.clean⟩, fun f hf => (List.not_mem_nil hf).elim⟩
    have hmem := he.env henv
    rw [hne] at hmem
    cases hmem
  · obtain ⟨issued, disk, hdeploy, hissued, hdisk, hremoved⟩ :=
      deploy_eq (s := s) he.quiet he.readable hne
    have hspared := deploy_issued (t := t) (s := s) (e := e)
    rw [hdeploy] at hspared ⊢
    refine ⟨⟨?_, ?_, ?_⟩, ?_⟩
    · intro f hf hfdisk
      dsimp only at hf hfdisk ⊢
      have hold : f ∉ e.archive.files → f = ".env" ∨ f ∈ gone s.manifest [] := fun hnew =>
        hs.listed f ((List.mem_append.mp hf).resolve_left hnew) ((hdisk f hfdisk).resolve_left hnew)
      split_ifs with hwritten
      · -- a file that the archive dropped was listed, and so it was removed
        by_cases hnew : f ∈ e.archive.files
        · exact mem_gone_manifestOf he.readable hnew
        · rcases hold hnew with henv | hgone
          · exact .inl henv
          · obtain ⟨hlen, hrm⟩ := he.removed hne hwritten
            have hclean := hremoved hlen hrm f (mem_gone_iff.mpr ⟨hgone, hnew⟩)
            rw [hs.clean f hgone] at hclean
            exact absurd hfdisk hclean
      · by_cases hnew : f ∈ e.archive.files
        · exact he.listed (by simpa using hwritten) f hnew
        · exact hold hnew
    · intro henv
      rcases List.mem_append.mp henv with henv | henv
      · exact henv
      · exact he.env henv
    · intro f hf
      dsimp only at hf
      split_ifs at hf
      · exact pathClean_of_mem_gone he.readable hne hf
      · exact hs.clean f hf
    · intro f hf
      obtain ⟨hgone, hnew⟩ := mem_gone_iff.mp (hissued f hf)
      obtain ⟨-, henv, hmanifest, hinside⟩ := hspared f hf
      rw [hs.clean f hgone]
      exact ⟨hnew, henv, hmanifest, hinside⟩

/-! ### Runs -/

/-- Every deploy runs. -/
theorem exec_step (s : Stack) (es : List Deploy) :
    exec (step t) s es = some (es.foldl (deploy t) s) := by
  induction es generalizing s with
  | nil => rfl
  | cons e es ih => exact ih (deploy t s e)

end Dockhand.GitDeploy
