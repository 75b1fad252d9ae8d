import Dockhand.Data.MergeBy
import Dockhand.DockerOps.Config

/-!
# Updating a container to an unchanged image

At create time Docker fills in what the user's configuration leaves open from the image's
(`merge`). An inspected container shows the merged configuration, without saying which values
were the user's. When `Recreate` pulls, it drops the values that equal the old image's, and
Docker merges the rest with the new image's configuration.

`SameConfig` says that a container created again from the same image has the configuration of
the old one. `recreate_sameConfig_iff` is the exact condition. Every field is dropped by itself,
and for most of them what is dropped comes back with the merge (`unionKeep_dropLabels`,
`unionKeep_dropPorts`, `unionKeep_dropVolumes`, `orImage_drop`). Three do not:

* the command, because an entrypoint keeps the image's command out of a merge
  (`mergeCmd_drop_iff`);
* the healthcheck, which is dropped as a whole when its test is the image's
  (`mergeHealthcheck_drop_iff`);
* the environment, when one name has several entries (`mergeBy_subtract_perm_iff`).
-/

namespace Dockhand.DockerOps

open MergeBy

/-! ### Docker's merge at create time -/

/-- The name of an environment entry: what stands before the first `=`. -/
def envName (e : String) : String := String.ofList (e.toList.takeWhile (· ≠ '='))

/-- The entries of two maps, those of the first winning. -/
def unionKeep {α : Type} (user image : Dict String α) : Dict String α :=
  image.entries.foldl (fun m e => if (m.get? e.1).isSome then m else m.set e.1 e.2) user

/-- The image's value where the user's is the zero value. -/
def orImage {α : Type} [DecidableEq α] (zero user image : α) : α :=
  if user = zero then image else user

/-- The image's command, when the user gives neither a command nor an entrypoint. -/
def mergeCmd (entrypoint cmd image : List String) : List String :=
  if entrypoint = [] ∧ cmd = [] then image else cmd

/-- Fill in the zero fields of a healthcheck. -/
def HealthConfig.fill (h o : HealthConfig) : HealthConfig where
  test := orImage [] h.test o.test
  interval := orImage 0 h.interval o.interval
  timeout := orImage 0 h.timeout o.timeout
  startPeriod := orImage 0 h.startPeriod o.startPeriod
  startInterval := orImage 0 h.startInterval o.startInterval
  retries := orImage 0 h.retries o.retries

/-- A healthcheck of the user is completed from the image's; without one, the image's is taken. -/
def mergeHealthcheck : Option HealthConfig → Option HealthConfig → Option HealthConfig
  | some h, some o => some (h.fill o)
  | some h, none => some h
  | none, o => o

/-- **Docker's create-time merge** of a user's configuration with an image's. -/
def merge (user : Config) (image : ImageConfig) : Config where
  hostname := user.hostname
  user := orImage "" user.user image.user
  exposedPorts := unionKeep user.exposedPorts image.exposedPorts
  env := mergeBy envName user.env image.env
  cmd := mergeCmd user.entrypoint user.cmd image.cmd
  healthcheck := mergeHealthcheck user.healthcheck image.healthcheck
  image := user.image
  volumes := unionKeep user.volumes image.volumes
  workingDir := orImage "" user.workingDir image.workingDir
  entrypoint := orImage [] user.entrypoint image.entrypoint
  labels := unionKeep user.labels image.labels

/-- The container with this identifier, created again with configuration `c'`, has configuration
`c`: the same values, the environment in any order. A hostname that was only the default for the
old identifier is left for Docker to default again. -/
structure SameConfig (id : String) (c' c : Config) : Prop where
  hostname : c'.hostname = c.hostname ∨ c.hostname = shortID id ∧ c'.hostname = ""
  user : c'.user = c.user
  exposedPorts : c'.exposedPorts = c.exposedPorts
  env : c'.env.Perm c.env
  cmd : c'.cmd = c.cmd
  healthcheck : c'.healthcheck = c.healthcheck
  image : c'.image = c.image
  volumes : c'.volumes = c.volumes
  workingDir : c'.workingDir = c.workingDir
  entrypoint : c'.entrypoint = c.entrypoint
  labels : c'.labels = c.labels

/-! ### Maps -/

private theorem get?_unionKeep {α : Type} (user image : Dict String α) (k : String) :
    (unionKeep user image).get? k = (user.get? k).or (image.get? k) := by
  rw [unionKeep, Dict.get?_foldl (g := fun _ v o => o.or (some v)) _ _ image.sorted]
  · change (image.get? k).elim _ _ = _
    cases image.get? k <;> simp
  · intro m e k
    by_cases hk : k = e.1
    · subst hk
      cases h : m.get? e.1 <;> simp [h]
    · cases m.get? e.1 <;> simp [hk]

/-- Deleting the keys that meet a condition, in a loop over a map. -/
theorem get?_foldl_del {α β : Type} (p : String → β → Option α → Prop)
    [∀ k v o, Decidable (p k v o)] (m : Dict String α) (n : Dict String β) (k : String) :
    (n.entries.foldl (fun m e => if p e.1 e.2 (m.get? e.1) then m.del e.1 else m) m).get? k =
      (n.get? k).elim (m.get? k) fun v => if p k v (m.get? k) then none else m.get? k := by
  refine Dict.get?_foldl (g := fun k v o => if p k v o then none else o) ?_ _ n.sorted _
  intro m e k
  by_cases hk : k = e.1
  · subst hk
    rw [if_pos rfl]
    split_ifs <;> simp
  · rw [if_neg hk]
    split_ifs <;> simp [hk]

private theorem get?_dropLabels (labels image : Dict String String) (k : String) :
    (dropLabels labels image).get? k = (image.get? k).elim (labels.get? k) fun v =>
      if (labels.get? k).getD "" = v then none else labels.get? k :=
  get?_foldl_del (fun _ v o => o.getD "" = v) labels image k

private theorem get?_dropPorts (bindings : Dict String (List PortBinding))
    (ports image : Dict String Unit) (k : String) :
    (dropPorts bindings ports image).get? k = (image.get? k).elim (ports.get? k) fun _ =>
      if (bindings.get? k).isSome then ports.get? k else none := by
  simpa only [dropPorts, ite_not] using
    get?_foldl_del (fun k _ _ => ¬ (bindings.get? k).isSome) ports image k

private theorem get?_dropVolumes (volumes image : Dict String Unit) (k : String) :
    (dropVolumes volumes image).get? k = (image.get? k).elim (volumes.get? k) fun _ => none := by
  simpa [dropVolumes] using get?_foldl_del (fun _ _ _ => True) volumes image k

/-- Labels that are dropped come back with the image's value, which they had. -/
theorem unionKeep_dropLabels (u o : Dict String String) :
    unionKeep (dropLabels (unionKeep u o) o) o = unionKeep u o := by
  refine Dict.ext_get? fun k => ?_
  simp only [get?_unionKeep, get?_dropLabels]
  cases u.get? k <;> cases o.get? k <;> simp
  split_ifs with h <;> simp [h]

theorem unionKeep_dropPorts (bindings : Dict String (List PortBinding)) (u o : Dict String Unit) :
    unionKeep (dropPorts bindings (unionKeep u o) o) o = unionKeep u o := by
  refine Dict.ext_get? fun k => ?_
  simp only [get?_unionKeep, get?_dropPorts]
  cases u.get? k <;> cases o.get? k <;> simp

theorem unionKeep_dropVolumes (u o : Dict String Unit) :
    unionKeep (dropVolumes (unionKeep u o) o) o = unionKeep u o := by
  refine Dict.ext_get? fun k => ?_
  simp only [get?_unionKeep, get?_dropVolumes]
  cases u.get? k <;> cases o.get? k <;> simp

private theorem unionKeep_unionKeep {α : Type} (u o : Dict String α) :
    unionKeep (unionKeep u o) o = unionKeep u o := by
  refine Dict.ext_get? fun k => ?_
  simp only [get?_unionKeep]
  cases u.get? k <;> cases o.get? k <;> rfl

/-! ### Defaults -/

section Defaults

variable {α : Type} [DecidableEq α] {z x o : α}

private theorem orImage_of_ne (h : x ≠ z) : orImage z x o = x := if_neg h

@[simp] theorem orImage_zero : orImage z z o = o := if_pos rfl

@[simp] theorem orImage_self : orImage z o o = o := ite_self o

/-- Defaulting twice. -/
@[simp] theorem orImage_orImage : orImage z (orImage z x o) o = orImage z x o := by
  by_cases h : x = z
  · rw [h, orImage_zero, orImage_self]
  · simp only [orImage_of_ne h]

/-- A value that equals the image's is dropped and defaulted to itself. -/
theorem orImage_drop :
    orImage z (if orImage z x o = o then z else orImage z x o) o = orImage z x o := by
  split_ifs with h
  · rw [orImage_zero, h]
  · exact orImage_orImage

end Defaults

/-! ### Entrypoint and command -/

section Command

variable {ep cmd oep ocmd : List String}

/-- The user's entrypoint and command can be told from the image's after the merge. -/
def CmdRecoverable (ep cmd oep ocmd : List String) : Prop :=
  ep ≠ [] → ocmd ≠ [] → (ep = oep → cmd ≠ []) ∧ (ep ≠ oep → cmd ≠ ocmd)

instance : Decidable (CmdRecoverable ep cmd oep ocmd) :=
  inferInstanceAs (Decidable (_ → _ → _))

private theorem mergeCmd_of_entrypoint (h : ep ≠ []) : mergeCmd ep cmd ocmd = cmd :=
  if_neg fun hk => h hk.1

private theorem mergeCmd_nil : mergeCmd [] cmd ocmd = orImage [] cmd ocmd :=
  if_congr (and_iff_right rfl) rfl rfl

private theorem mergeCmd_mergeCmd :
    mergeCmd (orImage [] ep oep) (mergeCmd ep cmd ocmd) ocmd = mergeCmd ep cmd ocmd := by
  by_cases h : ep = []
  · subst h
    by_cases hcmd : cmd = [] <;> simp [mergeCmd, hcmd]
  · rw [orImage_of_ne h, mergeCmd_of_entrypoint h, mergeCmd_of_entrypoint h]

/-- **The command.** It comes back unless the user set an entrypoint and either it is the
image's and suppressed the image's command, which now returns, or it is another one and the
command equals the image's, is dropped, and the entrypoint now suppresses it. -/
theorem mergeCmd_drop_iff :
    mergeCmd (dropEqual (orImage [] ep oep) oep) (dropEqual (mergeCmd ep cmd ocmd) ocmd) ocmd =
        mergeCmd ep cmd ocmd ↔ CmdRecoverable ep cmd oep ocmd := by
  simp only [dropEqual_eq, CmdRecoverable]
  by_cases hep : ep = []
  · -- the image's entrypoint is dropped again, so its command is the default again
    subst hep
    simp only [orImage_zero, if_true, ne_eq, not_true_eq_false, false_implies, iff_true,
      mergeCmd_nil]
    exact orImage_drop
  · rw [orImage_of_ne hep, mergeCmd_of_entrypoint hep]
    by_cases heq : ep = oep
    · subst heq
      by_cases hcmd : cmd = []
      · subst hcmd
        by_cases ho : ocmd = [] <;> simp [mergeCmd, hep, ho, eq_comm]
      · by_cases ho : cmd = ocmd <;> simp [mergeCmd, hep, ho, hcmd]
    · rw [if_neg heq, mergeCmd_of_entrypoint hep]
      by_cases ho : cmd = ocmd <;> simp [hep, heq, ho, eq_comm]

end Command

/-! ### Healthcheck -/

/-- The fields of a healthcheck other than its test that the user set are the image's. -/
structure HealthConfig.FieldsFrom (h o : HealthConfig) : Prop where
  interval : h.interval = 0 ∨ h.interval = o.interval
  timeout : h.timeout = 0 ∨ h.timeout = o.timeout
  startPeriod : h.startPeriod = 0 ∨ h.startPeriod = o.startPeriod
  startInterval : h.startInterval = 0 ∨ h.startInterval = o.startInterval
  retries : h.retries = 0 ∨ h.retries = o.retries

/-- A user's healthcheck that has the image's test, or none, has nothing else of its own. -/
def HealthRecoverable (user image : Option HealthConfig) : Prop :=
  ∀ h ∈ user, ∀ o ∈ image, h.test = [] ∨ h.test = o.test → h.FieldsFrom o

private theorem orImage_eq_image {α : Type} [DecidableEq α] {z x o : α} :
    orImage z x o = o ↔ x = z ∨ x = o := by
  by_cases h : x = z
  · simp [h]
  · simp [orImage_of_ne h, h]

private theorem HealthConfig.fill_fill (h o : HealthConfig) : (h.fill o).fill o = h.fill o := by
  simp [HealthConfig.fill]

/-- The filled-in healthcheck is the image's. -/
theorem HealthConfig.fill_eq_iff (h o : HealthConfig) :
    h.fill o = o ↔ (h.test = [] ∨ h.test = o.test) ∧ h.FieldsFrom o := by
  rw [HealthConfig.fill]
  cases o
  simp only [HealthConfig.mk.injEq, orImage_eq_image]
  exact and_congr_right fun _ =>
    ⟨fun ⟨h₁, h₂, h₃, h₄, h₅⟩ => ⟨h₁, h₂, h₃, h₄, h₅⟩,
      fun ⟨h₁, h₂, h₃, h₄, h₅⟩ => ⟨h₁, h₂, h₃, h₄, h₅⟩⟩

private theorem mergeHealthcheck_mergeHealthcheck (u o : Option HealthConfig) :
    mergeHealthcheck (mergeHealthcheck u o) o = mergeHealthcheck u o := by
  cases u <;> cases o <;> simp [mergeHealthcheck, HealthConfig.fill]

/-- **The healthcheck.** A healthcheck with the image's test is replaced by the image's, so
whatever else the user set in it is lost. -/
theorem mergeHealthcheck_drop_iff (u o : Option HealthConfig) :
    mergeHealthcheck (dropHealthcheck (mergeHealthcheck u o) o) o = mergeHealthcheck u o ↔
      HealthRecoverable u o := by
  cases u with
  | none =>
    have hnone : HealthRecoverable none o := fun h hh => by cases hh
    cases o with
    | none => simp [mergeHealthcheck, dropHealthcheck, hnone]
    | some o =>
      have htest : equalStrings o.test o.test = true := equalStrings_iff.mpr rfl
      simp [mergeHealthcheck, dropHealthcheck, htest, hnone]
  | some h =>
    cases o with
    | none => simp [mergeHealthcheck, dropHealthcheck, HealthRecoverable]
    | some o =>
      by_cases htest : (h.fill o).test = o.test
      · have htest' : h.test = [] ∨ h.test = o.test := orImage_eq_image.mp htest
        simp only [mergeHealthcheck, dropHealthcheck, equalStrings_iff.mpr htest, if_true,
          Option.some_inj, HealthRecoverable, Option.mem_def, forall_eq', htest', true_implies]
        rw [eq_comm, HealthConfig.fill_eq_iff, and_iff_right htest']
      · have htest' : ¬ (h.test = [] ∨ h.test = o.test) := fun hk => htest (orImage_eq_image.mpr hk)
        have hne : ¬ equalStrings (h.fill o).test o.test = true := fun hk =>
          htest (equalStrings_iff.mp hk)
        simp [mergeHealthcheck, dropHealthcheck, hne, HealthRecoverable, htest',
          HealthConfig.fill_fill]

/-! ### Environment -/

/-- The user's entries can be told from the image's after the merge. -/
def EnvRecoverable (user image : List String) : Prop :=
  ((∀ e ∈ user, e ∈ image) → (mergeBy envName user image).Perm image) ∧
    (¬ (∀ e ∈ user, e ∈ image) →
      ∀ e ∈ user, e ∈ image → OnlyOfKey envName e user ∧ FirstOfKey envName e image)

instance (user image : List String) : Decidable (EnvRecoverable user image) :=
  inferInstanceAs (Decidable (_ ∧ _))

/-- With one entry per name on each side, they can. -/
theorem envRecoverable_of_nodup {user image : List String} (hu : (user.map envName).Nodup)
    (ho : (image.map envName).Nodup) : EnvRecoverable user image :=
  ⟨perm_mergeBy_of_subset hu ho, fun _ _ heu heo =>
    ⟨onlyOfKey_of_nodup hu heu, firstOfKey_of_nodup ho heo⟩⟩

/-- **The environment.** -/
theorem mergeBy_subtract_perm_iff (u o : List String) :
    (mergeBy envName (subtract (mergeBy envName u o) o) o).Perm (mergeBy envName u o) ↔
      EnvRecoverable u o := by
  have hmem : ∀ {e}, e ∈ mergeBy envName u o → e ∈ u ∨ e ∈ o := fun {e} he => by
    rw [mergeBy] at he
    split_ifs at he
    exacts [.inr he, mem_of_mem_appendMissing he]
  by_cases hsub : ∀ e ∈ u, e ∈ o
  · -- nothing is left of the environment, and the image's replaces it
    have hnil : subtract (mergeBy envName u o) o = [] :=
      List.filter_eq_nil_iff.mpr fun e he => by simpa using (hmem he).elim (hsub e) id
    rw [EnvRecoverable, hnil, mergeBy, if_pos rfl, List.perm_comm]
    exact ⟨fun h => ⟨fun _ => h, fun hne => absurd hsub hne⟩, fun h => h.1 hsub⟩
  · obtain ⟨e, heu, heo⟩ : ∃ e ∈ u, e ∉ o := by simpa using hsub
    have hu : u ≠ [] := List.ne_nil_of_mem heu
    have hmerge : mergeBy envName u o = appendMissing envName u o := if_neg hu
    have hrest : subtract (mergeBy envName u o) o ≠ [] := List.ne_nil_of_mem <|
      List.mem_filter.mpr ⟨hmerge ▸ mem_appendMissing_of_mem heu, by simpa using heo⟩
    rw [EnvRecoverable, mergeBy, if_neg hrest, hmerge]
    refine perm_appendMissing_filter_iff.trans ?_
    exact ⟨fun h => ⟨fun hall => absurd hall hsub, fun _ => h⟩, fun h => h.2 hsub⟩

/-! ### The whole configuration -/

/-- Every value that the user set can be told from the image's after the merge. -/
structure Recoverable (user : Config) (image : ImageConfig) : Prop where
  env : EnvRecoverable user.env image.env
  cmd : CmdRecoverable user.entrypoint user.cmd image.entrypoint image.cmd
  healthcheck : HealthRecoverable user.healthcheck image.healthcheck

private theorem clearHostname_eq (id hostname : String) :
    clearHostname id hostname = hostname ∨
      hostname = shortID id ∧ clearHostname id hostname = "" := by
  rw [clearHostname]
  split_ifs with h
  · exact .inr ⟨h.2, rfl⟩
  · exact .inl rfl

private theorem entrypoint_drop (ep oep : List String) :
    orImage [] (dropEqual (orImage [] ep oep) oep) oep = orImage [] ep oep := by
  rw [dropEqual_eq]
  exact orImage_drop

/-- Submitting a merged configuration again changes nothing. -/
theorem sameConfig_merge_merge (id : String) (user : Config) (image : ImageConfig) :
    SameConfig id
      (merge { merge user image with hostname := clearHostname id user.hostname } image)
      (merge user image) where
  hostname := clearHostname_eq ..
  user := orImage_orImage
  exposedPorts := unionKeep_unionKeep ..
  env := .of_eq mergeBy_mergeBy
  cmd := mergeCmd_mergeCmd
  healthcheck := mergeHealthcheck_mergeHealthcheck ..
  image := rfl
  volumes := unionKeep_unionKeep ..
  workingDir := orImage_orImage
  entrypoint := orImage_orImage
  labels := unionKeep_unionKeep ..

/-- Submitting a merged configuration without the values that equal the image's. -/
theorem sameConfig_drop_iff (id : String) (hc : HostConfig) (user : Config) (image : ImageConfig) :
    SameConfig id
        (merge { dropImageDefaults hc (merge user image) image with
          hostname := clearHostname id user.hostname } image)
        (merge user image) ↔ Recoverable user image := by
  constructor
  · exact fun h => ⟨(mergeBy_subtract_perm_iff ..).mp h.env, mergeCmd_drop_iff.mp h.cmd,
      (mergeHealthcheck_drop_iff ..).mp h.healthcheck⟩
  · rintro ⟨henv, hcmd, hhealth⟩
    exact {
      hostname := clearHostname_eq ..
      user := orImage_drop
      exposedPorts := unionKeep_dropPorts ..
      env := (mergeBy_subtract_perm_iff ..).mpr henv
      cmd := mergeCmd_drop_iff.mpr hcmd
      healthcheck := (mergeHealthcheck_drop_iff ..).mpr hhealth
      image := rfl
      volumes := unionKeep_dropVolumes ..
      workingDir := orImage_drop
      entrypoint := entrypoint_drop ..
      labels := unionKeep_dropLabels .. }

/-- **Updating to an unchanged image.** The inspected container has the merge of the user's
configuration with the image's, and the pulled image has the same configuration. The copy has
the container's configuration if and only if the old image could not be inspected, so that
nothing is dropped, or the user's values can be told from the image's. -/
theorem update_sameConfig_iff (ins : InspectResponse) (user : Config) (image : ImageConfig)
    (seen : Bool) (hins : ins.config = merge user image) :
    SameConfig ins.id
        (merge (requestFor ins updateOpts (if seen then some image else none)).1.config image)
        ins.config ↔
      seen = false ∨ Recoverable user image := by
  change SameConfig _ (merge (configFor ..) _) _ ↔ _
  cases seen with
  | false =>
    have hcfg : configFor ins updateOpts none =
        { merge user image with hostname := clearHostname ins.id user.hostname } := by
      simp [configFor, imageFor, updateOpts, hins, merge]
    rw [hins, if_neg Bool.false_ne_true, hcfg]
    exact iff_of_true (sameConfig_merge_merge ..) (.inl rfl)
  | true =>
    have hcfg : configFor ins updateOpts (some image) =
        { dropImageDefaults ins.hostConfig (merge user image) image with
          hostname := clearHostname ins.id user.hostname } := by
      simp only [configFor, imageFor, updateOpts, hins, if_true]
      rfl
    rw [hins, if_pos rfl, hcfg, or_iff_right (by simp)]
    exact sameConfig_drop_iff ..

/-- A web server with a variable, a label and a port of its own is the same after an update. -/
theorem update_sameConfig_webServer :
    let image : ImageConfig :=
      { env := ["PATH=/bin", "PORT=80"], cmd := ["serve"], entrypoint := ["/entry.sh"]
        labels := Dict.set ∅ "version" "1", exposedPorts := Dict.set ∅ "80/tcp" () }
    let user : Config :=
      { hostname := "0123456789ab", image := "web", env := ["PORT=8080"], workingDir := "/srv"
        labels := Dict.set ∅ "team" "ops", exposedPorts := Dict.set ∅ "8080/tcp" () }
    let ins : InspectResponse :=
      { id := "0123456789abcdef", name := "/web", running := true, config := merge user image
        hostConfig := {} }
    SameConfig ins.id (merge (requestFor ins updateOpts (some image)).1.config image) ins.config :=
  (update_sameConfig_iff _ _ _ true rfl).mpr
    (.inr ⟨by decide +kernel, by decide, fun _ h => nomatch h⟩)

/-- **An update can change the command.** The user runs the image's entrypoint without the
image's command. The entrypoint is dropped because it equals the image's, so the merge that
follows brings the image's command back. -/
theorem update_not_sameConfig :
    ¬ ∀ (ins : InspectResponse) (user : Config) (image : ImageConfig),
      ins.config = merge user image →
        SameConfig ins.id (merge (requestFor ins updateOpts (some image)).1.config image)
          ins.config := by
  intro h
  have hcmd := (h
    { id := "0123456789abcdef", name := "/app", running := true, hostConfig := {}
      config := merge { image := "app", entrypoint := ["/entry.sh"] }
        { entrypoint := ["/entry.sh"], cmd := ["--migrate"] } }
    { image := "app", entrypoint := ["/entry.sh"] }
    { entrypoint := ["/entry.sh"], cmd := ["--migrate"] } rfl).cmd
  revert hcmd
  decide +kernel

end Dockhand.DockerOps
