import Dockhand.GitDeploy.Preflight

/-!
# The compose files of a project

A compose project that Dockhand has not deployed is discovered from the labels of its containers,
which record the working directory and the list of config files. An operation on the stack takes the
first of the files of the first container: `locate` makes a row of it. The update of a single
service takes all files of its own container: `composeFileArgs`. With an override file the two
differ, and `up --remove-orphans` with the first file alone removes the services of the others:
`not_wholeProject`. Containers that were made by two calls with different files differ in their
labels, so that they all have to record the same single file: `wholeProject_iff`.
-/

namespace Dockhand.Stacks

open Go GitDeploy.Preflight

/-- What is read of the labels of a container. -/
structure Labelled where
  name : String
  project : String
  service : String
  workingDir : String
  configFiles : String
  deriving DecidableEq

/-- A compose project that is known by its containers, each with labels of its own. `containers` are
those of the host, sorted by name. -/
structure Project where
  name : String
  containers : List Labelled
  running : ∃ c ∈ containers, c.project = name

/-- `locate` returns the stack row, or a synthetic row for a discovered project. -/
def locate (stored : Option Row) (containers : List Labelled) (name : String) : Option Row :=
  match stored with
  | some r => some r
  | none => (containers.find? (·.project = name)).map fun c =>
    { name := name, path := c.workingDir, composeFile := (splitChar c.configFiles ',').headD "",
      source := "discovered" }

/-- `ComposeFileArgs`: the files of the label. -/
def composeFileArgs (label : String) : List String :=
  ((splitChar label ',').map trimSpace).filter (· ≠ "")

/-! ### Operations -/

/-- `Actions` are the supported stack actions. -/
def actions : List (String × String) :=
  [("up", "up -d --remove-orphans"), ("down", "down"), ("stop", "stop"), ("restart", "restart"),
    ("pull", "pull")]

/-- The calls of `runDeploy` for the row of a git stack. -/
def gitRedeploy (r : Row) (pullImages noCache : Bool) : List ComposeCall :=
  match redeploy r pullImages noCache with
  | some p => (runDeploy p).calls
  | none => []

/-- `runAction`. An unknown action is refused before. -/
def runAction (r : Row) (action : String) : List ComposeCall :=
  if action ≠ "redeploy" then ((actions.lookup action).map (composeCmd r)).toList
  else if r.source = "git" then gitRedeploy r false false
  else [composeCmd r "pull", composeCmd r "up -d --remove-orphans"]

/-- `PutCompose`, with a file that is valid. -/
def putCompose (r : Row) : List ComposeCall :=
  if r.composePath = "" then [] else [composeCmd r "up -d --remove-orphans"]

/-- `buildAndUp`. -/
def buildAndUp (r : Row) (pullImages noCache : Bool) : List ComposeCall :=
  (if buildFlags pullImages noCache ≠ [] then
    [composeCmd r ("build " ++ " ".intercalate (buildFlags pullImages noCache))] else []) ++
    [composeCmd r (upBuild pullImages)]

/-- `PullAndRebuild`. `checkout` says that the directory is a git checkout that can be updated. -/
def pullAndRebuild (stored : Option Row) (r : Row) (checkout pullImages noCache : Bool) :
    List ComposeCall :=
  if stored.isSome ∧ r.source = "git" then gitRedeploy r pullImages noCache
  else if r.path ≠ "" ∧ checkout then buildAndUp r pullImages noCache else []

/-- `updateComposeService`. -/
def updateComposeService (c : Labelled) : List ComposeCall :=
  let call (args : String) : ComposeCall :=
    { dir := c.workingDir, project := c.project, files := composeFileArgs c.configFiles,
      args := args ++ " " ++ shq c.service }
  [call "pull", call "up -d"]

/-- An operation on a project. -/
inductive Operation where
  | action (a : String)
  | putCompose
  | pullAndRebuild (checkout pullImages noCache : Bool)
  | update (c : Labelled)
  deriving DecidableEq

/-- The calls of an operation on a project without a row. -/
def Project.calls (p : Project) : Operation → List ComposeCall
  | .action a => ((locate none p.containers p.name).map (runAction · a)).getD []
  | .putCompose => ((locate none p.containers p.name).map Stacks.putCompose).getD []
  | .pullAndRebuild checkout pullImages noCache =>
    ((locate none p.containers p.name).map
      (Stacks.pullAndRebuild none · checkout pullImages noCache)).getD []
  | .update c => if c ∈ p.containers ∧ c.project = p.name then updateComposeService c else []

/-! ### The whole project -/

/-- The file that an argument names in a directory. -/
def inDir (dir f : String) : String := if isAbs f then pathClean f else pathJoin dir f

/-- The files of a call. -/
def ComposeCall.located (c : ComposeCall) : List String := c.files.map (inDir c.dir)

/-- The config files that the label of a container records. -/
def Labelled.recorded (c : Labelled) : List String :=
  (splitChar c.configFiles ',').map (inDir c.workingDir)

/-- The containers of the project. -/
def Project.members (p : Project) : List Labelled := p.containers.filter (·.project = p.name)

/-- The operation works on the container: all do but the updates of others. -/
def Operation.On (c : Labelled) : Operation → Prop
  | .update d => d = c
  | .action _ | .putCompose | .pullAndRebuild .. => True

/-- Every operation is on the project with all the files that its containers record, in order, and
nothing that removes orphans leaves one out. -/
structure WholeProject (p : Project) : Prop where
  files : ∀ op, ∀ call ∈ p.calls op, call.project = p.name ∧
    ∀ c ∈ p.members, op.On c → call.located = c.recorded
  orphans : ∀ op, ∀ call ∈ p.calls op, contains call.args "--remove-orphans" = true →
    ∀ c ∈ p.members, ∀ f ∈ c.recorded, f ∈ call.located

variable {p : Project} {f dir : String}

private theorem Project.mem_members {c : Labelled} :
    c ∈ p.members ↔ c ∈ p.containers ∧ c.project = p.name := by
  simp [members]

private theorem Project.members_ne_nil (p : Project) : p.members ≠ [] := by
  obtain ⟨c, hc⟩ := p.running
  exact List.ne_nil_of_mem (mem_members.mpr hc)

/-- The container whose labels `locate` reads. -/
def Project.first (p : Project) : Labelled := p.members.head p.members_ne_nil

private theorem Project.first_mem (p : Project) : p.first ∈ p.members := List.head_mem _

/-- The row that stands for a project that has none. -/
def Project.row (p : Project) : Row where
  name := p.name
  path := p.first.workingDir
  composeFile := (splitChar p.first.configFiles ',').headD ""
  source := "discovered"

/-- All containers record one file, and nothing else. Its name in a label is not blank and stands
for the same file without the spaces around it, and so does the path that Dockhand makes of the
first container's name for it. -/
def SingleFile (p : Project) : Prop :=
  ∃ file, inDir p.first.workingDir p.row.composePath = file ∧
    ∀ c ∈ p.members, ∃ f, splitChar c.configFiles ',' = [f] ∧ trimSpace f ≠ "" ∧
      inDir c.workingDir f = file ∧ inDir c.workingDir (trimSpace f) = file

private theorem Project.locate_eq (p : Project) : locate none p.containers p.name = some p.row := by
  have hfirst : p.containers.find? (·.project = p.name) = some p.first := by
    rw [← List.head?_filter]
    exact List.head?_eq_some_head p.members_ne_nil
  simp only [locate, hfirst, Option.map_some, Project.row]

/-- Every call for a discovered stack is `composeCmd` of its row. -/
theorem exists_args_of_mem {r : Row} (hsource : r.source ≠ "git") {call : ComposeCall}
    (h : (∃ a, call ∈ runAction r a) ∨ call ∈ Stacks.putCompose r ∨
      ∃ checkout pullImages noCache, call ∈ Stacks.pullAndRebuild none r checkout pullImages
        noCache) :
    ∃ args, call = composeCmd r args := by
  rcases h with ⟨a, h⟩ | h | ⟨checkout, pullImages, noCache, h⟩
  · unfold runAction at h
    rw [if_neg hsource] at h
    split_ifs at h
    · obtain ⟨args, -, hcall⟩ := Option.map_eq_some_iff.mp (Option.mem_toList.mp h)
      exact ⟨args, hcall.symm⟩
    · rcases List.mem_cons.mp h with h | h
      · exact ⟨_, h⟩
      · exact ⟨_, List.mem_singleton.mp h⟩
  · unfold Stacks.putCompose at h
    split_ifs at h
    · cases h
    · exact ⟨_, List.mem_singleton.mp h⟩
  · unfold Stacks.pullAndRebuild at h
    rw [if_neg (fun hgit => hsource hgit.2)] at h
    split_ifs at h
    · rcases List.mem_append.mp h with h | h
      · split_ifs at h
        · exact ⟨_, List.mem_singleton.mp h⟩
        · cases h
      · exact ⟨_, List.mem_singleton.mp h⟩
    · cases h

/-- The calls of an operation: those of the row that stands for the project, and those of a service
with the labels of its container. -/
theorem Project.mem_calls {op : Operation} {call : ComposeCall} (h : call ∈ p.calls op) :
    (∃ args, call = composeCmd p.row args) ∨
    ∃ c ∈ p.members, op = .update c ∧ call.project = p.name ∧ call.dir = c.workingDir ∧
      call.files = composeFileArgs c.configFiles := by
  cases op with
  | action a =>
    simp only [calls, locate_eq, Option.map_some, Option.getD_some] at h
    exact Or.inl (exists_args_of_mem (by simp [row]) (Or.inl ⟨a, h⟩))
  | putCompose =>
    simp only [calls, locate_eq, Option.map_some, Option.getD_some] at h
    exact Or.inl (exists_args_of_mem (by simp [row]) (Or.inr (Or.inl h)))
  | pullAndRebuild checkout pullImages noCache =>
    simp only [calls, locate_eq, Option.map_some, Option.getD_some] at h
    exact Or.inl (exists_args_of_mem (by simp [row]) (Or.inr
      (Or.inr ⟨checkout, pullImages, noCache, h⟩)))
  | update c =>
    simp only [calls] at h
    split_ifs at h with hc
    · refine Or.inr ⟨c, mem_members.mpr hc, rfl, ?_⟩
      simp only [updateComposeService, List.mem_cons, List.not_mem_nil, or_false] at h
      rcases h with rfl | rfl
      · exact ⟨hc.2, rfl, rfl⟩
      · exact ⟨hc.2, rfl, rfl⟩
    · cases h

/-- Containers that agree on one file need no more than that its name is written without spaces
around it, and that it or the working directory is absolute. -/
theorem singleFile_of_isAbs
    (hlabels : ∀ c ∈ p.members, c.workingDir = dir ∧ splitChar c.configFiles ',' = [f])
    (hne : f ≠ "") (htrim : trimSpace f = f) (habs : isAbs f = true ∨ isAbs dir = true) :
    SingleFile p := by
  refine ⟨inDir dir f, ?_, fun c hc => ?_⟩
  · obtain ⟨hdir, hfile⟩ := hlabels _ p.first_mem
    rw [Row.composePath, Project.row, hdir, hfile, List.headD_cons]
    by_cases hf : isAbs f = true
    · rw [if_pos hf]
    · have hroot := habs.resolve_left hf
      have hwd : dir ≠ "" := by
        rintro rfl
        exact absurd hroot (by decide)
      have hjoin : pathJoin dir f = pathClean (dir ++ "/" ++ f) := by
        rw [pathJoin, if_neg fun h => hwd h.1, if_neg hwd]
      have habs' : isAbs (dir ++ "/" ++ f) = true := isAbs_append (isAbs_append hroot _) _
      rw [if_neg hf, inDir, inDir, if_neg hf, hjoin, if_pos (isAbs_pathClean habs'),
        pathClean_idem habs']
  · obtain ⟨hdir, hfile⟩ := hlabels c hc
    exact ⟨f, hfile, by rwa [htrim], by rw [hdir], by rw [hdir, htrim]⟩

namespace Example

/-- A project with an override file. -/
def web : Labelled where
  name := "shop-web-1"
  project := "shop"
  service := "web"
  workingDir := "/srv/shop"
  configFiles := "/srv/shop/compose.yml,/srv/shop/override.yml"

/-- The project of that container. -/
def shop : Project where
  name := "shop"
  containers := [web]
  running := ⟨web, List.mem_cons_self, rfl⟩

end Example

/-- **The override file.** Bringing the project up leaves it out, and removes its services. -/
theorem not_wholeProject : ¬ WholeProject Example.shop := by
  intro h
  have hcall : composeCmd Example.shop.row "up -d --remove-orphans" ∈
      Example.shop.calls (.action "up") := by
    decide +kernel
  have hfile := h.orphans (.action "up") _ hcall (by decide +kernel) Example.web (by decide +kernel)
    "/srv/shop/override.yml" (by decide +kernel)
  exact absurd hfile (by decide +kernel)

/-- A project whose operations are on all of its files has a single one. -/
theorem WholeProject.singleFile (h : WholeProject p) : SingleFile p := by
  -- what stopping the project works on is what every container records
  have hdown : ∀ c ∈ p.members, (composeCmd p.row "down").located = c.recorded := by
    intro c hc
    refine (h.files (.action "down") _ ?_).2 c hc trivial
    simp only [Project.calls, p.locate_eq, Option.map_some, Option.getD_some]
    exact List.mem_singleton_self _
  -- and so is what updating its service works on
  have hupdate : ∀ c ∈ p.members,
      (composeFileArgs c.configFiles).map (inDir c.workingDir) = c.recorded := by
    intro c hc
    exact (h.files (.update c) _ (by
      simp only [Project.calls, if_pos (Project.mem_members.mp hc), updateComposeService]
      exact List.mem_cons_self)).2 c hc rfl
  have hrow : p.row.composeFile ≠ "" := by
    intro hempty
    have hfirst := hdown _ p.first_mem
    rw [ComposeCall.located, composeCmd, if_pos hempty] at hfirst
    exact absurd (List.map_eq_nil_iff.mp hfirst.symm) (by simp [splitChar, List.splitOn_ne_nil])
  refine ⟨_, rfl, fun c hc => ?_⟩
  have hfile := hdown c hc
  rw [ComposeCall.located, composeCmd, if_neg hrow, List.map_singleton] at hfile
  obtain ⟨f, hf, hlocated⟩ := List.map_eq_singleton_iff.mp hfile.symm
  have hown := hupdate c hc
  rw [← hfile] at hown
  by_cases htrim : trimSpace f = ""
  · simp [composeFileArgs, hf, htrim] at hown
  · simp only [composeFileArgs, hf, List.map_cons, List.map_nil, ne_eq, htrim, not_false_eq_true,
      decide_true, List.filter_cons_of_pos, List.filter_nil] at hown
    exact ⟨f, hf, htrim, hlocated, (List.cons.inj hown).1⟩

/-- Every call for a project with a single file is on this file. -/
theorem SingleFile.located (h : SingleFile p) {op : Operation} {call : ComposeCall}
    (hcall : call ∈ p.calls op) :
    call.project = p.name ∧ ∀ c ∈ p.members, call.located = c.recorded := by
  obtain ⟨file, hpath, hsingle⟩ := h
  have hrecorded : ∀ c ∈ p.members, c.recorded = [file] := by
    intro c hc
    obtain ⟨f, hf, -, hfile, -⟩ := hsingle c hc
    rw [Labelled.recorded, hf, List.map_singleton, hfile]
  rcases Project.mem_calls hcall with ⟨args, rfl⟩ | ⟨d, hd, -, hproject, hdir, hargs⟩
  · refine ⟨rfl, fun c hc => ?_⟩
    have hne : p.row.composeFile ≠ "" := by
      obtain ⟨f, hf, htrim, -⟩ := hsingle _ p.first_mem
      rw [Project.row, hf, List.headD_cons]
      rintro rfl
      exact htrim rfl
    rw [hrecorded c hc, ComposeCall.located, composeCmd, if_neg hne, List.map_singleton]
    exact congrArg (fun path => [path]) hpath
  · refine ⟨hproject, fun c hc => ?_⟩
    obtain ⟨f, hf, htrim, -, hfile⟩ := hsingle d hd
    have hfiles : composeFileArgs d.configFiles = [trimSpace f] := by
      simp [composeFileArgs, hf, htrim]
    rw [hrecorded c hc, ComposeCall.located, hargs, hdir, hfiles, List.map_singleton, hfile]

/-- **The whole project.** Every operation is on all files of a discovered project if and only if
all its containers record a single file that the code takes for the same everywhere. -/
theorem wholeProject_iff : WholeProject p ↔ SingleFile p := by
  constructor
  · exact fun h => h.singleFile
  · intro h
    constructor
    · intro op call hcall
      exact ⟨(h.located hcall).1, fun c hc _ => (h.located hcall).2 c hc⟩
    · intro op call hcall _ c hc f hf
      rw [(h.located hcall).2 c hc]
      exact hf

end Dockhand.Stacks
