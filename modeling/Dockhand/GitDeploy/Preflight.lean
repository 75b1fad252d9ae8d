import Dockhand.Go.Path
import Dockhand.Stacks.Row

/-!
# The paths of a deploy

`prepare` validates the directory and the compose file of a deploy, and `Check` tells beforehand
whether it will. `prepare` compares the directory with `/` before it cleans it and `Check`
afterwards, so that `//` passes the one and not the other: `not_samePaths`. The compose file loses
one leading slash. `runDeploy` joins what is left to the directory, and `Row.composePath` takes it
as it is when it still begins with a slash, so that the two can be different files, and `.` is a
compose file that stands for the directory itself.
-/

namespace Dockhand.GitDeploy.Preflight

open Go Stacks

/-- What is read of a request to deploy. -/
structure DeployInput where
  owner : String
  name : String
  branch : String
  path : String
  composeFile : String
  env : List (String × String)

/-- The parameters of a deploy. -/
structure DeployParams where
  owner : String
  repo : String
  branch : String
  /-- Relative to the repository. -/
  composeFile : String
  path : String
  name : String
  env : List (String × String)
  pullImages : Bool := false
  noCache : Bool := false
  deriving DecidableEq

/-! ### Before a deploy -/

/-- The characters that a stack's name keeps. -/
def isNameChar (c : Char) : Bool := c.isLower || c.isDigit || c = '_' || c = '-'

/-- `nonName.ReplaceAllString`: every run of characters that no name has becomes one `-`. -/
def replaceNonName : List Char → List Char
  | [] => []
  | c :: cs =>
    if isNameChar c then c :: replaceNonName cs
    else if cs.head?.any (!isNameChar ·) then replaceNonName cs
    else '-' :: replaceNonName cs

/-- `StackName` derives a compose project name from a directory or repo name. -/
def stackName (s : String) : String :=
  let n := trim (String.ofList
    (replaceNonName (toLower (pathBase (trimRight s "/"))).toList)) "-_"
  let n := if n = "" then "app" else n
  String.ofList (n.toList.take 63)

/-- Why a request is refused. -/
inductive BadRequest where
  | text (msg : String)
  /-- `invalid variable name %q` -/
  | variableName (k : String)
  /-- The host or the account is not found. -/
  | lookup (err : String)
  deriving DecidableEq

/-- The directory that a deploy asks for, or the default. -/
def wantedPath (stacksDir name path : String) : String :=
  if trimSpace path = "" then stacksDir ++ "/" ++ stackName name else trimSpace path

/-- `prepare`: the directory. -/
def preparePath (stacksDir name path : String) : Except BadRequest String :=
  let p := wantedPath stacksDir name path
  if ¬ isAbs p ∨ contains p ".." ∨ p = "/" then
    .error (.text ("path must be an absolute directory (e.g. " ++ stacksDir ++ "/app)"))
  else .ok (pathClean p)

/-- The compose file that a deploy asks for, or the default. -/
def wantedFile (composeFile : String) : String :=
  let cf := trimPrefix (trimSpace composeFile) "/"
  if cf = "" then "docker-compose.yml" else cf

/-- A check of `prepare`: the request is refused with this error where it is bad. -/
def refuseIf (bad : Prop) [Decidable bad] (e : BadRequest) : Except BadRequest Unit :=
  if bad then .error e else .ok ()

/-- The names of the variables. -/
def checkEnv (env : List (String × String)) : Except BadRequest Unit :=
  match env.find? fun kv => containsAny kv.1 "= \n" with
  | some kv => .error (.variableName kv.1)
  | none => .ok ()

/-- `prepare` validates a deploy request and resolves its defaults. The host and the account are
looked up on the way, and the default branch of the repository. -/
def prepare (stacksDir : String) (lookup : Except BadRequest Unit) (defaultBranch : String)
    (input : DeployInput) : Except BadRequest DeployParams := do
  let owner := trimSpace input.owner
  let name := trimSpace input.name
  refuseIf (owner = "" ∨ name = "") (.text "owner and name are required")
  lookup
  let branch :=
    if trimSpace input.branch ≠ "" then trimSpace input.branch
    else if defaultBranch ≠ "" then defaultBranch else "main"
  let path ← preparePath stacksDir name input.path
  let cf := wantedFile input.composeFile
  refuseIf (contains cf "..") (.text "invalid compose file path")
  checkEnv input.env
  .ok { owner := owner, repo := name, branch := branch, composeFile := cf, path := path,
        name := stackName path, env := input.env }

/-- A finding of the check before a deploy. -/
structure DeployIssue where
  field : String
  severity : String
  text : String
  deriving DecidableEq

/-- `Check`: the directory. -/
def pathIssue (kind path : String) : Option DeployIssue :=
  let p := trimSpace path
  if kind ≠ "image" ∧ p ≠ "" ∧ (¬ isAbs p ∨ contains p ".." ∨ pathClean p = "/") then
    some { field := "Path", severity := "crit",
           text := "path must be an absolute directory without “..”" }
  else none

/-! ### The deploy -/

namespace DeployParams

variable (p : DeployParams)

/-- `composePath` of `runDeploy`. -/
def composePath : String := pathJoin p.path p.composeFile

/-- The file with the variables, next to `composePath`. -/
def envPath : String := pathJoin (pathDir p.composePath) ".env"

/-- The row that the deploy saves, with the parameters as they are. -/
def row : Row where
  name := p.name
  path := p.path
  composeFile := p.composeFile
  source := "git"
  repo := p.owner ++ "/" ++ p.repo
  branch := p.branch
  env := p.env

end DeployParams

/-- What a deploy does on the host after the upload, and the row it saves. -/
structure Deployed where
  envFile : Option String
  calls : List ComposeCall
  row : Row

/-- `runDeploy` after the upload: the file with the variables, the compose calls, and the row at the
end. -/
def runDeploy (p : DeployParams) : Deployed where
  envFile := if p.env ≠ [] then some p.envPath else none
  calls :=
    (if p.pullImages ∨ p.noCache then
      [composeCmd p.row ("build " ++ " ".intercalate (buildFlags p.pullImages p.noCache))]
      else []) ++
    [composeCmd p.row (upBuild p.pullImages)]
  row := p.row

/-- `redeploy` and `PullAndRebuild` take the parameters from the row. -/
def redeploy (r : Row) (pullImages noCache : Bool) : Option DeployParams :=
  (cut r.repo "/").map fun (owner, repo) =>
    { owner := owner, repo := repo, branch := r.branch, composeFile := r.composeFile,
      path := r.path, name := r.name, env := r.env, pullImages := pullImages, noCache := noCache }

/-- The deploys that follow from one: itself and those of the rows that it and they save. -/
inductive Later (p : DeployParams) : DeployParams → Prop
  | first : Later p p
  | again {q q' : DeployParams} {pullImages noCache : Bool} (hq : Later p q)
      (hrow : redeploy (runDeploy q).row pullImages noCache = some q') : Later p q'

/-! ### Agreement -/

/-- The file is below the directory. -/
def Inside (dir f : String) : Prop :=
  ∃ ns, ns ≠ [] ∧ (∀ c ∈ ns, IsName c) ∧ f = dir ++ "/" ++ "/".intercalate ns

/-- The check accepts the directories that the deploy accepts, none of them is the root, and every
deploy runs the compose file next to its variables, below its directory. -/
structure SamePaths (stacksDir : String) (lookup : Except BadRequest Unit) (defaultBranch : String)
    (input : DeployInput) : Prop where
  accepted : (∃ p, preparePath stacksDir (trimSpace input.name) input.path = .ok p) ↔
    pathIssue "git" input.path = none
  cleaned : ∀ p, preparePath stacksDir (trimSpace input.name) input.path = .ok p →
    isAbs p = true ∧ p ≠ "/"
  composed : ∀ p, prepare stacksDir lookup defaultBranch input = .ok p → ∀ q, Later p q →
    ∀ call ∈ (runDeploy q).calls, call.files = [q.composePath] ∧ Inside q.path q.composePath

/-- The directory is not the root in disguise, the default directory is one, and the compose file of
an accepted deploy is relative and not the directory itself. -/
structure PlainPaths (stacksDir : String) (lookup : Except BadRequest Unit) (defaultBranch : String)
    (input : DeployInput) : Prop where
  default : trimSpace input.path = "" →
    isAbs (wantedPath stacksDir (trimSpace input.name) input.path) = true ∧
      contains (wantedPath stacksDir (trimSpace input.name) input.path) ".." = false
  root : isAbs (trimSpace input.path) = true → contains (trimSpace input.path) ".." = false →
    pathClean (trimSpace input.path) = "/" → trimSpace input.path = "/"
  file : (∃ p, prepare stacksDir lookup defaultBranch input = .ok p) →
    isAbs (wantedFile input.composeFile) = false ∧ pathClean (wantedFile input.composeFile) ≠ "."

/-! ### Names of stacks -/

theorem isNameChar_of_mem_replaceNonName {cs : List Char} :
    ∀ c ∈ replaceNonName cs, isNameChar c = true := by
  induction cs with
  | nil => simp [replaceNonName]
  | cons d cs ih =>
    intro c hc
    rw [replaceNonName] at hc
    split_ifs at hc with hd hrun
    · rcases List.mem_cons.mp hc with rfl | hc
      · exact hd
      · exact ih c hc
    · exact ih c hc
    · rcases List.mem_cons.mp hc with rfl | hc
      · decide
      · exact ih c hc

theorem mem_of_mem_trim {s cutset : String} {c : Char} (h : c ∈ (trim s cutset).toList) :
    c ∈ s.toList := by
  simp only [trim, trimRight, String.toList_ofList] at h
  exact (List.dropWhile_sublist _).subset ((List.rdropWhile_prefix _ _).subset h)

theorem isNameChar_of_mem_stackName {s : String} :
    ∀ c ∈ (stackName s).toList, isNameChar c = true := by
  intro c hc
  unfold stackName at hc
  dsimp only at hc
  rw [String.toList_ofList] at hc
  have hmem := List.mem_of_mem_take hc
  split_ifs at hmem
  · have happ : "app".toList.all isNameChar = true := by decide
    exact List.all_eq_true.mp happ c hmem
  · have hrun := mem_of_mem_trim hmem
    rw [String.toList_ofList] at hrun
    exact isNameChar_of_mem_replaceNonName c hrun

theorem stackName_ne_empty (s : String) : stackName s ≠ "" := by
  have hne : ∀ n : String, n ≠ "" → String.ofList (n.toList.take 63) ≠ "" := by
    intro n hn h
    have hnil : n.toList.take 63 = [] := by
      simpa using congrArg String.toList h
    rcases List.take_eq_nil_iff.mp hnil with h | h
    · cases h
    · exact hn (String.toList_eq_nil_iff.mp h)
  unfold stackName
  dsimp only
  apply hne
  split_ifs with h
  · decide
  · exact h

/-- A name is one component of a path. -/
theorem isName_stackName (s : String) : IsName (stackName s) := by
  have hchar : ∀ c, isNameChar c = false → c ∉ (stackName s).toList := fun c hc hmem => by
    rw [isNameChar_of_mem_stackName c hmem] at hc
    cases hc
  have hdot := hchar '.' (by decide)
  refine ⟨stackName_ne_empty s, fun h => hdot ?_, fun h => hdot ?_, hchar '/' (by decide)⟩
  · rw [h]
    decide
  · rw [h]
    decide

/-! ### The directory -/

theorem preparePath_ok_iff {stacksDir name path p : String} :
    preparePath stacksDir name path = .ok p ↔
      isAbs (wantedPath stacksDir name path) = true ∧
        contains (wantedPath stacksDir name path) ".." = false ∧
        wantedPath stacksDir name path ≠ "/" ∧ p = pathClean (wantedPath stacksDir name path) := by
  unfold preparePath
  dsimp only
  constructor
  · intro h
    split_ifs at h with hbad
    simp only [not_or, Bool.not_eq_true, Bool.not_eq_false] at hbad
    exact ⟨hbad.1, hbad.2.1, hbad.2.2, (Except.ok.inj h).symm⟩
  · rintro ⟨habs, hup, hne, hp⟩
    rw [if_neg (by simp [habs, hup, hne]), hp]

private theorem pathIssue_git_eq_none_iff {path : String} :
    pathIssue "git" path = none ↔ (trimSpace path ≠ "" →
      isAbs (trimSpace path) = true ∧ contains (trimSpace path) ".." = false ∧
        pathClean (trimSpace path) ≠ "/") := by
  unfold pathIssue
  dsimp only
  constructor
  · intro h hne
    split_ifs at h with hbad
    simp only [not_and_or, not_or, not_not, Bool.not_eq_true, Bool.not_eq_false] at hbad
    exact (hbad.resolve_left (by simp)).resolve_left (absurd · hne)
  · intro h
    refine if_neg ?_
    rintro ⟨-, hne, hbad⟩
    obtain ⟨habs, hup, hroot⟩ := h hne
    simp [habs, hup, hroot] at hbad

/-- The clean path of an absolute directory without `..`, by its components. -/
theorem pathClean_eq_root_iff {p : String} (habs : isAbs p = true) (hup : NoUp p) :
    pathClean p = "/" ↔ pathNames p = [] := by
  rw [pathClean_of_isAbs habs hup]
  constructor
  · intro h
    have hnames := pathNames_intercalate fun c hc => isName_of_mem hup hc
    rw [h] at hnames
    exact hnames.symm.trans (by decide +kernel)
  · intro h
    rw [h]
    rfl

private theorem pathClean_slash : pathClean "/" = "/" := by decide +kernel

/-- A name is its only component. -/
theorem pathNames_of_isName {n : String} (h : IsName n) : pathNames n = [n] := by
  have hsplit : splitChar n '/' = [n] := by
    rw [splitChar, List.splitOn_eq_singleton h.2.2.2]
    simp
  simp [pathNames, hsplit, h.1, h.2.1]

/-- The default directory is not the root. -/
theorem pathClean_default_ne {stacksDir name : String}
    (habs : isAbs (stacksDir ++ "/" ++ stackName name) = true)
    (hup : contains (stacksDir ++ "/" ++ stackName name) ".." = false) :
    pathClean (stacksDir ++ "/" ++ stackName name) ≠ "/" := by
  rw [Ne, pathClean_eq_root_iff habs (noUp_of_not_contains hup), pathNames_slash,
    pathNames_of_isName (isName_stackName name)]
  exact List.append_ne_nil_of_right_ne_nil _ (List.cons_ne_nil _ _)

/-! ### The compose file -/

private theorem wantedFile_ne_empty (composeFile : String) : wantedFile composeFile ≠ "" := by
  unfold wantedFile
  dsimp only
  split_ifs with h
  · decide
  · exact h

private theorem pathClean_eq_dot_iff {cf : String} (habs : isAbs cf = false) (hup : NoUp cf) :
    pathClean cf = "." ↔ pathNames cf = [] := by
  rw [pathClean_of_not_isAbs habs hup]
  constructor
  · intro h
    split_ifs at h with hnil
    · exact hnil
    · -- a dot is no name, so it is not put together from names
      have hsplit : splitChar ("/".intercalate (pathNames cf)) '/' = pathNames cf :=
        splitChar_intercalate (by simp) (fun c hc => (isName_of_mem hup hc).2.2.2) hnil
      rw [h] at hsplit
      have hdot : "." ∈ pathNames cf := by
        rw [← hsplit]
        decide +kernel
      exact absurd rfl (isName_of_mem hup hdot).2.1
  · intro h
    exact if_pos h

/-- The compose file is the one next to the variables, below the directory. -/
theorem compose_iff {ns : List String} {cf : String} {r : Row} (hns : ∀ c ∈ ns, IsName c)
    (hne : ns ≠ []) (hup : NoUp cf) (hpath : r.path = "/" ++ "/".intercalate ns)
    (hfile : r.composeFile = cf) :
    (r.composePath = pathJoin r.path cf ∧ Inside r.path (pathJoin r.path cf)) ↔
      isAbs cf = false ∧ pathClean cf ≠ "." := by
  have hjoin := pathJoin_below hns hup
  constructor
  · rintro ⟨hsame, ms, hms, -, hinside⟩
    have hrel : isAbs cf = false := by
      by_contra habs
      rw [Bool.not_eq_false] at habs
      -- an absolute compose file would have to begin with the whole directory and itself
      rw [Row.composePath, hfile, if_pos habs, hpath, hjoin] at hsame
      have hall : ∀ c ∈ ns ++ pathNames cf, IsName c := fun c hc =>
        (List.mem_append.mp hc).elim (hns c) (isName_of_mem hup)
      have hnames := pathNames_intercalate hall
      rw [← hsame] at hnames
      exact hne (List.append_left_eq_self.mp hnames.symm)
    refine ⟨hrel, fun hdot => ?_⟩
    rw [pathClean_eq_dot_iff hrel hup] at hdot
    rw [hpath, hjoin, hdot, List.append_nil] at hinside
    have hlen := congrArg String.length hinside
    simp only [String.length_append] at hlen
    have hslash : "/".length = 1 := by decide
    omega
  · rintro ⟨hrel, hdot⟩
    have hnames : pathNames cf ≠ [] := fun h => hdot ((pathClean_eq_dot_iff hrel hup).mpr h)
    refine ⟨by rw [Row.composePath, hfile, if_neg (by simp [hrel])], pathNames cf, hnames,
      fun c hc => isName_of_mem hup hc, ?_⟩
    rw [hpath, hjoin, String.intercalate_append_of_ne_nil hne hnames]
    simp only [String.append_assoc]

/-- What a deploy that follows from another works from. -/
theorem Later.eq {p q : DeployParams} (h : Later p q) :
    q.path = p.path ∧ q.composeFile = p.composeFile := by
  induction h with
  | first => exact ⟨rfl, rfl⟩
  | again _ hrow ih =>
    obtain ⟨_, -, rfl⟩ := Option.map_eq_some_iff.mp hrow
    exact ih

/-- Every call of a deploy has the compose file of its row. -/
theorem files_of_mem_calls {p : DeployParams} (hcf : p.composeFile ≠ "") {call : ComposeCall}
    (h : call ∈ (runDeploy p).calls) : call.files = [p.row.composePath] := by
  have hcmd : ∀ args, (composeCmd p.row args).files = [p.row.composePath] := fun _ => if_neg hcf
  rcases List.mem_append.mp h with h | h
  · split_ifs at h
    · rw [List.mem_singleton.mp h, hcmd]
    · cases h
  · rw [List.mem_singleton.mp h, hcmd]

section Prepare

variable {stacksDir defaultBranch : String} {lookup : Except BadRequest Unit} {input : DeployInput}
  {p : DeployParams}

private theorem bind_eq_ok {α β : Type} {x : Except BadRequest α} {f : α → Except BadRequest β}
    {b : β}
    (h : x >>= f = .ok b) : ∃ a, x = .ok a ∧ f a = .ok b := by
  cases x with
  | error e => cases h
  | ok a => exact ⟨a, rfl, h⟩

theorem prepare_ok (h : prepare stacksDir lookup defaultBranch input = .ok p) :
    preparePath stacksDir (trimSpace input.name) input.path = .ok p.path ∧
      p.composeFile = wantedFile input.composeFile ∧ contains p.composeFile ".." = false := by
  obtain ⟨_, -, h⟩ := bind_eq_ok h
  obtain ⟨_, -, h⟩ := bind_eq_ok h
  obtain ⟨path, hpath, h⟩ := bind_eq_ok h
  obtain ⟨_, hfile, h⟩ := bind_eq_ok h
  obtain ⟨_, -, h⟩ := bind_eq_ok h
  have hp := Except.ok.inj h
  have hcf : p.composeFile = wantedFile input.composeFile := by rw [← hp]
  have hdir : p.path = path := by rw [← hp]
  unfold refuseIf at hfile
  split_ifs at hfile with hup
  rw [hdir, hcf]
  exact ⟨hpath, rfl, by simpa using hup⟩

/-- The project of a deploy is named after its directory. -/
theorem prepare_name (h : prepare stacksDir lookup defaultBranch input = .ok p) :
    p.name = stackName p.path := by
  obtain ⟨_, -, h⟩ := bind_eq_ok h
  obtain ⟨_, -, h⟩ := bind_eq_ok h
  obtain ⟨path, -, h⟩ := bind_eq_ok h
  obtain ⟨_, -, h⟩ := bind_eq_ok h
  obtain ⟨_, -, h⟩ := bind_eq_ok h
  rw [← Except.ok.inj h]

/-- The directory of a deploy is made of names. -/
theorem exists_names {name path dir : String} (h : preparePath stacksDir name path = .ok dir) :
    ∃ ns, (∀ c ∈ ns, IsName c) ∧ dir = "/" ++ "/".intercalate ns := by
  obtain ⟨habs, hup, -, hdir⟩ := preparePath_ok_iff.mp h
  have hnoup := noUp_of_not_contains hup
  exact ⟨_, fun c hc => isName_of_mem hnoup hc, hdir.trans (pathClean_of_isAbs habs hnoup)⟩

/-- Every deploy that follows from an accepted one composes the file next to its variables if and
only if the compose file is plain. -/
theorem composed_iff (h : prepare stacksDir lookup defaultBranch input = .ok p)
    (hroot : p.path ≠ "/") :
    (∀ q, Later p q → ∀ call ∈ (runDeploy q).calls,
      call.files = [q.composePath] ∧ Inside q.path q.composePath) ↔
    isAbs (wantedFile input.composeFile) = false ∧ pathClean (wantedFile input.composeFile) ≠
      "." := by
  obtain ⟨hpath, hfile, hup⟩ := prepare_ok h
  obtain ⟨ns, hns, hdir⟩ := exists_names hpath
  have hne : ns ≠ [] := by
    rintro rfl
    exact hroot hdir
  have hcf : p.composeFile ≠ "" := hfile ▸ wantedFile_ne_empty _
  rw [← hfile]
  constructor
  · intro hall
    obtain ⟨up, hup'⟩ : ∃ up, up ∈ (runDeploy p).calls :=
      ⟨_, List.mem_append_right _ (List.mem_singleton_self _)⟩
    obtain ⟨hfiles, hinside⟩ := hall p .first up hup'
    rw [files_of_mem_calls hcf hup'] at hfiles
    exact (compose_iff (r := p.row) hns hne (noUp_of_not_contains hup) hdir rfl).mp
      ⟨List.singleton_inj.mp hfiles, hinside⟩
  · intro hplain q hq call hcall
    obtain ⟨hqdir, hqfile⟩ := hq.eq
    rw [files_of_mem_calls (hqfile ▸ hcf) hcall]
    obtain ⟨hsame, hinside⟩ := (compose_iff (r := q.row) hns hne (noUp_of_not_contains hup)
      (hqdir.trans hdir) hqfile).mpr hplain
    have hjoin : q.composePath = pathJoin q.row.path p.composeFile := by
      rw [DeployParams.composePath, hqfile]
      rfl
    rw [hsame, hjoin]
    exact ⟨rfl, hinside⟩

end Prepare

namespace Example

/-- The directory in which the stacks of the example host lie. -/
def stacksDir : String := "/opt/dockhand/stacks"

/-- A deploy into two slashes. -/
def twoSlashes : DeployInput where
  owner := "acme"
  name := "app"
  branch := ""
  path := "//"
  composeFile := ""
  env := []

end Example

/-- **Two slashes.** The deploy accepts a directory that the check refuses, and it is the root. -/
theorem not_samePaths : ¬ SamePaths Example.stacksDir (.ok ()) "main" Example.twoSlashes := by
  intro h
  have hok : preparePath Example.stacksDir (trimSpace Example.twoSlashes.name)
    Example.twoSlashes.path = .ok "/" :=
    preparePath_ok_iff.mpr ⟨by decide +kernel, by decide +kernel, by decide +kernel,
      by decide +kernel⟩
  exact (h.cleaned "/" hok).2 rfl

section Prepare

variable {stacksDir defaultBranch : String} {lookup : Except BadRequest Unit} {input : DeployInput}

/-- A directory that is accepted is not the root. -/
theorem PlainPaths.cleaned (h : PlainPaths stacksDir lookup defaultBranch input) {p : String}
    (hp : preparePath stacksDir (trimSpace input.name) input.path = .ok p) :
    isAbs p = true ∧ p ≠ "/" := by
  obtain ⟨habs, hup, hne, hdir⟩ := preparePath_ok_iff.mp hp
  refine ⟨?_, fun hroot => ?_⟩
  · rw [hdir, pathClean_of_isAbs habs (noUp_of_not_contains hup)]
    exact isAbs_slash _
  · have hclean := hdir.symm.trans hroot
    by_cases hempty : trimSpace input.path = ""
    · rw [wantedPath, if_pos hempty] at habs hup hclean
      exact pathClean_default_ne habs hup hclean
    · rw [wantedPath, if_neg hempty] at habs hup hclean hne
      exact hne (h.root habs hup hclean)

/-- The check passes exactly the directories that are accepted. -/
theorem PlainPaths.accepted (h : PlainPaths stacksDir lookup defaultBranch input) :
    (∃ p, preparePath stacksDir (trimSpace input.name) input.path = .ok p) ↔
      pathIssue "git" input.path = none := by
  rw [pathIssue_git_eq_none_iff]
  constructor
  · rintro ⟨p, hp⟩ hne
    obtain ⟨habs, hup, -, hclean⟩ := preparePath_ok_iff.mp hp
    rw [wantedPath, if_neg hne] at habs hup hclean
    have hne' := (h.cleaned hp).2
    rw [hclean] at hne'
    exact ⟨habs, hup, hne'⟩
  · intro haccepted
    refine ⟨pathClean (wantedPath stacksDir (trimSpace input.name) input.path),
      preparePath_ok_iff.mpr ?_⟩
    by_cases hempty : trimSpace input.path = ""
    · obtain ⟨habs, hup⟩ := h.default hempty
      refine ⟨habs, hup, fun hroot => ?_, rfl⟩
      have hclean : pathClean (wantedPath stacksDir (trimSpace input.name) input.path) = "/" := by
        rw [hroot, pathClean_slash]
      rw [wantedPath, if_pos hempty] at habs hup hclean
      exact pathClean_default_ne habs hup hclean
    · obtain ⟨habs, hup, hclean⟩ := haccepted hempty
      rw [wantedPath, if_neg hempty]
      refine ⟨habs, hup, fun hroot => hclean ?_, rfl⟩
      rw [hroot, pathClean_slash]

/-- **The paths of a deploy.** The check, the deploy and the redeploys agree on them if and only if
they are plain. -/
theorem samePaths_iff : SamePaths stacksDir lookup defaultBranch input ↔
    PlainPaths stacksDir lookup defaultBranch input := by
  constructor
  · intro h
    refine ⟨fun hempty => ?_, fun habs hup hclean => ?_, fun ⟨p, hp⟩ => ?_⟩
    · obtain ⟨p, hp⟩ := h.accepted.mpr (pathIssue_git_eq_none_iff.mpr fun hne => absurd hempty hne)
      obtain ⟨habs, hup, -⟩ := preparePath_ok_iff.mp hp
      exact ⟨habs, hup⟩
    · by_contra hne
      have hempty : trimSpace input.path ≠ "" := by
        intro hempty
        rw [hempty] at habs
        exact absurd habs (by decide)
      have hwanted : wantedPath stacksDir (trimSpace input.name) input.path =
        trimSpace input.path :=
        if_neg hempty
      have hok := preparePath_ok_iff.mpr (by rw [hwanted]; exact ⟨habs, hup, hne, hclean.symm⟩)
      exact (h.cleaned "/" hok).2 rfl
    · exact (composed_iff hp (h.cleaned _ (prepare_ok hp).1).2).mp (h.composed p hp)
  · intro h
    exact ⟨h.accepted, fun _ hp => h.cleaned hp, fun p hp =>
      (composed_iff hp (h.cleaned (prepare_ok hp).1).2).mpr (h.file ⟨p, hp⟩)⟩

end Prepare

end Dockhand.GitDeploy.Preflight
