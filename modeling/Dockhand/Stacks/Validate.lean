import Dockhand.Go.Strconv
import Dockhand.Go.Strings

/-!
# Compose files

`Validate` goes through the node tree of a compose file and returns at the first problem, with its
line and the services that it has read so far. `problems` lists all problems of a document, in the
order of the keys. `validate_of_parsed`: what `Validate` reports is the first of them, it accepts
exactly the documents without any, and the services are those before the first that has one.

The YAML parser and the quotes of `%q` are parameters.
-/

namespace Dockhand.Stacks.Validate

open Go

/-! ### Documents -/

/-- The kinds of nodes of a YAML document. -/
inductive Kind
  | document
  | sequence
  | mapping
  | scalar
  | alias
  deriving DecidableEq

/-- `yaml.Node`. -/
inductive Node
  | mk (kind : Kind) (value : String) (line : ℕ) (content : List Node)

namespace Node

/-- What the node is. -/
def kind : Node → Kind
  | mk kind .. => kind

/-- The text of a scalar. -/
def value : Node → String
  | mk _ value .. => value

/-- Where the node stands in the document. -/
def line : Node → ℕ
  | mk _ _ line _ => line

/-- The children; of a mapping these are its keys and values in turn. -/
def content : Node → List Node
  | mk _ _ _ content => content

end Node

/-- The keys of a mapping with their values. -/
def pairs : List Node → List (Node × Node)
  | k :: v :: rest => (k, v) :: pairs rest
  | _ => []

/-- The keys of the node with their values, where it is a mapping. -/
def Node.entries (n : Node) : List (Node × Node) := pairs n.content

/-- `ComposeServiceInfo`. -/
structure ComposeServiceInfo where
  name : String
  image : String
  ports : List String
  deriving DecidableEq

/-- `ComposeValidation`. -/
structure ComposeValidation where
  ok : Bool
  error : String := ""
  line : ℕ := 0
  services : List ComposeServiceInfo := []
  deriving DecidableEq

/-- What is wrong, and where. -/
structure Problem where
  line : ℕ
  error : String
  deriving DecidableEq

/-! ### The validator -/

/-- The keys of the top level besides `services`. -/
def topKeys : List String :=
  ["version", "name", "networks", "volumes", "configs", "secrets", "include"]

/-- The parts of a port that is a mapping. -/
structure PortMapping where
  pub : String := ""
  tgt : String := ""
  proto : String := ""

/-- A key of a port that is a mapping is read; other keys are passed over. -/
def PortMapping.read (p : PortMapping) (e : Node × Node) : PortMapping :=
  if e.1.value = "published" then { p with pub := e.2.value }
  else if e.1.value = "target" then { p with tgt := e.2.value }
  else if e.1.value = "protocol" then { p with proto := e.2.value }
  else p

/-- The port in the short form, where `tcp` is left out. -/
def PortMapping.text (p : PortMapping) : String :=
  let s := if p.pub ≠ "" then p.pub ++ ":" ++ p.tgt else p.tgt
  if p.proto ≠ "" ∧ p.proto ≠ "tcp" then s ++ "/" ++ p.proto else s

/-- A port of a service. -/
def port (p : Node) : Option String :=
  match p.kind with
  | .scalar => some p.value
  | .mapping => some (p.entries.foldl PortMapping.read {}).text
  | _ => none

/-- What the loop over the keys of a service has read. -/
structure Reading where
  image : String := ""
  ports : List String := []
  hasBuild : Bool := false

section

variable (quote : String → String)

/-- The loop over the keys of the top level. -/
def topLoop (services : Option Node) : List (Node × Node) → Except Problem (Option Node)
  | [] => .ok services
  | (k, v) :: rest =>
    if k.value = "services" then topLoop (some v) rest
    else if k.value ∈ topKeys then topLoop services rest
    else if ¬ hasPrefix k.value "x-" then
      .error ⟨k.line, "unknown top-level key " ++ quote k.value⟩
    else topLoop services rest

/-- The loop over the keys of a service. -/
def keyLoop (name : String) (r : Reading) : List (Node × Node) → Except Problem Reading
  | [] => .ok r
  | (k, v) :: rest =>
    if k.value = "image" then keyLoop name { r with image := v.value } rest
    else if k.value = "build" then keyLoop name { r with hasBuild := true } rest
    else if k.value = "ports" then
      if v.kind ≠ .sequence then
        .error ⟨k.line, "service " ++ quote name ++ ": ports must be a list"⟩
      else keyLoop name { r with ports := r.ports ++ v.content.filterMap port } rest
    else if k.value = "environment" then
      if v.kind ≠ .sequence ∧ v.kind ≠ .mapping then
        .error ⟨k.line, "service " ++ quote name ++ ": environment must be a list or mapping"⟩
      else keyLoop name r rest
    else keyLoop name r rest

/-- The body of the loop over the services. -/
def service (name svc : Node) : Except Problem ComposeServiceInfo :=
  if svc.kind ≠ .mapping then
    .error ⟨name.line, "service " ++ quote name.value ++ " must be a mapping"⟩
  else
    match keyLoop quote name.value {} svc.entries with
    | .error p => .error p
    | .ok r =>
      if r.image = "" ∧ r.hasBuild = false then
        .error ⟨name.line, "service " ++ quote name.value ++ " needs an image or a build section"⟩
      else .ok ⟨name.value, if r.image = "" then "(build)" else r.image, r.ports⟩

/-- `fail`. -/
def fail (services : List ComposeServiceInfo) (p : Problem) : ComposeValidation :=
  { ok := false, error := p.error, line := p.line, services }

/-- The loop over the services. -/
def serviceLoop (services : List ComposeServiceInfo) : List (Node × Node) → ComposeValidation
  | [] => { ok := true, services }
  | (name, svc) :: rest =>
    match service quote name svc with
    | .error p => fail services p
    | .ok info => serviceLoop (services ++ [info]) rest

/-- `Validate` of a document that has been parsed. -/
def validateRoot (root : Node) : ComposeValidation :=
  if root.kind ≠ .mapping then
    fail [] ⟨root.line, "the top level must be a mapping (e.g. services: …)"⟩
  else
    match topLoop quote none root.entries with
    | .error p => fail [] p
    | .ok none => fail [] ⟨root.line, "missing a top-level \"services\" section"⟩
    | .ok (some services) =>
      if services.kind ≠ .mapping ∨ services.content = [] then
        fail [] ⟨services.line, "\"services\" must define at least one service"⟩
      else serviceLoop quote [] services.entries

/-- The first match of `line (\d+)`. -/
def yamlLine : List Char → ℕ
  | [] => 0
  | c :: cs =>
    let ds := ((c :: cs).drop 5).takeWhile Char.isDigit
    if "line ".toList.isPrefixOf (c :: cs) ∧ ds ≠ [] then (atoiValue (String.ofList ds)).toNat
    else yamlLine cs

/-- `Validate`. `unmarshal` returns the nodes of the document. -/
def validate (unmarshal : String → Except String (List Node)) (content : String) :
    ComposeValidation :=
  if trimSpace content = "" then fail [] ⟨0, "the compose file is empty"⟩
  else
    match unmarshal content with
    | .error err =>
      let msg := trimPrefix err "yaml: "
      fail [] ⟨yamlLine msg.toList, "YAML error: " ++ msg⟩
    | .ok [] => fail [] ⟨0, "the compose file is empty"⟩
    | .ok (root :: _) => validateRoot quote root

/-! ### Problems -/

/-- The value of a key, the last one if it is repeated. -/
def lastValue (key : String) (l : List (Node × Node)) : Option Node :=
  (l.filter (·.1.value = key)).getLast?.map Prod.snd

/-- A key of the top level that is not known. -/
def topProblem (e : Node × Node) : Option Problem :=
  if e.1.value = "services" ∨ e.1.value ∈ topKeys ∨ hasPrefix e.1.value "x-" then none
  else some ⟨e.1.line, "unknown top-level key " ++ quote e.1.value⟩

/-- What is wrong with the section of the services. -/
def sectionProblem (root : Node) : Option Problem :=
  match lastValue "services" root.entries with
  | none => some ⟨root.line, "missing a top-level \"services\" section"⟩
  | some services =>
    if services.kind ≠ .mapping ∨ services.content = [] then
      some ⟨services.line, "\"services\" must define at least one service"⟩
    else none

/-- What is wrong at the top level: unknown keys in their order, and then the section of the
services. -/
def topProblems (root : Node) : List Problem :=
  if root.kind ≠ .mapping then
    [⟨root.line, "the top level must be a mapping (e.g. services: …)"⟩]
  else root.entries.filterMap (topProblem quote) ++ (sectionProblem root).toList

/-- A key of a service whose value is not what it should be. -/
def keyProblem (name : String) (e : Node × Node) : Option Problem :=
  if e.1.value = "ports" ∧ e.2.kind ≠ .sequence then
    some ⟨e.1.line, "service " ++ quote name ++ ": ports must be a list"⟩
  else if e.1.value = "environment" ∧ e.2.kind ≠ .sequence ∧ e.2.kind ≠ .mapping then
    some ⟨e.1.line, "service " ++ quote name ++ ": environment must be a list or mapping"⟩
  else none

/-- The image of a service, empty where none is given. -/
def imageOf (l : List (Node × Node)) : String := ((lastValue "image" l).map (·.value)).getD ""

/-- The service says how it is built. -/
def hasBuild (l : List (Node × Node)) : Bool := l.any (·.1.value = "build")

/-- The ports of all keys `ports`. -/
def portsOf (l : List (Node × Node)) : List String :=
  l.flatMap fun e => if e.1.value = "ports" then e.2.content.filterMap port else []

/-- What is wrong with a service: values of the wrong kind in their order, and then a missing image.
-/
def serviceProblems (e : Node × Node) : List Problem :=
  if e.2.kind ≠ .mapping then
    [⟨e.1.line, "service " ++ quote e.1.value ++ " must be a mapping"⟩]
  else
    e.2.entries.filterMap (keyProblem quote e.1.value) ++
      if imageOf e.2.entries = "" ∧ hasBuild e.2.entries = false then
        [⟨e.1.line, "service " ++ quote e.1.value ++ " needs an image or a build section"⟩]
      else []

/-- What is read of a service. -/
def info (e : Node × Node) : ComposeServiceInfo where
  name := e.1.value
  image := if imageOf e.2.entries = "" then "(build)" else imageOf e.2.entries
  ports := portsOf e.2.entries

/-- The services of a document. -/
def declared (root : Node) : List (Node × Node) :=
  ((lastValue "services" root.entries).map (·.entries)).getD []

/-- All problems of a document. -/
def problems (root : Node) : List Problem :=
  topProblems quote root ++ (declared root).flatMap (serviceProblems quote)

end

/-! ### The first problem -/

variable {quote : String → String}

private theorem lastValue_cons (key : String) (k v : Node) (l : List (Node × Node)) :
    lastValue key ((k, v) :: l) =
      (lastValue key l).or (if k.value = key then some v else none) := by
  rw [lastValue, List.filter_cons]
  by_cases hk : k.value = key
  · simp only [hk, decide_true, if_true, List.getLast?_cons, Option.map_some]
    cases h : (l.filter (·.1.value = key)).getLast? <;> simp [lastValue, h]
  · simp [hk, lastValue]

theorem topLoop_eq (services : Option Node) (l : List (Node × Node)) :
    topLoop quote services l =
      match l.filterMap (topProblem quote) with
      | [] => .ok ((lastValue "services" l).or services)
      | p :: _ => .error p := by
  induction l generalizing services with
  | nil => rfl
  | cons e l ih =>
    obtain ⟨k, v⟩ := e
    rw [topLoop, List.filterMap_cons, lastValue_cons]
    by_cases hservices : k.value = "services"
    -- a later `services` takes the place of this one
    · have hnone : topProblem quote (k, v) = none := if_pos (.inl hservices)
      rw [if_pos hservices, if_pos hservices, hnone, ih, Option.or_assoc]
      rfl
    · rw [if_neg hservices, if_neg hservices, Option.or_none]
      by_cases htop : k.value ∈ topKeys
      · have hnone : topProblem quote (k, v) = none := if_pos (.inr (.inl htop))
        rw [if_pos htop, hnone, ih]
      · rw [if_neg htop]
        by_cases hx : hasPrefix k.value "x-"
        · have hnone : topProblem quote (k, v) = none := if_pos (.inr (.inr hx))
          rw [if_neg (not_not_intro hx), hnone, ih]
        · have hsome : topProblem quote (k, v) =
              some ⟨k.line, "unknown top-level key " ++ quote k.value⟩ :=
            if_neg (by rintro (h | h | h) <;> contradiction)
          rw [if_pos hx, hsome]

/-- The reading of the keys `l` after that of `r`. -/
def Reading.then (r : Reading) (l : List (Node × Node)) : Reading where
  image := ((lastValue "image" l).map (·.value)).getD r.image
  ports := r.ports ++ portsOf l
  hasBuild := r.hasBuild || Validate.hasBuild l

theorem keyLoop_eq (name : String) (r : Reading) (l : List (Node × Node)) :
    keyLoop quote name r l =
      match l.filterMap (keyProblem quote name) with
      | [] => .ok (r.then l)
      | p :: _ => .error p := by
  induction l generalizing r with
  | nil => simp [keyLoop, Reading.then, lastValue, portsOf, hasBuild]
  | cons e l ih =>
    obtain ⟨k, v⟩ := e
    -- A key without a problem is read, and the rest after it.
    have hread (r' : Reading) (hr : r'.then l = r.then ((k, v) :: l))
        (hnone : keyProblem quote name (k, v) = none) :
        keyLoop quote name r' l =
          match ((k, v) :: l).filterMap (keyProblem quote name) with
          | [] => .ok (r.then ((k, v) :: l))
          | p :: _ => .error p := by
      rw [List.filterMap_cons_none hnone, ← hr, ih]
    rw [keyLoop]
    by_cases himage : k.value = "image"
    · rw [if_pos himage]
      refine hread _ ?_ (by simp [keyProblem, himage])
      have hlast : lastValue "image" ((k, v) :: l) = (lastValue "image" l).or (some v) := by
        rw [lastValue_cons, if_pos himage]
      cases h : lastValue "image" l <;> simp [Reading.then, hlast, h, himage, portsOf, hasBuild]
    · have hlast : lastValue "image" ((k, v) :: l) = lastValue "image" l := by
        rw [lastValue_cons, if_neg himage, Option.or_none]
      rw [if_neg himage]
      by_cases hbuild : k.value = "build"
      · rw [if_pos hbuild]
        refine hread _ ?_ (by simp [keyProblem, hbuild])
        simp [Reading.then, hlast, hbuild, portsOf, hasBuild]
      · rw [if_neg hbuild]
        by_cases hports : k.value = "ports"
        · rw [if_pos hports]
          by_cases hv : v.kind = .sequence
          · rw [if_neg (not_not_intro hv)]
            refine hread _ ?_ (by simp [keyProblem, hports, hv])
            simp [Reading.then, hlast, hports, portsOf, hasBuild]
          · have hsome : keyProblem quote name (k, v) =
                some ⟨k.line, "service " ++ quote name ++ ": ports must be a list"⟩ :=
              if_pos ⟨hports, hv⟩
            rw [if_pos hv, List.filterMap_cons_some hsome]
        · have hthen : r.then l = r.then ((k, v) :: l) := by
            simp [Reading.then, hlast, hports, hbuild, portsOf, hasBuild]
          rw [if_neg hports]
          by_cases henv : k.value = "environment"
          · rw [if_pos henv]
            by_cases hv : v.kind ≠ .sequence ∧ v.kind ≠ .mapping
            · have hsome : keyProblem quote name (k, v) =
                  some ⟨k.line, "service " ++ quote name ++
                    ": environment must be a list or mapping"⟩ := by
                rw [keyProblem, if_neg fun h => hports h.1, if_pos ⟨henv, hv⟩]
              rw [if_pos hv, List.filterMap_cons_some hsome]
            · rw [if_neg hv]
              refine hread r hthen ?_
              rw [keyProblem, if_neg fun h => hports h.1, if_neg fun h => hv h.2]
          · rw [if_neg henv]
            refine hread r hthen ?_
            rw [keyProblem, if_neg fun h => hports h.1, if_neg fun h => henv h.1]

theorem service_eq (name svc : Node) :
    service quote name svc =
      match serviceProblems quote (name, svc) with
      | [] => .ok (info (name, svc))
      | p :: _ => .error p := by
  rw [service, serviceProblems]
  by_cases hkind : svc.kind = .mapping
  · rw [if_neg (not_not_intro hkind), if_neg (not_not_intro hkind), keyLoop_eq]
    cases hproblems : svc.entries.filterMap (keyProblem quote name.value) with
    | cons p ps => rfl
    | nil =>
      have himage : (Reading.then {} svc.entries).image = imageOf svc.entries := rfl
      have hbuild : (Reading.then {} svc.entries).hasBuild = hasBuild svc.entries := by
        simp [Reading.then]
      have hports : (Reading.then {} svc.entries).ports = portsOf svc.entries := by
        simp [Reading.then]
      simp only [himage, hbuild, hports, List.nil_append]
      split <;> rfl
  · rw [if_pos hkind, if_pos hkind]

/-- The loop over the services reads those before the first with a problem. -/
theorem serviceLoop_eq (services : List ComposeServiceInfo) (l : List (Node × Node)) :
    serviceLoop quote services l =
      match l.flatMap (serviceProblems quote) with
      | [] => { ok := true, services := services ++ l.map info }
      | p :: _ =>
        fail (services ++ (l.takeWhile (serviceProblems quote · = [])).map info) p := by
  induction l generalizing services with
  | nil => simp [serviceLoop]
  | cons e l ih =>
    obtain ⟨name, svc⟩ := e
    rw [serviceLoop, service_eq, List.flatMap_cons]
    cases hproblems : serviceProblems quote (name, svc) with
    | nil =>
      -- the service is read, and the loop goes on behind it
      rw [List.nil_append, List.takeWhile_cons_of_pos (by simpa using hproblems)]
      simp only [ih, List.map_cons, List.append_assoc, List.singleton_append]
    | cons p ps =>
      -- its first problem ends the loop
      rw [List.takeWhile_cons_of_neg (by simp [hproblems])]
      simp

private theorem validateRoot_eq (root : Node) :
    validateRoot quote root =
      match problems quote root with
      | [] => { ok := true, services := (declared root).map info }
      | p :: _ =>
        fail (if topProblems quote root = [] then
          ((declared root).takeWhile (serviceProblems quote · = [])).map info else []) p := by
  rw [validateRoot, problems, topProblems]
  by_cases hkind : root.kind = .mapping
  · rw [if_neg (not_not_intro hkind), if_neg (not_not_intro hkind), topLoop_eq, Option.or_none]
    cases root.entries.filterMap (topProblem quote) with
    | cons p ps => simp
    | nil =>
      rw [sectionProblem, declared]
      cases lastValue "services" root.entries with
      | none => simp
      | some services =>
        by_cases hsection : services.kind ≠ .mapping ∨ services.content = []
        · simp only [if_pos hsection]
          simp
        · simp only [if_neg hsection, serviceLoop_eq]
          simp
  · rw [if_pos hkind, if_pos hkind]
    simp

/-- **Compose files.** `Validate` accepts a document that has no problem, with all its services, and
else reports the first problem in the order of the keys, its line and the services before it. -/
theorem validate_of_parsed {unmarshal : String → Except String (List Node)} {content : String}
    {root : Node} {rest : List Node} (hne : trimSpace content ≠ "")
    (h : unmarshal content = .ok (root :: rest)) :
    validate quote unmarshal content =
      match problems quote root with
      | [] => { ok := true, services := (declared root).map info }
      | p :: _ =>
        fail (if topProblems quote root = [] then
          ((declared root).takeWhile (serviceProblems quote · = [])).map info else []) p := by
  rw [validate, if_neg hne, h]
  exact validateRoot_eq root

namespace Document

/-- A text in a line of the document. -/
def scalar (line : ℕ) (value : String) : Node := .mk .scalar value line []

/-- A mapping that begins in a line of the document. -/
def mapping (line : ℕ) (content : List Node) : Node := .mk .mapping "" line content

/-- A service with a port in the short form and one in the long form. -/
def web : Node :=
  mapping 3 [scalar 3 "image", scalar 3 "nginx", scalar 4 "ports",
    .mk .sequence "" 5 [scalar 5 "8080:80",
      mapping 6 [scalar 6 "target", scalar 6 "53", scalar 7 "published", scalar 7 "53",
        scalar 8 "protocol", scalar 8 "udp"]]]

/-- A service whose environment is a list, without an image. -/
def db : Node := mapping 10 [scalar 10 "environment", scalar 10 "TZ=UTC"]

/-- A document with both services and an extension. -/
def root : Node :=
  mapping 1 [scalar 1 "services", mapping 2 [scalar 2 "web", web, scalar 9 "db", db],
    scalar 11 "x-note", scalar 11 "home"]

/-- A text between quotes, for texts without any. -/
def quoted (s : String) : String := "\"" ++ s ++ "\""

end Document

/-- The service `db` has two problems. -/
theorem validate_of_parsed_compose :
    validate Document.quoted (fun _ => .ok [Document.root]) "services: …" =
      { ok := false, line := 10, error := "service \"db\": environment must be a list or mapping"
        services := [⟨"web", "nginx", ["8080:80", "53:53/udp"]⟩] } :=
  (validate_of_parsed (by decide +kernel) rfl).trans (by decide +kernel)

end Dockhand.Stacks.Validate
