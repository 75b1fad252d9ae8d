import Dockhand.Go.Regexp
import Dockhand.Go.Words
import Dockhand.Monitor.Updates
import Dockhand.Registry.DockerConfig

/-!
# Image references

A reference names an image by an optional domain, a path, a tag and a digest. What asks the registry
takes it apart with `ParseImageRef`, credentials are looked up under `HostOf`, the list of
containers shows `ImageTag`, and a pull goes by `NormalizeRef`. The first component is taken for a
domain when it has a dot or a colon or is `localhost`, but not when it has a capital letter.
`readAlike_iff` says which references are read right.
-/

namespace Dockhand.DockerOps

open Go
open Monitor.Updates (imageTag normalizeRef refName)
open RegAuth (normalize)

/-! ### What the source reads -/

/-- A parsed image reference. -/
structure ImageRef where
  registry : String
  repo : String
  tag : String

/-- A reference without its tag, and the tag: what stands behind a colon after the last slash. -/
def splitTag (s : String) : String × String :=
  if ':' ∈ (refName s).toList then (cutLast s ':').getD (s, "latest") else (s, "latest")

/-- The registry of a name, and the name without it. -/
def splitRegistry (s : String) : String × String :=
  match cut s "/" with
  | some (first, rest) =>
    if containsAny first ".:" || first = "localhost" then
      (if first = "docker.io" || first = "index.docker.io" then "registry-1.docker.io" else first,
        rest)
    else ("registry-1.docker.io", s)
  | none => ("registry-1.docker.io", s)

/-- `ParseImageRef`. -/
def parseImageRef (s : String) : ImageRef :=
  let s := trimSpace s
  let s := (cut s "@").elim s Prod.fst
  let (s, tag) := splitTag s
  let (registry, s) := splitRegistry s
  let repo :=
    if registry = "registry-1.docker.io" && !contains s "/" then "library/" ++ s else s
  { registry, repo, tag }

/-- `HostOf` returns the normalized registry host of an image reference. -/
def hostOf (ref : String) : String :=
  match cut (trimSpace ref) "/" with
  | some (first, _) =>
    if containsAny first ".:" || first = "localhost" then normalize toLower first else "docker.io"
  | none => "docker.io"

/-! ### References -/

namespace Grammar

open Regexp

/-- The class `[a-z0-9]`. -/
def lowerAlnum : String := "abcdefghijklmnopqrstuvwxyz0123456789"

/-- The class `[a-zA-Z0-9]`. -/
def alnum : String := "ABCDEFGHIJKLMNOPQRSTUVWXYZ" ++ lowerAlnum

/-- The class `[0-9]`. -/
def digits : String := "0123456789"

/-- The class `[a-fA-F0-9]`. -/
def xdigits : String := "0123456789abcdefABCDEF"

/-- `[a-z0-9]+` -/
def alphanumeric : Regexp := atLeast (oneOf lowerAlnum) 1

/-- `[._]|__|[-]+` -/
def separator : Regexp :=
  alt (oneOf "._") (alt (seq (oneOf "_") (oneOf "_")) (atLeast (oneOf "-") 1))

/-- A component of a repository's path: alphanumeric parts with separators in between. -/
def pathComponent : Regexp := seq alphanumeric (star (seq separator alphanumeric))

/-- `[a-zA-Z0-9]|[a-zA-Z0-9][a-zA-Z0-9-]*[a-zA-Z0-9]` -/
def domainNameComponent : Regexp :=
  alt (oneOf alnum) (cat [oneOf alnum, star (oneOf (alnum ++ "-")), oneOf alnum])

/-- Labels with dots in between, as in a DNS name. -/
def domainName : Regexp := seq domainNameComponent (star (seq (oneOf ".") domainNameComponent))

/-- `\[[a-fA-F0-9:]+\]` -/
def ipv6address : Regexp := cat [oneOf "[", atLeast (oneOf (xdigits ++ ":")) 1, oneOf "]"]

/-- A host with an optional port. -/
def domainAndPort : Regexp :=
  seq (alt domainName ipv6address) (opt (seq (oneOf ":") (atLeast (oneOf digits) 1)))

/-- `[\w][\w.-]{0,127}` -/
def tag : Regexp := seq (oneOf (alnum ++ "_")) (atMost (oneOf (alnum ++ "_.-")) 127)

/-- `[A-Za-z][A-Za-z0-9]*` -/
def algorithmComponent : Regexp :=
  seq (oneOf "ABCDEFGHIJKLMNOPQRSTUVWXYZabcdefghijklmnopqrstuvwxyz") (star (oneOf alnum))

/-- An algorithm, a colon and at least 32 hexadecimal digits. -/
def digest : Regexp :=
  cat [algorithmComponent, star (seq (oneOf "-_+.") algorithmComponent), oneOf ":",
    atLeast (oneOf xdigits) 32]

end Grammar

/-- A text of the grammar. -/
structure Part (r : Regexp) where
  text : String
  mem : text.toList ∈ r.language

/-- An image reference. -/
structure Reference where
  domain : Option (Part Grammar.domainAndPort)
  path : List (Part Grammar.pathComponent)
  nonempty : path ≠ []
  tag : Option (Part Grammar.tag)
  digest : Option (Part Grammar.digest)

namespace Reference

/-- What stands between the slashes. -/
def components (r : Reference) : List String :=
  (r.domain.map Part.text).toList ++ r.path.map Part.text

/-- The name: the domain, if there is one, and the path. -/
def name (r : Reference) : String := "/".intercalate r.components

/-- The name with the tag. -/
def tagged (r : Reference) : String := r.name ++ r.tag.elim "" fun t => ":" ++ t.text

/-- The reference as it is written, with its tag and its digest. -/
def text (r : Reference) : String := r.tagged ++ r.digest.elim "" fun d => "@" ++ d.text

end Reference

/-! ### What a reference means -/

/-- The other names of Docker Hub. -/
def hub (domain : String) : String :=
  if domain ∈ ["docker.io", "index.docker.io", "registry-1.docker.io"] then "docker.io" else domain

/-- The first of several components is a domain: it has a dot or a colon, is `localhost`, or has a
capital letter, which no path has. -/
def isDomain (c : String) : Bool := containsAny c ".:" || c = "localhost" || toLower c ≠ c

/-- The normalized form of a name: the domain and the path. -/
def normalizedName : List String → String × List String
  | [] => ("docker.io", [])
  | [c] => ("docker.io", ["library", c])
  | c :: cs =>
    if isDomain c then
      (hub c, if hub c = "docker.io" ∧ cs.length = 1 then "library" :: cs else cs)
    else ("docker.io", c :: cs)

/-- The image that a reference denotes. -/
structure Image where
  domain : String
  path : List String
  tag : Option String
  digest : Option String
  deriving DecidableEq

namespace Reference

/-- The tag, `latest` when absent. -/
def tagText (r : Reference) : String := r.tag.elim "latest" Part.text

/-- The image that the reference denotes: the one of its digest, else the one of its tag. -/
def image (r : Reference) : Image where
  domain := (normalizedName r.components).1
  path := (normalizedName r.components).2
  tag := if r.digest.isSome then r.tag.map Part.text else some r.tagText
  digest := r.digest.map Part.text

end Reference

/-- All of them read the reference right. Credentials are kept under the name of a host in lower
case. -/
structure ReadAlike (r : Reference) : Prop where
  registry : hub (parseImageRef r.text).registry = r.image.domain
  repo : (parseImageRef r.text).repo = "/".intercalate r.image.path
  host : hostOf r.text = hub (toLower r.image.domain)
  credentials : hostOf r.text = hub (toLower (parseImageRef r.text).registry)
  tag : imageTag r.text = r.tagText
  idem : normalizeRef (normalizeRef r.text) = normalizeRef r.text
  denotes : ∃ r' : Reference, r'.text = normalizeRef r.text
  image : ∀ r' : Reference, r'.text = normalizeRef r.text → r'.image = r.image

/-! ### The characters of a reference -/

/-- A character of a component; a slash comes of none in lower case. -/
def IsPlain (c : Char) : Prop := isSpace c = false ∧ c ≠ '/' ∧ c ≠ '@' ∧ lowerChar c ≠ '/'

/-- A character of a path or a tag. -/
def IsTagChar (c : Char) : Prop := isSpace c = false ∧ c ≠ '/' ∧ c ≠ '@' ∧ c ≠ ':'

instance : DecidablePred IsPlain := fun _ => inferInstanceAs (Decidable (_ ∧ _))

instance : DecidablePred IsTagChar := fun _ => inferInstanceAs (Decidable (_ ∧ _))

open Grammar Regexp

private theorem over_domainAndPort : domainAndPort.Over IsPlain := by
  simp only [domainAndPort, domainName, domainNameComponent, ipv6address, over_seq, over_alt,
    over_star, over_opt, over_cat_nil, over_cat_cons, over_atLeast, over_oneOf, and_true]
  decide +kernel

private theorem over_pathComponent : Grammar.pathComponent.Over fun c =>
    IsPlain c ∧ IsTagChar c ∧ lowerChar c = c := by
  simp only [Grammar.pathComponent, alphanumeric, separator, over_seq, over_alt, over_star,
    over_atLeast,
    over_oneOf]
  decide +kernel

private theorem over_tag : Grammar.tag.Over IsTagChar := by
  rw [Grammar.tag, over_seq, over_oneOf]
  exact ⟨by decide +kernel, over_atMost (over_oneOf.mpr (by decide +kernel))⟩

private theorem over_digest : Grammar.digest.Over IsPlain := by
  simp only [Grammar.digest, algorithmComponent, over_seq, over_star, over_cat_nil, over_cat_cons,
    over_atLeast, over_oneOf, and_true]
  decide +kernel

variable {r : Reference}

private theorem Part.isPlain_of_mem (d : Part domainAndPort) : ∀ c ∈ d.text.toList, IsPlain c :=
  over_domainAndPort.forall_mem d.mem

private theorem Part.ne_empty {e : Regexp} (he : e.nullable = false) (x : Part e) :
    x.text ≠ "" := by
  intro h
  have hmem := x.mem
  rw [h, String.toList_empty, ← nullable_iff, he] at hmem
  cases hmem

/-- A component of the path. -/
structure IsComponent (s : String) : Prop where
  ne_empty : s ≠ ""
  plain : ∀ c ∈ s.toList, IsPlain c
  colon : ':' ∉ s.toList
  lower : toLower s = s

private theorem Part.isComponent (p : Part pathComponent) : IsComponent p.text := by
  have hchars := over_pathComponent.forall_mem p.mem
  refine ⟨p.ne_empty rfl, fun c hc => (hchars c hc).1, fun h => (hchars _ h).2.1.2.2.2 rfl, ?_⟩
  rw [toLower, List.map_congr_left fun c hc => (hchars c hc).2.2, List.map_id',
    String.ofList_toList]

namespace Reference

private theorem plain_of_mem_components {c : String} (hc : c ∈ r.components) :
    c ≠ "" ∧ ∀ x ∈ c.toList, IsPlain x := by
  rw [components, List.mem_append] at hc
  rcases hc with hc | hc
  · obtain ⟨d, -, rfl⟩ := Option.map_eq_some_iff.mp (Option.mem_toList.mp hc)
    exact ⟨d.ne_empty rfl, d.isPlain_of_mem⟩
  · obtain ⟨p, -, rfl⟩ := List.mem_map.mp hc
    exact ⟨p.isComponent.ne_empty, p.isComponent.plain⟩

/-- The last component is one of the path. -/
theorem exists_components : ∃ cs last, r.components = cs ++ [last] ∧ IsComponent last := by
  obtain ⟨ps, p, hps⟩ : ∃ ps p, r.path = ps ++ [p] :=
    ⟨_, _, (List.dropLast_append_getLast r.nonempty).symm⟩
  refine ⟨(r.domain.map Part.text).toList ++ ps.map Part.text, p.text, ?_, p.isComponent⟩
  rw [components, hps, List.map_append, ← List.append_assoc]
  rfl

/-- The components behind the first one are of the path. -/
theorem isComponent_of_components {c : String} {cs : List String} (h : r.components = c :: cs) :
    ∀ x ∈ cs, IsComponent x := by
  have hpath : ∀ x ∈ r.path.map Part.text, IsComponent x := by
    intro x hx
    obtain ⟨p, -, rfl⟩ := List.mem_map.mp hx
    exact p.isComponent
  rw [components] at h
  cases hd : r.domain with
  | none =>
    rw [hd, Option.map_none, Option.toList_none, List.nil_append] at h
    exact fun x hx => hpath x (h ▸ List.mem_cons_of_mem c hx)
  | some d =>
    rw [hd, Option.map_some, Option.toList_some, List.singleton_append] at h
    exact fun x hx => hpath x ((List.cons.inj h).2 ▸ hx)

private theorem splitChar_name : splitChar r.name '/' = r.components := by
  obtain ⟨cs, last, hcs, -⟩ := r.exists_components
  refine splitChar_intercalate rfl (fun c hc h => ?_) (by simp [hcs])
  exact ((plain_of_mem_components hc).2 _ h).2.1 rfl

private theorem exists_name : ∃ last, IsComponent last ∧
    (r.name = last ∨ ∃ q, r.name = q ++ "/" ++ last) := by
  obtain ⟨cs, last, hcs, hlast⟩ := r.exists_components
  refine ⟨last, hlast, ?_⟩
  by_cases hnil : cs = []
  · left
    rw [name, hcs, hnil, List.nil_append, String.intercalate_singleton]
  · right
    refine ⟨"/".intercalate cs, ?_⟩
    rw [name, hcs, String.intercalate_append_of_ne_nil hnil (List.cons_ne_nil _ _),
      String.intercalate_singleton]

private theorem plain_name : ∀ c ∈ r.name.toList, isSpace c = false ∧ c ≠ '@' := by
  intro c hc
  by_contra hnot
  have hplain : ∀ x ∈ r.components, c ∉ x.toList := fun x hx hcx =>
    have hc' := (plain_of_mem_components hx).2 c hcx
    hnot ⟨hc'.1, hc'.2.2.1⟩
  refine not_mem_intercalate (fun hslash => hnot ?_) hplain hc
  obtain rfl : c = '/' := by simpa using hslash
  decide

private theorem isTagChar_of_mem (t : Part Grammar.tag) : ∀ c ∈ t.text.toList, IsTagChar c :=
  over_tag.forall_mem t.mem

/-- The tag behind its colon. -/
def tagSuffix (r : Reference) : String := r.tag.elim "" fun t => ":" ++ t.text

private theorem tagged_eq : r.tagged = r.name ++ r.tagSuffix := rfl

private theorem plain_tagSuffix : ∀ c ∈ r.tagSuffix.toList, isSpace c = false ∧ c ≠ '@' ∧
    c ≠ '/' := by
  intro c hc
  rw [tagSuffix] at hc
  cases htag : r.tag with
  | none => simp [htag] at hc
  | some t =>
    simp only [htag, Option.elim_some, String.toList_append, List.mem_append] at hc
    rcases hc with hc | hc
    · obtain rfl : c = ':' := by simpa using hc
      decide
    · obtain ⟨hspace, hslash, hat, -⟩ := isTagChar_of_mem t c hc
      exact ⟨hspace, hat, hslash⟩

private theorem at_tagged : '@' ∉ r.tagged.toList := by
  rw [tagged_eq, String.toList_append, List.mem_append, not_or]
  exact ⟨fun h => (plain_name _ h).2 rfl, fun h => (plain_tagSuffix _ h).2.1 rfl⟩

/-! ### Cutting the text -/

private theorem cut_text : cut r.text "@" = r.digest.map fun d => (r.tagged, d.text) := by
  rw [text]
  cases r.digest with
  | none =>
    rw [Option.elim_none, String.append_empty]
    exact cut_of_not_mem rfl at_tagged
  | some d =>
    rw [Option.elim_some, ← String.append_assoc]
    exact cut_append rfl at_tagged

private theorem elim_cut_text : (cut r.text "@").elim r.text Prod.fst = r.tagged := by
  rw [cut_text]
  cases hd : r.digest with
  | none => simp [text, hd]
  | some d => rfl

private theorem trimSpace_text : trimSpace r.text = r.text := by
  refine trimSpace_of_forall fun c hc => ?_
  rw [text, String.toList_append, List.mem_append, tagged_eq, String.toList_append,
    List.mem_append] at hc
  rcases hc with (hc | hc) | hc
  · exact (plain_name c hc).1
  · exact (plain_tagSuffix c hc).1
  · cases hd : r.digest with
    | none => simp [hd] at hc
    | some d =>
      simp only [hd, Option.elim_some, String.toList_append, List.mem_append] at hc
      rcases hc with hc | hc
      · obtain rfl : c = '@' := by simpa using hc
        decide
      · exact (over_digest.forall_mem d.mem c hc).1

/-- What stands behind the last slash: a component and the tag. -/
theorem exists_refName : ∃ last, ':' ∉ last.toList ∧ refName r.tagged = last ++ r.tagSuffix := by
  obtain ⟨last, hlast, hname⟩ := r.exists_name
  have hslash : '/' ∉ (last ++ r.tagSuffix).toList := by
    rw [String.toList_append, List.mem_append, not_or]
    exact ⟨fun h => (hlast.plain _ h).2.1 rfl, fun h => (plain_tagSuffix _ h).2.2 rfl⟩
  refine ⟨last, hlast.colon, ?_⟩
  rw [refName, tagged_eq]
  rcases hname with hname | ⟨q, hname⟩
  · rw [hname, cutLast_of_not_mem hslash]
    rfl
  · rw [hname, String.append_assoc, cutLast_append rfl hslash]
    rfl

private theorem splitTag_tagged : splitTag r.tagged = (r.name, r.tagText) := by
  obtain ⟨last, hlast, href⟩ := r.exists_refName
  rw [splitTag, href, tagged_eq, tagSuffix, tagText]
  cases htag : r.tag with
  | none => simp [hlast]
  | some t =>
    have hcolon : ':' ∉ t.text.toList := fun h => (isTagChar_of_mem t _ h).2.2.2 rfl
    have hcut : cutLast (r.name ++ (":" ++ t.text)) ':' = some (r.name, t.text) := by
      rw [← String.append_assoc]
      exact cutLast_append rfl hcolon
    simp [hcut]

private theorem imageTag_text : imageTag r.text = r.tagText := by
  obtain ⟨last, hlast, href⟩ := r.exists_refName
  rw [imageTag, elim_cut_text, href, tagSuffix, tagText]
  cases htag : r.tag with
  | none =>
    rw [Option.elim_none, String.append_empty, cutLast_of_not_mem hlast]
    rfl
  | some t =>
    have hcolon : ':' ∉ t.text.toList := fun h => (isTagChar_of_mem t _ h).2.2.2 rfl
    rw [Option.elim_some, ← String.append_assoc, cutLast_append rfl hcolon]
    rfl

private theorem registry_text : (parseImageRef r.text).registry = (splitRegistry r.name).1 := by
  simp only [parseImageRef, trimSpace_text, elim_cut_text, splitTag_tagged]

private theorem repo_text : (parseImageRef r.text).repo =
    if (splitRegistry r.name).1 = "registry-1.docker.io" &&
        !contains (splitRegistry r.name).2 "/" then
      "library/" ++ (splitRegistry r.name).2
    else (splitRegistry r.name).2 := by
  simp only [parseImageRef, trimSpace_text, elim_cut_text, splitTag_tagged]

/-! ### Names of one component -/

variable {c d : String} {cs : List String}

private theorem contains_slash {s : String} : contains s "/" = true ↔ '/' ∈ s.toList := by
  rw [contains_iff]
  exact List.singleton_infix_iff '/' s.toList

private theorem not_mem_of_components (h : r.components = [c]) : '/' ∉ r.name.toList := by
  have hname : r.name = c := by rw [name, h, String.intercalate_singleton]
  exact fun hmem => ((plain_of_mem_components (h ▸ List.mem_cons_self)).2 _ (hname ▸ hmem)).2.1 rfl

private theorem splitRegistry_single (h : r.components = [c]) :
    splitRegistry r.name = ("registry-1.docker.io", c) := by
  have hcut : cut r.name "/" = none := cut_of_not_mem rfl (not_mem_of_components h)
  rw [splitRegistry, hcut, name, h, String.intercalate_singleton]

private theorem hostOf_single (h : r.components = [c]) : hostOf r.text = "docker.io" := by
  have hslash : '/' ∉ r.text.toList := by
    rw [text, tagged_eq]
    simp only [String.toList_append, List.mem_append, not_or]
    refine ⟨⟨not_mem_of_components h, fun hmem => (plain_tagSuffix _ hmem).2.2 rfl⟩, ?_⟩
    cases r.digest with
    | none => simp
    | some d =>
      have hd : '/' ∉ d.text.toList := fun hmem => (over_digest.forall_mem d.mem _ hmem).2.1 rfl
      simpa using hd
  have hcut : cut r.text "/" = none := cut_of_not_mem rfl hslash
  rw [hostOf, trimSpace_text, hcut]

/-! ### Names of several components -/

private theorem name_eq (h : r.components = c :: d :: cs) :
    r.name = c ++ "/" ++ "/".intercalate (d :: cs) := by
  rw [name, h, String.intercalate_cons_cons]

private theorem splitRegistry_name (h : r.components = c :: d :: cs) : splitRegistry r.name =
    if containsAny c ".:" || c = "localhost" then
      (if c = "docker.io" || c = "index.docker.io" then "registry-1.docker.io" else c,
        "/".intercalate (d :: cs))
    else ("registry-1.docker.io", r.name) := by
  have hslash : '/' ∉ c.toList := fun hmem =>
    ((plain_of_mem_components (h ▸ List.mem_cons_self)).2 _ hmem).2.1 rfl
  have hcut : cut r.name "/" = some (c, "/".intercalate (d :: cs)) := by
    rw [name_eq h]
    exact cut_append rfl hslash
  rw [splitRegistry, hcut]

private theorem hostOf_text (h : r.components = c :: d :: cs) : hostOf r.text =
    if containsAny c ".:" || c = "localhost" then normalize toLower c else "docker.io" := by
  have hslash : '/' ∉ c.toList := fun hmem =>
    ((plain_of_mem_components (h ▸ List.mem_cons_self)).2 _ hmem).2.1 rfl
  obtain ⟨rest, hrest⟩ : ∃ rest, r.text = c ++ "/" ++ rest := by
    rw [text, tagged_eq, name_eq h]
    simp only [String.append_assoc]
    exact ⟨_, rfl⟩
  have hcut : cut r.text "/" = some (c, rest) := by
    rw [hrest]
    exact cut_append rfl hslash
  rw [hostOf, trimSpace_text, hcut]

/-- A component has neither a path nor a scheme to be stripped of. -/
theorem normalize_component (h : ∀ x ∈ c.toList, IsPlain x) :
    normalize toLower c =
      if toLower c ∈ ["", "docker.io", "index.docker.io", "registry-1.docker.io",
          "registry.hub.docker.com", "hub.docker.com"] then "docker.io"
      else toLower c := by
  have hslash : '/' ∉ (toLower c).toList := fun hmem => by
    rw [toLower, String.toList_ofList] at hmem
    obtain ⟨x, hx, hlower⟩ := List.mem_map.mp hmem
    exact (h x hx).2.2.2 hlower
  have hscheme : ∀ p : String, '/' ∈ p.toList → trimPrefix (toLower c) p = toLower c :=
    fun p hp => by
      rw [trimPrefix, if_neg fun hpre => hslash ?_]
      exact (List.isPrefixOf_iff_prefix.mp hpre).subset hp
  have hcut : (cutChar (toLower c) '/').1 = toLower c := by
    have hall : ∀ x ∈ (toLower c).toList, decide (x ≠ '/') = true := fun x hx =>
      decide_eq_true fun heq => hslash (heq ▸ hx)
    rw [cutChar, List.takeWhile_eq_self_iff.mpr hall, String.ofList_toList]
  have htrim : trimSpace c = c := trimSpace_of_forall fun x hx => (h x hx).1
  simp only [RegAuth.normalize, htrim, hscheme "https://" (by decide),
    hscheme "http://" (by decide), hcut]

end Reference

/-! ### The registry that is read -/

section

variable {c d : String} {cs : List String}

private theorem hub_registry (c : String) :
    hub (if c = "docker.io" || c = "index.docker.io" then "registry-1.docker.io" else c) =
      hub c := by
  simp only [Bool.or_eq_true, decide_eq_true_eq]
  split_ifs with h
  · rcases h with rfl | rfl <;> decide
  · rfl

/-- The name that stands for Docker Hub has no capitals. -/
theorem hub_toLower_hub (c : String) : hub (toLower (hub c)) = hub (toLower c) := by
  by_cases h : c ∈ ["docker.io", "index.docker.io", "registry-1.docker.io"]
  · rw [hub, hub, if_pos h]
    simp only [List.mem_cons, List.not_mem_nil, or_false] at h
    rcases h with rfl | rfl | rfl <;> decide
  · rw [show hub c = c from if_neg h]

private theorem hub_eq_iff : hub c = "docker.io" ↔
    (if c = "docker.io" || c = "index.docker.io" then "registry-1.docker.io" else c) =
      "registry-1.docker.io" := by
  simp only [hub, List.mem_cons, List.not_mem_nil, or_false, Bool.or_eq_true, decide_eq_true_eq]
  by_cases hdocker : c = "docker.io"
  · simp [hdocker]
  by_cases hindex : c = "index.docker.io"
  · simp [hindex]
  by_cases hregistry : c = "registry-1.docker.io"
  · simp [hregistry]
  · simp [hdocker, hindex, hregistry]

private theorem hub_default : hub "registry-1.docker.io" = "docker.io" := by decide

/-- The first component is read for a domain. -/
def readsDomain (c : String) : Bool := containsAny c ".:" || c = "localhost"

/-- A domain that `readsDomain` does not tell has a capital letter. -/
theorem isDomain_eq (c : String) : isDomain c = (readsDomain c || toLower c ≠ c) := rfl

private theorem lower_or_dot_of_readsDomain (h : readsDomain c = true) :
    toLower c = c ∨ containsAny c ".:" = true := by
  rw [readsDomain, Bool.or_eq_true, decide_eq_true_eq] at h
  rcases h with h | rfl
  · exact .inr h
  · exact .inl (by decide)

private theorem readsDomain_of_dot (h : containsAny c ".:" = true) : readsDomain c = true := by
  rw [readsDomain, h, Bool.true_or]

private theorem hub_of_not_readsDomain (h : readsDomain c = false) : hub c = c := by
  refine if_neg fun hmem => ?_
  simp only [List.mem_cons, List.not_mem_nil, or_false] at hmem
  rcases hmem with rfl | rfl | rfl <;> exact absurd h (by decide)

private theorem slash_intercalate (h : ∀ x ∈ d :: cs, IsComponent x) :
    contains ("/".intercalate (d :: cs)) "/" = true ↔ cs ≠ [] := by
  rw [Reference.contains_slash]
  cases cs with
  | nil =>
    have hd : '/' ∉ d.toList := fun hmem => ((h d List.mem_cons_self).plain _ hmem).2.1 rfl
    simp [hd]
  | cons e cs => simp [String.intercalate_cons_cons]

namespace Reference

private theorem image_domain (h : r.components = c :: d :: cs) :
    r.image.domain = if isDomain c then hub c else "docker.io" := by
  simp only [image, h, normalizedName]
  split <;> rfl

private theorem registry_iff (h : r.components = c :: d :: cs) :
    hub (parseImageRef r.text).registry = r.image.domain ↔
      toLower c = c ∨ containsAny c ".:" = true := by
  rw [registry_text, splitRegistry_name h, image_domain h, isDomain_eq, ← readsDomain]
  cases hread : readsDomain c with
  | true =>
    rw [if_pos rfl, if_pos (Bool.true_or _)]
    exact iff_of_true (hub_registry c) (lower_or_dot_of_readsDomain hread)
  | false =>
    have hdot : ¬ containsAny c ".:" = true := fun hdot => by
      rw [readsDomain_of_dot hdot] at hread
      cases hread
    rw [if_neg Bool.false_ne_true, Bool.false_or, hub_of_not_readsDomain hread]
    by_cases hlower : toLower c = c
    · rw [if_neg (by simpa using hlower)]
      exact iff_of_true hub_default (.inl hlower)
    · rw [if_pos (by simpa using hlower)]
      refine iff_of_false (fun hc => ?_) (not_or.mpr ⟨hlower, hdot⟩)
      have hdocker : c = "docker.io" := hc.symm.trans hub_default
      exact hlower (hdocker ▸ by decide)

private theorem image_path (h : r.components = c :: d :: cs) : r.image.path =
    if isDomain c then
      (if hub c = "docker.io" ∧ (d :: cs).length = 1 then "library" :: d :: cs else d :: cs)
    else c :: d :: cs := by
  simp only [image, h, normalizedName]
  split <;> rfl

private theorem repo_eq (h : r.components = c :: d :: cs)
    (hc : toLower c = c ∨ containsAny c ".:" = true) :
    (parseImageRef r.text).repo = "/".intercalate r.image.path := by
  have hpath := isComponent_of_components h
  rw [repo_text, splitRegistry_name h, image_path h, isDomain_eq, ← readsDomain]
  cases hread : readsDomain c with
  | true =>
    have hslash := slash_intercalate hpath
    rw [if_pos rfl, if_pos (Bool.true_or _)]
    cases cs with
    | nil =>
      have hcontains : contains ("/".intercalate [d]) "/" = false := by
        rw [Bool.eq_false_iff]
        exact fun hmem => hslash.mp hmem rfl
      simp only [hcontains, Bool.not_false, Bool.and_true, decide_eq_true_eq, List.length_singleton,
        and_true, ← hub_eq_iff]
      split_ifs
      · rw [String.intercalate_cons_cons]
        rfl
      · rfl
    | cons e cs =>
      have hcontains : contains ("/".intercalate (d :: e :: cs)) "/" = true :=
        hslash.mpr (List.cons_ne_nil _ _)
      have hlength : ¬ (hub c = "docker.io" ∧ (d :: e :: cs).length = 1) := by simp
      rw [hcontains, Bool.not_true, Bool.and_false, if_neg Bool.false_ne_true, if_neg hlength]
  | false =>
    have hlower : toLower c = c := hc.resolve_right fun hdot => by
      rw [readsDomain_of_dot hdot] at hread
      cases hread
    have hslash : contains r.name "/" = true := by
      rw [contains_slash, name_eq h]
      simp
    have hname : r.name = "/".intercalate (c :: d :: cs) := by rw [name, h]
    rw [if_neg Bool.false_ne_true, hslash, Bool.not_true, Bool.and_false, if_neg Bool.false_ne_true,
      Bool.false_or, if_neg (by simpa using hlower), hname]

private theorem host_iff (h : r.components = c :: d :: cs)
    (hc : toLower c = c ∨ containsAny c ".:" = true) :
    hostOf r.text = hub (toLower r.image.domain) ↔
      toLower c ∉ ["hub.docker.com", "registry.hub.docker.com"] := by
  obtain ⟨hne, hplain⟩ := plain_of_mem_components (h ▸ List.mem_cons_self : c ∈ r.components)
  rw [hostOf_text h, image_domain h, isDomain_eq, ← readsDomain]
  cases hread : readsDomain c with
  | true =>
    rw [if_pos rfl, if_pos (Bool.true_or _), normalize_component hplain, hub_toLower_hub]
    have hempty : toLower c ≠ "" := fun hempty => hne (by
      have hlist := congrArg String.toList hempty
      rw [toLower, String.toList_ofList] at hlist
      exact String.toList_eq_nil_iff.mp (List.map_eq_nil_iff.mp hlist))
    generalize toLower c = l at hempty
    simp only [hub, List.mem_cons, List.not_mem_nil, or_false, hempty, false_or]
    by_cases hdocker : l = "docker.io"
    · simp [hdocker]
    by_cases hindex : l = "index.docker.io"
    · simp [hindex]
    by_cases hregistry : l = "registry-1.docker.io"
    · simp [hregistry]
    by_cases hold : l = "registry.hub.docker.com"
    · simp [hold]
    by_cases hsite : l = "hub.docker.com"
    · simp [hsite]
    · simp [hdocker, hindex, hregistry, hold, hsite]
  | false =>
    have hlower : toLower c = c := hc.resolve_right fun hdot => by
      rw [readsDomain_of_dot hdot] at hread
      cases hread
    rw [if_neg Bool.false_ne_true, Bool.false_or, if_neg (by simpa using hlower)]
    refine iff_of_true (by decide) fun hmem => ?_
    rw [hlower] at hmem
    simp only [List.mem_cons, List.not_mem_nil, or_false] at hmem
    rcases hmem with rfl | rfl <;> exact absurd hread (by decide)

/-- One component is an official image. -/
theorem names_single (h : r.components = [c]) :
    hub (parseImageRef r.text).registry = r.image.domain ∧
      (parseImageRef r.text).repo = "/".intercalate r.image.path ∧
      hostOf r.text = hub (toLower r.image.domain) := by
  have hslash : contains c "/" = false := by
    have hname : r.name = c := by rw [name, h, String.intercalate_singleton]
    rw [Bool.eq_false_iff]
    exact fun hmem => not_mem_of_components h (hname ▸ contains_slash.mp hmem)
  have himage : normalizedName r.components = ("docker.io", ["library", c]) := by rw [h]; rfl
  rw [registry_text, repo_text, splitRegistry_single h, hostOf_single h, image, himage]
  refine ⟨hub_default, ?_, show "docker.io" = hub (toLower "docker.io") by decide⟩
  rw [if_pos (by simp [hslash]), String.intercalate_cons_cons, String.intercalate_singleton]
  rfl

/-! ### Adding the tag -/

/-- The tag that Docker takes where a reference has neither a tag nor a digest. -/
def latest : Part Grammar.tag where
  text := "latest"
  mem := (isMatch_iff _ _).mp (by decide +kernel)

/-- The reference with a tag or a digest. -/
def pinned (r : Reference) : Reference :=
  if r.tag.isSome || r.digest.isSome then r else { r with tag := some latest }

private theorem text_ne_empty : r.text ≠ "" := by
  obtain ⟨last, hlast, hname⟩ := r.exists_name
  have hne : r.name ≠ "" := by
    rcases hname with hname | ⟨q, hname⟩
    · exact hname ▸ hlast.ne_empty
    · exact fun h => by simpa [hname] using congrArg String.toList h
  rw [text, tagged_eq]
  exact fun h => hne (by
    have hlist := congrArg String.toList h
    simp only [String.toList_append, String.toList_empty, List.append_eq_nil_iff] at hlist
    exact String.toList_eq_nil_iff.mp hlist.1.1)

private theorem normalizeRef_text : normalizeRef r.text = r.pinned.text := by
  rw [normalizeRef, trimSpace_text]
  have hat : contains r.text "@" = true ↔ '@' ∈ r.text.toList := by
    rw [contains_iff]
    exact List.singleton_infix_iff '@' r.text.toList
  cases hd : r.digest with
  | some d =>
    have hmem : '@' ∈ r.text.toList := by simp [text, hd]
    rw [pinned, hd, if_pos (Or.inr (hat.mpr hmem))]
    simp
  | none =>
    obtain ⟨last, hlast, href⟩ := r.exists_refName
    have htext : r.text = r.tagged := by
      rw [text, hd, Option.elim_none, String.append_empty]
    rw [htext] at hat ⊢
    rw [if_neg (not_or.mpr ⟨htext ▸ text_ne_empty, fun h => at_tagged (hat.mp h)⟩), href, pinned,
      hd]
    cases htag : r.tag with
    | some t =>
      have hcolon : ':' ∈ (last ++ r.tagSuffix).toList := by simp [tagSuffix, htag]
      rw [if_pos hcolon, Option.isSome_some, Bool.true_or, if_pos rfl, htext]
    | none =>
      have hcolon : ':' ∉ (last ++ r.tagSuffix).toList := by simpa [tagSuffix, htag] using hlast
      rw [if_neg hcolon, Option.isSome_none, Option.isSome_none, Bool.or_false,
        if_neg Bool.false_ne_true]
      have hbare : r.tagged = r.name := by
        rw [tagged_eq, tagSuffix, htag, Option.elim_none, String.append_empty]
      rw [hbare]
      change r.name ++ ":latest" = r.name ++ (":" ++ "latest") ++ ""
      rw [String.append_empty]
      rfl

private theorem pinned_pinned : r.pinned.pinned = r.pinned := by
  by_cases h : (r.tag.isSome || r.digest.isSome) = true
  · have hself : r.pinned = r := if_pos h
    rw [hself, hself]
  · have hadd : r.pinned = { r with tag := some latest } := if_neg h
    rw [hadd]
    rfl

private theorem image_pinned : r.pinned.image = r.image := by
  by_cases h : (r.tag.isSome || r.digest.isSome) = true
  · rw [show r.pinned = r from if_pos h]
  · have hadd : r.pinned = { r with tag := some latest } := if_neg h
    rw [Bool.not_eq_true, Bool.or_eq_false_iff] at h
    obtain ⟨htag, hdigest⟩ := h
    have htext : r.tagText = "latest" := by
      have hnone : r.tag = none := Option.not_isSome_iff_eq_none.mp (by simp [htag])
      rw [tagText, hnone]
      rfl
    rw [hadd]
    simp only [image, hdigest, Bool.false_eq_true, if_false, htext]
    rfl

/-- The text says which image it is. -/
theorem image_eq_of_text_eq {r' : Reference} (h : r'.text = r.text) : r'.image = r.image := by
  have htagged : r'.tagged = r.tagged := by
    rw [← elim_cut_text, ← elim_cut_text, h]
  have hdigest : r'.digest.map Part.text = r.digest.map Part.text := by
    have hcut := congrArg (Option.map Prod.snd) (congrArg (cut · "@") h)
    simpa [cut_text, Function.comp_def] using hcut
  have hsplit := congrArg splitTag htagged
  rw [splitTag_tagged, splitTag_tagged, Prod.mk.injEq] at hsplit
  obtain ⟨hname, htext⟩ := hsplit
  have hcomponents : r'.components = r.components := by
    rw [← splitChar_name, ← splitChar_name, hname]
  have hsuffix : r'.tagSuffix = r.tagSuffix := by
    rw [tagged_eq, tagged_eq, hname] at htagged
    exact (String.append_right_inj _).mp htagged
  have htag : r'.tag.map Part.text = r.tag.map Part.text := by
    rw [tagSuffix, tagSuffix] at hsuffix
    cases ht : r.tag with
    | none =>
      cases ht' : r'.tag with
      | none => rfl
      | some t' => simp [ht, ht'] at hsuffix
    | some t =>
      cases ht' : r'.tag with
      | none => simp [ht, ht'] at hsuffix
      | some t' => simpa [ht, ht'] using hsuffix
  have hsome : r'.digest.isSome = r.digest.isSome := by
    simpa using congrArg Option.isSome hdigest
  simp only [image, hcomponents, hdigest, hsome, htag, htext]

end Reference

/-- **A reference is read alike everywhere exactly when** its first component, if it is not the only
one, has no capital letters or has a dot or a colon, and is none of the names besides its aliases
that credentials know Docker Hub under. -/
theorem readAlike_iff (r : Reference) : ReadAlike r ↔ ∀ c d cs, r.components = c :: d :: cs →
    (toLower c = c ∨ containsAny c ".:" = true) ∧
      toLower c ∉ ["hub.docker.com", "registry.hub.docker.com"] := by
  constructor
  · intro h c d cs hcs
    have hc := (Reference.registry_iff hcs).mp h.registry
    exact ⟨hc, (Reference.host_iff hcs hc).mp h.host⟩
  · intro h
    have hnames : hub (parseImageRef r.text).registry = r.image.domain ∧
        (parseImageRef r.text).repo = "/".intercalate r.image.path ∧
        hostOf r.text = hub (toLower r.image.domain) := by
      obtain ⟨c, cs, hcs⟩ : ∃ c cs, r.components = c :: cs := by
        obtain ⟨cs, last, hcs, -⟩ := r.exists_components
        exact List.exists_cons_of_ne_nil (by simp [hcs])
      cases cs with
      | nil => exact Reference.names_single hcs
      | cons d cs =>
        obtain ⟨hc, hhub⟩ := h c d cs hcs
        exact ⟨(Reference.registry_iff hcs).mpr hc, Reference.repo_eq hcs hc,
          (Reference.host_iff hcs hc).mpr hhub⟩
    obtain ⟨hregistry, hrepo, hhost⟩ := hnames
    have hcredentials : hostOf r.text = hub (toLower (parseImageRef r.text).registry) := by
      rw [hhost, ← hregistry, hub_toLower_hub]
    exact ⟨hregistry, hrepo, hhost, hcredentials, Reference.imageTag_text,
      by rw [Reference.normalizeRef_text, Reference.normalizeRef_text, Reference.pinned_pinned],
      ⟨r.pinned, Reference.normalizeRef_text.symm⟩,
      fun r' hr' => (Reference.image_eq_of_text_eq (hr'.trans Reference.normalizeRef_text)).trans
        Reference.image_pinned⟩

/-- `MyReg/app`: a registry with a capital letter. -/
def myReg : Reference where
  domain := some ⟨"MyReg", (isMatch_iff _ _).mp (by decide +kernel)⟩
  path := [⟨"app", (isMatch_iff _ _).mp (by decide +kernel)⟩]
  nonempty := List.cons_ne_nil _ _
  tag := none
  digest := none

/-- It is asked for on Docker Hub. -/
theorem not_readAlike_myReg : ¬ ReadAlike myReg := by
  intro h
  have hregistry : (parseImageRef myReg.text).registry = "registry-1.docker.io" := by
    decide +kernel
  have hdomain := h.registry
  rw [hregistry] at hdomain
  exact absurd hdomain (by decide +kernel)

end

end Dockhand.DockerOps
