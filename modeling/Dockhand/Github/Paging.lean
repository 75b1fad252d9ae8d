import Dockhand.Go.Words

/-!
# Listings in pages

GitHub returns a listing in pages, and each answer names the next page in its `Link` header. `Link`
is an entry of such a header, and `Serves get next bodies` says that a server has the listing
`bodies` at `next`. `getPaged_of_serves`: `getPaged` goes through the first hundred pages of it in
their order, once each, and stops at the first that it cannot read; `listRepos_of_serves` is what
this means for a list of repositories.
-/

namespace Dockhand.Github

open Go

/-! ### The client -/

/-- A parameter of a link is a `rel` with `next` among its relations. -/
def isNext (p : String) : Bool :=
  match cut (trimSpace p) "=" with
  | some (k, v) => trimSpace k = "rel" && "next" ∈ fields (trim (trimSpace v) "\"")
  | none => false

/-- The URL of a part of a `Link` header, if it is that of the next page. -/
def nextURL (part : String) : Option String :=
  match splitChar part ';' with
  | seg :: p :: params =>
    let u := trimSpace seg
    if hasPrefix u "<" ∧ hasSuffix u ">" ∧ (p :: params).any isNext then
      some (String.ofList (u.toList.drop 1).dropLast)
    else none
  | _ => none

/-- `NextPageURL` extracts the rel="next" URL from a GitHub Link header, or "". -/
def nextPageURL (link : String) : String := ((splitChar link ',').findSome? nextURL).getD ""

/-- `DefaultAPIURL`, the address of GitHub's API. -/
def defaultAPIURL : String := "https://api.github.com"

/-- `Client.url`. -/
def fullURL (apiURL path : String) : String :=
  if hasPrefix path "http://" ∨ hasPrefix path "https://" then path else apiURL ++ path

section

variable {β σ α : Type} (apiURL : String) (get : String → Except String (β × String))

/-- The loop of `getPaged`. A `GET` returns the page and its `Link` header. -/
def pages (each : σ → β → Except String σ) : ℕ → String → σ → Except String σ
  | 0, _, s => .ok s
  | n + 1, next, s =>
    if next = "" then .ok s
    else
      match get (fullURL apiURL next) with
      | .error err => .error err
      | .ok (raw, link) =>
        match each s raw with
        | .error err => .error err
        | .ok s => pages each n (nextPageURL link) s

/-- `getPaged`. -/
def getPaged (path : String) (each : σ → β → Except String σ) (s : σ) : Except String σ :=
  pages apiURL get each 100 path s

/-- What a listing does with each page. -/
def collect (decode : β → Except String (List α)) (out : List α) (raw : β) :
    Except String (List α) :=
  (decode raw).map (out ++ ·)

/-- The path of `ListRepos`. `esc` is `url.PathEscape`. -/
def reposPath (esc : String → String) (owner : String) (isOrg : Bool) : String :=
  if owner = "" then
    "/user/repos?affiliation=owner,collaborator,organization_member&sort=pushed&per_page=100"
  else if isOrg then "/orgs/" ++ esc owner ++ "/repos?type=all&sort=pushed&per_page=100"
  else "/users/" ++ esc owner ++ "/repos?type=owner&sort=pushed&per_page=100"

/-- `ListRepos`. -/
def listRepos (esc : String → String) (decode : β → Except String (List α)) (owner : String)
    (isOrg : Bool) : Except String (List α) :=
  (getPaged apiURL get (reposPath esc owner isOrg)
    (collect fun raw => (decode raw).mapError ("GitHub: decode repos: " ++ ·)) []).mapError
    ("list repos: " ++ ·)

end

/-! ### The header -/

/-- The character has no meaning in a `Link` header. -/
def IsPlain (c : Char) : Prop := c ≠ ',' ∧ c ≠ ';'

instance IsPlain.decidable (c : Char) : Decidable (IsPlain c) := inferInstanceAs (Decidable (_ ∧ _))

/-- A link with its relations. -/
structure Link where
  url : String
  rel : Word
  rels : List Word := []
  url_plain : ∀ c ∈ url.toList, IsPlain c
  rel_plain : ∀ w ∈ rel :: rels, ∀ c ∈ w.text.toList, IsPlain c ∧ c ≠ '"'

/-- The value of the parameter `rel`: the relations, with spaces between them. -/
def Link.relations (l : Link) : String := phrase l.rel.text l.rels

/-- The link as GitHub writes it into the header. -/
def Link.text (l : Link) : String :=
  "<" ++ l.url ++ ">" ++ ";" ++ (" rel" ++ "=" ++ ("\"" ++ l.relations ++ "\""))

/-- One of the relations is `next`. -/
def Link.isNext (l : Link) : Bool := (l.rel :: l.rels).any fun w => w.text = "next"

/-- A `Link` header. -/
def header (ls : List Link) : String := ", ".intercalate (ls.map Link.text)

private theorem intercalate_comma (x : String) (xs : List String) :
    ", ".intercalate (x :: xs) = ",".intercalate (x :: xs.map (" " ++ ·)) := by
  have hsep : (", " : String) = "," ++ " " := rfl
  induction xs generalizing x with
  | nil => simp
  | cons y ys ih =>
    rw [String.intercalate_cons_cons, ih, List.map_cons, String.intercalate_cons_cons, hsep,
      String.intercalate_cons_append]
    simp only [String.append_assoc]

private theorem mem_phrase {c : Char} {s : String} {ws : List Word} (h : c ∈ (phrase s ws).toList) :
    c ∈ s.toList ∨ c = ' ' ∨ ∃ w ∈ ws, c ∈ w.text.toList := by
  induction ws generalizing s with
  | nil => exact .inl h
  | cons w ws ih =>
    rcases ih h with hc | hc | ⟨w', hw', hc⟩
    · simp only [String.toList_append, List.mem_append] at hc
      rcases hc with (hc | hc) | hc
      · exact .inl hc
      · exact .inr (.inl (List.mem_singleton.mp hc))
      · exact .inr (.inr ⟨w, List.mem_cons_self, hc⟩)
    · exact .inr (.inl hc)
    · exact .inr (.inr ⟨w', List.mem_cons_of_mem _ hw', hc⟩)

namespace Link

variable (l : Link)

private theorem plain_of_mem_relations {c : Char} (hc : c ∈ l.relations.toList) :
    IsPlain c ∧ c ≠ '"' := by
  rcases mem_phrase hc with hc | rfl | ⟨w, hw, hc⟩
  · exact l.rel_plain l.rel List.mem_cons_self c hc
  · exact ⟨⟨by decide, by decide⟩, by decide⟩
  · exact l.rel_plain w (List.mem_cons_of_mem _ hw) c hc

private theorem fields_relations : fields l.relations = (l.rel :: l.rels).map Word.text := by
  rw [relations, fields_phrase, fields_of_dark l.rel.nonempty l.rel.dark]
  rfl

private theorem trim_quotes : trim ("\"" ++ l.relations ++ "\"") "\"" = l.relations := by
  have hquote : ∀ c ∈ l.relations.toList, c ≠ '"' := fun c hc => (l.plain_of_mem_relations hc).2
  have hne : l.relations.toList ≠ [] := by
    intro hnil
    have hfields := l.fields_relations
    rw [String.toList_eq_nil_iff.mp hnil] at hfields
    simp [fields] at hfields
  obtain ⟨c, r, hc⟩ := List.exists_cons_of_ne_nil hne
  have hlist : ("\"" ++ l.relations ++ "\"").toList =
    '"' :: (l.relations.toList ++ ['"']) := by simp
  have hdrop : ('"' :: (l.relations.toList ++ ['"'])).dropWhile (· ∈ "\"".toList) =
      l.relations.toList ++ ['"'] := by
    have hfirst : c ≠ '"' := hquote c (by simp [hc])
    rw [List.dropWhile_cons_of_pos (by decide), hc, List.cons_append,
      List.dropWhile_cons_of_neg (by simpa using hfirst)]
  have hrdrop : l.relations.toList.rdropWhile (· ∈ "\"".toList) = l.relations.toList := by
    rw [List.rdropWhile_eq_self_iff]
    intro hne
    simpa using hquote _ (List.getLast_mem hne)
  rw [trim, hlist, hdrop, trimRight]
  simp only [String.toList_ofList]
  rw [List.rdropWhile_concat_pos _ _ _ (by decide), hrdrop, String.ofList_toList]

/-- The relations of a link are read. -/
theorem isNext_rel :
    Github.isNext (" rel" ++ "=" ++ ("\"" ++ l.relations ++ "\"")) = l.isNext := by
  have hvalue : trimSpace ("\"" ++ l.relations ++ "\"") = "\"" ++ l.relations ++ "\"" :=
    trimSpace_eq_self ⟨'"', l.relations.toList ++ ['"'], by simp, by decide⟩
      ⟨'"' :: l.relations.toList, '"', by simp, by decide⟩
  have hparam : trimSpace (" rel" ++ "=" ++ ("\"" ++ l.relations ++ "\"")) =
      "rel" ++ "=" ++ ("\"" ++ l.relations ++ "\"") := by
    have hspace : (" rel" : String) = " " ++ "rel" := rfl
    rw [hspace, String.append_assoc, String.append_assoc, trimSpace_space_append,
      ← String.append_assoc]
    exact trimSpace_eq_self ⟨'r', 'e' :: 'l' :: '=' :: '"' :: (l.relations.toList ++ ['"']),
      by simp, by decide⟩ ⟨'r' :: 'e' :: 'l' :: '=' :: '"' :: l.relations.toList, '"', by simp,
      by decide⟩
  have hkey : trimSpace "rel" = "rel" := by decide
  rw [Github.isNext, hparam, cut_append rfl (by decide)]
  simp only [hkey, hvalue, trim_quotes, fields_relations, decide_true, Bool.true_and]
  rw [Bool.eq_iff_iff, decide_eq_true_eq, isNext, List.any_eq_true, List.mem_map]
  simp only [decide_eq_true_eq]

/-- The URL of a link is read. -/
theorem nextURL_text {pre : String} (hpre : pre.toList.all isSpace = true)
    (hplain : ';' ∉ pre.toList) :
    nextURL (pre ++ l.text) = if l.isNext then some l.url else none := by
  -- The link is cut at its only semicolon.
  have hseg : ';' ∉ (pre ++ ("<" ++ l.url ++ ">")).toList := by
    simp only [String.toList_append, List.mem_append, not_or]
    exact ⟨hplain, ⟨by decide, fun h => (l.url_plain _ h).2 rfl⟩, by decide⟩
  have hparam : ';' ∉ (" rel" ++ "=" ++ ("\"" ++ l.relations ++ "\"")).toList := by
    simp only [String.toList_append, List.mem_append, not_or]
    exact ⟨⟨by decide, by decide⟩, ⟨by decide, fun h => (l.plain_of_mem_relations h).1.2 rfl⟩,
      by decide⟩
  have hsplit : splitChar (pre ++ l.text) ';' = [pre ++ ("<" ++ l.url ++ ">"),
      " rel" ++ "=" ++ ("\"" ++ l.relations ++ "\"")] := by
    have hassoc : pre ++ l.text = pre ++ ("<" ++ l.url ++ ">") ++ ";" ++
        (" rel" ++ "=" ++ ("\"" ++ l.relations ++ "\"")) := by
      simp only [text, String.append_assoc]
    have hsemicolon : ";".toList = [';'] := rfl
    rw [hassoc, splitChar_append hsemicolon hparam, splitChar, List.splitOn_eq_singleton hseg]
    simp [String.append_assoc]
  have htrim : trimSpace (pre ++ ("<" ++ l.url ++ ">")) = "<" ++ l.url ++ ">" := by
    rw [trimSpace_append hpre]
    exact trimSpace_eq_self ⟨'<', l.url.toList ++ ['>'], by simp, by decide⟩
      ⟨'<' :: l.url.toList, '>', by simp, by decide⟩
  have hinner : String.ofList (("<" ++ l.url ++ ">").toList.drop 1).dropLast = l.url := by simp
  have hprefix : hasPrefix ("<" ++ l.url ++ ">") "<" = true := by simp [hasPrefix]
  have hsuffix : hasSuffix ("<" ++ l.url ++ ">") ">" = true := by simp [hasSuffix]
  simp only [nextURL, hsplit, htrim, hinner, hprefix, hsuffix, List.any_cons, List.any_nil,
    Bool.or_false, isNext_rel, true_and]

end Link

/-- The next page of a header is the first link that says so. -/
theorem nextPageURL_header (ls : List Link) :
    nextPageURL (header ls) = ((ls.find? (·.isNext)).map (·.url)).getD "" := by
  cases ls with
  | nil => decide
  | cons l ls =>
    -- No link has a comma, so the header is cut between its links.
    have htext : ∀ l : Link, ',' ∉ l.text.toList := by
      intro l
      simp only [Link.text, String.toList_append, List.mem_append, not_or]
      exact ⟨⟨⟨⟨by decide, fun h => (l.url_plain _ h).1 rfl⟩, by decide⟩, by decide⟩,
        ⟨by decide, by decide⟩, ⟨by decide, fun h => (l.plain_of_mem_relations h).1.1 rfl⟩,
        by decide⟩
    have hcomma : ∀ part ∈ l.text :: (ls.map Link.text).map (" " ++ ·), ',' ∉ part.toList := by
      intro part hpart
      rcases List.mem_cons.mp hpart with rfl | hpart
      · exact htext l
      · rw [List.map_map] at hpart
        obtain ⟨l', -, rfl⟩ := List.mem_map.mp hpart
        simpa using htext l'
    have hfind : ∀ ls : List Link, ((ls.map Link.text).map (" " ++ ·)).findSome? nextURL =
        (ls.find? (·.isNext)).map (·.url) := by
      intro ls
      induction ls with
      | nil => rfl
      | cons l ls ih =>
        have hl : nextURL (" " ++ l.text) = if l.isNext then some l.url else none :=
          l.nextURL_text (by decide) (by decide)
        rw [List.map_cons, List.map_cons, List.findSome?_cons, hl, List.find?_cons, ih]
        cases hnext : l.isNext <;> rfl
    have hl : nextURL ("" ++ l.text) = if l.isNext then some l.url else none :=
      l.nextURL_text (by decide) (by decide)
    rw [String.empty_append] at hl
    rw [nextPageURL, header, List.map_cons, intercalate_comma,
      splitChar_intercalate rfl hcomma (by simp)]
    rw [List.findSome?_cons, hl, List.find?_cons, hfind]
    cases hnext : l.isNext <;> rfl

/-! ### The pages -/

section Pages

variable {β σ α : Type} {apiURL : String} {get : String → Except String (β × String)}
  {each : σ → β → Except String σ} {decode : β → Except String (List α)} {next : String} {s : σ}

/-- At `next` the server has a page, and behind it the others: the link to the next page of each but
the last. -/
inductive Serves (apiURL : String) (get : String → Except String (β × String)) :
    String → List β → Prop
  | last {next : String} {body : β} {ls : List Link} (hne : next ≠ "")
      (hget : get (fullURL apiURL next) = .ok (body, header ls))
      (hlast : ls.find? (·.isNext) = none) : Serves apiURL get next [body]
  | page {next : String} {body : β} {ls : List Link} {l : Link} {bodies : List β} (hne : next ≠ "")
      (hget : get (fullURL apiURL next) = .ok (body, header ls))
      (hnext : ls.find? (·.isNext) = some l) (h : Serves apiURL get l.url bodies) :
      Serves apiURL get next (body :: bodies)

private theorem pages_empty (n : ℕ) (s : σ) : pages apiURL get each n "" s = .ok s := by
  cases n <;> rfl

/-- What one request does. -/
theorem pages_succ {body : β} {link : String} (hne : next ≠ "")
    (hget : get (fullURL apiURL next) = .ok (body, link)) (n : ℕ) (s : σ) :
    pages apiURL get each (n + 1) next s =
      each s body >>= fun s => pages apiURL get each n (nextPageURL link) s := by
  rw [pages, if_neg hne, hget]
  dsimp only
  cases each s body <;> rfl

private theorem pages_of_serves {bodies : List β} (h : Serves apiURL get next bodies) (n : ℕ)
    (s : σ) :
    pages apiURL get each n next s = (bodies.take n).foldlM each s := by
  induction h generalizing n s with
  | @last next body ls hne hget hlast =>
    cases n with
    | zero => rfl
    | succ n =>
      -- no link to a next page: the loop ends, however many requests are left
      have hend : nextPageURL (header ls) = "" := by
        rw [nextPageURL_header, hlast]
        rfl
      rw [pages_succ hne hget, hend, List.take_succ_cons, List.take_nil, List.foldlM_cons]
      simp only [pages_empty, List.foldlM_nil]
      rfl
  | @page next body ls l bodies hne hget hnext h ih =>
    cases n with
    | zero => rfl
    | succ n =>
      have hurl : nextPageURL (header ls) = l.url := by
        rw [nextPageURL_header, hnext]
        rfl
      rw [pages_succ hne hget, hurl, List.take_succ_cons, List.foldlM_cons]
      exact congrArg _ (funext fun s => ih n s)

/-- **Listings over several pages.** From a server that gives each page a link to the next one,
`getPaged` takes the first hundred pages in their order, each once; an error of a page ends it. -/
theorem getPaged_of_serves {bodies : List β} (h : Serves apiURL get next bodies) :
    getPaged apiURL get next each s = (bodies.take 100).foldlM each s :=
  pages_of_serves h 100 s

theorem foldlM_collect {items : β → List α} (bodies : List β) (out : List α)
    (h : ∀ body ∈ bodies, decode body = .ok (items body)) :
    bodies.foldlM (collect decode) out = .ok (out ++ bodies.flatMap items) := by
  induction bodies generalizing out with
  | nil =>
    rw [List.flatMap_nil, List.append_nil]
    rfl
  | cons body bodies ih =>
    obtain ⟨hbody, hbodies⟩ := List.forall_mem_cons.mp h
    have hcollect : collect decode out body = .ok (out ++ items body) := by
      rw [collect, hbody]
      rfl
    rw [List.foldlM_cons, hcollect, List.flatMap_cons, ← List.append_assoc]
    exact ih (out ++ items body) hbodies

/-- A list of repositories has those of the first hundred pages, in their order. -/
theorem listRepos_of_serves {esc : String → String} {owner : String} {isOrg : Bool}
    {bodies : List β}
    {items : β → List α} (h : Serves apiURL get (reposPath esc owner isOrg) bodies)
    (hdecode : ∀ body ∈ bodies.take 100, decode body = .ok (items body)) :
    listRepos apiURL get esc decode owner isOrg = .ok ((bodies.take 100).flatMap items) := by
  have hpage : ∀ body ∈ bodies.take 100,
      (decode body).mapError ("GitHub: decode repos: " ++ ·) = .ok (items body) := by
    intro body hbody
    rw [hdecode body hbody]
    rfl
  rw [listRepos, getPaged, pages_of_serves h, foldlM_collect _ _ hpage]
  rfl

end Pages

namespace Example

/-- The relation of the page that follows. -/
def next : Word := ⟨"next", by decide, List.forall_iff_forall_mem.mp (by decide)⟩

/-- The relation of the last page. -/
def last : Word := ⟨"last", by decide, List.forall_iff_forall_mem.mp (by decide)⟩

/-- The link to the second of two pages. -/
def second : Link where
  url := "https://api.github.com/user/repos?page=2"
  rel := next
  rels := [last]
  url_plain := List.forall_iff_forall_mem.mp (by decide)
  rel_plain := fun w hw => by
    rcases List.mem_cons.mp hw with rfl | hw
    · exact List.forall_iff_forall_mem.mp (by decide)
    · rw [List.mem_singleton.mp hw]
      exact List.forall_iff_forall_mem.mp (by decide)

/-- A server with two pages. -/
def serve (url : String) : Except String (List String × String) :=
  if url = fullURL defaultAPIURL (reposPath id "" false) then .ok (["a", "b"], header [second])
  else if url = second.url then .ok (["c"], header [])
  else .error "GitHub: not found (404)"

end Example

/-- A server with two pages. -/
theorem getPaged_of_serves_two :
    getPaged defaultAPIURL Example.serve (reposPath id "" false) (collect .ok) [] =
      ([["a", "b"], ["c"]].take 100).foldlM (collect .ok) [] :=
  have hlast : Example.serve (fullURL defaultAPIURL Example.second.url) =
    .ok (["c"], header []) := by decide +kernel
  getPaged_of_serves (.page (by decide) (if_pos rfl) rfl (.last (by decide) hlast rfl))

end Dockhand.Github
