import Dockhand.Go.Dict
import Dockhand.Go.Path
import Dockhand.Go.Reencode
import Mathlib.Data.Bool.AllAny
import Mathlib.Data.List.Lex
import Mathlib.Data.List.Nodup

/-!
# Login challenges

A registry answers with a `Bearer` challenge that names the place of its tokens. The built-in
registry reads the parameters of the challenge with `parseChallenge`, which cuts at every comma; the
Docker operations read them with `splitChallenge`, which knows quotes but writes the code points it
reads. `Challenge.alike_iff` says which challenges both read right.

Headers are bytes, each written as the character of its code. `lower` is `unicode.ToLower` of the
code points that are not ASCII.
-/

namespace Dockhand.Registry.Bearer

open Go

/-! ### The two parsers -/

/-- `strings.Trim` of quotes. -/
def trimQuotes (s : List Char) : List Char := (s.dropWhile (· = '"')).rdropWhile (· = '"')

/-- A part of a challenge as `parseChallenge` reads it. -/
def readPart (lower : ℕ → ℕ) (part : List Char) : Option (List Char × List Char) :=
  (cutList ['='] (trimSpaceUtf8 part)).map fun (k, v) => (toLowerUtf8 lower k, trimQuotes v)

/-- The entries of a loop, the last one of a key wins. -/
def ofEntries (es : List (List Char × List Char)) : Dict (List Char) (List Char) :=
  es.foldl (fun out e => out.set e.1 e.2) ∅

/-- `parseChallenge`. -/
def parseChallenge (lower : ℕ → ℕ) (s : List Char) : Dict (List Char) (List Char) :=
  ofEntries ((s.splitOn ',').filterMap (readPart lower))

/-- What `checkLogin` reads of a challenge. -/
def loginParams (lower : ℕ → ℕ) (header : List Char) : Dict (List Char) (List Char) :=
  parseChallenge lower (header.drop "bearer".toList.length)

/-- The parts that are complete, the current one, and whether it is in quotes. -/
structure Split where
  out : List (List Char) := []
  cur : List Char := []
  inQ : Bool := false

/-- One code point of `splitChallenge`. -/
def splitStep (st : Split) (r : ℕ) : Split :=
  if r = '"'.toNat then { st with inQ := !st.inQ, cur := st.cur ++ encodeRune r }
  else if r = ','.toNat ∧ st.inQ = false then { st with out := st.out ++ [st.cur], cur := [] }
  else { st with cur := st.cur ++ encodeRune r }

/-- The parts, with the last one unless it is empty. -/
def Split.parts (st : Split) : List (List Char) :=
  if st.cur = [] then st.out else st.out ++ [st.cur]

/-- `splitChallenge`. -/
def splitChallenge (s : List Char) : List (List Char) := ((runes 0 s).foldl splitStep {}).parts

/-- A part of a challenge as `registryToken` reads it. -/
def readParam (lower : ℕ → ℕ) (part : List Char) : Option (List Char × List Char) :=
  (cutList ['='] part).map fun (k, v) =>
    (toLowerUtf8 lower (trimSpaceUtf8 k), trimQuotes (trimSpaceUtf8 v))

/-- What `registryToken` reads of a challenge. -/
def tokenParams (lower : ℕ → ℕ) (header : List Char) : Dict (List Char) (List Char) :=
  ofEntries ((splitChallenge (header.drop "bearer ".toList.length)).filterMap (readParam lower))

/-! ### Challenges -/

/-- A character of a token. -/
def isTchar (c : Char) : Bool := c.isAlphanum || c ∈ "!#$%&'*+-.^_`|~".toList

/-- A token: characters that need no quotes. -/
structure Token where
  text : List Char
  nonempty : text ≠ []
  chars : ∀ c ∈ text, isTchar c = true

/-- The text between quotes, without escapes. -/
structure Quoted where
  text : List Char
  chars : ∀ c ∈ text, c ≠ '"' ∧ c ≠ '\\'

/-- White space. -/
structure Blanks where
  text : List Char
  blank : ∀ c ∈ text, isBlank c = true

/-- A value with or without quotes. -/
inductive Value where
  | token (t : Token)
  | quoted (q : Quoted)

/-- The value as it is written. -/
def Value.text : Value → List Char
  | token t => t.text
  | quoted q => '"' :: (q.text ++ ['"'])

/-- The value without its quotes. -/
def Value.content : Value → List Char
  | token t => t.text
  | quoted q => q.text

/-- A parameter with the blanks that may stand around its parts. -/
structure Param where
  before : Blanks
  name : Token
  beforeEq : Blanks
  afterEq : Blanks
  value : Value
  after : Blanks

/-- The name in lower case. -/
def Param.key (p : Param) : List Char := p.name.text.map Char.toLower

/-- The parameter around the text of its value. -/
def Param.around (p : Param) (value : List Char) : List Char :=
  p.before.text ++ (p.name.text ++ p.beforeEq.text ++ '=' :: (p.afterEq.text ++ value)) ++
    p.after.text

/-- The parameter as it is written. -/
def Param.text (p : Param) : List Char := p.around p.value.text

/-- The parameters with commas between them. -/
def body (params : List Param) : List Char := [','].intercalate (params.map Param.text)

/-- A `Bearer` challenge. -/
structure Challenge where
  scheme : List Char
  bearer : scheme.map Char.toLower = "bearer".toList
  params : List Param
  nonempty : params ≠ []
  distinct : (params.map Param.key).Nodup

namespace Challenge

/-- The header: the scheme, a space, and the parameters. -/
def header (c : Challenge) : List Char := c.scheme ++ ' ' :: body c.params

/-- The parameters: each name in lower case with its unquoted value. -/
def meaning (c : Challenge) : Dict (List Char) (List Char) :=
  ofEntries (c.params.map fun p => (p.key, p.value.content))

/-- Both parsers read the parameters. -/
structure Alike (lower : ℕ → ℕ) (c : Challenge) : Prop where
  same : loginParams lower c.header = tokenParams lower c.header
  login : loginParams lower c.header = c.meaning
  token : tokenParams lower c.header = c.meaning


end Challenge

/-! ### Entries -/

section Entries

variable {es : List (List Char × List Char)} {k v : List Char}

private theorem ofEntries_concat (es : List (List Char × List Char)) (e : List Char × List Char) :
    ofEntries (es ++ [e]) = (ofEntries es).set e.1 e.2 := by
  rw [ofEntries, List.foldl_append]
  rfl

private theorem mem_of_get?_ofEntries (h : (ofEntries es).get? k = some v) : (k, v) ∈ es := by
  induction es using List.reverseRecOn with
  | nil => cases h
  | append_singleton es e ih =>
    rw [ofEntries_concat, Dict.get?_set] at h
    split_ifs at h with hk
    · obtain rfl := Option.some.inj h
      subst hk
      simp
    · exact List.mem_append_left _ (ih h)

private theorem get?_ofEntries_ne_none (h : k ∈ es.map Prod.fst) :
    (ofEntries es).get? k ≠ none := by
  induction es using List.reverseRecOn with
  | nil => cases h
  | append_singleton es e ih =>
    rw [ofEntries_concat, Dict.get?_set]
    split_ifs with hk
    · exact Option.some_ne_none _
    · rw [List.map_append, List.mem_append] at h
      exact ih (h.resolve_right fun he => hk (List.mem_singleton.mp he))

/-- When no key comes twice, every entry is kept. -/
theorem get?_ofEntries (hes : (es.map Prod.fst).Nodup) (h : (k, v) ∈ es) :
    (ofEntries es).get? k = some v := by
  obtain ⟨v', hv'⟩ := Option.ne_none_iff_exists'.mp (get?_ofEntries_ne_none (List.mem_map_of_mem h))
  have hmem := mem_of_get?_ofEntries hv'
  have heq : (k, v) = (k, v') := List.inj_on_of_nodup_map hes h hmem rfl
  rw [hv', (Prod.mk.inj heq).2]

end Entries

/-! ### Characters -/

variable {x : Char} {s t : List Char}

private theorem isTchar_bounds (h : isTchar x = true) :
    33 ≤ x.toNat ∧ x.toNat ≤ 126 ∧ x ≠ ',' ∧ x ≠ '=' ∧ x ≠ '"' := by
  rw [isTchar, Bool.or_eq_true, decide_eq_true_eq] at h
  rcases h with h | h
  · have hrange := bounds_of_isAlphanum h
    refine ⟨by omega, by omega, ?_, ?_, ?_⟩ <;> rintro rfl <;> revert hrange <;> decide
  · have hall : "!#$%&'*+-.^_`|~".toList.all (fun x => decide (33 ≤ x.toNat ∧ x.toNat ≤ 126 ∧
        x ≠ ',' ∧ x ≠ '=' ∧ x ≠ '"')) = true := by decide
    exact of_decide_eq_true (List.all_eq_true.mp hall x h)

private theorem Token.ascii (t : Token) (h : x ∈ t.text) : x.toNat < 128 := by
  have := isTchar_bounds (t.chars x h)
  omega

private theorem Token.isSpace_eq_false (t : Token) (h : x ∈ t.text) : isSpace x = false :=
  have hx := isTchar_bounds (t.chars x h)
  isSpace_eq_false_of_bounds hx.1 hx.2.1

private theorem Token.not_mem (t : Token) : ',' ∉ t.text ∧ '=' ∉ t.text ∧ '"' ∉ t.text :=
  ⟨fun h => (isTchar_bounds (t.chars _ h)).2.2.1 rfl,
    fun h => (isTchar_bounds (t.chars _ h)).2.2.2.1 rfl,
    fun h => (isTchar_bounds (t.chars _ h)).2.2.2.2 rfl⟩

private theorem Blanks.not_mem (b : Blanks) (hx : isBlank x = false) : x ∉ b.text := fun h =>
  absurd (b.blank x h) (by rw [hx]; exact Bool.false_ne_true)

private theorem Blanks.ascii (b : Blanks) (h : x ∈ b.text) : x.toNat < 128 :=
  (ascii_of_isBlank (b.blank x h)).1

private theorem toNat_toLower :
    x.toLower.toNat = if 65 ≤ x.toNat ∧ x.toNat ≤ 90 then x.toNat + 32 else x.toNat := by
  by_cases h : 65 ≤ x.toNat ∧ x.toNat ≤ 90
  · have hlower : x.toLower.val = x.val + 32 :=
      congrArg Char.val (dif_pos (c := x.val ≥ 'A'.val ∧ x.val ≤ 'Z'.val) h)
    have hval : x.val.toNat = x.toNat := rfl
    rw [if_pos h, show x.toLower.toNat = x.toLower.val.toNat from rfl, hlower, UInt32.toNat_add,
      hval]
    exact Nat.mod_eq_of_lt (show x.toNat + 32 < 2 ^ 32 by omega)
  · rw [if_neg h, toLower_of_not_capital h]

private theorem toLowerUtf8_of_ascii (lower : ℕ → ℕ) (h : ∀ x ∈ s, x.toNat < 128) :
    toLowerUtf8 lower s = s.map Char.toLower := by
  rw [toLowerUtf8, runes_of_ascii h, List.flatMap_map, ← List.flatMap_pure_eq_map]
  refine List.flatMap_congr fun x hx => ?_
  have hlt : x.toLower.toNat < 128 := by
    have := h x hx
    rw [toNat_toLower]
    split <;> omega
  rw [if_pos (h x hx), ← toNat_toLower, encodeRune_toNat hlt]
  rfl

private theorem isBlank_eq_false (h : 33 ≤ x.toNat) : isBlank x = false := by
  rw [Bool.eq_false_iff]
  intro hblank
  rw [isBlank, Bool.or_eq_true, decide_eq_true_eq, decide_eq_true_eq] at hblank
  rcases hblank with rfl | rfl <;> exact absurd h (by decide)

private theorem toLower_of_isBlank (h : isBlank x = true) : x.toLower = x := by
  rw [isBlank, Bool.or_eq_true, decide_eq_true_eq, decide_eq_true_eq] at h
  rcases h with rfl | rfl <;> rfl

private theorem Param.isBlank_of_mem_key (p : Param) (h : x ∈ p.key) : isBlank x = false := by
  obtain ⟨y, hy, rfl⟩ := List.mem_map.mp h
  have hbounds := isTchar_bounds (p.name.chars y hy)
  refine isBlank_eq_false ?_
  rw [toNat_toLower]
  split <;> omega

/-! ### Quotes -/

private theorem trimQuotes_of_not_mem (h : '"' ∉ s) : trimQuotes s = s := by
  have hne : ∀ x ∈ s, ¬ decide (x = '"') = true := fun x hx hq => h (of_decide_eq_true hq ▸ hx)
  have hdrop : s.dropWhile (· = '"') = s := by
    cases s with
    | nil => rfl
    | cons x s => exact List.dropWhile_cons_of_neg (hne x List.mem_cons_self)
  rw [trimQuotes, hdrop, List.rdropWhile_eq_self_iff]
  exact fun hnil => hne _ (List.getLast_mem hnil)

private theorem trimQuotes_quoted (h : '"' ∉ s) : trimQuotes ('"' :: (s ++ ['"'])) = s := by
  have hdrop : ('"' :: (s ++ ['"'])).dropWhile (· = '"') = if s = [] then [] else s ++ ['"'] := by
    cases s with
    | nil => rfl
    | cons x s =>
      have hx : ¬ decide (x = '"') = true := fun hq => h (of_decide_eq_true hq ▸ List.mem_cons_self)
      rw [List.dropWhile_cons_of_pos rfl, List.cons_append,
        List.dropWhile_cons_of_neg (by exact hx), if_neg (List.cons_ne_nil _ _)]
  rw [trimQuotes, hdrop]
  split
  next hnil => rw [hnil, List.rdropWhile_nil]
  next =>
    rw [List.rdropWhile_concat_pos _ _ _ rfl, List.rdropWhile_eq_self_iff]
    exact fun hnil hq => h (of_decide_eq_true hq ▸ List.getLast_mem hnil)

/-- Only quotes are trimmed. -/
theorem filter_trimQuotes (s : List Char) :
    (trimQuotes s).filter (· ≠ '"') = s.filter (· ≠ '"') := by
  have hdrop : ∀ s : List Char, (s.dropWhile (· = '"')).filter (· ≠ '"') = s.filter (· ≠ '"') := by
    intro s
    induction s with
    | nil => rfl
    | cons x s ih =>
      by_cases hx : x = '"'
      · subst hx
        exact ih
      · rw [List.dropWhile_cons_of_neg (by simpa using hx)]
  rw [trimQuotes, List.rdropWhile, List.filter_reverse, hdrop, ← List.filter_reverse,
    List.reverse_reverse, hdrop]

private theorem Value.not_mem_content (v : Value) : '"' ∉ v.content := by
  cases v with
  | token t => exact t.not_mem.2.2
  | quoted q => exact fun h => (q.chars _ h).1 rfl

private theorem Value.trimQuotes_text (v : Value) : trimQuotes v.text = v.content := by
  cases v with
  | token t => exact trimQuotes_of_not_mem t.not_mem.2.2
  | quoted q => exact trimQuotes_quoted fun h => (q.chars _ h).1 rfl

private theorem Value.filter_content (v : Value) : v.content.filter (· ≠ '"') = v.content :=
  List.filter_eq_self.mpr fun _ hx => decide_eq_true fun hq => v.not_mem_content (hq ▸ hx)

private theorem Value.filter_text (v : Value) : v.text.filter (· ≠ '"') = v.content := by
  rw [← filter_trimQuotes, v.trimQuotes_text, v.filter_content]

/-- Blanks before a value stay in front of it. -/
theorem trimQuotes_blanks (b : Blanks) (v : Value) :
    trimQuotes (b.text ++ v.text) = v.content ↔ b.text = [] := by
  constructor
  · intro h
    have hb : b.text.filter (· ≠ '"') = b.text :=
      List.filter_eq_self.mpr fun x hx => decide_eq_true fun hq => b.not_mem (by decide) (hq ▸ hx)
    have hfilter := congrArg (List.filter (· ≠ '"')) h
    rw [filter_trimQuotes, List.filter_append, hb, v.filter_text, v.filter_content] at hfilter
    exact List.append_left_eq_self.mp hfilter
  · intro h
    rw [h, List.nil_append, v.trimQuotes_text]

/-! ### Parts -/

private theorem Token.dark (t : Token) : Dark t.text :=
  dark_of_forall t.nonempty fun _ hx => ⟨t.ascii hx, t.isSpace_eq_false hx⟩

private theorem Value.dark (v : Value) : Dark v.text := by
  cases v with
  | token t => exact t.dark
  | quoted q => exact ⟨⟨'"', _, rfl, by decide⟩, ⟨'"' :: q.text, '"', rfl, by decide⟩⟩

/-- The name with what stands before the equals sign. -/
theorem Param.toLowerUtf8_name (lower : ℕ → ℕ) (p : Param) :
    toLowerUtf8 lower (p.name.text ++ p.beforeEq.text) = p.key ++ p.beforeEq.text := by
  have hascii : ∀ x ∈ p.name.text ++ p.beforeEq.text, x.toNat < 128 := fun x hx =>
    (List.mem_append.mp hx).elim p.name.ascii p.beforeEq.ascii
  have hblanks : p.beforeEq.text.map Char.toLower = p.beforeEq.text :=
    (List.map_congr_left fun x hx => toLower_of_isBlank (p.beforeEq.blank x hx)).trans
      (List.map_id' _)
  rw [toLowerUtf8_of_ascii lower hascii, List.map_append, hblanks]
  rfl

private theorem Param.readPart_text (lower : ℕ → ℕ) (p : Param) :
    readPart lower p.text =
      some (p.key ++ p.beforeEq.text, trimQuotes (p.afterEq.text ++ p.value.text)) := by
  have heq : '=' ∉ p.name.text ++ p.beforeEq.text := fun h =>
    (List.mem_append.mp h).elim p.name.not_mem.2.1 (p.beforeEq.not_mem (by decide))
  have hdark := p.name.dark.append p.value.dark (p.beforeEq.text ++ '=' :: p.afterEq.text)
  have htrim : trimSpaceUtf8 p.text =
      p.name.text ++ p.beforeEq.text ++ '=' :: (p.afterEq.text ++ p.value.text) := by
    have hpad := trimSpaceUtf8_pad p.before.blank p.after.blank hdark
    simpa [Param.text, Param.around] using hpad
  rw [readPart, htrim, cutList_append heq]
  exact congrArg (fun k => some (k, _)) (p.toLowerUtf8_name lower)

private theorem Param.readParam_text (lower : ℕ → ℕ) (p : Param) :
    readParam lower p.text = some (p.key, p.value.content) := by
  have heq : '=' ∉ p.before.text ++ p.name.text ++ p.beforeEq.text := by
    simp [p.before.not_mem, p.name.not_mem.2.1, p.beforeEq.not_mem, isBlank]
  have htext : p.text = p.before.text ++ p.name.text ++ p.beforeEq.text ++
      '=' :: (p.afterEq.text ++ p.value.text ++ p.after.text) := by
    simp [Param.text, Param.around]
  have hname : toLowerUtf8 lower p.name.text = p.key :=
    toLowerUtf8_of_ascii lower fun x hx => p.name.ascii hx
  rw [readParam, htext, cutList_append heq]
  change some (toLowerUtf8 lower (trimSpaceUtf8 _), trimQuotes (trimSpaceUtf8 _)) = _
  rw [trimSpaceUtf8_pad p.before.blank p.beforeEq.blank p.name.dark,
    trimSpaceUtf8_pad p.afterEq.blank p.after.blank p.value.dark, hname, p.value.trimQuotes_text]

/-! ### The parser that knows quotes -/

/-- The value as it comes through a loop over its code points. -/
def Value.recoded : Value → Value
  | token t => token t
  | quoted q => quoted ⟨reencode q.text, fun x hx => by
      constructor
      · rintro rfl
        exact (q.chars _ (mem_of_mem_reencode (by decide) hx)).1 rfl
      · rintro rfl
        exact (q.chars _ (mem_of_mem_reencode (by decide) hx)).2 rfl⟩

/-- The parameter with its value as it is after a conversion to runes and back. -/
def Param.recoded (p : Param) : Param := { p with value := p.value.recoded }

/-- Code points that end no part. -/
theorem foldl_splitStep (out : List (List Char)) (cur : List Char) {inQ : Bool} {rs : List ℕ}
    (h : ∀ r ∈ rs, r ≠ '"'.toNat ∧ (inQ = false → r ≠ ','.toNat)) :
    rs.foldl splitStep ⟨out, cur, inQ⟩ = ⟨out, cur ++ rs.flatMap encodeRune, inQ⟩ := by
  induction rs generalizing cur with
  | nil => simp
  | cons r rs ih =>
    obtain ⟨⟨hq, hcomma⟩, hrs⟩ := List.forall_mem_cons.mp h
    have hstep : splitStep ⟨out, cur, inQ⟩ r = ⟨out, cur ++ encodeRune r, inQ⟩ := by
      rw [splitStep, if_neg hq, if_neg fun hc => hcomma hc.2 hc.1]
    rw [List.foldl_cons, hstep, ih _ hrs, List.flatMap_cons, List.append_assoc]

private theorem foldl_runes_plain (out : List (List Char)) (cur : List Char) {inQ : Bool}
    (hq : '"' ∉ s) (hcomma : inQ = false → ',' ∉ s) :
    (runes 0 s).foldl splitStep ⟨out, cur, inQ⟩ = ⟨out, cur ++ reencode s, inQ⟩ :=
  foldl_splitStep out cur fun r hr =>
    ⟨fun h => hq (mem_of_mem_runes (by decide) (h ▸ hr)),
      fun hin h => hcomma hin (mem_of_mem_runes (by decide) (h ▸ hr))⟩

private theorem foldl_runes_quoted (out : List (List Char)) (cur : List Char) {a c : List Char}
    (ha : '"' ∉ a ∧ ',' ∉ a) (hs : '"' ∉ s) (hc : '"' ∉ c ∧ ',' ∉ c) :
    (runes 0 (a ++ '"' :: (s ++ '"' :: c))).foldl splitStep ⟨out, cur, false⟩ =
      ⟨out, cur ++ reencode (a ++ '"' :: (s ++ '"' :: c)), false⟩ := by
  have hquote : '"'.toNat < 128 := by decide
  have hmark : encodeRune '"'.toNat = ['"'] := encodeRune_toNat hquote
  rw [runes_append hquote (Nat.zero_le _), runes_append hquote (Nat.zero_le _), List.foldl_append,
    foldl_runes_plain out cur ha.1 fun _ => ha.2, List.foldl_cons, splitStep, if_pos rfl,
    List.foldl_append, foldl_runes_plain _ _ hs (by simp), List.foldl_cons, splitStep, if_pos rfl,
    foldl_runes_plain _ _ hc.1 fun _ => hc.2, hmark, reencode_append hquote,
    reencode_append hquote]
  simp

/-- What stands before the value, without the quotes and commas of a value. -/
theorem Param.exists_around (p : Param) : ∃ a c, (∀ v, p.around v = a ++ (v ++ c)) ∧
    (∀ x ∈ a ++ c, x.toNat < 128 ∧ x ≠ '"' ∧ x ≠ ',') := by
  refine ⟨p.before.text ++ p.name.text ++ p.beforeEq.text ++ '=' :: p.afterEq.text, p.after.text,
    fun v => by simp [Param.around], fun x hx => ?_⟩
  have hblank : ∀ b : Blanks, x ∈ b.text → x.toNat < 128 ∧ x ≠ '"' ∧ x ≠ ',' := fun b hb =>
    ⟨b.ascii hb, by rintro rfl; exact b.not_mem (by decide) hb,
      by rintro rfl; exact b.not_mem (by decide) hb⟩
  have hname : x ∈ p.name.text → x.toNat < 128 ∧ x ≠ '"' ∧ x ≠ ',' := fun h =>
    ⟨p.name.ascii h, by rintro rfl; exact p.name.not_mem.2.2 h,
      by rintro rfl; exact p.name.not_mem.1 h⟩
  simp only [List.mem_append, List.mem_cons] at hx
  rcases hx with (((hx | hx) | hx) | rfl | hx) | hx
  · exact hblank _ hx
  · exact hname hx
  · exact hblank _ hx
  · decide
  · exact hblank _ hx
  · exact hblank _ hx

private theorem Value.reencode_text (v : Value) : reencode v.text = v.recoded.text := by
  cases v with
  | token t => exact reencode_of_ascii fun _ hx => t.ascii hx
  | quoted q =>
    have hquote : ∀ x ∈ ['"'], x.toNat < 128 := List.all_iff_forall_prop.mp (by decide)
    calc reencode (['"'] ++ (q.text ++ ['"']))
        = ['"'] ++ (reencode q.text ++ ['"']) := by
          rw [reencode_ascii_append hquote, reencode_append_ascii hquote]

private theorem Param.foldl_runes_text (p : Param) (out : List (List Char)) (cur : List Char) :
    (runes 0 p.text).foldl splitStep ⟨out, cur, false⟩ = ⟨out, cur ++ p.recoded.text, false⟩ := by
  obtain ⟨a, c, haround, hplain⟩ := p.exists_around
  have ha := fun x hx => hplain x (List.mem_append_left c hx)
  have hc := fun x hx => hplain x (List.mem_append_right a hx)
  have hrecoded : p.recoded.text = reencode p.text := by
    calc p.around p.value.recoded.text = a ++ (reencode p.value.text ++ c) := by
          rw [haround, p.value.reencode_text]
      _ = reencode (p.around p.value.text) := by
          rw [haround, reencode_ascii_append fun x hx => (ha x hx).1,
            reencode_append_ascii fun x hx => (hc x hx).1]
  have hnot : ∀ s : List Char, (∀ x ∈ s, x.toNat < 128 ∧ x ≠ '"' ∧ x ≠ ',') → '"' ∉ s ∧ ',' ∉ s :=
    fun s hs => ⟨fun h => (hs _ h).2.1 rfl, fun h => (hs _ h).2.2 rfl⟩
  rw [hrecoded, Param.text, haround]
  cases p.value with
  | token t =>
    refine foldl_runes_plain out cur ?_ fun _ => ?_
    · simp [Value.text, (hnot a ha).1, (hnot c hc).1, t.not_mem.2.2]
    · simp [Value.text, (hnot a ha).2, (hnot c hc).2, t.not_mem.1]
  | quoted q =>
    have hq : '"' ∉ q.text := fun h => (q.chars _ h).1 rfl
    simpa [Value.text] using foldl_runes_quoted out cur (hnot a ha) hq (hnot c hc)

private theorem Param.text_ne_nil (p : Param) : p.text ≠ [] := by
  simp [Param.text, Param.around]

private theorem body_cons (p q : Param) (ps : List Param) :
    body (p :: q :: ps) = p.text ++ ',' :: body (q :: ps) := by
  simp [body, List.intercalate_cons_cons]

private theorem parts_foldl_runes_body (out : List (List Char)) (p : Param) (ps : List Param) :
    ((runes 0 (body (p :: ps))).foldl splitStep ⟨out, [], false⟩).parts =
      out ++ (p :: ps).map fun p => p.recoded.text := by
  induction ps generalizing out p with
  | nil =>
    have hbody : body [p] = p.text := by simp [body, List.intercalate]
    rw [hbody, p.foldl_runes_text, Split.parts, List.nil_append, if_neg p.recoded.text_ne_nil]
    rfl
  | cons q ps ih =>
    have hcomma : ∀ cur, splitStep ⟨out, cur, false⟩ ','.toNat = ⟨out ++ [cur], [], false⟩ :=
      fun cur => by rw [splitStep, if_neg (by decide), if_pos ⟨rfl, rfl⟩]
    rw [body_cons, runes_append (by decide) (Nat.zero_le _), List.foldl_append,
      p.foldl_runes_text, List.nil_append, List.foldl_cons, hcomma, ih]
    simp

private theorem splitChallenge_body {ps : List Param} (hne : ps ≠ []) :
    splitChallenge (body ps) = ps.map fun p => p.recoded.text := by
  obtain ⟨p, ps, rfl⟩ := List.exists_cons_of_ne_nil hne
  exact parts_foldl_runes_body [] p ps

private theorem Value.content_recoded (v : Value) : v.recoded.content = reencode v.content := by
  cases v with
  | token t => exact (reencode_of_ascii fun _ hx => t.ascii hx).symm
  | quoted q => rfl

namespace Challenge

private theorem drop_header (c : Challenge) : c.header.drop 7 = body c.params ∧
    c.header.drop 6 = ' ' :: body c.params := by
  have hlength : c.scheme.length = 6 := by
    rw [← List.length_map Char.toLower, c.bearer]
    decide
  constructor
  · rw [header, List.drop_append, hlength, List.drop_eq_nil_of_le (by omega)]
    rfl
  · rw [header, List.drop_append, hlength, List.drop_eq_nil_of_le (by omega)]
    rfl

private theorem tokenParams_header (lower : ℕ → ℕ) (c : Challenge) : tokenParams lower c.header =
    ofEntries (c.params.map fun p => (p.key, reencode p.value.content)) := by
  have hread : (fun p : Param => readParam lower p.recoded.text) =
      fun p => some (p.key, reencode p.value.content) := by
    funext p
    rw [p.recoded.readParam_text, ← p.value.content_recoded]
    rfl
  have hdrop : c.header.drop "bearer ".toList.length = body c.params := c.drop_header.1
  rw [tokenParams, hdrop, splitChallenge_body c.nonempty, List.filterMap_map]
  change ofEntries (c.params.filterMap fun p => readParam lower p.recoded.text) = _
  rw [hread]
  exact congrArg ofEntries (congrFun List.filterMap_eq_map' _)

end Challenge

/-! ### The parser that cuts at every comma -/

/-- A value of `parseChallenge` has no comma. -/
theorem not_mem_of_get?_parseChallenge {lower : ℕ → ℕ} {s k v : List Char}
    (h : (parseChallenge lower s).get? k = some v) : ',' ∉ v := by
  obtain ⟨part, hpart, hread⟩ := List.mem_filterMap.mp (mem_of_get?_ofEntries h)
  rw [readPart, Option.map_eq_some_iff] at hread
  obtain ⟨⟨k', v'⟩, hcut, hkv⟩ := hread
  obtain ⟨-, rfl⟩ := Prod.mk.inj hkv
  intro hv
  have hv' : ',' ∈ v' :=
    (List.dropWhile_sublist _).subset ((List.rdropWhile_prefix _ _).subset hv)
  have htrim : ',' ∈ trimSpaceUtf8 part := by
    rw [(eq_of_cutList hcut).1]
    exact List.mem_append_right _ (List.mem_cons_of_mem _ hv')
  exact not_mem_of_mem_splitOn hpart (mem_of_mem_trimSpaceUtf8 htrim)

private theorem Param.not_mem_text {p : Param} (h : ',' ∉ p.value.content) : ',' ∉ p.text := by
  obtain ⟨a, c, haround, hplain⟩ := p.exists_around
  have hac : ',' ∉ a ++ c := fun hmem => (hplain _ hmem).2.2 rfl
  have hvalue : ',' ∉ p.value.text := by
    cases hv : p.value with
    | token t => exact t.not_mem.1
    | quoted q => simpa [hv, Value.text, Value.content] using h
  rw [Param.text, haround]
  simp only [List.mem_append, not_or] at hac ⊢
  exact ⟨hac.1, hvalue, hac.2⟩

private theorem parseChallenge_body (lower : ℕ → ℕ) {ps : List Param} (hne : ps ≠ [])
    (h : ∀ p ∈ ps, ',' ∉ p.value.content) : parseChallenge lower (body ps) =
      ofEntries (ps.map fun p =>
        (p.key ++ p.beforeEq.text, trimQuotes (p.afterEq.text ++ p.value.text))) := by
  have hparts : ∀ s ∈ ps.map Param.text, ',' ∉ s := by
    rintro s hs
    obtain ⟨p, hp, rfl⟩ := List.mem_map.mp hs
    exact Param.not_mem_text (h p hp)
  have hread : readPart lower ∘ Param.text = fun p =>
      some (p.key ++ p.beforeEq.text, trimQuotes (p.afterEq.text ++ p.value.text)) :=
    funext (Param.readPart_text lower)
  rw [parseChallenge, body, List.splitOn_intercalate _ hparts (by simpa using hne),
    List.filterMap_map, hread]
  exact congrArg ofEntries (congrFun List.filterMap_eq_map' _)

namespace Challenge

private theorem loginParams_header (lower : ℕ → ℕ) (c : Challenge)
    (h : ∀ p ∈ c.params, ',' ∉ p.value.content) : loginParams lower c.header =
      ofEntries (c.params.map fun p =>
        (p.key ++ p.beforeEq.text, trimQuotes (p.afterEq.text ++ p.value.text))) := by
  obtain ⟨p, ps, hps⟩ := List.exists_cons_of_ne_nil c.nonempty
  rw [hps] at h ⊢
  -- the space behind the scheme is one more blank before the first name
  let first : Param := { p with before := ⟨' ' :: p.before.text,
    List.forall_mem_cons.mpr ⟨rfl, p.before.blank⟩⟩ }
  have hbody : ' ' :: body (p :: ps) = body (first :: ps) := by
    cases ps with
    | nil => simp [body, List.intercalate, first, Param.text, Param.around]
    | cons q ps => simp [body_cons, first, Param.text, Param.around]
  have hdrop : c.header.drop "bearer".toList.length = body (first :: ps) := by
    rw [← hbody, ← hps]
    exact c.drop_header.2
  have hfirst : ∀ q ∈ first :: ps, ',' ∉ q.value.content :=
    List.forall_mem_cons.mpr (List.forall_mem_cons.mp h)
  rw [loginParams, hdrop, parseChallenge_body lower (List.cons_ne_nil _ _) hfirst]
  rfl

private theorem get?_meaning (c : Challenge) {p : Param} (hp : p ∈ c.params) :
    c.meaning.get? p.key = some p.value.content := by
  refine get?_ofEntries ?_ (List.mem_map.mpr ⟨p, hp, rfl⟩)
  rw [List.map_map]
  exact c.distinct

variable {lower : ℕ → ℕ} {c : Challenge} {p : Param}

private theorem Alike.not_mem (h : Alike lower c) (hp : p ∈ c.params) : ',' ∉ p.value.content := by
  have hget := c.get?_meaning hp
  rw [← h.login] at hget
  exact not_mem_of_get?_parseChallenge hget

private theorem Alike.beforeEq (h : Alike lower c) (hp : p ∈ c.params) : p.beforeEq.text = [] := by
  have hmem : p.key ++ p.beforeEq.text ∈ (c.params.map fun p =>
      (p.key ++ p.beforeEq.text, trimQuotes (p.afterEq.text ++ p.value.text))).map Prod.fst := by
    rw [List.map_map]
    exact List.mem_map.mpr ⟨p, hp, rfl⟩
  obtain ⟨v, hv⟩ := Option.ne_none_iff_exists'.mp (get?_ofEntries_ne_none hmem)
  rw [← loginParams_header lower c fun _ hq => h.not_mem hq, h.login] at hv
  obtain ⟨q, -, hq⟩ := List.mem_map.mp (mem_of_get?_ofEntries hv)
  refine List.eq_nil_iff_forall_not_mem.mpr fun x hx => ?_
  -- the key would have a blank in it
  have hxq : x ∈ q.key := by
    rw [(Prod.mk.inj hq).1]
    exact List.mem_append_right _ hx
  have hblank := p.beforeEq.blank x hx
  rw [q.isBlank_of_mem_key hxq] at hblank
  cases hblank

private theorem Alike.afterEq (h : Alike lower c) (hp : p ∈ c.params) : p.afterEq.text = [] := by
  have hget := c.get?_meaning hp
  rw [← h.login, loginParams_header lower c fun _ hq => h.not_mem hq] at hget
  obtain ⟨q, hq, hkv⟩ := List.mem_map.mp (mem_of_get?_ofEntries hget)
  obtain ⟨hkey, hvalue⟩ := Prod.mk.inj hkv
  rw [h.beforeEq hq, List.append_nil] at hkey
  obtain rfl : q = p := List.inj_on_of_nodup_map c.distinct hq hp hkey
  exact (trimQuotes_blanks _ _).mp hvalue

private theorem Alike.isUtf8 (h : Alike lower c) (hp : p ∈ c.params) : IsUtf8 p.value.content := by
  have hget := c.get?_meaning hp
  rw [← h.token, tokenParams_header lower c] at hget
  obtain ⟨q, hq, hkv⟩ := List.mem_map.mp (mem_of_get?_ofEntries hget)
  obtain ⟨hkey, hvalue⟩ := Prod.mk.inj hkv
  obtain rfl : q = p := List.inj_on_of_nodup_map c.distinct hq hp hkey
  exact reencode_eq_self_iff.mp hvalue

private theorem alike_of_forall (h : ∀ p ∈ c.params, p.beforeEq.text = [] ∧ p.afterEq.text = [] ∧
    ',' ∉ p.value.content ∧ IsUtf8 p.value.content) : Alike lower c := by
  have hlogin : loginParams lower c.header = c.meaning := by
    rw [loginParams_header lower c fun p hp => (h p hp).2.2.1]
    refine congrArg ofEntries (List.map_congr_left fun p hp => ?_)
    obtain ⟨hbefore, hafter, -⟩ := h p hp
    rw [hbefore, hafter, List.append_nil, List.nil_append, p.value.trimQuotes_text]
  have htoken : tokenParams lower c.header = c.meaning := by
    rw [tokenParams_header]
    refine congrArg ofEntries (List.map_congr_left fun p hp => ?_)
    rw [reencode_eq_self_iff.mpr (h p hp).2.2.2]
  exact ⟨hlogin.trans htoken.symm, hlogin, htoken⟩

/-- **Both parsers read a challenge right exactly when** there are no blanks around its equals
signs, and its quoted values have no comma and are written in UTF-8. -/
theorem alike_iff (lower : ℕ → ℕ) (c : Challenge) : Alike lower c ↔
    ∀ p ∈ c.params, p.beforeEq.text = [] ∧ p.afterEq.text = [] ∧
      ∀ q, p.value = .quoted q → ',' ∉ q.text ∧ IsUtf8 q.text := by
  constructor
  · intro h p hp
    refine ⟨h.beforeEq hp, h.afterEq hp, fun q hq => ?_⟩
    have hcontent : p.value.content = q.text := by rw [hq]; rfl
    exact hcontent ▸ ⟨h.not_mem hp, h.isUtf8 hp⟩
  · refine fun h => alike_of_forall fun p hp => ?_
    obtain ⟨hbefore, hafter, hquoted⟩ := h p hp
    refine ⟨hbefore, hafter, ?_⟩
    cases hv : p.value with
    | token t =>
      have hself := reencode_of_ascii fun _ hx => t.ascii hx
      exact ⟨t.not_mem.1, reencode_eq_self_iff.mp hself⟩
    | quoted q => exact hquoted q hv

/-- A scope with a comma: `Bearer scope="repository:app:pull,push"`. -/
def pullPush : Challenge where
  scheme := "Bearer".toList
  bearer := by decide
  params := [{
    before := ⟨[], by simp⟩
    name := ⟨"scope".toList, by decide, List.all_iff_forall_prop.mp (by decide)⟩
    beforeEq := ⟨[], by simp⟩
    afterEq := ⟨[], by simp⟩
    value := .quoted ⟨"repository:app:pull,push".toList, List.all_iff_forall_prop.mp (by decide)⟩
    after := ⟨[], by simp⟩ }]
  nonempty := by simp
  distinct := by simp

/-- The login reads the scope up to its comma. -/
theorem not_alike_pullPush : ¬ Alike id pullPush := by
  intro h
  have hlogin : (loginParams id pullPush.header).get? "scope".toList =
      some "repository:app:pull".toList := by decide +kernel
  rw [h.login] at hlogin
  exact absurd hlogin (by decide +kernel)

end Challenge

end Dockhand.Registry.Bearer
