import Dockhand.Go.Regexp
import Dockhand.Go.Strings

/-!
# Variables as a `.env` file

`envFile` writes the variables of a deployment into the `.env` file beside its compose file, and
`ParseEnvExample` reads such a file. A value is written in double quotes when it has one of the
characters that `quoteEnv` looks for, and as it is otherwise. What is quoted is always read back.
Of the other values the reader trims every Unicode space at both ends, and it takes a backquote
for a quote, neither of which `quoteEnv` looks for.
-/

namespace Dockhand.GitDeploy.EnvFile

open Go

/-- A variable of a deployment. -/
structure KV where
  k : String
  v : String
  deriving DecidableEq, Repr

/-! ### Writing -/

/-- The characters for which `quoteEnv` quotes a value. -/
def quotedChars : String := " \t#\"'$\\\n"

/-- The replacer of `quoteEnv`. -/
def escapeChar (c : Char) : List Char :=
  if c = '\\' then ['\\', '\\']
  else if c = '"' then ['\\', '"']
  else if c = '\n' then ['\\', 'n']
  else if c = '$' then ['$', '$']
  else [c]

/-- `quoteEnv` quotes a .env value when needed. -/
def quoteEnv (v : String) : String :=
  if v = "" ∨ containsAny v quotedChars = false then v
  else "\"" ++ String.ofList (v.toList.flatMap escapeChar) ++ "\""

/-- `envFile` renders variables as a .env file. -/
def envFile (env : List KV) : String :=
  env.foldl (fun b kv => if kv.k = "" then b else b ++ (kv.k ++ "=" ++ quoteEnv kv.v ++ "\n")) ""

/-! ### Reading -/

/-- One entry of a .env.example file. -/
structure EnvVar where
  key : String
  value : String
  comment : String
  required : Bool
  deriving DecidableEq, Repr

/-- The class `[A-Za-z_]`, with which a name begins. -/
def wordStart (c : Char) : Bool := ('A' ≤ c && c ≤ 'Z') || ('a' ≤ c && c ≤ 'z') || c = '_'

/-- The class `[A-Za-z0-9_]`. -/
def wordPart (c : Char) : Bool := wordStart c || ('0' ≤ c && c ≤ '9')

/-- `envKeyRe`: the names that a line of the file may set. -/
def envKeyRe : Regexp :=
  .seq (.one wordStart) (.star (.one fun c => wordPart c || c = '.' || c = '-'))

section Placeholder
open Regexp

/-- `placeholderRe`, the values that an example file gives in place of real ones. -/
def placeholderRe : Regexp :=
  any [cat [fold "change", opt (oneOf "-_ ."), fold "me", star dot],
    cat [star dot, fold "changeme", star dot],
    cat [fold "replace", opt (oneOf "-_ ."), fold "me", star dot],
    fold "todo", fold "tbd", fold "fixme",
    atLeast (fold "x") 3, atLeast (lit "*") 3, lit "...", lit "…",
    cat [fold "your", oneOf "-_ .", star dot],
    cat [lit "<", star dot, lit ">"], cat [lit "\x7b\x7b", star dot, lit "\x7d\x7d"],
    cat [any [fold "set", fold "insert", fold "put", fold "enter", fold "add"], oneOf "-_ ",
      any [fold "your", fold "a", fold "the"], oneOf "-_ ", star dot],
    fold "secret", fold "password", fold "token", cat [fold "api", opt (oneOf "-_"), fold "key"]]

end Placeholder

/-- `isPlaceholder`: an empty value, or one that only says that a value belongs there. -/
def isPlaceholder (v : String) : Bool :=
  let v := trimSpace v
  if v = "" then true else placeholderRe.isMatch v.toList

/-- `isDecorative` reports comment lines made only of separator characters. -/
def isDecorative (s : String) : Bool := trim s "-=*#~_ " = ""

/-- What a character stands for after a backslash. -/
def unescape (c : Char) : Char := if c = 'n' then '\n' else if c = 't' then '\t' else c

/-- The text up to the closing quote and what follows it, `none` when there is no closing quote.
The flag says that the last character was a backslash that escapes the next one. -/
def readQuoted (q : Char) : Bool → List Char → Option (List Char × List Char)
  | _, [] => none
  | true, c :: cs => (readQuoted q false cs).map fun p => (unescape c :: p.1, p.2)
  | false, c :: cs =>
    if q = '"' ∧ c = '\\' ∧ cs ≠ [] then readQuoted q true cs
    else if c = q then some ([], cs)
    else (readQuoted q false cs).map fun p => (c :: p.1, p.2)

/-- What stands before and from the first `#` that follows a blank. -/
def findComment (prev : Char) : List Char → Option (List Char × List Char)
  | [] => none
  | c :: cs =>
    if c = '#' ∧ (prev = ' ' ∨ prev = '\t') then some ([], c :: cs)
    else (findComment c cs).map fun p => (c :: p.1, p.2)

/-- `parseEnvValue` returns the value and any inline comment. -/
def parseEnvValue (s : String) : String × String :=
  match s.toList with
  | [] => ("", "")
  | q :: cs =>
    if q = '"' ∨ q = '\'' ∨ q = '\x60' then
      match readQuoted q false cs with
      -- an unterminated quote is treated literally
      | none => (trimSpace s, "")
      | some (value, after) =>
        let rest := trimSpace (String.ofList after)
        (String.ofList value, if hasPrefix rest "#" then trimSpace (trimLeft rest "#") else "")
    else if q = '#' then ("", trimSpace (trimLeft s "#"))
    else
      match findComment q cs with
      | some (before, comment) => (trimSpace (String.ofList (q :: before)),
          trimSpace (trimLeft (String.ofList comment) "#"))
      | none => (s, "")

/-- The entries read so far, and the comment lines directly above the next line. -/
structure Reader where
  out : List EnvVar
  pending : List String

/-- A duplicate key keeps its first position. -/
def put (out : List EnvVar) (v : EnvVar) : List EnvVar :=
  match out.findIdx? (·.key = v.key) with
  | some i => out.set i v
  | none => out ++ [v]

/-- One line of the file. -/
def parseLine (st : Reader) (raw : String) : Reader :=
  let line := trimSpace raw
  if line = "" then { st with pending := [] }
  else if hasPrefix line "#" then
    let c := trimSpace (trimLeft line "#")
    if c ≠ "" ∧ isDecorative c = false then { st with pending := st.pending ++ [c] } else st
  else
    match cut (trimSpace (trimPrefix line "export ")) "=" with
    | none => { st with pending := [] }
    | some (key, rest) =>
      let key := trimSpace key
      if envKeyRe.isMatch key.toList then
        let (value, inline) := parseEnvValue (trimSpace rest)
        let comments := if inline ≠ "" then st.pending ++ [inline] else st.pending
        { out := put st.out ⟨key, value, " ".intercalate comments, isPlaceholder value⟩
          pending := [] }
      else { st with pending := [] }

/-- `ParseEnvExample` parses a .env.example file. -/
def parseEnvExample (b : String) : List EnvVar :=
  let text := trimPrefix (replaceAll b "\r\n" "\n") "\ufeff"
  ((splitChar text '\n').foldl parseLine ⟨[], []⟩).out

/-! ### What is read back -/

/-- The variables as they are read from their file, with `$$` replaced by `$` in the values that
were written in double quotes. -/
def readBack (env : List KV) : List KV :=
  (parseEnvExample (envFile env)).map fun e =>
    ⟨e.key, if env.any (fun kv => kv.k = e.key && hasPrefix (quoteEnv kv.v) "\"")
      then replaceAll e.value "$$" "$" else e.value⟩

/-- The name of a variable. -/
def Identifier (k : String) : Prop :=
  ∃ c r, k.toList = c :: r ∧ wordStart c = true ∧ ∀ d ∈ r, wordPart d = true

/-- The value has a character for which it is quoted, or it neither begins nor ends with a space
and does not begin with a backquote that another one closes. -/
def Legible (v : String) : Prop :=
  containsAny v quotedChars = true ∨
    (trimSpace v = v ∧ ¬ (hasPrefix v "\x60" = true ∧ '\x60' ∈ v.toList.tail))

instance (v : String) : Decidable (Legible v) := inferInstanceAs (Decidable (_ ∨ _))

/-! ### Values -/

/-- The value as the reader sees it: every `$` is written twice. -/
def dollars (v : List Char) : List Char := v.flatMap fun c => if c = '$' then ['$', '$'] else [c]

@[simp] theorem dollars_cons (c : Char) (v : List Char) :
    dollars (c :: v) = (if c = '$' then ['$', '$'] else [c]) ++ dollars v := rfl

/-- Reading stops at the first quote that is not escaped, with the value before it. -/
theorem readQuoted_escape (v after : List Char) :
    readQuoted '"' false (v.flatMap escapeChar ++ '"' :: after) = some (dollars v, after) := by
  induction v with
  | nil => simp [readQuoted, dollars]
  | cons c v ih =>
    rw [List.flatMap_cons, List.append_assoc, dollars_cons]
    by_cases hslash : c = '\\'
    · simp [hslash, escapeChar, readQuoted, ih, unescape]
    by_cases hquote : c = '"'
    · simp [hquote, escapeChar, readQuoted, ih, unescape]
    by_cases hline : c = '\n'
    · simp [hline, escapeChar, readQuoted, ih, unescape]
    by_cases hdollar : c = '$'
    · simp [hdollar, escapeChar, readQuoted, ih]
    · simp [hslash, hquote, hline, hdollar, escapeChar, readQuoted, ih]

/-- Every `$` of the value is one again. -/
theorem replaceFrom_dollars (v : List Char) : replaceFrom ['$', '$'] ['$'] 0 (dollars v) = v := by
  induction v with
  | nil => rfl
  | cons c v ih =>
    by_cases hc : c = '$'
    · simp [hc, replaceFrom, ih]
    · have hne : ¬ '$' = c := fun h => hc h.symm
      simp [hc, hne, replaceFrom, ih]

/-- What is read back of a value that is written as it stands in the file. -/
def reread (v : String) : String :=
  let value := (parseEnvValue (trimSpace (quoteEnv v))).1
  if hasPrefix (quoteEnv v) "\"" then replaceAll value "$$" "$" else value

private theorem quoteEnv_of_quoted {v : String} (h : containsAny v quotedChars = true) :
    quoteEnv v = "\"" ++ String.ofList (v.toList.flatMap escapeChar) ++ "\"" := by
  have hne : ¬ (v = "" ∨ containsAny v quotedChars = false) := by
    rintro (rfl | hf)
    · exact absurd h (by decide)
    · exact absurd h (by simp [hf])
  rw [quoteEnv, if_neg hne]

private theorem quoteEnv_of_plain {v : String} (h : containsAny v quotedChars = false) :
    quoteEnv v = v := by
  rw [quoteEnv, if_pos (Or.inr h)]

/-- A value in quotes is read back. -/
theorem reread_of_quoted {v : String} (h : containsAny v quotedChars = true) : reread v = v := by
  have hlist : (quoteEnv v).toList = '"' :: (v.toList.flatMap escapeChar ++ ['"']) := by
    simp [quoteEnv_of_quoted h]
  have htrim : trimSpace (quoteEnv v) = quoteEnv v :=
    trimSpace_eq_self ⟨_, _, hlist, by decide⟩
      ⟨'"' :: v.toList.flatMap escapeChar, '"', by simp [hlist], by decide⟩
  have hvalue : (parseEnvValue (quoteEnv v)).1 = String.ofList (dollars v.toList) := by
    simp [parseEnvValue, hlist, readQuoted_escape]
  have hquote : hasPrefix (quoteEnv v) "\"" = true := by simp [hasPrefix, hlist]
  simp [reread, htrim, hvalue, hquote, replaceAll, replaceFrom_dollars]

private theorem findComment_of_not_mem {cs : List Char} (h : '#' ∉ cs) (prev : Char) :
    findComment prev cs = none := by
  induction cs generalizing prev with
  | nil => rfl
  | cons c cs ih =>
    obtain ⟨hc, hcs⟩ := List.ne_and_not_mem_of_not_mem_cons h
    have hne : ¬ (c = '#' ∧ (prev = ' ' ∨ prev = '\t')) := fun hand => hc hand.1.symm
    rw [findComment, if_neg hne, ih hcs, Option.map_none]

/-- Up to a backquote everything is taken as it is. -/
theorem readQuoted_backquote (cs : List Char) : readQuoted '\x60' false cs =
    if '\x60' ∈ cs then
      some (cs.takeWhile (· ≠ '\x60'), (cs.dropWhile (· ≠ '\x60')).drop 1) else none := by
  induction cs with
  | nil => rfl
  | cons c cs ih =>
    by_cases hc : c = '\x60'
    · simp [readQuoted, hc]
    · have hne : ¬ '\x60' = c := fun h => hc h.symm
      by_cases hcs : '\x60' ∈ cs
      · simp [readQuoted, hc, ih, hcs]
      · simp [readQuoted, hc, hne, ih, hcs]

private theorem not_mem_of_containsAny {v chars : String} {c : Char}
    (h : containsAny v chars = false)
    (hc : c ∈ chars.toList) : c ∉ v.toList := by
  intro hv
  have hany : containsAny v chars = true :=
    List.any_eq_true.mpr ⟨c, hv, decide_eq_true hc⟩
  rw [h] at hany
  cases hany

/-- A text without the other quotes and without `#` is taken as it is, unless a backquote at its
beginning is closed. -/
theorem parseEnvValue_of_plain {t : String} (hquote : '"' ∉ t.toList) (hsingle : '\'' ∉ t.toList)
    (hhash : '#' ∉ t.toList) (htrim : trimSpace t = t) :
    (parseEnvValue t).1 = if hasPrefix t "\x60" = true ∧ '\x60' ∈ t.toList.tail then
      String.ofList (t.toList.tail.takeWhile (· ≠ '\x60')) else t := by
  cases hlist : t.toList with
  | nil =>
    have hempty : t = "" := String.toList_eq_nil_iff.mp hlist
    simp [parseEnvValue, hempty]
  | cons q cs =>
    rw [hlist] at hquote hsingle hhash
    obtain ⟨hq, -⟩ := List.ne_and_not_mem_of_not_mem_cons hquote
    obtain ⟨hs, -⟩ := List.ne_and_not_mem_of_not_mem_cons hsingle
    obtain ⟨hh, hcs⟩ := List.ne_and_not_mem_of_not_mem_cons hhash
    by_cases hback : q = '\x60'
    · have hprefix : hasPrefix t "\x60" = true := by simp [hasPrefix, hlist, hback]
      by_cases hclosed : '\x60' ∈ cs
      · simp [parseEnvValue, hlist, hback, readQuoted_backquote, hclosed, hprefix]
      · simp [parseEnvValue, hlist, hback, readQuoted_backquote, hclosed, htrim]
    · have hprefix : hasPrefix t "\x60" = false :=
        hasPrefix_eq_false (by decide) hlist fun h => hback h.symm
      have hne : ¬ (q = '"' ∨ q = '\'' ∨ q = '\x60') := by
        rintro (h | h | h)
        exacts [hq h.symm, hs h.symm, hback h]
      simp [parseEnvValue, hlist, hne, hh.symm, findComment_of_not_mem hcs, hprefix]

/-- A value without quotes is read back exactly when the reader sees nothing in it. -/
theorem reread_of_plain {v : String} (h : containsAny v quotedChars = false) :
    reread v = v ↔
      trimSpace v = v ∧ ¬ (hasPrefix v "\x60" = true ∧ '\x60' ∈ v.toList.tail) := by
  have hchar : ∀ c ∈ quotedChars.toList, c ∉ v.toList := fun c => not_mem_of_containsAny h
  have htrimmed : ∀ c ∈ quotedChars.toList, c ∉ (trimSpace v).toList := by
    intro c hc hmem
    rw [toList_trimSpace] at hmem
    exact hchar c hc ((List.dropWhile_suffix _).subset ((List.rdropWhile_prefix _ _).subset hmem))
  have hquote : hasPrefix v "\"" = false := by
    cases hlist : v.toList with
    | nil => simp [hasPrefix, hlist]
    | cons c cs =>
      refine hasPrefix_eq_false (c := '"') (by decide) hlist ?_
      rintro rfl
      exact hchar '"' (by decide) (by simp [hlist])
  have hvalue := parseEnvValue_of_plain (htrimmed '"' (by decide)) (htrimmed '\'' (by decide))
    (htrimmed '#' (by decide)) (trimSpace_trimSpace v)
  have hreread : reread v = (parseEnvValue (trimSpace v)).1 := by
    simp [reread, quoteEnv_of_plain h, hquote]
  -- what is taken of a backquoted text is shorter than it
  have hshorter : hasPrefix (trimSpace v) "\x60" = true →
      ((trimSpace v).toList.tail.takeWhile (· ≠ '\x60')).length < (trimSpace v).toList.length := by
    intro hprefix
    cases hlist : (trimSpace v).toList with
    | nil => simp [hasPrefix, hlist] at hprefix
    | cons c cs =>
      have hle := (List.takeWhile_prefix (l := cs) (· ≠ '\x60')).length_le
      rw [List.tail_cons, List.length_cons]
      exact Nat.lt_succ_of_le hle
  rw [hreread, hvalue]
  by_cases htrim : trimSpace v = v
  · rw [htrim] at hshorter ⊢
    by_cases hback : hasPrefix v "\x60" = true ∧ '\x60' ∈ v.toList.tail
    · rw [if_pos hback]
      refine iff_of_false (fun heq => ?_) fun hand => hand.2 hback
      have hlen := hshorter hback.1
      rw [← String.toList_ofList (l := v.toList.tail.takeWhile _), heq] at hlen
      exact lt_irrefl _ hlen
    · rw [if_neg hback]
      exact iff_of_true rfl ⟨rfl, hback⟩
  · refine iff_of_false (fun heq => ?_) fun hand => htrim hand.1
    have hlt := length_trimSpace_lt htrim
    split_ifs at heq with hback
    · have hlen := hshorter hback.1
      rw [← String.toList_ofList (l := (trimSpace v).toList.tail.takeWhile _), heq] at hlen
      exact lt_asymm hlen hlt
    · exact htrim heq

private theorem reread_eq_iff (v : String) : reread v = v ↔ Legible v := by
  unfold Legible
  cases h : containsAny v quotedChars with
  | true => exact iff_of_true (reread_of_quoted h) (Or.inl rfl)
  | false => simpa using reread_of_plain h

/-! ### Lines -/

private theorem wordPart_bounds {c : Char} (h : wordPart c = true) :
    48 ≤ c.toNat ∧ c.toNat ≤ 122 ∧ c.toNat ≠ 61 := by
  simp only [wordPart, wordStart, Bool.or_eq_true, Bool.and_eq_true, decide_eq_true_eq] at h
  rcases h with ((⟨hlow, hhigh⟩ | ⟨hlow, hhigh⟩) | rfl) | ⟨hlow, hhigh⟩
  · have hlow : 65 ≤ c.toNat := hlow
    have hhigh : c.toNat ≤ 90 := hhigh
    omega
  · have hlow : 97 ≤ c.toNat := hlow
    have hhigh : c.toNat ≤ 122 := hhigh
    omega
  · decide
  · have hlow : 48 ≤ c.toNat := hlow
    have hhigh : c.toNat ≤ 57 := hhigh
    omega

namespace Identifier

variable {k : String}

private theorem wordPart (h : Identifier k) : ∀ c ∈ k.toList, wordPart c = true := by
  obtain ⟨c, r, hk, hc, hr⟩ := h
  intro d hd
  rw [hk] at hd
  rcases List.mem_cons.mp hd with rfl | hd
  · simp [EnvFile.wordPart, hc]
  · exact hr d hd

private theorem dark (h : Identifier k) : ∀ c ∈ k.toList, isSpace c = false := by
  intro c hc
  obtain ⟨hlow, hhigh, -⟩ := wordPart_bounds (h.wordPart c hc)
  exact isSpace_eq_false_of_bounds (by omega) (by omega)

private theorem not_mem {c : Char} (h : Identifier k) (hc : EnvFile.wordPart c = false) :
    c ∉ k.toList := by
  intro hmem
  rw [h.wordPart c hmem] at hc
  cases hc

private theorem isMatch (h : Identifier k) : envKeyRe.isMatch k.toList = true := by
  obtain ⟨c, r, hk, hc, hr⟩ := h
  rw [hk, Regexp.isMatch_iff]
  exact Regexp.mem_one_seq_star hc fun d hd => by simp [hr d hd]

end Identifier

/-- The line of a variable. -/
def line (kv : KV) : String := kv.k ++ "=" ++ quoteEnv kv.v

/-- The entry that the line of a variable becomes. -/
def ReadAs (e : EnvVar) (kv : KV) : Prop :=
  e.key = kv.k ∧ e.value = (parseEnvValue (trimSpace (quoteEnv kv.v))).1

/-- No variable's line starts with `export`. -/
theorem trimPrefix_export {k : String} (h : Identifier k) (u : String) :
    trimPrefix (k ++ "=" ++ u) "export " = k ++ "=" ++ u := by
  rw [trimPrefix, if_neg]
  rw [hasPrefix, List.isPrefixOf_iff_prefix]
  intro hexport
  have hkey : k.toList ++ ['='] <+: (k ++ "=" ++ u).toList := by simp
  rcases List.prefix_or_prefix_of_prefix hexport hkey with hshort | hlong
  · have hblank : ' ' ∈ k.toList ++ ['='] := hshort.subset (by decide)
    simp only [List.mem_append, List.mem_singleton] at hblank
    rcases hblank with hblank | hblank
    · exact h.not_mem (by decide) hblank
    · exact absurd hblank (by decide)
  · have hequals : '=' ∈ "export ".toList := hlong.subset (by simp)
    exact absurd hequals (by decide)

private theorem put_of_new {out : List EnvVar} {v : EnvVar} (h : ∀ e ∈ out, e.key ≠ v.key) :
    put out v = out ++ [v] := by
  have hnone : out.findIdx? (fun e => decide (e.key = v.key)) = none :=
    List.findIdx?_eq_none_iff.mpr fun e he => decide_eq_false (h e he)
  rw [put, hnone]

/-- The line of a variable that has not been read yet becomes a new entry. -/
theorem parseLine_variable {st : Reader} {raw : String} {kv : KV} (hid : Identifier kv.k)
    (hraw : trimSpace raw = trimSpace (line kv)) (hnew : ∀ e ∈ st.out, e.key ≠ kv.k) :
    ∃ e, (parseLine st raw).out = st.out ++ [e] ∧ ReadAs e kv := by
  obtain ⟨c, r, hk, hc, -⟩ := id hid
  have hfirst : (kv.k ++ "=").toList = c :: (r ++ ['=']) := by simp [hk]
  have hstart : StartsDark (kv.k ++ "=") := ⟨c, _, hfirst, hid.dark c (by simp [hk])⟩
  have hend : EndsDark (kv.k ++ "=") := ⟨kv.k.toList, '=', by simp, by decide⟩
  obtain ⟨u, hline, hu⟩ := exists_trimSpace_append hstart hend (quoteEnv kv.v)
  have hlist : (kv.k ++ "=" ++ u).toList = c :: (r ++ '=' :: u.toList) := by
    simp [hk]
  have hne : ¬ kv.k ++ "=" ++ u = "" := by
    intro h
    simp [h] at hlist
  have hcomment : hasPrefix (kv.k ++ "=" ++ u) "#" = false := by
    refine hasPrefix_eq_false (c := '#') (by decide) hlist ?_
    rintro rfl
    exact absurd hc (by decide)
  have htrim : trimSpace (kv.k ++ "=" ++ u) = kv.k ++ "=" ++ u := by
    rw [← hline, trimSpace_trimSpace]
  have hcut : cut (kv.k ++ "=" ++ u) "=" = some (kv.k, u) := by
    have hsplit : (kv.k ++ "=" ++ u).toList = kv.k.toList ++ '=' :: u.toList := by simp
    simp [cut, hsplit, cutList_append (hid.not_mem (by decide : EnvFile.wordPart '=' = false))]
  have hkey : trimSpace kv.k = kv.k := trimSpace_of_forall hid.dark
  rcases hvalue : parseEnvValue (trimSpace (quoteEnv kv.v)) with ⟨value, inline⟩
  have hparse : parseLine st raw = ⟨put st.out ⟨kv.k, value,
      " ".intercalate (if inline ≠ "" then st.pending ++ [inline] else st.pending),
      isPlaceholder value⟩, []⟩ := by
    rw [parseLine]
    simp only [hraw, line, hline, if_neg hne, hcomment, Bool.false_eq_true, if_false,
      trimPrefix_export hid, htrim, hcut, hkey, hid.isMatch, if_true, hu, hvalue]
  refine ⟨_, (congrArg Reader.out hparse).trans (put_of_new hnew), rfl, ?_⟩
  rw [hvalue]

/-- Every line of the file becomes the entry of its variable. -/
theorem foldl_parseLine {env : List KV} (hid : ∀ kv ∈ env, Identifier kv.k) {lines : List String}
    (hlines : lines.map trimSpace = env.map fun kv => trimSpace (line kv)) (st : Reader)
    (hnodup : (env.map KV.k).Nodup) (hnew : ∀ kv ∈ env, ∀ e ∈ st.out, e.key ≠ kv.k) :
    ∃ es, (lines.foldl parseLine st).out = st.out ++ es ∧ List.Forall₂ ReadAs es env := by
  induction env generalizing lines st with
  | nil =>
    rw [List.map_nil, List.map_eq_nil_iff] at hlines
    exact ⟨[], by simp [hlines], .nil⟩
  | cons kv env ih =>
    rw [List.map_cons, List.map_eq_cons_iff] at hlines
    obtain ⟨raw, lines, rfl, hraw, hlines⟩ := hlines
    rw [List.map_cons, List.nodup_cons] at hnodup
    obtain ⟨hkey, hnodup⟩ := hnodup
    rw [List.forall_mem_cons] at hid hnew
    obtain ⟨e, hout, he⟩ := parseLine_variable hid.1 hraw hnew.1
    have hnext : ∀ kv' ∈ env, ∀ e' ∈ (parseLine st raw).out, e'.key ≠ kv'.k := by
      intro kv' hkv' e' he'
      rw [hout, List.mem_append, List.mem_singleton] at he'
      rcases he' with he' | rfl
      · exact hnew.2 kv' hkv' e' he'
      · rw [he.1]
        exact fun heq => hkey (heq ▸ List.mem_map_of_mem hkv')
    obtain ⟨es, hfold, hes⟩ := ih hid.2 hlines _ hnodup hnext
    exact ⟨e :: es, by rw [List.foldl_cons, hfold, hout, List.append_assoc]; rfl, .cons he hes⟩

/-! ### The file -/

/-- The lines of a file, each with its line end. -/
def joinLines (ls : List String) : List Char := ls.flatMap fun l => l.toList ++ ['\n']

private theorem toList_envFile {env : List KV} (hid : ∀ kv ∈ env, Identifier kv.k) :
    (envFile env).toList = joinLines (env.map line) := by
  have hfold : ∀ b : String, (env.foldl (fun b kv => if kv.k = "" then b
      else b ++ (kv.k ++ "=" ++ quoteEnv kv.v ++ "\n")) b).toList =
      b.toList ++ joinLines (env.map line) := by
    induction env with
    | nil => simp [joinLines]
    | cons kv env ih =>
      rw [List.forall_mem_cons] at hid
      intro b
      have hne : kv.k ≠ "" := by
        obtain ⟨c, r, hk, -⟩ := hid.1
        rintro h
        simp [h] at hk
      rw [List.foldl_cons, if_neg hne, ih hid.2]
      simp [joinLines, line]
  simpa [envFile] using hfold ""

private theorem not_mem_quoteEnv (v : String) : '\n' ∉ (quoteEnv v).toList := by
  cases h : containsAny v quotedChars with
  | false =>
    rw [quoteEnv_of_plain h]
    exact not_mem_of_containsAny h (by decide)
  | true =>
    have hescaped : '\n' ∉ v.toList.flatMap escapeChar := by
      rw [List.mem_flatMap]
      rintro ⟨c, -, hc⟩
      revert hc
      simp only [escapeChar]
      split_ifs with hslash hquote hline hdollar <;> simp
      exact fun h => hline h.symm
    simp [quoteEnv_of_quoted h, hescaped]

private theorem not_mem_line {kv : KV} (h : Identifier kv.k) : '\n' ∉ (line kv).toList := by
  simp [line, h.not_mem (by decide : EnvFile.wordPart '\n' = false), not_mem_quoteEnv]

/-- Of a line, replacing `\r\n` takes at most a `\r` at its end. -/
theorem exists_replaceFrom_crlf {l : List Char} (h : '\n' ∉ l) (r : List Char) :
    ∃ l', replaceFrom ['\r', '\n'] ['\n'] 0 (l ++ '\n' :: r) =
        l' ++ '\n' :: replaceFrom ['\r', '\n'] ['\n'] 0 r ∧ (l' = l ∨ l = l' ++ ['\r']) := by
  induction l with
  | nil => exact ⟨[], by simp [replaceFrom], Or.inl rfl⟩
  | cons c l ih =>
    obtain ⟨hc, hl⟩ := List.ne_and_not_mem_of_not_mem_cons h
    obtain ⟨l', hreplace, hl'⟩ := ih hl
    by_cases hend : c = '\r' ∧ l = []
    · exact ⟨[], by simp [hend.1, hend.2, replaceFrom], Or.inr (by simp [hend.1, hend.2])⟩
    · have hprefix : ¬ ['\r', '\n'].isPrefixOf (c :: (l ++ '\n' :: r)) := by
        rw [List.isPrefixOf_iff_prefix, List.cons_prefix_cons]
        rintro ⟨hcr, hlf⟩
        cases l with
        | nil => exact hend ⟨hcr.symm, rfl⟩
        | cons d l =>
          rw [List.cons_append, List.cons_prefix_cons] at hlf
          exact (List.ne_of_not_mem_cons hl) hlf.1
      refine ⟨c :: l', by rw [List.cons_append, replaceFrom, if_neg hprefix, hreplace]; rfl, ?_⟩
      rcases hl' with rfl | rfl
      · exact Or.inl rfl
      · exact Or.inr rfl

/-- The lines that are read differ from those written in spaces at their ends only. -/
theorem exists_lines {ls : List String} (h : ∀ l ∈ ls, '\n' ∉ l.toList) :
    ∃ ls' : List String, ls'.map trimSpace = ls.map trimSpace ∧
      (replaceFrom ['\r', '\n'] ['\n'] 0 (joinLines ls)).splitOn '\n' =
        ls'.map String.toList ++ [[]] := by
  induction ls with
  | nil => exact ⟨[], rfl, by simp [joinLines, replaceFrom]⟩
  | cons l ls ih =>
    rw [List.forall_mem_cons] at h
    obtain ⟨ls', htrim, hsplit⟩ := ih h.2
    obtain ⟨l', hreplace, hl'⟩ := exists_replaceFrom_crlf h.1 (joinLines ls)
    have hline : trimSpace (String.ofList l') = trimSpace l ∧ '\n' ∉ l' := by
      rcases hl' with rfl | hcr
      · exact ⟨by simp, h.1⟩
      · have hl : l = String.ofList l' ++ "\r" := String.toList_injective (by simp [hcr])
        exact ⟨by rw [hl, trimSpace_append_space (c := '\r') (by simp) (by decide)],
          fun hmem => h.1 (by simp [hcr, hmem])⟩
    refine ⟨String.ofList l' :: ls', by rw [List.map_cons, List.map_cons, hline.1, htrim], ?_⟩
    have hjoin : joinLines (l :: ls) = l.toList ++ '\n' :: joinLines ls := by simp [joinLines]
    rw [hjoin, hreplace, List.splitOn_append_cons_self, List.splitOn_eq_singleton hline.2, hsplit]
    simp

/-- The file of some variables begins with the first name, not with a byte order mark. -/
theorem trimPrefix_bom {env : List KV} (hid : ∀ kv ∈ env, Identifier kv.k) :
    trimPrefix (replaceAll (envFile env) "\r\n" "\n") "\ufeff" =
      replaceAll (envFile env) "\r\n" "\n" := by
  rw [trimPrefix, if_neg]
  have hlist := toList_envFile hid
  cases env with
  | nil => decide
  | cons kv env =>
    obtain ⟨c, r, hk, hc, -⟩ := hid kv List.mem_cons_self
    have hfirst : (envFile (kv :: env)).toList =
        c :: (r ++ '=' :: (quoteEnv kv.v).toList ++ '\n' :: joinLines (env.map line)) := by
      simp [hlist, joinLines, line, hk]
    have hcr : ¬ '\r' = c := by
      rintro rfl
      exact absurd hc (by decide)
    have hbom : '\ufeff' ≠ c := by
      rintro rfl
      exact absurd hc (by decide)
    obtain ⟨rest, hrest⟩ : ∃ rest, (replaceAll (envFile (kv :: env)) "\r\n" "\n").toList =
        c :: rest := by
      rw [replaceAll, hfirst, String.toList_ofList, replaceFrom, if_neg (by simp [hcr])]
      exact ⟨_, rfl⟩
    rw [hasPrefix_eq_false (c := '\ufeff') (by decide) hrest hbom]
    exact Bool.false_ne_true

/-- The entries of the file are those of the variables, in their order. -/
theorem parseEnvExample_envFile {env : List KV} (hnodup : (env.map KV.k).Nodup)
    (hid : ∀ kv ∈ env, Identifier kv.k) :
    List.Forall₂ ReadAs (parseEnvExample (envFile env)) env := by
  have hline : ∀ l ∈ env.map line, '\n' ∉ l.toList := by
    rintro l hl
    obtain ⟨kv, hkv, rfl⟩ := List.mem_map.mp hl
    exact not_mem_line (hid kv hkv)
  obtain ⟨ls, htrim, hsplit⟩ := exists_lines hline
  have hlines : splitChar (replaceAll (envFile env) "\r\n" "\n") '\n' = ls ++ [""] := by
    have hcrlf : "\r\n".toList = ['\r', '\n'] := by decide
    have hlf : "\n".toList = ['\n'] := by decide
    rw [splitChar, replaceAll, String.toList_ofList, toList_envFile hid, hcrlf, hlf, hsplit]
    simp
  obtain ⟨es, hout, hes⟩ := foldl_parseLine hid (htrim.trans (List.map_map ..)) ⟨[], []⟩
    hnodup (by simp)
  rw [parseEnvExample, trimPrefix_bom hid, hlines, List.foldl_append]
  -- after the last line end stands an empty line, which is no entry
  have hlast : ∀ st : Reader, (parseLine st "").out = st.out := fun st => rfl
  rw [List.foldl_cons, List.foldl_nil, hlast, hout]
  exact hes

/-- With distinct names, the entry of a variable is found to be in quotes by the variable's own
value. -/
theorem any_quoted {env : List KV} (hnodup : (env.map KV.k).Nodup) {kv : KV} (hkv : kv ∈ env) :
    env.any (fun kv' => kv'.k = kv.k && hasPrefix (quoteEnv kv'.v) "\"") =
      hasPrefix (quoteEnv kv.v) "\"" := by
  rw [Bool.eq_iff_iff, List.any_eq_true]
  constructor
  · rintro ⟨kv', hkv', hand⟩
    rw [Bool.and_eq_true, decide_eq_true_eq] at hand
    rw [← List.inj_on_of_nodup_map hnodup hkv' hkv hand.1]
    exact hand.2
  · exact fun h => ⟨kv, hkv, by simp [h]⟩

/-- The file gives every variable's name and what is reread of its value, in order. -/
theorem readBack_eq_map {env : List KV} (hnodup : (env.map KV.k).Nodup)
    (hid : ∀ kv ∈ env, Identifier kv.k) :
    readBack env = env.map fun kv => ⟨kv.k, reread kv.v⟩ := by
  have hmap : ∀ {es : List EnvVar} {kvs : List KV}, List.Forall₂ ReadAs es kvs → kvs ⊆ env →
      es.map (fun e => (⟨e.key, if env.any (fun kv =>
        kv.k = e.key && hasPrefix (quoteEnv kv.v) "\"")
        then replaceAll e.value "$$" "$" else e.value⟩ : KV)) =
        kvs.map fun kv => ⟨kv.k, reread kv.v⟩ := by
    intro es kvs h hsub
    induction h with
    | nil => rfl
    | cons he _ ih =>
      rw [List.cons_subset] at hsub
      rw [List.map_cons, List.map_cons, ih hsub.2, he.1, he.2, any_quoted hnodup hsub.1, reread]
  exact hmap (parseEnvExample_envFile hnodup hid) fun kv hkv => hkv

/-- **The file with the variables.** What a deploy writes gives every variable back, with its value,
exactly when every value is legible, for any list of variables whose names are different. -/
theorem readBack_eq_iff {env : List KV} (hnodup : (env.map KV.k).Nodup)
    (hid : ∀ kv ∈ env, Identifier kv.k) : readBack env = env ↔ ∀ kv ∈ env, Legible kv.v := by
  rw [readBack_eq_map hnodup hid]
  calc (env.map fun kv => ⟨kv.k, reread kv.v⟩) = env
      ↔ (env.map fun kv => ⟨kv.k, reread kv.v⟩) = env.map id := by rw [List.map_id]
    _ ↔ ∀ kv ∈ env, reread kv.v = kv.v := by
      rw [List.map_inj_left]
      exact forall₂_congr fun kv _ => by cases kv; simp
    _ ↔ ∀ kv ∈ env, Legible kv.v := forall₂_congr fun kv _ => reread_eq_iff kv.v

/-- A value of two lines, one with a dollar sign, and one that is not quoted. -/
def threeValues : List KV :=
  [⟨"MOTD", "two\r\nlines"⟩, ⟨"DB_PASSWORD", "a$b # 'c'"⟩, ⟨"PORT", "8080"⟩]

/-- A text of two lines, a password with characters that mean something to a shell, and a
number. -/
theorem readBack_threeValues : readBack threeValues = threeValues :=
  (readBack_eq_iff (by decide) fun kv hkv => by
    simp only [threeValues, List.mem_cons, List.not_mem_nil, or_false] at hkv
    rcases hkv with rfl | rfl | rfl
    · exact ⟨'M', "OTD".toList, rfl, rfl, List.all_eq_true.mp rfl⟩
    · exact ⟨'D', "B_PASSWORD".toList, rfl, rfl, List.all_eq_true.mp rfl⟩
    · exact ⟨'P', "ORT".toList, rfl, rfl, List.all_eq_true.mp rfl⟩).mpr (by decide +kernel)

/-- A carriage return at the end of a value is lost. -/
theorem readBack_loses_carriage_return : ¬ ∀ env : List KV, (env.map KV.k).Nodup →
    (∀ kv ∈ env, Identifier kv.k) → (∀ kv ∈ env, '\x00' ∉ kv.v.toList) → readBack env = env := by
  intro h
  have hlost : readBack [⟨"A", "a\r"⟩] = [⟨"A", "a"⟩] := by decide +kernel
  have hkept := h [⟨"A", "a\r"⟩] (by decide)
    (fun kv hkv => by
      rw [List.mem_singleton.mp hkv]
      exact ⟨'A', [], rfl, rfl, List.all_eq_true.mp rfl⟩)
    (fun kv hkv => by
      rw [List.mem_singleton.mp hkv]
      decide)
  exact absurd (hlost.symm.trans hkept) (by decide)

example : readBack [⟨"A", "\x60a\x60b"⟩] = [⟨"A", "a"⟩] := by decide +kernel

end Dockhand.GitDeploy.EnvFile
