import Mathlib.Data.List.Basic

/-!
# The tokens of a shell command

A POSIX shell cuts a line into words and operators. The reader below goes through the line character
by character: `step` says which tokens a character completes and where the reader stands behind it.
What stands between quotes and what follows a backslash is taken as it is. An unquoted character
that starts an expansion, a redirection, a comment or a subshell ends the reading: the tokens before
it are known, the rest of the line is not read.

A character stands for a code point or for a byte, since every character that means something is
ASCII.
-/

namespace Shell

/-- What a shell's tokenizer yields: a word without its quotes, or an operator. -/
inductive Token where
  | word (w : List Char)
  | operator (op : List Char)
  deriving DecidableEq

/-- The characters that end a word and mean nothing else. -/
def isBlank (c : Char) : Bool := c = ' ' || c = '\t'

/-- A character that means nothing to a shell. -/
def isPlain (c : Char) : Bool := c ∉ "|&;<>()$`\\\"' \t\n*?[#~".toList

/-- Where the reader stands, with what it has read of a word; or behind the first character of an
operator. -/
inductive Place where
  | between
  | word (w : List Char)
  | single (w : List Char)
  | double (w : List Char)
  | escaped (w : List Char)
  | escapedDouble (w : List Char)
  | operator (c : Char)

/-- The place behind a character of a word. -/
def next (w : List Char) (c : Char) : Option Place :=
  if c = '\'' then some (.single w)
  else if c = '"' then some (.double w)
  else if c = '\\' then some (.escaped w)
  else if isPlain c then some (.word (w ++ [c]))
  else none

/-- A character outside of a word. -/
def start (c : Char) : Option (List Token × Place) :=
  if isBlank c then some ([], .between)
  else if c = '\n' then some ([.operator [c]], .between)
  else if c ∈ ['&', '|', ';'] then some ([], .operator c)
  else (next [] c).map fun p => ([], p)

/-- The tokens that a character completes, and the place behind it. -/
def step : Place → Char → Option (List Token × Place)
  | .between, c => start c
  | .word w, c =>
    if isBlank c || c ∈ ['\n', '&', '|', ';'] then
      (start c).map fun r => (.word w :: r.1, r.2)
    else (next w c).map fun p => ([], p)
  | .single w, c => some ([], if c = '\'' then .word w else .single (w ++ [c]))
  | .double w, c =>
    if c = '"' then some ([], .word w)
    else if c = '\\' then some ([], .escapedDouble w)
    else if c = '$' || c = '`' then none
    else some ([], .double (w ++ [c]))
  | .escaped w, c => if c = '\n' then none else some ([], .word (w ++ [c]))
  | .escapedDouble w, c =>
    if c = '\n' then some ([], .double w)
    else if c ∈ ['$', '`', '"', '\\'] then some ([], .double (w ++ [c]))
    else some ([], .double (w ++ ['\\', c]))
  | .operator o, c =>
    if c = o then some ([.operator [o, c]], .between)
    else (start c).map fun r => (.operator [o] :: r.1, r.2)

/-- What the end of the line completes, and whether the line may end here. -/
def finish : Place → List Token × Bool
  | .between => ([], true)
  | .word w => ([.word w], true)
  | .operator o => ([.operator [o]], true)
  | _ => ([], false)

/-- Tokens before those of a reading. -/
def emit (ts : List Token) (r : List Token × Bool) : List Token × Bool := (ts ++ r.1, r.2)

/-- The tokens from a place on, and whether the whole line was read. -/
def readFrom : Place → List Char → List Token × Bool
  | p, [] => finish p
  | p, c :: s =>
    match step p c with
    | none => ([], false)
    | some (ts, p') => emit ts (readFrom p' s)

/-- The tokens of a line. -/
def read (line : List Char) : List Token × Bool := readFrom .between line

/-- A line of words only. -/
def words (line : List Char) : Option (List (List Char)) :=
  if (read line).2 then
    (read line).1.mapM fun
      | .word w => some w
      | .operator _ => none
  else none

example : read "a 'b c'\\ d && e \"f'g\"".toList =
    ([.word "a".toList, .word "b c d".toList, .operator "&&".toList, .word "e".toList,
      .word "f'g".toList], true) := by
  decide

/-! ### Texts of a word -/

variable {w acc s text : List Char} {c : Char} {ts : List Token}

@[simp] theorem emit_nil (r : List Token × Bool) : emit [] r = r := rfl

theorem emit_emit (ts ts' : List Token) (r : List Token × Bool) :
    emit ts (emit ts' r) = emit (ts ++ ts') r := by
  rw [emit, emit, emit, List.append_assoc]

private theorem readFrom_cons {p p' : Place} (h : step p c = some (ts, p')) :
    readFrom p (c :: s) = emit ts (readFrom p' s) := by
  rw [readFrom, h]

/-- The text stands for the word, whatever follows it. -/
def Writes (text w : List Char) : Prop := ∀ s, readFrom .between (text ++ s) = readFrom (.word w) s

theorem Writes.read (h : Writes text w) : read text = ([.word w], true) := by
  have hend := h []
  rw [List.append_nil] at hend
  rw [Shell.read, hend, readFrom, finish]

/-- A blank ends a word. -/
theorem readFrom_word_space (w s : List Char) :
    readFrom (.word w) (' ' :: s) = emit [.word w] (readFrom .between s) :=
  readFrom_cons rfl

private theorem next_of_isPlain (h : isPlain c = true) :
    (isBlank c || c ∈ ['\n', '&', '|', ';']) = false ∧ next w c = some (.word (w ++ [c])) := by
  have hne : ∀ d, isPlain d = false → c ≠ d := by
    rintro d hd rfl
    rw [h] at hd
    cases hd
  constructor
  · simp only [isBlank, List.mem_cons, List.not_mem_nil, or_false, Bool.or_eq_false_iff,
      decide_eq_false_iff_not, not_or]
    exact ⟨⟨hne _ (by decide), hne _ (by decide)⟩, hne _ (by decide), hne _ (by decide),
      hne _ (by decide), hne _ (by decide)⟩
  · rw [next, if_neg (hne _ (by decide)), if_neg (hne _ (by decide)), if_neg (hne _ (by decide)),
      if_pos h]

private theorem readFrom_word_of_plain (h : ∀ c ∈ w, isPlain c = true) :
    readFrom (.word acc) (w ++ s) = readFrom (.word (acc ++ w)) s := by
  induction w generalizing acc with
  | nil => rw [List.nil_append, List.append_nil]
  | cons c w ih =>
    obtain ⟨hc, hw⟩ := List.forall_mem_cons.mp h
    obtain ⟨hends, hnext⟩ := next_of_isPlain (w := acc) hc
    have hstep : step (.word acc) c = some ([], .word (acc ++ [c])) := by
      rw [step, hends, hnext]
      rfl
    rw [List.cons_append, readFrom_cons hstep, emit_nil, ih hw, List.append_assoc,
      List.singleton_append]

theorem writes_self (hne : w ≠ []) (h : ∀ c ∈ w, isPlain c = true) : Writes w w := by
  intro s
  obtain ⟨c, r, rfl⟩ := List.exists_cons_of_ne_nil hne
  obtain ⟨hc, hr⟩ := List.forall_mem_cons.mp h
  obtain ⟨hends, hnext⟩ := next_of_isPlain (w := []) hc
  have hstep : step .between c = some ([], .word [c]) := by
    simp only [Bool.or_eq_false_iff, decide_eq_false_iff_not, List.mem_cons, not_or] at hends
    rw [step, start, if_neg (by simp [hends.1]), if_neg hends.2.1, if_neg (by simp [hends.2.2]),
      hnext]
    rfl
  rw [List.cons_append, readFrom_cons hstep, emit_nil, readFrom_word_of_plain hr,
    List.singleton_append]

/-- A word in single quotes, with `mark` for the quotes in it. -/
def quote (mark w : List Char) : List Char :=
  '\'' :: (w.flatMap (fun c => if c = '\'' then mark else [c]) ++ ['\''])

/-- Between single quotes the mark stands for a single quote. -/
def IsMark (mark : List Char) : Prop :=
  ∀ acc s, readFrom (.single acc) (mark ++ s) = readFrom (.single (acc ++ ['\''])) s

/-- The quotes are closed, the quote is escaped, and the quotes are opened again. -/
theorem isMark_backslash : IsMark "'\\''".toList := fun _ _ => rfl

/-- The same with the quote between double quotes. -/
theorem isMark_double : IsMark "'\"'\"'".toList := fun _ _ => rfl

theorem writes_quote {mark : List Char} (hmark : IsMark mark) (w : List Char) :
    Writes (quote mark w) w := by
  have hbody : ∀ (w acc s : List Char),
      readFrom (.single acc) (w.flatMap (fun c => if c = '\'' then mark else [c]) ++ '\'' :: s) =
        readFrom (.word (acc ++ w)) s := by
    intro w
    induction w with
    | nil =>
      intro acc s
      rw [List.flatMap_nil, List.nil_append, List.append_nil]
      rfl
    | cons c w ih =>
      intro acc s
      rw [List.flatMap_cons, List.append_assoc]
      by_cases hc : c = '\''
      · rw [if_pos hc, hmark, ih, List.append_assoc, List.singleton_append, hc]
      · have hstep : step (.single acc) c = some ([], .single (acc ++ [c])) := by
          rw [step, if_neg hc]
        rw [if_neg hc, List.singleton_append, readFrom_cons hstep, emit_nil, ih, List.append_assoc,
          List.singleton_append]
  intro s
  have hopen : ∀ r, readFrom .between ('\'' :: r) = readFrom (.single []) r := fun r => rfl
  rw [quote, List.cons_append, hopen, List.append_assoc, List.singleton_append, hbody,
    List.nil_append]

/-! ### Lines of words -/

/-- **Words come back.** The line of the texts of some words has these words. -/
theorem words_intercalate {write : List Char → List Char} {ws : List (List Char)}
    (h : ∀ w ∈ ws, Writes (write w) w) : words ([' '].intercalate (ws.map write)) = some ws := by
  have hread : read ([' '].intercalate (ws.map write)) = (ws.map .word, true) := by
    induction ws with
    | nil => rfl
    | cons w ws ih =>
      obtain ⟨hw, hws⟩ := List.forall_mem_cons.mp h
      cases ws with
      | nil => rw [List.map_singleton, List.intercalate_singleton, hw.read, List.map_singleton]
      | cons w' ws =>
        have hrest := ih hws
        rw [read, List.map_cons] at hrest
        rw [read, List.map_cons, List.map_cons, List.intercalate_cons_cons, List.append_assoc, hw,
          List.singleton_append, readFrom_word_space, hrest]
        rfl
  have hmap : ∀ ws : List (List Char), (ws.map Token.word).mapM (fun
      | .word w => some w
      | .operator _ => none) = some ws := by
    intro ws
    induction ws with
    | nil => rfl
    | cons w ws ih => rw [List.map_cons, List.mapM_cons, ih]; rfl
  rw [words, hread, if_pos rfl]
  exact hmap ws

end Shell
