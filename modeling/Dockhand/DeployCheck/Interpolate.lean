import Dockhand.Go.Dict
import Dockhand.Go.Strings

/-!
# Variables in a Compose file

`Interpolate` of `deploycheck/parse.go`, which resolves the variables of a port mapping, beside
Docker Compose's interpolation.

Compose's syntax is a grammar: the text of a default or of an alternative is a template again. A
`Template` is a tree of that grammar, `render` its text and `eval` its value: the text that is
chosen is itself interpolated, and a value is not looked at again. The function has no tree. It
takes `$$` out of the way as a NUL, replaces the matches of one regular expression from the left,
where the text of a default ends at the first closing brace and is copied as it stands, and puts the
dollar signs back. `interpolates_iff` says for which templates the two agree.
-/

namespace Dockhand.DeployCheck

open Go

/-! ### The function -/

/-- The first character of a name, `[A-Za-z_]`. -/
def isNameStart (c : Char) : Bool := c.isAlpha || c = '_'

/-- The other characters of a name, `[A-Za-z0-9_]`. -/
def isNameChar (c : Char) : Bool := isNameStart c || c.isDigit

/-- The longest name a text begins with, and what follows it. -/
def readName : List Char → Option (List Char × List Char)
  | [] => none
  | c :: cs =>
    if isNameStart c then some (c :: cs.takeWhile isNameChar, cs.dropWhile isNameChar) else none

/-- `:?[-?+]`, and what follows it. -/
def readOp : List Char → Option (List Char × List Char)
  | ':' :: c :: cs => if c ∈ ['-', '?', '+'] then some ([':', c], cs) else none
  | c :: cs => if c ∈ ['-', '?', '+'] then some ([c], cs) else none
  | [] => none

/-- What the groups of `varRe` matched, empty for a group that took no part. -/
structure Submatch where
  g1 : List Char := []
  g2 : List Char := []
  g3 : List Char := []
  g4 : List Char := []
  deriving DecidableEq

/-- The part of `varRe` that follows `${`. -/
def matchBraced (cs : List Char) : Option (Submatch × List Char) :=
  (readName cs).bind fun p =>
    match p.2 with
    | '}' :: rest => some ({ g1 := p.1 }, rest)
    | rest => (readOp rest).bind fun q =>
      match q.2.dropWhile (· ≠ '}') with
      | [] => none
      | _ :: rest => some ({ g1 := p.1, g2 := q.1, g3 := q.2.takeWhile (· ≠ '}') }, rest)

/-- The match of `varRe` a text begins with, and what follows it. -/
def matchVar : List Char → Option (Submatch × List Char)
  | '$' :: '{' :: cs => matchBraced cs
  | '$' :: cs => (readName cs).map fun p => ({ g4 := p.1 }, p.2)
  | _ => none

section

variable (env : Dict String String)

/-- `env[name]`, which is empty for a name that is not set. -/
def value (name : List Char) : List Char := ((env.get? (String.ofList name)).getD "").toList

/-- Whether the map has the name. -/
def isSet (name : List Char) : Bool := (env.get? (String.ofList name)).isSome

/-- The text a match is replaced by. -/
def subst (g : Submatch) : List Char :=
  if g.g4 ≠ [] then value env g.g4
  else
    let v := value env g.g1
    match g.g2 with
    | [':', '-'] => if v = [] then g.g3 else v
    | ['-'] => if isSet env g.g1 then v else g.g3
    | [':', '+'] => if v ≠ [] then g.g3 else []
    | ['+'] => if isSet env g.g1 then g.g3 else []
    | _ => v

/-- `ReplaceAllStringFunc` of `varRe`, after the first `skip` characters, which belong to a match
that has been replaced. -/
def replaceVars : ℕ → List Char → List Char
  | _, [] => []
  | skip + 1, _ :: cs => replaceVars skip cs
  | 0, c :: cs =>
    match matchVar (c :: cs) with
    | some (g, rest) => subst env g ++ replaceVars (cs.length - rest.length) cs
    | none => c :: replaceVars 0 cs

/-- `Interpolate`. -/
def interpolate (s : String) : String :=
  replaceChar (String.ofList (replaceVars env 0 (replaceAll s "$$" "\x00").toList)) '\x00' '$'

end

/-! ### Compose's interpolation -/

/-- A variable name. -/
structure Name where
  first : Char
  rest : List Char
  starts : isNameStart first = true
  goesOn : rest.all isNameChar = true

/-- The letters of a name. -/
def Name.text (n : Name) : List Char := n.first :: n.rest

/-- What a reference in braces does besides giving the value. -/
inductive Op where
  | defaultEmpty | defaultUnset | insteadNonempty | insteadSet
  deriving DecidableEq

/-- An operator as it is written. -/
def Op.text : Op → List Char
  | .defaultEmpty => [':', '-']
  | .defaultUnset => ['-']
  | .insteadNonempty => [':', '+']
  | .insteadSet => ['+']

/-- A string of Compose's grammar. `ref` is a name in braces, and `mod` one with an operator and a
template of its own. -/
inductive Template where
  | nil
  | lit (c : Char) (t : Template)
  | esc (t : Template)
  | var (n : Name) (t : Template)
  | ref (n : Name) (t : Template)
  | mod (n : Name) (op : Op) (w t : Template)

namespace Template

/-- The text of a template, with `dollar` for an escaped dollar sign. -/
def render (dollar : List Char) : Template → List Char
  | nil => []
  | lit c t => c :: render dollar t
  | esc t => dollar ++ render dollar t
  | var n t => '$' :: n.text ++ render dollar t
  | ref n t => '$' :: '{' :: n.text ++ '}' :: render dollar t
  | mod n op w t => '$' :: '{' :: n.text ++ op.text ++ render dollar w ++ '}' :: render dollar t

/-- A template as a string. -/
def text (T : Template) : String := String.ofList (T.render ['$', '$'])

/-- The tree is the reading of its text: literal text has no dollar sign and, between braces, no
closing brace, and no name goes on in what follows it. -/
def Proper (inside : Bool) : Template → Prop
  | nil => True
  | lit c t => (c ≠ '$' ∧ c ≠ '\x00' ∧ (inside = true → c ≠ '}')) ∧ Proper inside t
  | esc t => Proper inside t
  | var _ t => (∀ c ∈ (render ['$', '$'] t).head?, isNameChar c = false) ∧ Proper inside t
  | ref _ t => Proper inside t
  | mod _ _ w t => Proper true w ∧ Proper inside t

section

variable (env : Dict String String)

/-- Whether the text after the operator is chosen. -/
def chosen (n : Name) : Op → Bool
  | .defaultEmpty => value env n.text = []
  | .defaultUnset => !isSet env n.text
  | .insteadNonempty => value env n.text ≠ []
  | .insteadSet => isSet env n.text

/-- What stands for the reference when the text is not chosen. -/
def unchosen (n : Name) : Op → List Char
  | .defaultEmpty | .defaultUnset => value env n.text
  | .insteadNonempty | .insteadSet => []

/-- The value of a template. -/
def eval : Template → List Char
  | nil => []
  | lit c t => c :: eval t
  | esc t => '$' :: eval t
  | var n t => value env n.text ++ eval t
  | ref n t => value env n.text ++ eval t
  | mod n op w t => (if chosen env n op then eval w else unchosen env n op) ++ eval t

end

/-- No reference in braces. -/
def NoBraces : Template → Prop
  | nil => True
  | lit _ t | esc t | var _ t => NoBraces t
  | ref _ _ | mod _ _ _ _ => False

/-- No reference. -/
def NoRefs : Template → Prop
  | nil => True
  | lit _ t | esc t => NoRefs t
  | var _ _ | ref _ _ | mod _ _ _ _ => False

/-- No text after an operator has a reference. -/
def Flat : Template → Prop
  | nil => True
  | lit _ t | esc t | var _ t | ref _ t => Flat t
  | mod _ _ w t => NoRefs w ∧ Flat t

/-- No text after an operator has a reference in braces, and none that is chosen has a reference. -/
def Plain (env : Dict String String) : Template → Prop
  | nil => True
  | lit _ t | esc t | var _ t | ref _ t => Plain env t
  | mod n op w t => (NoBraces w ∧ (chosen env n op = true → NoRefs w)) ∧ Plain env t

/-- One template after another. -/
def append : Template → Template → Template
  | nil, k => k
  | lit c t, k => lit c (append t k)
  | esc t, k => esc (append t k)
  | var n t, k => var n (append t k)
  | ref n t, k => ref n (append t k)
  | mod n op w t, k => mod n op w (append t k)

end Template

/-! ### Names and operators -/

private theorem isNameChar_of_start {c : Char} (h : isNameStart c = true) :
    isNameChar c = true := by
  simp [isNameChar, h]

/-- None of the characters with a meaning is part of a name. -/
theorem ne_of_isNameChar {c : Char} (h : isNameChar c = true) :
    c ≠ '$' ∧ c ≠ '{' ∧ c ≠ '}' ∧ c ≠ '\x00' ∧ c ≠ ':' ∧ c ≠ '-' ∧ c ≠ '?' ∧ c ≠ '+' := by
  refine ⟨?_, ?_, ?_, ?_, ?_, ?_, ?_, ?_⟩ <;> rintro rfl <;> exact absurd h (by decide)

private theorem Name.isNameChar_of_mem {n : Name} {c : Char} (h : c ∈ n.text) :
    isNameChar c = true := by
  rcases List.mem_cons.mp h with rfl | h
  · exact isNameChar_of_start n.starts
  · exact List.all_eq_true.mp n.goesOn c h

private theorem readName_append {n : Name} {rest : List Char}
    (h : ∀ c ∈ rest.head?, isNameChar c = false) :
    readName (n.text ++ rest) = some (n.text, rest) := by
  have hall : ∀ c ∈ n.rest, isNameChar c = true := List.all_eq_true.mp n.goesOn
  have htake : rest.takeWhile isNameChar = [] := by
    cases rest with
    | nil => rfl
    | cons c cs => exact List.takeWhile_cons_of_neg (by simp [h c rfl])
  have hdrop : rest.dropWhile isNameChar = rest := by
    cases rest with
    | nil => rfl
    | cons c cs => exact List.dropWhile_cons_of_neg (by simp [h c rfl])
  rw [Name.text, List.cons_append, readName, if_pos n.starts, List.takeWhile_append_of_pos hall,
    List.dropWhile_append_of_pos hall, htake, hdrop, List.append_nil]

private theorem readOp_append (op : Op) (rest : List Char) :
    readOp (op.text ++ rest) = some (op.text, rest) := by
  cases op <;> rfl

/-- An operator does not go on a name, and does not close the reference. -/
theorem Op.head (op : Op) : ∃ c cs, op.text = c :: cs ∧ isNameChar c = false ∧ c ≠ '}' := by
  cases op with
  | defaultEmpty => exact ⟨':', ['-'], rfl, by decide, by decide⟩
  | defaultUnset => exact ⟨'-', [], rfl, by decide, by decide⟩
  | insteadNonempty => exact ⟨':', ['+'], rfl, by decide, by decide⟩
  | insteadSet => exact ⟨'+', [], rfl, by decide, by decide⟩

/-! ### Matches -/

section

variable {env : Dict String String} {n : Name} {op : Op} {w rest : List Char}

private theorem matchVar_var (h : ∀ c ∈ rest.head?, isNameChar c = false) :
    matchVar ('$' :: (n.text ++ rest)) = some ({ g4 := n.text }, rest) := by
  have hne : n.first ≠ '{' := (ne_of_isNameChar (isNameChar_of_start n.starts)).2.1
  have hname := readName_append (n := n) h
  rw [Name.text, List.cons_append] at hname ⊢
  unfold matchVar
  split
  · rename_i heq
    exact absurd (List.cons.inj (List.cons.inj heq).2).1 hne
  · rename_i heq
    obtain ⟨-, rfl⟩ := List.cons.inj heq
    rw [hname, Option.map_some]
  · rename_i hvar
    exact absurd rfl (hvar _)

private theorem matchVar_ref :
    matchVar ('$' :: '{' :: (n.text ++ '}' :: rest)) = some ({ g1 := n.text }, rest) := by
  have hclose : ∀ c ∈ ('}' :: rest).head?, isNameChar c = false := by
    rintro c ⟨⟩
    decide
  rw [matchVar, matchBraced, readName_append hclose]
  rfl

private theorem matchVar_mod (h : '}' ∉ w) :
    matchVar ('$' :: '{' :: (n.text ++ (op.text ++ (w ++ '}' :: rest)))) =
      some ({ g1 := n.text, g2 := op.text, g3 := w }, rest) := by
  obtain ⟨c, cs, hop, hname, hclose⟩ := op.head
  have hhead : ∀ d ∈ (op.text ++ (w ++ '}' :: rest)).head?, isNameChar d = false := by
    rw [hop]
    rintro d ⟨⟩
    exact hname
  have hall : ∀ d ∈ w, decide (d ≠ '}') = true := fun d hd =>
    decide_eq_true fun hdc : d = '}' => h (hdc ▸ hd)
  have htake : (w ++ '}' :: rest).takeWhile (· ≠ '}') = w := by
    rw [List.takeWhile_append_of_pos hall]
    simp
  have hdrop : (w ++ '}' :: rest).dropWhile (· ≠ '}') = '}' :: rest := by
    rw [List.dropWhile_append_of_pos hall]
    simp
  rw [matchVar, matchBraced, readName_append hhead, Option.bind_some]
  split
  · rename_i heq
    rw [hop] at heq
    exact absurd (List.cons.inj heq).1 hclose
  · rw [readOp_append, Option.bind_some]
    simp only [hdrop, htake]

private theorem replaceVars_eq_drop (skip : ℕ) (s : List Char) :
    replaceVars env skip s = replaceVars env 0 (s.drop skip) := by
  induction skip generalizing s with
  | zero => rfl
  | succ skip ih =>
    cases s with
    | nil => rfl
    | cons c s => rw [replaceVars, ih, List.drop_succ_cons]

private theorem replaceVars_of_match {c : Char} {m rest : List Char} {g : Submatch}
    (h : matchVar (c :: (m ++ rest)) = some (g, rest)) :
    replaceVars env 0 (c :: (m ++ rest)) = subst env g ++ replaceVars env 0 rest := by
  have hskip : (m ++ rest).length - rest.length = m.length := by simp
  rw [replaceVars, h]
  simp only [hskip]
  rw [replaceVars_eq_drop, List.drop_left]

private theorem replaceVars_of_ne {c : Char} (h : c ≠ '$') (s : List Char) :
    replaceVars env 0 (c :: s) = c :: replaceVars env 0 s := by
  have hnone : matchVar (c :: s) = none := by
    unfold matchVar
    split
    · exact absurd (List.cons.inj ‹_›).1 h
    · exact absurd (List.cons.inj ‹_›).1 h
    · rfl
  rw [replaceVars, hnone]

theorem replaceVars_var (h : ∀ c ∈ rest.head?, isNameChar c = false) :
    replaceVars env 0 ('$' :: n.text ++ rest) = value env n.text ++ replaceVars env 0 rest := by
  have hsubst : subst env { g4 := n.text } = value env n.text := by simp [subst, Name.text]
  rw [List.cons_append, replaceVars_of_match (matchVar_var h), hsubst]

theorem replaceVars_ref :
    replaceVars env 0 ('$' :: '{' :: n.text ++ '}' :: rest) =
      value env n.text ++ replaceVars env 0 rest := by
  have hsubst : subst env { g1 := n.text } = value env n.text := by simp [subst]
  have hsplit : '$' :: '{' :: n.text ++ '}' :: rest =
    '$' :: ('{' :: (n.text ++ ['}']) ++ rest) := by simp
  have hmatch : matchVar ('$' :: ('{' :: (n.text ++ ['}']) ++ rest)) =
      some ({ g1 := n.text }, rest) := by
    have href : matchVar ('$' :: '{' :: (n.text ++ '}' :: rest)) = some ({ g1 := n.text }, rest) :=
      matchVar_ref
    simpa using href
  rw [hsplit, replaceVars_of_match hmatch, hsubst]

private theorem subst_mod :
    subst env { g1 := n.text, g2 := op.text, g3 := w } =
      if Template.chosen env n op then w else Template.unchosen env n op := by
  cases op with
  | defaultEmpty => simp [subst, Op.text, Template.chosen, Template.unchosen]
  | defaultUnset =>
      cases hset : isSet env n.text <;> simp [subst, Op.text, Template.chosen, Template.unchosen,
      hset]
  | insteadNonempty => simp [subst, Op.text, Template.chosen, Template.unchosen]
  | insteadSet =>
      cases hset : isSet env n.text <;> simp [subst, Op.text, Template.chosen, Template.unchosen,
      hset]

theorem replaceVars_mod (h : '}' ∉ w) :
    replaceVars env 0 ('$' :: '{' :: n.text ++ op.text ++ w ++ '}' :: rest) =
      (if Template.chosen env n op then w else Template.unchosen env n op) ++
        replaceVars env 0 rest := by
  have hsplit : '$' :: '{' :: n.text ++ op.text ++ w ++ '}' :: rest =
      '$' :: ('{' :: (n.text ++ (op.text ++ (w ++ ['}']))) ++ rest) := by simp
  have hmatch : matchVar ('$' :: ('{' :: (n.text ++ (op.text ++ (w ++ ['}']))) ++ rest)) =
      some ({ g1 := n.text, g2 := op.text, g3 := w }, rest) := by
    have hmod : matchVar ('$' :: '{' :: (n.text ++ (op.text ++ (w ++ '}' :: rest)))) =
        some ({ g1 := n.text, g2 := op.text, g3 := w }, rest) := matchVar_mod h
    simpa using hmod
  rw [hsplit, replaceVars_of_match hmatch, subst_mod]

end

/-! ### Escapes -/

/-- The text with every escape taken out of the way. -/
private abbrev mark (s : List Char) : List Char := replaceFrom ['$', '$'] ['\x00'] 0 s

private theorem mark_append {l : List Char} (h : '$' ∉ l) (s : List Char) :
    mark (l ++ s) = l ++ mark s := by
  induction l with
  | nil => rfl
  | cons c l ih =>
    obtain ⟨hc, hl⟩ := List.ne_and_not_mem_of_not_mem_cons h
    have hne : ¬ ['$', '$'].isPrefixOf (c :: (l ++ s)) := by simp [hc]
    rw [List.cons_append, mark, replaceFrom, if_neg hne, List.cons_append]
    exact congrArg (c :: ·) (ih hl)

private theorem mark_dollar {c : Char} (h : c ≠ '$') (s : List Char) :
    mark ('$' :: c :: s) = '$' :: mark (c :: s) := by
  have hne : ¬ ['$', '$'].isPrefixOf ('$' :: c :: s) := by simpa using Ne.symm h
  rw [mark, replaceFrom, if_neg hne]

private theorem mark_escape (s : List Char) : mark ('$' :: '$' :: s) = '\x00' :: mark s := by
  simp [mark, replaceFrom]

private theorem Name.not_mem (n : Name) {c : Char} (h : isNameChar c = false) : c ∉ n.text :=
  fun hc =>
  absurd (n.isNameChar_of_mem hc) (by simp [h])

private theorem Op.not_mem (op : Op) : '$' ∉ op.text ∧ '}' ∉ op.text := by
  cases op <;> decide

namespace Template

/-- Escapes are recognized where the template has them. -/
theorem mark_render {i : Bool} {T : Template} (h : T.Proper i) (s : List Char) :
    mark (T.render ['$', '$'] ++ s) = T.render ['\x00'] ++ mark s := by
  induction T generalizing i s with
  | nil => rfl
  | lit c t ih =>
    have hkeep := mark_append (l := [c]) (by simpa using Ne.symm h.1.1) (t.render ['$', '$'] ++ s)
    simpa [render, ih h.2] using hkeep
  | esc t ih => simpa [render, ih h] using mark_escape (t.render ['$', '$'] ++ s)
  | var n t ih =>
    have hne : n.first ≠ '$' := (ne_of_isNameChar (isNameChar_of_start n.starts)).1
    have hname := mark_append (n.not_mem (c := '$') (by decide)) (t.render ['$', '$'] ++ s)
    rw [ih h.2] at hname
    have hdollar := mark_dollar hne (n.rest ++ (t.render ['$', '$'] ++ s))
    simp only [render, List.cons_append, List.append_assoc, Name.text] at hname hdollar ⊢
    rw [hdollar, hname]
  | ref n t ih =>
    have hname := mark_append (l := '{' :: (n.text ++ ['}']))
      (by simp [n.not_mem (c := '$') (by decide)]) (t.render ['$', '$'] ++ s)
    rw [ih h] at hname
    have hdollar := mark_dollar (c := '{') (by decide) (n.text ++ '}' :: (t.render ['$', '$'] ++ s))
    simp only [render, List.cons_append, List.append_assoc, List.nil_append] at hname hdollar ⊢
    rw [hdollar, hname]
  | mod n op w t ihw iht =>
    have hname := mark_append (l := '{' :: (n.text ++ op.text))
      (by simp [n.not_mem (c := '$') (by decide), op.not_mem.1])
      (w.render ['$', '$'] ++ ('}' :: (t.render ['$', '$'] ++ s)))
    have hclose := mark_append (l := ['}']) (by decide) (t.render ['$', '$'] ++ s)
    rw [iht h.2] at hclose
    simp only [List.cons_append, List.nil_append] at hclose
    rw [ihw h.1, hclose] at hname
    have hdollar := mark_dollar (c := '{') (by decide)
      (n.text ++ (op.text ++ (w.render ['$', '$'] ++ ('}' :: (t.render ['$', '$'] ++ s)))))
    simp only [render, List.cons_append, List.append_assoc] at hname hdollar ⊢
    rw [hdollar, hname]

/-- The dollar signs put back. -/
def restore (s : List Char) : List Char := s.map fun c => if c = '\x00' then '$' else c

private theorem interpolate_text (env : Dict String String) {T : Template} (h : T.Proper false) :
    (interpolate env T.text).toList = restore (replaceVars env 0 (T.render ['\x00'])) := by
  have hmark := mark_render h []
  rw [List.append_nil] at hmark
  have hnil : mark [] = [] := rfl
  have hold : "$$".toList = ['$', '$'] := rfl
  have hnew : "\x00".toList = ['\x00'] := rfl
  simp [interpolate, replaceChar, replaceAll, text, restore, hold, hnew, hmark, hnil]

theorem head?_render {t : Template} (h : ∀ c ∈ (t.render ['$', '$']).head?, isNameChar c = false) :
    ∀ c ∈ (t.render ['\x00']).head?, isNameChar c = false := by
  cases t with
  | nil => simp [render]
  | lit c t => exact h
  | esc t =>
    rintro c ⟨⟩
    decide
  | var n t => exact h
  | ref n t => exact h
  | mod n op w t => exact h

/-! ### Templates that are resolved as in Compose -/

private theorem restore_append (s t : List Char) : restore (s ++ t) = restore s ++ restore t :=
  List.map_append

private theorem restore_eq_self {s : List Char} (h : '\x00' ∉ s) : restore s = s := by
  have hkeep : ∀ c ∈ s, (if c = '\x00' then '$' else c) = c := fun c hc =>
    if_neg fun hnul : c = '\x00' => h (hnul ▸ hc)
  rw [restore, List.map_congr_left hkeep, List.map_id']

private theorem not_mem_render {w : Template} (h : w.Proper true) (hw : w.NoBraces) :
    '}' ∉ w.render ['\x00'] := by
  induction w with
  | nil => simp [render]
  | lit c t ih => simpa [render] using ⟨Ne.symm (h.1.2.2 rfl), ih h.2 hw⟩
  | esc t ih => simpa [render] using ih h hw
  | var n t ih => simpa [render, n.not_mem (c := '}') (by decide)] using ih h.2 hw
  | ref n t ih => exact hw.elim
  | mod n op w t ihw iht => exact hw.elim

private theorem restore_render {i : Bool} {w : Template} (env : Dict String String) (h : w.Proper i)
    (hw : w.NoRefs) :
    restore (w.render ['\x00']) = w.eval env := by
  induction w with
  | nil => rfl
  | lit c t ih => simp [render, eval, restore, h.1.2.1, ← ih h.2 hw]
  | esc t ih => simp [render, eval, restore, ← ih h hw]
  | var n t ih => exact hw.elim
  | ref n t ih => exact hw.elim
  | mod n op w t ihw iht => exact hw.elim

section

variable {env : Dict String String} (henv : ∀ name v, env.get? name = some v → '\x00' ∉ v.toList)
include henv

omit henv in
private theorem value_spec {P : List Char → Prop} (hnil : P [])
    (h : ∀ name v, env.get? name = some v → P v.toList)
    (name : List Char) : P (value env name) := by
  rw [value]
  cases hget : env.get? (String.ofList name) with
  | none => exact hnil
  | some v => exact h _ v hget

private theorem restore_value (name : List Char) : restore (value env name) = value env name :=
  restore_eq_self (value_spec (P := ('\x00' ∉ ·)) List.not_mem_nil henv name)

private theorem restore_unchosen (n : Name) (op : Op) :
    restore (unchosen env n op) = unchosen env n op := by
  cases op with
  | defaultEmpty => exact restore_value henv n.text
  | defaultUnset => exact restore_value henv n.text
  | insteadNonempty => rfl
  | insteadSet => rfl

private theorem restore_replaceVars {T : Template} (h : T.Proper false) (hp : T.Plain env) :
    restore (replaceVars env 0 (T.render ['\x00'])) = T.eval env := by
  induction T with
  | nil => rfl
  | lit c t ih =>
    rw [render, replaceVars_of_ne h.1.1, eval, ← ih h.2 hp]
    simp [restore, h.1.2.1]
  | esc t ih =>
    rw [render, List.singleton_append, replaceVars_of_ne (by decide), eval, ← ih h hp]
    simp [restore]
  | var n t ih =>
    rw [render, replaceVars_var (head?_render h.1), restore_append, restore_value henv, ih h.2 hp,
      eval]
  | ref n t ih => rw [render, replaceVars_ref, restore_append, restore_value henv, ih h hp, eval]
  | mod n op w t ihw iht =>
    rw [render, replaceVars_mod (not_mem_render h.1 hp.1.1), restore_append, iht h.2 hp.2, eval]
    cases hchosen : chosen env n op with
    | false => simp [restore_unchosen henv]
    | true => simp [restore_render env h.1 (hp.1.2 hchosen)]

end

/-! ### Templates that are not -/

/-- The characters that values are without and that a reference that was not resolved leaves behind.
A NUL stands for a dollar sign. -/
def isTrace (c : Char) : Bool := c ∈ ['$', '}', '\x00']

/-- How many there are. -/
def traces (s : List Char) : ℕ := s.countP isTrace

@[simp] theorem traces_nil : traces [] = 0 := rfl

@[simp] theorem traces_append (s t : List Char) : traces (s ++ t) = traces s + traces t :=
  List.countP_append

@[simp] theorem traces_cons (c : Char) (s : List Char) :
    traces (c :: s) = traces s + if isTrace c then 1 else 0 := List.countP_cons

private theorem traces_restore (s : List Char) : traces (restore s) = traces s := by
  rw [traces, restore, List.countP_map]
  refine List.countP_congr fun c _ => ?_
  by_cases h : c = '\x00' <;> simp [h, isTrace]

private theorem render_append (d : List Char) (t k : Template) :
    (t.append k).render d = t.render d ++ k.render d := by
  induction t with
  | nil => rfl
  | lit c t ih => simp [append, render, ih]
  | esc t ih => simp [append, render, ih]
  | var n t ih => simp [append, render, ih]
  | ref n t ih => simp [append, render, ih]
  | mod n op w t ihw iht => simp [append, render, iht]

private theorem eval_append (env : Dict String String) (t k : Template) :
    (t.append k).eval env = t.eval env ++ k.eval env := by
  induction t with
  | nil => rfl
  | lit c t ih => simp [append, eval, ih]
  | esc t ih => simp [append, eval, ih]
  | var n t ih => simp [append, eval, ih]
  | ref n t ih => simp [append, eval, ih]
  | mod n op w t ihw iht => simp [append, eval, iht]

/-- The end of a text in braces may follow what stands in it. -/
theorem proper_append {i : Bool} {t k : Template} (h : t.Proper i) (hk : (lit '}' k).Proper false) :
    (t.append (lit '}' k)).Proper false := by
  induction t with
  | nil => exact hk
  | lit c t ih => exact ⟨⟨h.1.1, h.1.2.1, fun hi => absurd hi Bool.false_ne_true⟩, ih h.2⟩
  | esc t ih => exact ih h
  | var n t ih =>
    refine ⟨fun c hc => ?_, ih h.2⟩
    rw [render_append, List.head?_append] at hc
    cases hhead : (t.render ['$', '$']).head? with
    | none =>
      rw [hhead] at hc
      obtain rfl : '}' = c := by simpa [render] using hc
      decide
    | some d =>
      rw [hhead] at hc
      obtain rfl : d = c := by simpa using hc
      exact h.1 d hhead
  | ref n t ih => exact ih h
  | mod n op w t ihw iht => exact ⟨h.1, iht h.2⟩

section

variable {env : Dict String String} (henv : ∀ name, traces (value env name) = 0)
include henv

private theorem traces_unchosen (n : Name) (op : Op) : traces (unchosen env n op) = 0 := by
  cases op with
  | defaultEmpty => exact henv n.text
  | defaultUnset => exact henv n.text
  | insteadNonempty => rfl
  | insteadSet => rfl

private theorem traces_choice_le (n : Name) (op : Op) (s : List Char) :
    traces (if chosen env n op then s else unchosen env n op) ≤ traces s := by
  split_ifs with h
  · exact le_rfl
  · exact (traces_unchosen henv n op).trans_le (Nat.zero_le _)

private theorem traces_eval_le {w : Template} (hw : w.NoBraces) :
    traces (w.eval env) ≤ traces (w.render ['\x00']) := by
  induction w with
  | nil => exact le_rfl
  | lit c t ih => simpa [eval, render] using ih hw
  | esc t ih => simpa [eval, render, isTrace] using ih hw
  | var n t ih =>
    have hle := ih hw
    simp only [eval, render, traces_append, henv, traces_cons, List.cons_append]
    omega
  | ref n t ih => exact hw.elim
  | mod n op w t ihw iht => exact hw.elim

private theorem traces_eval_lt {w : Template} (hw : w.NoBraces) (hrefs : ¬ w.NoRefs) :
    traces (w.eval env) < traces (w.render ['\x00']) := by
  induction w with
  | nil => exact absurd trivial hrefs
  | lit c t ih => simpa [eval, render] using ih hw hrefs
  | esc t ih => simpa [eval, render, isTrace] using ih hw hrefs
  | var n t ih =>
    have hle := traces_eval_le henv (w := t) hw
    have hdollar : isTrace '$' = true := rfl
    simp only [eval, render, traces_append, henv, traces_cons, List.cons_append, hdollar,
      if_true] at hle ⊢
    omega
  | ref n t ih => exact hw.elim
  | mod n op w t ihw iht => exact hw.elim

/-- The first closing brace after a text that has one: the text in front of it, and the template of
what follows. Between them they have a trace for all that is lost. -/
theorem exists_cut {w k : Template} (hw : w.Proper true) (hb : ¬ w.NoBraces)
    (hk : (lit '}' k).Proper false) :
    ∃ (g : List Char) (r : Template), w.render ['\x00'] ++ '}' :: k.render ['\x00'] = g ++
      '}' :: r.render ['\x00'] ∧ '}' ∉ g ∧
      r.Proper false ∧ traces (k.eval env) + 1 ≤ traces (r.eval env) ∧
      traces (w.eval env) + (traces (k.eval env) + 1) ≤ traces g + traces (r.eval env) := by
  have hbrace : isTrace '}' = true := rfl
  have hdollar : isTrace '$' = true := rfl
  induction w generalizing k with
  | nil => exact absurd trivial hb
  | lit c t ih =>
    obtain ⟨g, r, hsplit, hg, hr, hle, hsum⟩ := ih hw.2 hb hk
    refine ⟨c :: g, r, by simp [render, hsplit], ?_, hr, hle, ?_⟩
    · simpa using ⟨Ne.symm (hw.1.2.2 rfl), hg⟩
    · simp only [eval, traces_cons]
      omega
  | esc t ih =>
    obtain ⟨g, r, hsplit, hg, hr, hle, hsum⟩ := ih hw hb hk
    refine ⟨'\x00' :: g, r, by simp [render, hsplit], by simpa using hg, hr, hle, ?_⟩
    have hnul : isTrace '\x00' = true := rfl
    simp only [eval, traces_cons, hnul, hdollar, if_true]
    omega
  | var n t ih =>
    obtain ⟨g, r, hsplit, hg, hr, hle, hsum⟩ := ih hw.2 hb hk
    refine ⟨'$' :: n.text ++ g, r, by simp [render, hsplit], ?_, hr, hle, ?_⟩
    · simp [hg, n.not_mem (c := '}') (by decide)]
    · simp only [eval, traces_append, henv]
      omega
  | ref n t ih =>
    refine ⟨'$' :: '{' :: n.text, t.append (lit '}' k), by simp [render, render_append], ?_,
      proper_append hw hk, ?_, ?_⟩
    · simp [n.not_mem (c := '}') (by decide)]
    · simp only [eval_append, eval, traces_append, traces_cons, hbrace, if_true]
      omega
    · simp only [eval_append, eval, traces_append, traces_cons, henv, hbrace, if_true]
      omega
  | mod n op w' t ihw iht =>
    have hk' : (lit '}' (t.append (lit '}' k))).Proper false :=
      ⟨⟨by decide, by decide, fun hi => absurd hi Bool.false_ne_true⟩, proper_append hw.2 hk⟩
    have hchoice := traces_choice_le henv n op (w'.eval env)
    have happend : traces ((t.append (lit '}' k)).eval env) = traces (t.eval env) +
        (traces (k.eval env) + 1) := by
      simp [eval_append, eval, hbrace]
    have hplain : '}' ∉ '$' :: '{' :: n.text ++ op.text := by
      simp [n.not_mem (c := '}') (by decide), op.not_mem.2]
    by_cases hb' : w'.NoBraces
    · have hinner := traces_eval_le henv hb'
      refine ⟨'$' :: '{' :: n.text ++ op.text ++ w'.render ['\x00'], t.append (lit '}' k),
        by simp [render, render_append], ?_, proper_append hw.2 hk, ?_, ?_⟩
      · exact fun h => (List.mem_append.mp h).elim hplain (not_mem_render hw.1 hb')
      · omega
      · simp only [eval, traces_append]
        omega
    · obtain ⟨g, r, hsplit, hg, hr, hle, hsum⟩ := ihw hw.1 hb' hk'
      refine ⟨'$' :: '{' :: n.text ++ op.text ++ g, r, ?_, ?_, hr, ?_, ?_⟩
      · simpa [render, render_append] using hsplit
      · exact fun h => (List.mem_append.mp h).elim hplain hg
      · omega
      · simp only [eval, traces_append]
        omega

/-- The result has every trace that Compose's has, and one more when it should not have been copied.
-/
theorem traces_le_replaceVars {T : Template} (h : T.Proper false) :
    traces (T.eval env) ≤ traces (replaceVars env 0 (T.render ['\x00'])) ∧
      (¬ T.Plain env → traces (T.eval env) < traces (replaceVars env 0 (T.render ['\x00']))) := by
  -- by induction on the length of the text: what follows a brace that closes too early is no part
  -- of the template
  induction hlen : (T.render ['\x00']).length using Nat.strong_induction_on generalizing T with
  | h len ih =>
  cases T with
  | nil => exact ⟨le_rfl, fun hn => absurd trivial hn⟩
  | lit c t =>
    obtain ⟨hle, hlt⟩ := ih (T := t) _ (by simp [← hlen, render]) h.2 rfl
    rw [render, replaceVars_of_ne h.1.1]
    simp only [eval, traces_cons]
    exact ⟨Nat.add_le_add_right hle _, fun hn => Nat.add_lt_add_right (hlt hn) _⟩
  | esc t =>
    obtain ⟨hle, hlt⟩ := ih (T := t) _ (by simp [← hlen, render]) h rfl
    have htrace : isTrace '$' = isTrace '\x00' := rfl
    rw [render, List.singleton_append, replaceVars_of_ne (by decide)]
    simp only [eval, traces_cons, htrace]
    exact ⟨Nat.add_le_add_right hle _, fun hn => Nat.add_lt_add_right (hlt hn) _⟩
  | var n t =>
    obtain ⟨hle, hlt⟩ := ih (T := t) _ (by simp [← hlen, render, Name.text]; omega) h.2 rfl
    rw [render, replaceVars_var (head?_render h.1)]
    simp only [eval, traces_append]
    exact ⟨Nat.add_le_add_left hle _, fun hn => Nat.add_lt_add_left (hlt hn) _⟩
  | ref n t =>
    obtain ⟨hle, hlt⟩ := ih (T := t) _ (by simp [← hlen, render, Name.text]; omega) h rfl
    rw [render, replaceVars_ref]
    simp only [eval, traces_append]
    exact ⟨Nat.add_le_add_left hle _, fun hn => Nat.add_lt_add_left (hlt hn) _⟩
  | mod n op w t =>
    have hchoice := traces_choice_le henv n op (w.eval env)
    by_cases hb : w.NoBraces
    · obtain ⟨hle, hlt⟩ := ih (T := t) _ (by simp [← hlen, render, Name.text]; omega) h.2 rfl
      rw [render, replaceVars_mod (not_mem_render h.1 hb)]
      simp only [eval, traces_append]
      cases hchosen : chosen env n op with
      | false =>
        refine ⟨Nat.add_le_add_left hle _, fun hn => Nat.add_lt_add_left (hlt fun hp => hn ?_) _⟩
        exact ⟨⟨hb, fun hc => absurd (hchosen.symm.trans hc) Bool.false_ne_true⟩, hp⟩
      | true =>
        refine ⟨Nat.add_le_add (traces_eval_le henv hb) hle, fun hn => ?_⟩
        by_cases hrefs : w.NoRefs
        · refine Nat.add_lt_add_of_le_of_lt (traces_eval_le henv hb) (hlt fun hp => hn ?_)
          exact ⟨⟨hb, fun _ => hrefs⟩, hp⟩
        · exact Nat.add_lt_add_of_lt_of_le (traces_eval_lt henv hb hrefs) hle
    · have hk : (lit '}' t).Proper false :=
        ⟨⟨by decide, by decide, fun hi => absurd hi Bool.false_ne_true⟩, h.2⟩
      obtain ⟨g, r, hsplit, hg, hr, hle, hsum⟩ := exists_cut henv h.1 hb hk
      have hlength := congrArg List.length hsplit
      simp only [List.length_append, List.length_cons] at hlength
      obtain ⟨hrest, -⟩ := ih (T := r) _ (by simp [← hlen, render, Name.text]; omega) hr rfl
      have htext : (mod n op w t).render ['\x00'] =
          '$' :: '{' :: n.text ++ op.text ++ g ++ '}' :: r.render ['\x00'] := by
        simpa [render] using hsplit
      have hlt : traces ((mod n op w t).eval env) <
          traces (replaceVars env 0 ((mod n op w t).render ['\x00'])) := by
        rw [htext, replaceVars_mod hg]
        simp only [eval, traces_append]
        cases hchosen : chosen env n op with
        | false =>
          simp only [Bool.false_eq_true, if_false]
          omega
        | true =>
          simp only [if_true]
          omega
      exact ⟨hlt.le, fun _ => hlt⟩

end

private theorem NoRefs.noBraces {w : Template} (h : w.NoRefs) : w.NoBraces := by
  induction w with
  | nil => trivial
  | lit c t ih => exact ih h
  | esc t ih => exact ih h
  | var n t ih => exact h.elim
  | ref n t ih => exact h.elim
  | mod n op w t ihw iht => exact h.elim

theorem Flat.plain {T : Template} (h : T.Flat) (env : Dict String String) : T.Plain env := by
  induction T with
  | nil => trivial
  | lit c t ih => exact ih h
  | esc t ih => exact ih h
  | var n t ih => exact ih h
  | ref n t ih => exact ih h
  | mod n op w t ihw iht => exact ⟨⟨h.1.noBraces, fun _ => h.1⟩, iht h.2⟩

end Template

open Template

/-- No value has a NUL. -/
def NulFree (env : Dict String String) : Prop :=
  ∀ name v, env.get? name = some v → '\x00' ∉ v.toList

/-- No value has a dollar sign or a closing brace. -/
def Unmarked (env : Dict String String) : Prop :=
  ∀ name v, env.get? name = some v → '$' ∉ v.toList ∧ '}' ∉ v.toList

/-- The function gives what Compose gives. -/
def Interpolates (env : Dict String String) (T : Template) : Prop :=
  interpolate env T.text = String.ofList (T.eval env)

private theorem interpolates_iff_restore {env : Dict String String} {T : Template}
    (h : T.Proper false) :
    Interpolates env T ↔ restore (replaceVars env 0 (T.render ['\x00'])) = T.eval env := by
  rw [Interpolates, ← String.toList_inj, interpolate_text env h, String.toList_ofList]

private theorem traces_value {env : Dict String String} (hnul : NulFree env) (henv : Unmarked env)
    (name : List Char) :
    traces (value env name) = 0 := by
  refine value_spec (P := fun v => traces v = 0) rfl (fun name v hv => ?_) name
  refine List.countP_eq_zero.mpr fun c hc => ?_
  rintro htrace
  rcases (by simpa [isTrace] using htrace : c = '$' ∨ c = '}' ∨ c = '\x00') with rfl | rfl | rfl
  · exact (henv name v hv).1 hc
  · exact (henv name v hv).2 hc
  · exact hnul name v hv hc

private theorem nulFree_empty : NulFree ∅ := fun name v hv => by simp at hv

private theorem unmarked_empty : Unmarked ∅ := fun name v hv => by simp at hv

/-- An environment with one name. -/
private def only (n : Name) : Dict String String :=
  (∅ : Dict String String).set (String.ofList n.text) "x"

private theorem eq_of_get?_only {n : Name} {name v : String} (h : (only n).get? name = some v) :
    v = "x" := by
  rw [only, Dict.get?_set, Dict.get?_empty] at h
  split_ifs at h
  exact (Option.some_inj.mp h).symm

private theorem nulFree_only (n : Name) : NulFree (only n) := fun name v hv => by
  rw [eq_of_get?_only hv]
  decide

private theorem unmarked_only (n : Name) : Unmarked (only n) := fun name v hv => by
  rw [eq_of_get?_only hv]
  decide

/-- The text after an operator is chosen in some environment. -/
theorem exists_chosen (n : Name) (op : Op) : ∃ env, NulFree env ∧ Unmarked env ∧
    chosen env n op = true := by
  cases op with
  | defaultEmpty => exact ⟨∅, nulFree_empty, unmarked_empty, by simp [chosen, value]⟩
  | defaultUnset => exact ⟨∅, nulFree_empty, unmarked_empty, by simp [chosen, isSet]⟩
  | insteadNonempty =>
    exact ⟨only n, nulFree_only n, unmarked_only n, by simp [chosen, value, only, Dict.get?_set]⟩
  | insteadSet =>
    exact ⟨only n, nulFree_only n, unmarked_only n, by simp [chosen, isSet, only, Dict.get?_set]⟩

private theorem exists_not_plain {T : Template} (h : ¬ T.Flat) :
    ∃ env, NulFree env ∧ Unmarked env ∧ ¬ T.Plain env := by
  induction T with
  | nil => exact absurd trivial h
  | lit c t ih => exact ih h
  | esc t ih => exact ih h
  | var n t ih => exact ih h
  | ref n t ih => exact ih h
  | mod n op w t ihw iht =>
    by_cases hw : w.NoRefs
    · obtain ⟨env, hnul, henv, hplain⟩ := iht fun ht => h ⟨hw, ht⟩
      exact ⟨env, hnul, henv, fun hp => hplain hp.2⟩
    · obtain ⟨env, hnul, henv, hchosen⟩ := exists_chosen n op
      exact ⟨env, hnul, henv, fun hp => hw (hp.1.2 hchosen)⟩

/-- **Interpolation.** A template is resolved as Compose resolves it when no text after an operator
has a reference in braces and none that is chosen has a reference. It is resolved otherwise in no
other environment whose values have no dollar sign and no closing brace, so that the templates that
are resolved as in Compose in every environment are those without nested references. -/
theorem interpolates_iff {T : Template} (h : T.Proper false) :
    (∀ env, NulFree env →
      (T.Plain env → Interpolates env T) ∧ (Unmarked env → (Interpolates env T ↔ T.Plain env))) ∧
      ((∀ env, NulFree env → Interpolates env T) ↔ T.Flat) := by
  have hright : ∀ env, NulFree env → T.Plain env → Interpolates env T := fun env hnul hp =>
    (interpolates_iff_restore h).mpr (restore_replaceVars hnul h hp)
  have honly : ∀ env, NulFree env → Unmarked env → Interpolates env T → T.Plain env := by
    intro env hnul henv heq
    by_contra hp
    have hlt := (traces_le_replaceVars (traces_value hnul henv) h).2 hp
    rw [← (interpolates_iff_restore h).mp heq, traces_restore] at hlt
    exact lt_irrefl _ hlt
  refine ⟨fun env hnul => ⟨hright env hnul, fun henv => ⟨honly env hnul henv, hright env hnul⟩⟩, ?_⟩
  constructor
  · intro hall
    by_contra hflat
    obtain ⟨env, hnul, henv, hp⟩ := exists_not_plain hflat
    exact hp (honly env hnul henv (hall env hnul))
  · exact fun hflat env hnul => hright env hnul (hflat.plain env)

/-- The name of one letter. -/
private def nameA : Name := ⟨'A', [], by decide, by decide⟩

/-- The name of another letter. -/
private def nameB : Name := ⟨'B', [], by decide, by decide⟩

/-- A default between two letters, with an escape in it. -/
theorem interpolates_default : Interpolates ∅
    (.lit 'p' (.mod nameA .defaultEmpty (.lit 'x' (.esc .nil))
    (.lit 'q' .nil))) :=
  ((interpolates_iff (by simp [Template.Proper])).2.mpr (by simp [Flat, NoRefs]) ∅ nulFree_empty)

/-- The default of a default: the brace of the inner reference closes the outer one. -/
theorem nested_default : ¬ ∀ (env : Dict String String) (T : Template), T.Proper false →
    NulFree env →
    Interpolates env T := by
  intro h
  have hset : NulFree ((∅ : Dict String String).set "A" "x") := nulFree_only nameA
  have heq := h _ (.mod nameA .defaultEmpty (.ref nameB .nil) .nil) (by simp [Template.Proper]) hset
  revert heq
  unfold Interpolates
  decide +kernel

end Dockhand.DeployCheck
