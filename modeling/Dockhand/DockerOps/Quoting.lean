import Dockhand.Data.ShellWords
import Dockhand.DockerOps.RunSpec
import Dockhand.Machines.Fixes

/-!
# Words in commands

Dockhand writes strings into shell commands with four functions: `Shq` and `shellArg`, which escape
a single quote with a backslash, and `shQuote` and `shellQuote`, which put it between double quotes.
A shell reads each of them back as one word (`commands_read_back`), so that the commands which are
put together from such words run what they name.
-/

namespace Dockhand

/-- `shellQuote` of the `system` package. -/
def System.shellQuote (s : String) : String := "'" ++ Go.replaceAll s "'" "'\"'\"'" ++ "'"

/-- `withSudo` prefixes a command with `sudo -n` when the SSH user isn't root. -/
def Machines.withSudo (cmd : String) (root : Bool) : String :=
  if root then cmd else "sudo -n sh -c " ++ shQuote cmd

namespace DockerOps

open Go Shell
open Stacks (shq Row composeCmd ComposeCall)
open Machines (shQuote withSudo)
open Dockhand.System (shellQuote)

/-! ### The four quotings -/

private theorem toList_shq (s : String) : (shq s).toList = quote "'\\''".toList s.toList := by
  have hmark : ∀ c : Char, (if c = '\'' then "'\\''" else String.singleton c).toList =
      if c = '\'' then ['\'', '\\', '\'', '\''] else [c] := by
    intro c
    split_ifs
    · rfl
    · exact String.toList_singleton c
  simp [shq, quote, String.toList_join, List.flatMap_map, hmark]

private theorem toList_shQuote (s : String) :
    (shQuote s).toList = quote "'\"'\"'".toList s.toList := by
  simp [shQuote, quote]

/-- A replacement of one character. -/
theorem replaceFrom_singleton (c : Char) (new s : List Char) :
    replaceFrom [c] new 0 s = s.flatMap fun d => if d = c then new else [d] := by
  induction s with
  | nil => rfl
  | cons d s ih =>
    rw [List.flatMap_cons, replaceFrom]
    by_cases hd : d = c
    · subst hd
      simp [ih]
    · simp [hd, Ne.symm hd, ih]

private theorem toList_shellQuote (s : String) :
    (shellQuote s).toList = quote "'\"'\"'".toList s.toList := by
  have hquote : "'".toList = ['\''] := rfl
  simp [shellQuote, replaceAll, quote, hquote, replaceFrom_singleton]

private theorem writes_shq (s : String) : Writes (shq s).toList s.toList :=
  toList_shq s ▸ writes_quote isMark_backslash s.toList

private theorem writes_shQuote (s : String) : Writes (shQuote s).toList s.toList :=
  toList_shQuote s ▸ writes_quote isMark_double s.toList

private theorem writes_shellQuote (s : String) : Writes (shellQuote s).toList s.toList :=
  toList_shellQuote s ▸ writes_quote isMark_double s.toList

/-- The characters that are left unquoted mean nothing to a shell. -/
theorem isPlain_of_allowed {c : Char} (h : (c.isAlphanum || c ∈ "-_./:=@,+%".toList) = true) :
    isPlain c = true := by
  by_contra hspecial
  rw [isPlain, decide_eq_true_eq, not_not] at hspecial
  have hall : ("|&;<>()$`\\\"' \t\n*?[#~".toList.all fun c =>
      !(c.isAlphanum || c ∈ "-_./:=@,+%".toList)) = true := by
    decide
  have hrefused := List.all_eq_true.mp hall c hspecial
  rw [h] at hrefused
  cases hrefused

theorem writes_shellArg (s : String) : Writes (shellArg s).toList s.toList := by
  unfold shellArg
  split_ifs with hempty hplain
  · subst hempty
    exact writes_quote isMark_backslash []
  · exact writes_self (fun h => hempty (String.toList_eq_nil_iff.mp h)) fun c hc =>
      isPlain_of_allowed (List.all_eq_true.mp hplain c hc)
  · exact writes_shq s

/-! ### The commands -/

/-- The words of some strings. -/
def wordsOf (ss : List String) : List Token := ss.map fun s => .word s.toList

/-- The tokens of a call of `docker compose`, before its arguments. -/
def composeTokens (r : Row) : List Token :=
  (if r.path ≠ "" then wordsOf ["cd", r.path] ++ [.operator "&&".toList] else []) ++
    wordsOf ["docker", "compose", "-p", r.name] ++
    (if r.composeFile ≠ "" then wordsOf ["-f", r.composePath] else [])

private theorem readFrom_word_literal (w t : List Char) :
    readFrom (.word w) (" ".toList ++ t) = emit [.word w] (readFrom .between t) :=
  readFrom_word_space w t

/-- `cd` into the directory, when there is one. -/
theorem readFrom_cd (r : Row) (t : List Char) :
    readFrom .between
        ((if r.path ≠ "" then "cd " ++ shq r.path ++ " && " else "").toList ++ t) =
      emit (if r.path ≠ "" then wordsOf ["cd", r.path] ++ [.operator "&&".toList] else [])
        (readFrom .between t) := by
  split_ifs
  · have hcd : ∀ t, readFrom .between ("cd ".toList ++ t) =
        emit (wordsOf ["cd"]) (readFrom .between t) := fun t => rfl
    have hand : ∀ w t, readFrom (.word w) (" && ".toList ++ t) =
        emit [.word w, .operator "&&".toList] (readFrom .between t) := fun w t => rfl
    rw [String.toList_append, String.toList_append, List.append_assoc, List.append_assoc, hcd,
      writes_shq, hand, emit_emit]
    rfl
  · rfl

/-- The compose file, when there is one, and the arguments. -/
theorem readFrom_file (r : Row) (args w : List Char) :
    readFrom (.word w) ((String.join
        ((if r.composeFile = "" then [] else [r.composePath]).map fun f =>
          " -f " ++ shq f)).toList ++
          (" ".toList ++ args)) =
      emit (.word w :: if r.composeFile ≠ "" then wordsOf ["-f", r.composePath] else [])
        (readFrom .between args) := by
  by_cases hempty : r.composeFile = ""
  · rw [if_pos hempty, if_neg (not_not.mpr hempty)]
    exact readFrom_word_literal w args
  · have hflag : ∀ t, readFrom (.word w) (" -f ".toList ++ t) =
        emit [.word w, .word "-f".toList] (readFrom .between t) := fun t => rfl
    have hjoin : (String.join ([r.composePath].map fun f => " -f " ++ shq f)).toList =
        " -f ".toList ++ (shq r.composePath).toList := by
      simp [String.join]
    rw [if_neg hempty, if_pos hempty, hjoin, List.append_assoc, hflag, writes_shq,
      readFrom_word_literal, emit_emit]
    rfl

/-- A call of `docker compose` with whatever arguments. -/
theorem read_composeCmd (r : Row) (args : String) :
    read (composeCmd r args).render.toList = emit (composeTokens r) (read args.toList) := by
  have hname : ∀ t, readFrom .between ("docker compose -p ".toList ++ t) =
      emit (wordsOf ["docker", "compose", "-p"]) (readFrom .between t) := fun t => rfl
  have hline : (composeCmd r args).render.toList =
      (if r.path ≠ "" then "cd " ++ shq r.path ++ " && " else "").toList ++
        ("docker compose -p ".toList ++ ((shq r.name).toList ++ ((String.join
          ((if r.composeFile = "" then [] else [r.composePath]).map fun f =>
            " -f " ++ shq f)).toList ++
            (" ".toList ++ args.toList)))) := by
    simp only [ComposeCall.render, composeCmd, String.toList_append, List.append_assoc]
    rfl
  rw [Shell.read, hline, readFrom_cd, hname, writes_shq, readFrom_file, emit_emit, emit_emit]
  congr 1
  rw [composeTokens, List.append_assoc, List.append_assoc]
  rfl

private theorem read_withSudo (cmd : String) :
    read (withSudo cmd false).toList = (wordsOf ["sudo", "-n", "sh", "-c", cmd], true) := by
  have hsudo : ∀ t, readFrom .between ("sudo -n sh -c ".toList ++ t) =
      emit (wordsOf ["sudo", "-n", "sh", "-c"]) (readFrom .between t) := fun t => rfl
  have hcmd := (writes_shQuote cmd).read
  rw [Shell.read] at hcmd
  rw [Shell.read, withSudo, if_neg Bool.false_ne_true, String.toList_append, hsudo, hcmd]
  rfl

/-- A text that stands for a word is a line of this word. -/
theorem words_of_writes {text w : List Char} (h : Writes text w) : words text = some [w] := by
  rw [words, h.read, if_pos rfl]
  rfl

/-- **Commands survive quoting.** Each of the four quotings of a string is one word, the string.
A call of `docker compose` changes to exactly the directory, and takes exactly the project and the
file before whatever its arguments are; and `sh -c` gets exactly the command as its argument. -/
theorem commands_read_back :
    (∀ s : String, words (shq s).toList = some [s.toList] ∧ words (shQuote s).toList =
      some [s.toList] ∧
      words (shellQuote s).toList = some [s.toList] ∧ words (shellArg s).toList = some [s.toList]) ∧
    (∀ (r : Row) (args : String),
      read (composeCmd r args).render.toList = emit (composeTokens r) (read args.toList)) ∧
    (∀ cmd : String, read (withSudo cmd false).toList =
      (wordsOf ["sudo", "-n", "sh", "-c", cmd], true) ∧ withSudo cmd true = cmd) :=
  ⟨fun s => ⟨words_of_writes (writes_shq s), words_of_writes (writes_shQuote s),
      words_of_writes (writes_shellQuote s), words_of_writes (writes_shellArg s)⟩,
    read_composeCmd, fun cmd => ⟨read_withSudo cmd, rfl⟩⟩

end DockerOps

end Dockhand
