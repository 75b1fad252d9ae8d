import Dockhand.Data.Like
import Dockhand.Go.Strconv
import Dockhand.Go.Strings

/-!
# Versions

A version of Dockhand is the tag of a release or a commit. Releases are compared by their numbers; a
commit is shown by its first characters, and found in the history by them.
-/

namespace Dockhand.System

open Data Go

/-! ### Releases -/

/-- The three numbers of a version, and its suffix. -/
def splitVersion (v : String) : List ℤ × String :=
  let v := (trimPrefix (trimSpace v) "v").toList
  let (numbers, suffix) := v.span fun c => c ≠ '-' ∧ c ≠ '+'
  let parts := numbers.splitOn '.'
  -- `SplitN` leaves the rest in the third part
  let parts := parts.take 2 ++ if 3 ≤ parts.length then [['.'].intercalate (parts.drop 2)]
    else []
  ((parts.map fun p => atoiValue (String.ofList p)) ++ List.replicate (3 - parts.length) 0,
    String.ofList (suffix.drop 1))

/-- `CompareVersions` compares dotted versions (leading "v" ignored; pre-release suffixes sort
lower). -/
def compareVersions (a b : String) : Ordering :=
  let (pa, sa) := splitVersion a
  let (pb, sb) := splitVersion b
  if pa ≠ pb then if pa < pb then .lt else .gt
  else if sa = sb then .eq
  else if sa = "" then .gt
  else if sb = "" then .lt
  else if sa < sb then .lt else .gt

example : compareVersions "v1.2" "1.2.0" = .eq ∧ compareVersions "1.2.10" "1.2.9" = .gt ∧
    compareVersions "1.3.0-rc.1" "1.3.0" = .lt := by decide +kernel

/-! ### Commits -/

/-- The digits of a commit's id. -/
def isHexDigit (c : Char) : Bool := c.isDigit || ('a' ≤ c && c ≤ 'f')

/-- The id of a commit. -/
structure Sha where
  val : String
  length : val.toList.length = 40
  hex : ∀ c ∈ val.toList, isHexDigit c = true
  deriving DecidableEq

/-- `shaRe`: what the history takes for a commit. -/
def isSha (v : String) : Bool :=
  7 ≤ v.toList.length && v.toList.length ≤ 40 && v.toList.all isHexDigit

/-- The first seven characters of a commit. -/
def short (sha : String) : String := String.ofList (sha.toList.take 7)

/-- `version = $1 OR version LIKE $1 || '%'`. -/
def matchesVersion (target version : String) : Bool :=
  version = target || like (target.toList ++ ['%']) version.toList

theorem matchesVersion_self (v : String) : matchesVersion v v = true := by
  simp [matchesVersion]

/-- A commit is found by its short form. -/
theorem matchesVersion_short (sha : Sha) : matchesVersion (short sha.val) sha.val = true := by
  have hslash : '\\' ∉ sha.val.toList.take 7 := fun h =>
    absurd (sha.hex _ (List.mem_of_mem_take h)) (by decide)
  have hlike := like_prefix hslash (sha.val.toList.drop 7)
  rw [List.take_append_drop] at hlike
  simp [matchesVersion, short, hlike]

end Dockhand.System
