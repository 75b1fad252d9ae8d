import Dockhand.Go.Path

/-!
# Stacks and their compose commands

A stack is a directory on a host with a compose file. `composeCmd` is the command that every
operation on a stack runs; the command is kept as its parts, and `ComposeCall.render` writes it.
-/

namespace Dockhand.Stacks

open Go

/-- A row of the stacks table, or what stands for one. -/
structure Row where
  name : String
  path : String
  /-- Relative to `path`, or absolute. -/
  composeFile : String
  source : String
  repo : String := ""
  branch : String := ""
  env : List (String × String) := []
  deriving DecidableEq

/-- The absolute compose file path. -/
def Row.composePath (r : Row) : String :=
  if isAbs r.composeFile then r.composeFile else pathJoin r.path r.composeFile

/-- `Shq` single-quotes a string for a POSIX shell. -/
def shq (s : String) : String :=
  "'" ++ String.join (s.toList.map fun c => if c = '\'' then "'\\''" else c.toString) ++ "'"

/-- A run of `docker compose` in a directory. -/
structure ComposeCall where
  dir : String
  project : String
  files : List String
  args : String
  deriving DecidableEq

/-- The command line of the call. -/
def ComposeCall.render (c : ComposeCall) : String :=
  (if c.dir ≠ "" then "cd " ++ shq c.dir ++ " && " else "") ++ "docker compose -p " ++
    shq c.project ++ String.join (c.files.map fun f => " -f " ++ shq f) ++ " " ++ c.args

/-- `ComposeCmd` builds `cd <dir> && docker compose -p <name> -f <file> <args>`. -/
def composeCmd (r : Row) (args : String) : ComposeCall where
  dir := r.path
  project := r.name
  files := if r.composeFile = "" then [] else [r.composePath]
  args := args

/-- The flags of an explicit build. -/
def buildFlags (pullImages noCache : Bool) : List String :=
  (if pullImages then ["--pull"] else []) ++ (if noCache then ["--no-cache"] else [])

/-- What brings a stack up after a build. -/
def upBuild (pullImages : Bool) : String :=
  "up -d --build --remove-orphans" ++ if pullImages then " --pull always" else ""

example : (composeCmd ⟨"app", "/srv/it's", "c.yml", "git", "", "", []⟩ "down").render =
    "cd '/srv/it'\\''s' && docker compose -p 'app' -f '/srv/it'\\''s/c.yml' down" := by
  decide +kernel

end Dockhand.Stacks
