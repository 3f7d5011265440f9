import SwiftDraft.Text.Basic

/-!
# Paths

A path is written as steps between slashes. It starts at the root if a slash stands first, and at
the current folder otherwise.
-/

namespace SwiftDraft.Files

open Text

inductive Step where
  | here
  | up
  | name (n : Text)
  deriving DecidableEq, Repr

def isAbsolute (path : Text) : Bool := path.head? = some '/'

/-- The steps of a path. Slashes that follow each other count as one. -/
def steps (path : Text) : List Step :=
  ((path.splitOn '/').filter (· ≠ [])).map fun part =>
    if part = ['.'] then .here else if part = ['.', '.'] then .up else .name part

/-- The steps without those that stay in place, except at the start of a relative path. -/
def plainSteps (absolute : Bool) : List Step → List Step
  | [] => []
  | s :: rest =>
    let plain := rest.filter (· ≠ .here)
    if s = .here ∧ absolute then plain else s :: plain

/-- The proper ancestors of a path that is given by its plain steps, the nearest first. A relative
path ends below the current folder, an absolute one at the root. -/
def properAncestors (absolute : Bool) (plain : List Step) : List (List Step) :=
  let lengths := (List.range plain.length).reverse
  (if absolute then lengths else lengths.filter (0 < ·)).map fun n => plain.take n

/-- A path below a folder. -/
def join (folder name : Text) : Text :=
  if folder = [] ∨ folder.getLast? = some '/' then folder ++ name else folder ++ '/' :: name

/-- The last step of a path, if it is a name. -/
def fileName? (path : Text) : Option Text :=
  match (plainSteps (isAbsolute path) (steps path)).getLast? with
  | some (.name n) => some n
  | _ => none

/-- A file name without its extension, which starts at its last dot unless that is its first
character. -/
def stem (name : Text) : Text :=
  match (name.reverse.dropWhile (· ≠ '.')).reverse with
  | [] => name
  | ['.'] => name
  | front => front.dropLast

end SwiftDraft.Files
