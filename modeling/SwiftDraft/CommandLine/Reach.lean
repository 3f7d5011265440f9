import SwiftDraft.CommandLine.Run

/-!
# The reach of a run

The places on a disk that a run can look at or change, so that only these have to be known before it
starts.
-/

namespace SwiftDraft.CommandLine

open Text
open Files (Location Step)

/-- The commands among the lines of an input. Lines of pasted scripts may be taken for commands
too. -/
def commandsOf (input : List Text) : List Shell.Command :=
  input.filterMap fun l => (Shell.Command.parse l).toOption

/-- The files that are read. -/
def readPaths (a : Arguments) (input : List Text) : List Text :=
  a.python.toList ++ a.files ++ (commandsOf input).filterMap fun
    | .load path => some path
    | _ => none

/-- The names that scripts get. -/
def scriptNames (a : Arguments) (input : List Text) : List Text :=
  (readPaths a input).map Workbench.scriptName ++ (commandsOf input).filterMap fun
    | .paste name => some name
    | _ => none

/-- The folders that scripts are exported to. -/
def exportFolders (a : Arguments) (input : List Text) : List Text :=
  a.out.toList ++ (commandsOf input).filterMap fun
    | .export _ folder => some folder
    | _ => none

/-- The files that an export of scripts with the given names may write to a folder. -/
def exportPaths (folder : Text) (names : List Text) : List Text :=
  names.flatMap fun name =>
    [Workbench.draftFile name, Workbench.testsFile name].flatMap fun file =>
      let path := Files.join folder file
      [path, Workbench.backupOf path]

/-- The paths that a run may use. -/
def usedPaths (a : Arguments) (input : List Text) : List Text :=
  let folders := exportFolders a input
  readPaths a input ++ folders ++ folders.flatMap fun f => exportPaths f (scriptNames a input)

/-- The locations that the steps of a path pass, and the one where they end. -/
def passed (start : Location) : List Step → List Location
  | [] => [start]
  | .here :: rest => passed start rest
  | .up :: rest => start :: passed start.dropLast rest
  | .name n :: rest => start :: passed (start ++ [n]) rest

/-- The locations that a run may use, with everything above them, the upper ones first. -/
def usedLocations (current : Location) (a : Arguments) (input : List Text) : List Location :=
  let ends := (usedPaths a input).flatMap fun path =>
    passed (if Files.isAbsolute path then [] else current) (Files.steps path)
  ((current :: ends).flatMap fun l => (List.range l.length).map fun n => l.take (n + 1)).eraseDups

end SwiftDraft.CommandLine
