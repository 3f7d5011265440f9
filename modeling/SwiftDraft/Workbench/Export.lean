import SwiftDraft.Workbench.Trouble

/-!
# Exports

A finished script is written to a folder: its draft, and its tests if it has any. A file that stands
in the way is first copied to a backup beside it.
-/

namespace SwiftDraft.Workbench

open Text
open Files (Disk Fault)

/-- A word with its first letter in upper case. -/
def capitalizedWord : Text → Text
  | [] => []
  | c :: r => c.toUpper :: r

/-- The type name for a script: its ASCII words, each capitalized, without what is between them. -/
def typeName (name : Text) : Text :=
  let joined := ((name.splitOnP fun c => !c.isAlphanum).map capitalizedWord).flatten
  match joined with
  | [] => "Script".toList
  | c :: _ => if c.isDigit then "Script".toList ++ joined else joined

def testsName (name : Text) : Text := typeName name ++ "Tests".toList

def draftFile (name : Text) : Text := typeName name ++ ".swift".toList

def testsFile (name : Text) : Text := testsName name ++ ".swift".toList

def backupOf (path : Text) : Text := path ++ ".backup".toList

/-- The suite of a record's tests. -/
def Record.suite (r : Record) : Text := Skeleton.suite (testsName r.name) r.tests

/-- The files an export wrote and the backups it made. -/
structure Exported where
  written : List Text
  backups : List Text
  deriving DecidableEq, Repr

/-- Writes one file, after a backup if that is wanted and something stands there. -/
def writeTarget (backup : Bool) (path content : Text) (disk : Disk) (done : Exported) :
    Disk × Except Trouble Exported :=
  let write (disk : Disk) (done : Exported) : Disk × Except Trouble Exported :=
    match disk.write path (encodeUtf8 content) with
    | .error fault => (disk, .error (.exporting path fault))
    | .ok disk => (disk, .ok { done with written := done.written ++ [path] })
  if backup && disk.has path then
    match disk.copy path (backupOf path) with
    | .error fault => (disk, .error (.exporting path fault))
    | .ok disk => write disk { done with backups := done.backups ++ [backupOf path] }
  else write disk done

/-- The files that an export of a record writes to a folder, with their contents. -/
def Record.targets (r : Record) (draft : Draft) (folder : Text) : List (Text × Text) :=
  (Files.join folder (draftFile r.name), draft.text) ::
  (if r.tests.isEmpty then [] else [(Files.join folder (testsFile r.name), r.suite)])

def writeTargets (backup : Bool) : List (Text × Text) → Disk → Exported →
    Disk × Except Trouble Exported
  | [], disk, done => (disk, .ok done)
  | (path, content) :: rest, disk, done =>
    match writeTarget backup path content disk done with
    | (disk, .ok done) => writeTargets backup rest disk done
    | failed => failed

/-- Exports a record that has succeeded to a folder, which is made if it is missing. -/
def Record.export (backup : Bool) (r : Record) (folder : Text) (disk : Disk) :
    Disk × Except Trouble Exported :=
  match r.status, r.draft with
  | .success, some draft =>
    match disk.makeFolders folder with
    | (disk, some fault) => (disk, .error (.exporting folder fault))
    | (disk, none) => writeTargets backup (r.targets draft folder) disk ⟨[], []⟩
  | status, _ => (disk, .error (.notFinished r.id status))

end SwiftDraft.Workbench
