import SwiftDraft.CommandLine.Reach
import Std.Time.DateTime.Timestamp

/-!
# The program

Looks at the places on the disk that the run can reach, runs, prints what is to be printed and
writes back what has changed. Programs cannot be started from here, so that syntax trees have to be
sketched.
-/

namespace SwiftDraft

open Files (Disk Item Location)
open CommandLine (Arguments World)

/-- A location as the system writes it. -/
def systemPath (at_ : Location) : String := String.ofList ('/' :: Text.join "/" at_)

/-- What the system has at a location. -/
def look (at_ : Location) : IO (Option Item) := do
  try
    let content ← IO.FS.readBinFile (systemPath at_)
    return some (.file content.toList)
  catch
    | .noFileOrDirectory .. => return none
    | .inappropriateType .. => return some .folder
    | _ => return none

/-- The part of the system's disk that has the given locations. -/
def lookAll (current : Location) (locations : List Location) : IO Disk := do
  let mut disk : Disk := ⟨[], current⟩
  for at_ in locations do
    match ← look at_ with
    | some item => disk := disk.put at_ item
    | none => pure ()
  return disk

/-- Writes back what is new or different. -/
def writeBack (before after : Disk) : IO Unit := do
  for (at_, item) in after.items do
    if before.get? at_ ≠ some item then
      match item with
      | .folder => IO.FS.createDirAll (systemPath at_)
      | .file content => IO.FS.writeBinFile (systemPath at_) (ByteArray.mk content.toArray)

/-- All lines of the input. -/
partial def readInput (input : IO.FS.Stream) (before : String := "") : IO String := do
  let l ← input.getLine
  if l.isEmpty then return before else readInput input (before ++ l)

/-- A record's number as eight digits. -/
def shownId (id : Workbench.Id) : Text :=
  let digits := Nat.toDigits 16 id
  '#' :: List.replicate (8 - digits.length) '0' ++ digits

/-- Runs the program with its arguments. -/
def program (args : List String) : IO UInt32 := do
  let arguments := args.map String.toList
  let asked := Arguments.read arguments
  let needsInput := match asked with
    | .ok a => a.files.isEmpty
    | .error _ => false
  let input ← if needsInput then readInput (← IO.getStdin) else pure ""
  let lines := Text.lines input.toList
  let current := (Files.steps (← IO.currentDir).toString.toList).filterMap fun
    | .name n => some n
    | _ => none
  let locations := match asked with
    | .ok a => CommandLine.usedLocations current a lines
    | .error _ => []
  let disk ← lookAll current locations
  let seconds := (← Std.Time.Timestamp.now).toSecondsSinceUnixEpoch.val
  let world : World :=
    ⟨disk, lines, Draft.timestamp seconds, 0, Workbench.Provider.unavailable disk, shownId⟩
  let done := CommandLine.run arguments world
  writeBack disk done.disk
  IO.print (String.ofList done.stdout)
  IO.eprint (String.ofList done.stderr)
  return done.code.toUInt32

end SwiftDraft

def main (args : List String) : IO UInt32 := SwiftDraft.program args
