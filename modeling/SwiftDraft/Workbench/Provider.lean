import SwiftDraft.Interpreter.Script
import SwiftDraft.Tree.Sketch
import SwiftDraft.Workbench.Load
import SwiftDraft.Workbench.Trouble

/-!
# Providers and settings

Where syntax trees come from: they are sketched, or an interpreter is asked. And the settings of a
workbench with what makes them usable.
-/

namespace SwiftDraft.Workbench

open Interpreter (TreeError Finished)
open Files (Disk Fault)

structure Provider where
  name : Text
  tree : Text → Except TreeError Tree

namespace Provider

/-- Sketches trees, which never fails. -/
def sketching : Provider := ⟨"heuristic".toList, fun source => .ok (Tree.sketch source)⟩

/-- Asks an interpreter. `start` starts it, gives it the script and waits for its end. -/
def interpreting (path : Text) (start : Text → Except Fault Finished) : Provider :=
  ⟨"interpreter".toList, fun source =>
    match start (Interpreter.script source) with
    | .error fault => .error (.spawn path fault)
    | .ok finished => Interpreter.outcome finished⟩

/-- Why a name without a slash starts nothing. It is looked for in the folders of programs, where
`.` and `..` are folders and nothing else is found. -/
def namedFault (name : Text) : Fault :=
  if name = ['.'] ∨ name = ['.', '.'] then .denied
  else if Disk.longestName < (Text.encodeUtf8 name).length then .nameTooLong
  else .notFound

/-- Why nothing can be started from a path on a disk without programs. -/
def spawnFault (disk : Disk) (path : Text) : Fault :=
  if Char.ofNat 0 ∈ path then .nulInCommand
  else if path.contains '/' then
    match disk.locate path with
    | .error fault => fault
    | .ok at_ => if (disk.get? at_).isSome then .denied else .notFound
  else namedFault path

/-- An interpreter that cannot be started. -/
def unavailable (disk : Disk) (path : Text) : Provider :=
  interpreting path fun _ => .error (spawnFault disk path)

end Provider

structure Config where
  indentWidth : Nat
  eventCapacity : Nat
  deriving DecidableEq, Repr

namespace Config

/-- What is wrong with settings, if anything. -/
def bad? (c : Config) : Option BadConfig :=
  if c.indentWidth = 0 then some .indentWidth
  else if c.eventCapacity = 0 then some .eventCapacity
  else none

end Config

/-- The name of a script that was read from a file. -/
def scriptName (path : Text) : Text :=
  match Files.fileName? path with
  | some name => Files.stem name
  | none => "script".toList

namespace Bench

/-- Loads a script from a file. A file that cannot be read makes no record. -/
def loadFile (setting : Setting) (provider : Provider) (disk : Disk) (bench : Bench) (path : Text) :
    Except Trouble (Id × Bench) :=
  match disk.readText path with
  | .error fault => .error (.reading path fault)
  | .ok source => .ok (bench.load setting provider.tree (scriptName path) source (some path))

/-- A record, or the trouble that there is none. -/
def require (bench : Bench) (id : Id) : Except Trouble Record :=
  match bench.shelf.get? id with
  | some r => .ok r
  | none => .error (.noRecord id)

end Bench

end SwiftDraft.Workbench
