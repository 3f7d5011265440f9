import SwiftDraft.CommandLine.Arguments
import SwiftDraft.Shell.Dialogue

/-!
# Runs of the program

With file names as arguments the program converts each of them and may export the results; without
any it is a shell that reads its input.
-/

namespace SwiftDraft.CommandLine

open Text
open Files (Disk)
open Shell (Output Session Surroundings Dialogue)
open Workbench (Bench Config Exported Id Provider Record Trouble)

/-- What a run leaves: its exit code, what it printed and the disk. -/
structure Finished where
  code : Nat
  output : List Output
  disk : Disk

/-- What was printed to the first output. -/
def Finished.stdout (f : Finished) : Text :=
  f.output.flatMap fun
    | .out t => t
    | .err _ => []

/-- What was printed to the second output. -/
def Finished.stderr (f : Finished) : Text :=
  f.output.flatMap fun
    | .err t => t
    | .out _ => []

/-- What a run finds: its disk, the lines of its input, and how the world answers it. -/
structure World where
  disk : Disk
  input : List Text
  generatedAt : Text
  elapsed : Nat
  /-- Asks the interpreter at a path. -/
  interpreter : Text → Provider
  shown : Id → Text

def line (text : Text) : Text := text ++ ['\n']

/-- A message with the lines after its first one indented. -/
def continuedLines (indent : Nat) (message : Text) : Text :=
  join "\n" (match message.splitOn '\n' with
    | [] => []
    | first :: rest => first :: rest.map (List.replicate indent ' ' ++ ·))

/-- A list of causes, the outermost first; one alone is not numbered. -/
def causesText : List Text → Text
  | [] => []
  | [only] => "\n\nCaused by:\n    ".toList ++ continuedLines 4 only
  | causes =>
    "\n\nCaused by:".toList ++ causes.zipIdx.flatMap fun (cause, i) =>
      "\n    ".toList ++ ofNat i ++ ": ".toList ++ continuedLines 7 cause

/-- How an error that ends the program is printed. -/
def fatal (message : Text) (causes : List Text) : Output :=
  .err (line ("Error: ".toList ++ message ++ causesText causes))

def defaultPython : Text := "/usr/bin/python3".toList

def Arguments.config (a : Arguments) : Config := ⟨a.indent.getD 4, 256⟩

def Arguments.provider (a : Arguments) (world : World) : Provider :=
  if a.heuristicTree then Provider.sketching
  else world.interpreter (a.python.getD defaultPython)

def Arguments.surroundings (a : Arguments) (world : World) : Surroundings :=
  ⟨⟨a.config.indentWidth, world.generatedAt⟩, a.provider world, world.shown, world.elapsed⟩

/-- What has become of one file: a record, or the trouble with reading it. -/
abbrev Loaded := Except Trouble Id

/-- Loads every file. -/
def loadAll (env : Surroundings) (disk : Disk) (bench : Bench) : List Text → List Loaded × Bench
  | [] => ([], bench)
  | path :: rest =>
    match bench.loadFile env.setting env.provider disk path with
    | .error t =>
      let (more, bench) := loadAll env disk bench rest
      (.error t :: more, bench)
    | .ok (id, bench) =>
      let (more, bench) := loadAll env disk bench rest
      (.ok id :: more, bench)

/-- How far a batch has come. -/
structure Batch where
  disk : Disk
  output : List Output
  failed : Nat
  /-- The error that ended it, with what lies behind it. -/
  ended : Option (Text × List Text)

namespace Batch

def print (b : Batch) (o : Output) : Batch := { b with output := b.output ++ [o] }

def fail (b : Batch) : Batch := { b with failed := b.failed + 1 }

/-- Exports a record; a failure ends the batch. -/
def exportRecord (shown : Id → Text) (folder path : Text) (r : Record) (b : Batch) : Batch :=
  match r.export true folder b.disk with
  | (disk, .ok done) =>
    { b with
      disk
      output := b.output ++ done.written.map fun w => .out (line ("  wrote ".toList ++ w)) }
  | (disk, .error t) =>
    { b with
      disk
      ended := some ("exporting ".toList ++ path, t.message shown :: t.cause.toList) }

/-- Reports on one file, and exports it if it has succeeded and a folder is given. -/
def report (a : Arguments) (env : Surroundings) (bench : Bench) (path : Text) (loaded : Loaded)
    (b : Batch) : Batch :=
  match loaded with
  | .error t => (b.print (.err (line (path ++ ": ".toList ++ t.message env.shown)))).fail
  | .ok id =>
    match bench.shelf.get? id with
    | none => b
    | some r =>
      let b := b.print (.out (line (r.summary a.debug)))
      if r.status ≠ .success then b.fail
      else match a.out with
        | none => b
        | some folder => b.exportRecord env.shown folder path r

/-- Reports on files until the batch ends. -/
def reportAll (a : Arguments) (env : Surroundings) (bench : Bench) :
    List (Text × Loaded) → Batch → Batch
  | [], b => b
  | (path, loaded) :: rest, b =>
    if b.ended.isSome then b else reportAll a env bench rest (b.report a env bench path loaded)

/-- Converts files. -/
def run (a : Arguments) (world : World) : Finished :=
  let env := a.surroundings world
  let (loaded, bench) := loadAll env world.disk Bench.empty a.files
  let b := reportAll a env bench (a.files.zip loaded) ⟨world.disk, [], 0, none⟩
  match b.ended with
  | some (message, causes) => ⟨1, b.output ++ [fatal message causes], b.disk⟩
  | none => ⟨if 0 < b.failed then 1 else 0, b.output, b.disk⟩

end Batch

/-- What a shell says first. -/
def banner (a : Arguments) (provider : Provider) : Text :=
  line ("pyswift REPL v".toList ++ Draft.version) ++
  line ("AST backend: ".toList ++ provider.name) ++
  (if a.debug then line "Debug mode: enabled".toList else []) ++
  line "Type .help for help, .quit to exit".toList ++ ['\n']

/-- Runs a shell. -/
def runShell (a : Arguments) (world : World) : Finished :=
  let env := a.surroundings world
  let (session, output) := Dialogue.run env (Session.start world.disk a.debug) world.input
  ⟨0, .out (banner a env.provider) :: output, session.disk⟩

/-- Runs the program with arguments that make sense. -/
def runWith (a : Arguments) (world : World) : Finished :=
  match a.config.bad? with
  | some bad => ⟨1, [fatal ((Trouble.config bad).message world.shown) []], world.disk⟩
  | none => if a.files.isEmpty then runShell a world else Batch.run a world

def usage : Text :=
  join "\n" (List.map String.toList [
    "Best-effort Python to Swift transpiler with XCTest synthesis",
    "",
    "Usage: pyswift [OPTIONS] [FILE]...",
    "",
    "Arguments:",
    "  [FILE]...  Python files to convert; starts the REPL when omitted",
    "",
    "Options:",
    "  -o, --out <DIR>      Export successful conversions into this directory",
    "      --python <PATH>  Python interpreter used to acquire the AST [default: /usr/bin/python3]",
    "      --heuristic-ast  Build the AST in-process instead of spawning Python",
    "      --indent <N>     Indentation unit in spaces [default: 4]",
    "      --debug          Enable debug mode",
    "  -h, --help           Print help",
    "  -V, --version        Print version",
    ""])

/-- Runs the program. -/
def run (arguments : List Text) (world : World) : Finished :=
  match Arguments.read arguments with
  | .ok a => runWith a world
  | .error (.notice .help) => ⟨0, [.out usage], world.disk⟩
  | .error (.notice .version) => ⟨0, [.out (line ("pyswift ".toList ++ Draft.version))], world.disk⟩
  | .error .refused => ⟨2, [.err (line "error: invalid arguments".toList)], world.disk⟩

end SwiftDraft.CommandLine
