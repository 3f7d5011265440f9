import SwiftDraft.Files.Disk
import SwiftDraft.Json.Printer
import SwiftDraft.Json.Reader
import SwiftDraft.Tree.Encoding

/-!
# What an interpreter answers

Reads a syntax tree from what an interpreter printed. An explicit error counts whatever the exit
status is; otherwise a failing exit counts before anything that was printed.
-/

namespace SwiftDraft.Interpreter

open Text
open Files (Fault)

/-- What is wrong with the output of an interpreter. -/
inductive Malformed where
  | notUtf8
  | empty
  | notJson
  | shape
  | root (kind : Text)
  | other (reason : Text)
  deriving DecidableEq, Repr

def Malformed.text : Malformed → Text
  | .notUtf8 => "output is not UTF-8".toList
  | .empty => "empty output".toList
  | .notJson => "invalid JSON".toList
  | .shape => "unexpected tree shape".toList
  | .root kind => "root node is ".toList ++ kind ++ ", expected Module".toList
  | .other reason => reason

/-- Why no tree was had. -/
inductive TreeError where
  /-- The interpreter refused the script itself. -/
  | refused (message : Text)
  | spawn (interpreter : Text) (fault : Fault)
  | failed (status stderr : Text)
  | malformed (reason : Malformed)
  deriving DecidableEq, Repr

def TreeError.message : TreeError → Text
  | .refused message => "Syntax error: ".toList ++ message
  | .spawn interpreter fault =>
    "Failed to spawn interpreter ".toList ++ interpreter ++ ": ".toList ++ fault.text
  | .failed status stderr => "Interpreter exited with ".toList ++ status ++ ": ".toList ++ stderr
  | .malformed reason => "Malformed interpreter output: ".toList ++ reason.text

/-- Whether the script was refused, and not a tool at fault. -/
def TreeError.isRefusal : TreeError → Bool
  | .refused _ => true
  | _ => false

/-- How a process ended: by itself with a code, of which only 0 is a success, or by a signal. -/
inductive Exit where
  | code (n : Int)
  | signal (n : Nat) (dumped : Bool)
  deriving DecidableEq, Repr

instance : Coe Int Exit := ⟨.code⟩

instance (n : Nat) : OfNat Exit n := ⟨.code n⟩

/-- What an interpreter left when it ended. -/
structure Finished where
  stdout : Bytes
  stderr : Bytes
  exit : Exit
  deriving DecidableEq, Repr

/-- The text of an error that was reported as a value. -/
def reported : Json.Value → Text
  | .string s => s
  | v => v.text

/-- The tree that a printed value stands for. -/
def treeOf (v : Json.Value) : Except TreeError Tree :=
  match v.field? "error".toList with
  | some error => .error (.refused (reported error))
  | none =>
    match Tree.decode? v with
    | none => .error (.malformed .shape)
    | some t => if t.isModule then .ok t else .error (.malformed (.root t.kind))

/-- The tree that was printed, whatever the exit status. -/
def decodeOutput (stdout : Bytes) : Except TreeError Tree :=
  match decodeUtf8? stdout with
  | none => .error (.malformed .notUtf8)
  | some printed =>
    let s := trim printed
    if s = [] then .error (.malformed .empty)
    else match Json.read? s with
      | none => .error (.malformed .notJson)
      | some v => treeOf v

/-- The names of the signals from 1 on. -/
def signalNames : List String :=
  ["HUP", "INT", "QUIT", "ILL", "TRAP", "ABRT", "BUS", "FPE", "KILL", "USR1", "SEGV", "USR2", "PIPE",
    "ALRM", "TERM", "STKFLT", "CHLD", "CONT", "STOP", "TSTP", "TTIN", "TTOU", "URG", "XCPU", "XFSZ",
    "VTALRM", "PROF", "WINCH", "IO", "PWR", "SYS"]

/-- The name that is shown behind the number of a signal, if it has one. -/
def signalName : Nat → Text
  | 0 => []
  | n + 1 => (signalNames[n]?.map fun name => " (SIG".toList ++ name.toList ++ [')']).getD []

def exitText : Exit → Text
  | .code n => "exit status: ".toList ++ Json.intText n
  | .signal n dumped =>
    "signal: ".toList ++ Text.ofNat n ++ signalName n ++
      if dumped then " (core dumped)".toList else []

/-- What an interpreter's end means. -/
def outcome (f : Finished) : Except TreeError Tree :=
  match decodeOutput f.stdout with
  | .error (.refused message) => .error (.refused message)
  | result =>
    if f.exit = 0 then result
    else .error (.failed (exitText f.exit) (trim (decodeLossy f.stderr)))

end SwiftDraft.Interpreter
