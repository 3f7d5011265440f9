import SwiftDraft.Text.Basic

/-!
# Shell commands

A command is a line that starts with a point. Scripts are named by their positions in the list,
counted from 1.
-/

namespace SwiftDraft.Shell

open Text

inductive Command where
  | help
  | quit
  | quiet
  | load (path : Text)
  | paste (name : Text)
  | list
  | summary (n : Nat)
  | draft (n : Nat)
  | tests (n : Nat)
  | tree (n : Nat)
  | remove (n : Nat)
  | export (n : Nat) (folder : Text)
  deriving DecidableEq, Repr

/-- Why a line is no command. -/
inductive CommandError where
  | noPoint
  | empty
  | usage (form : String)
  | notANumber (given : Text)
  | unknown (name : Text)
  deriving DecidableEq, Repr

def CommandError.message : CommandError → Text
  | .noPoint => "Commands must start with '.'".toList
  | .empty => "Empty command".toList
  | .usage form => "Usage: ".toList ++ form.toList
  | .notANumber given =>
    "Expected a script number from .list, got '".toList ++ given ++ ['\'']
  | .unknown name => "Unknown command: .".toList ++ name

/-- A number of 64 bits in decimal digits, with an optional plus sign. -/
def natural? (s : Text) : Option Nat :=
  let digits := (after? "+" s).getD s
  if digits = [] ∨ !digits.all Char.isDigit then none
  else
    let n := digits.foldl (fun n c => n * 10 + (c.toNat - 48)) 0
    if n < wordSize then some n else none

/-- The position of a script. -/
def position (s : Text) : Except CommandError Nat :=
  match natural? s with
  | some (n + 1) => .ok (n + 1)
  | _ => .error (.notANumber s)

/-- The only argument of a command. -/
def onlyArgument (form : String) : List Text → Except CommandError Text
  | [argument] => .ok argument
  | _ => .error (.usage form)

/-- A command by its name, with its arguments. -/
def commandNamed (name : Text) (arguments : List Text) : Except CommandError Command :=
  let called (names : List String) : Bool := names.any fun n => name == n.toList
  let onScript (form : String) (make : Nat → Command) : Except CommandError Command := do
    return make (← position (← onlyArgument form arguments))
  if called ["help", "h"] then .ok .help
  else if called ["quit", "q", "exit"] then .ok .quit
  else if called ["quiet"] then .ok .quiet
  else if called ["list", "ls"] then .ok .list
  else if called ["load"] then (onlyArgument ".load <path>" arguments).map .load
  else if called ["paste"] then (onlyArgument ".paste <name>" arguments).map .paste
  else if called ["show"] then onScript ".show <n>" .summary
  else if called ["swift"] then onScript ".swift <n>" .draft
  else if called ["tests"] then onScript ".tests <n>" .tests
  else if called ["ast"] then onScript ".ast <n>" .tree
  else if called ["remove", "rm"] then onScript ".remove <n>" .remove
  else if called ["export"] then
    match arguments with
    | [n, folder] => (position n).map fun n => .export n folder
    | _ => .error (.usage ".export <n> <dir>")
  else .error (.unknown name)

/-- The command that a line gives. -/
def Command.parse (line : Text) : Except CommandError Command :=
  match after? "." (trim line) with
  | none => .error .noPoint
  | some body =>
    match words body with
    | [] => .error .empty
    | name :: arguments => commandNamed name arguments

end SwiftDraft.Shell
