import SwiftDraft.Shell.Command
import SwiftDraft.Tree.Encoding
import SwiftDraft.Workbench.Export
import SwiftDraft.Workbench.Provider
import SwiftDraft.Workbench.Summary

/-!
# Shell sessions

What commands do to a workbench and a disk, and what they answer. A command that fails changes
neither the workbench nor the switches of the session.
-/

namespace SwiftDraft.Shell

open Text
open Files (Disk)
open Workbench (Bench Id Provider Record Setting Status Trouble)

structure Session where
  bench : Bench
  disk : Disk
  running : Bool
  quiet : Bool
  /-- Whether summaries list everything and trees are printed as JSON. -/
  verbose : Bool

/-- What a session works with and does not change. -/
structure Surroundings where
  setting : Setting
  provider : Provider
  /-- How records are shown. -/
  shown : Id → Text
  /-- How long a load takes, in milliseconds. -/
  elapsed : Nat

inductive Problem where
  | trouble (t : Trouble)
  | noScript (n loaded : Nat)
  deriving DecidableEq, Repr

def Problem.message (shown : Id → Text) : Problem → Text
  | .trouble t => t.message shown
  | .noScript n loaded =>
    "No script #".toList ++ ofNat n ++ "; ".toList ++ ofNat loaded ++ " loaded".toList

def helpText : Text :=
  join "\n" (List.map String.toList [
    "pyswift REPL Commands:",
    "  .help             - Show this help message",
    "  .quit             - Exit the REPL",
    "  .quiet            - Toggle quiet mode (hide timing info)",
    "",
    "Script Commands:",
    "  .load <path>      - Convert a Python file",
    "  .paste <name>     - Paste Python source (end with '.')",
    "  .list             - List loaded scripts (* marks the current one)",
    "  .show <n>         - Dependencies, outline, warnings and tests",
    "  .swift <n>        - Print the translated Swift",
    "  .tests <n>        - Print the synthesized XCTest suite",
    "  .ast <n>          - Print the acquired AST (JSON in debug mode)",
    "  .remove <n>       - Remove a script",
    "  .export <n> <dir> - Write <Name>.swift and <Name>Tests.swift"])

/-- How long a conversion took. -/
def timing (elapsed : Nat) : Text := "=> converted in ".toList ++ ofNat elapsed ++ "ms".toList

namespace Session

def start (disk : Disk) (verbose : Bool) : Session := ⟨Bench.empty, disk, true, false, verbose⟩

def records (s : Session) : List Record := s.bench.shelf.records

/-- The record at a position of the list. -/
def nth (s : Session) (n : Nat) : Except Problem Record :=
  match n with
  | 0 => .error (.noScript 0 s.records.length)
  | i + 1 =>
    match s.records[i]? with
    | some r => .ok r
    | none => .error (.noScript n s.records.length)

def listLine (shown : Id → Text) (current : Option Id) (i : Nat) (r : Record) : Text :=
  (if current = some r.id then '*' else ' ') :: ' ' :: ofNat (i + 1) ++ ". ".toList ++ r.name ++
  " [".toList ++ r.status.text ++ "] ".toList ++ shown r.id

/-- The scripts with their positions; the current one is marked. -/
def list (shown : Id → Text) (s : Session) : Text :=
  if s.records.isEmpty then "No scripts loaded.".toList
  else
    "Scripts:\n".toList ++
    join "\n" (s.records.zipIdx.map fun (r, i) => listLine shown s.bench.shelf.current i r)

/-- Says that a record does not have something. -/
def lacking (what : String) (r : Record) : Text :=
  "No ".toList ++ what.toList ++ " for '".toList ++ r.name ++ "' (".toList ++ r.status.text ++ [')']

def draftText (r : Record) : Text :=
  match r.draft with
  | some draft => if r.status.hasDraft then trimEnd draft.text else lacking "translation" r
  | none => lacking "translation" r

def testsText (r : Record) : Text := if r.tests.isEmpty then lacking "tests" r else trimEnd r.suite

def treeText (verbose : Bool) (r : Record) : Text :=
  match r.tree with
  | some tree => if verbose then tree.encode.prettyText 0 else trimEnd tree.outline
  | none => lacking "AST" r

def exportedText (r : Record) (done : Workbench.Exported) : Text :=
  "Exported '".toList ++ r.name ++ "':".toList ++
  done.written.flatMap (fun path => "\n  ".toList ++ path) ++
  done.backups.flatMap (fun path => "\n  backup ".toList ++ path)

/-- Loads a file and answers its summary. -/
def load (env : Surroundings) (s : Session) (path : Text) : Session × Except Problem Text :=
  match s.bench.loadFile env.setting env.provider s.disk path with
  | .error t => (s, .error (.trouble t))
  | .ok (id, bench) =>
    match bench.require id with
    | .error t => ({ s with bench }, .error (.trouble t))
    | .ok r =>
      let time := if s.quiet then [] else '\n' :: timing env.elapsed
      ({ s with bench }, .ok (r.summary s.verbose ++ time))

/-- Removes a record that was looked up before. -/
def remove (s : Session) (r : Record) : Session × Except Problem Text :=
  match s.bench.remove r.id with
  | (some _, bench) => ({ s with bench }, .ok ("Removed '".toList ++ r.name ++ ['\'']))
  | (none, _) => (s, .error (.trouble (.noRecord r.id)))

def exportTo (s : Session) (r : Record) (folder : Text) : Session × Except Problem Text :=
  match r.export true folder s.disk with
  | (disk, .ok done) => ({ s with disk }, .ok (exportedText r done))
  | (disk, .error t) => ({ s with disk }, .error (.trouble t))

/-- Answers a command. `.paste` only says what to do; the lines that follow it are converted
later. -/
def handle (env : Surroundings) (s : Session) : Command → Session × Except Problem Text
  | .help => (s, .ok helpText)
  | .quit => ({ s with running := false }, .ok "Goodbye!".toList)
  | .quiet =>
    ({ s with quiet := !s.quiet },
      .ok ("Quiet mode: ".toList ++ (if s.quiet then "off" else "on").toList))
  | .load path => s.load env path
  | .paste name =>
    (s, .ok ("Pasting '".toList ++ name ++ "'. End with '.' on a line by itself.".toList))
  | .list => (s, .ok (s.list env.shown))
  | .summary n => (s, (s.nth n).map (Record.summary s.verbose))
  | .draft n => (s, (s.nth n).map draftText)
  | .tests n => (s, (s.nth n).map testsText)
  | .tree n => (s, (s.nth n).map (treeText s.verbose))
  | .remove n =>
    match s.nth n with
    | .ok r => s.remove r
    | .error p => (s, .error p)
  | .export n folder =>
    match s.nth n with
    | .ok r => s.exportTo r folder
    | .error p => (s, .error p)

/-- Converts pasted source and answers its summary. -/
def convert (env : Surroundings) (s : Session) (name source : Text) :
    Session × Except Problem Text :=
  let (id, bench) := s.bench.load env.setting env.provider.tree name source none
  match bench.require id with
  | .ok r => ({ s with bench }, .ok (r.summary s.verbose))
  | .error t => ({ s with bench }, .error (.trouble t))

/-- What is said when a session ends; a quiet one says nothing. -/
def farewell (s : Session) : Text :=
  if s.quiet then []
  else
    let succeeded := s.records.countP fun r => r.status = .success
    "\nSession complete: ".toList ++ ofNat succeeded ++ '/' :: ofNat s.records.length ++
    " scripts converted.\n".toList

end Session

end SwiftDraft.Shell
