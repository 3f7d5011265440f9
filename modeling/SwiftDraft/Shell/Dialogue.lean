import SwiftDraft.Shell.Session
import SwiftDraft.Text.Lines

/-!
# Dialogues

A session that reads lines. Each line is a command, except that the lines after `.paste` up to a
lone point are the source of a script. The dialogue ends after `.quit` or the last line. The lines
come from a file or a pipe and can all be read; nobody edits or interrupts them.
-/

namespace SwiftDraft.Shell

open Text

/-- What is printed, to one of two outputs. -/
inductive Output where
  | out (text : Text)
  | err (text : Text)
  deriving DecidableEq, Repr

structure Dialogue where
  session : Session
  /-- The name of the script that is being pasted, if there is one. -/
  paste : Option Text
  /-- The lines pasted so far, each with its newline. -/
  buffer : Text

namespace Dialogue

def start (session : Session) : Dialogue := ⟨session, none, []⟩

def line (text : Text) : Text := text ++ ['\n']

def errorLine (message : Text) : Output := .err (line ("Error: ".toList ++ message))

/-- An answer is printed as a line, unless it is empty. -/
def answer (text : Text) : List Output := if text = [] then [] else [.out (line text)]

/-- Runs a command. -/
def command (env : Surroundings) (d : Dialogue) (c : Command) : Dialogue × List Output :=
  let paste := match c with
    | .paste name => some name
    | _ => d.paste
  match d.session.handle env c with
  | (session, .ok text) => ({ d with session, paste }, answer text)
  | (session, .error problem) =>
    ({ d with session, paste }, [errorLine (problem.message env.shown)])

/-- Converts what was pasted, and empties the buffer. -/
def finishPaste (env : Surroundings) (d : Dialogue) (name : Text) : Dialogue × List Output :=
  match d.session.convert env name d.buffer with
  | (session, .ok summary) =>
    let time := if session.quiet then [] else line (timing env.elapsed)
    (⟨session, none, []⟩, [.out (line summary ++ time)])
  | (session, .error problem) => (⟨session, none, []⟩, [errorLine (problem.message env.shown)])

/-- Reads one line. -/
def read (env : Surroundings) (d : Dialogue) (l : Text) : Dialogue × List Output :=
  match d.paste with
  | some name =>
    if trim l = ['.'] then d.finishPaste env name
    else ({ d with buffer := d.buffer ++ line l }, [])
  | none =>
    let s := trim l
    if s = [] then (d, [])
    else
      let echo := Output.out (line ("py> ".toList ++ s))
      match Command.parse s with
      | .error e => (d, [echo, errorLine e.message])
      | .ok c =>
        let (d, output) := d.command env c
        (d, echo :: output)

/-- Reads lines as long as the session runs. -/
def readAll (env : Surroundings) (d : Dialogue) : List Text → Dialogue × List Output
  | [] => (d, [])
  | l :: ls =>
    if d.session.running then
      let (d, output) := d.read env l
      let (d, more) := d.readAll env ls
      (d, output ++ more)
    else (d, [])

/-- A dialogue from its first line to its end. -/
def run (env : Surroundings) (session : Session) (input : List Text) : Session × List Output :=
  let (d, output) := (start session).readAll env input
  let goodbye := if d.session.running then [Output.out (line "Goodbye!".toList)] else []
  (d.session, output ++ goodbye ++ answerless d.session.farewell)
where
  answerless (text : Text) : List Output := if text = [] then [] else [.out text]

end Dialogue

end SwiftDraft.Shell
