import SwiftDraft.Script.Recognition
import SwiftDraft.Text.Lines

/-!
# Logical lines

A statement may cover several physical lines: a line goes on while brackets are open or it ends in a
backslash, and a docstring goes on to its closing quotes. Every physical line belongs to exactly one
logical line, which knows its first line and how many it covers.
-/

namespace SwiftDraft.Script

open Text

structure LogicalLine where
  /-- The number of its first physical line. -/
  line : Nat
  /-- How many physical lines it covers. -/
  count : Nat
  /-- The columns of its indentation; blank lines and comments have none that matters. -/
  indent : Option Nat
  statement : Statement
  deriving DecidableEq, Repr

/-- The text of a statement that goes on while `depth` brackets are open or it ends in a backslash,
and how many of the lines belong to it. -/
def continued (text : Text) (depth : Int) : List Text → Text × Nat
  | [] => (text, 0)
  | l :: ls =>
    if 0 < depth ∨ text.getLast? = some '\\' then
      let head := if text.getLast? = some '\\' then text.dropLast else text
      let next := trim l
      let (whole, n) := continued (trimEnd head ++ ' ' :: next) (depth + bracketDelta next) ls
      (whole, n + 1)
    else (text, 0)

/-- The content of a docstring up to its closing quotes, and how many of the lines belong to it. -/
def docstringRest (quotes : Text) : List Text → List Text × Nat
  | [] => ([], 0)
  | l :: ls =>
    match cutAt? quotes (trim l) with
    | some (last, _) => (if trim last = [] then [] else [trim last], 1)
    | none =>
      let (content, n) := docstringRest quotes ls
      (trim l :: content, n + 1)

/-- A docstring whose quotes are followed by `first`. -/
def docstring (quotes first : Text) (further : List Text) : List Text × Nat :=
  match cutAt? quotes first with
  | some (only, _) => ([trim only], 0)
  | none =>
    let (content, n) := docstringRest quotes further
    (if trim first = [] then content else trim first :: content, n)

/-- The quotes a docstring starts with, and what follows them. -/
def docstringStart? (s : Text) : Option (Text × Text) :=
  match after? "\"\"\"" s with
  | some rest => some ("\"\"\"".toList, rest)
  | none => (after? "'''" s).map fun rest => ("'''".toList, rest)

/-- The logical line that starts with `l`, in a script indented by `unit` columns. -/
def logicalLine (unit number : Nat) (l : Text) (further : List Text) : LogicalLine :=
  let s := trim l
  match s with
  | [] => ⟨number, 1, none, .simple .blank⟩
  | '#' :: text => ⟨number, 1, none, .simple (.comment text)⟩
  | _ =>
    match docstringStart? s with
    | some (quotes, first) =>
      let (content, n) := docstring quotes first further
      ⟨number, n + 1, some (columns unit l), .simple (.docstring content)⟩
    | none =>
      let (text, n) := continued s (bracketDelta s) further
      ⟨number, n + 1, some (columns unit l), recognise text⟩

/-- The logical lines of physical lines, the first of which has the given number. -/
def logicalLinesFrom (unit number : Nat) : List Text → List LogicalLine
  | [] => []
  | l :: ls =>
    let item := logicalLine unit number l ls
    item :: logicalLinesFrom unit (number + item.count) (ls.drop (item.count - 1))
  termination_by ls => ls.length
  decreasing_by
    rw [List.length_drop, List.length_cons]
    omega

def logicalLines (unit : Nat) (source : Text) : List LogicalLine :=
  logicalLinesFrom unit 1 (lines source)

end SwiftDraft.Script
