import SwiftDraft.Draft.Printer
import SwiftDraft.Script.Import
import SwiftDraft.Script.Outline
import SwiftDraft.Skeleton.Test
import SwiftDraft.Tree.Basic
import SwiftDraft.Workbench.Status

/-!
# Records

What is known about a loaded script. A record only gains fields; one that failed keeps what it had.
-/

namespace SwiftDraft.Workbench

/-- The id of a record, as a number. A bench gives out its numbers in order; all that matters of them
is which are equal. -/
abbrev Id := Nat

structure Record where
  id : Id
  name : Text
  source : Text
  /-- The file that the source was read from. -/
  origin : Option Text
  status : Status
  /-- The statuses so far, the oldest first. -/
  history : List Status
  packages : TextSet
  outline : Script.Outline
  tree : Option Tree
  draft : Option Draft
  tests : List Skeleton.Test
  error : Option Text

namespace Record

/-- The record of a script that has just come in. -/
def new (id : Id) (name source : Text) (origin : Option Text) : Record :=
  { id, name, source, origin
    status := .analyzing
    history := [.analyzing]
    packages := TextSet.empty
    outline := Script.Outline.empty
    tree := none
    draft := none
    tests := []
    error := none }

/-- The text of the draft, empty as long as there is none. -/
def draftText (r : Record) : Text := (r.draft.map Draft.text).getD []

/-- Takes the next status and what comes with it, if the status allows it. -/
def advance (next : Status) (fill : Record → Record) (r : Record) : Option Record :=
  if r.status.canBecome next then
    let filled := fill r
    some { filled with status := next, history := filled.history ++ [next] }
  else none

def fail (message : Text) (r : Record) : Option Record :=
  r.advance .failed fun r => { r with error := some message }

end Record

end SwiftDraft.Workbench
