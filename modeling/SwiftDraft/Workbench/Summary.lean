import SwiftDraft.Workbench.Record

/-!
# Summaries

A report of what is known about a record, in a few lines, or with all of it listed.
-/

namespace SwiftDraft.Workbench

open Text

/-- An item of an outline on a line of its own. -/
def itemLine (label : String) (i : Script.OutlineItem) : Text :=
  "\n    ".toList ++ label.toList ++ ' ' :: i.name ++ " (line ".toList ++ ofNat i.line ++ [')']

def warningLines (verbose : Bool) (warnings : List Script.Warning) : Text :=
  if warnings.isEmpty then []
  else
    "\n  warnings: ".toList ++ ofNat warnings.length ++
    (if verbose then warnings.flatMap fun w => "\n    ".toList ++ w.text else [])

def outlineLines (verbose : Bool) (o : Script.Outline) : Text :=
  "\n  outline: ".toList ++ ofNat o.functions.length ++ " functions, ".toList ++
  ofNat o.types.length ++ " types, ".toList ++ ofNat o.assigned.length ++ " variables".toList ++
  (if verbose then
    o.functions.flatMap (itemLine "func") ++ o.types.flatMap (itemLine "type")
  else [])

/-- The summary of a record. -/
def Record.summary (verbose : Bool) (r : Record) : Text :=
  r.name ++ " [".toList ++ r.status.text ++ [']'] ++
  (match r.error with
    | some message => "\n  error: ".toList ++ message
    | none => []) ++
  (if r.packages.elements.isEmpty then []
    else "\n  dependencies: ".toList ++ join ", " r.packages.elements) ++
  outlineLines verbose r.outline ++
  (match r.draft with
    | some draft => warningLines verbose draft.warnings
    | none => []) ++
  (if r.tests.isEmpty then [] else "\n  tests: ".toList ++ join ", " (r.tests.map (·.name))) ++
  (if verbose then "\n  history: ".toList ++ join " -> " (r.history.map Status.text) else [])

end SwiftDraft.Workbench
