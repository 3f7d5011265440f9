import SwiftDraft.Tree.Basic
import SwiftDraft.Script.Import
import SwiftDraft.Script.Outline

/-!
# Sketched trees

The tree of a script without an interpreter: the imports, functions and classes of the lines that
are not indented. Every text has one.
-/

namespace SwiftDraft.Tree

open Text
open Json (Value)
open Script (fromImport? importClause? importedItems functionName? className?)

def names (items : List Text) : Text × Value := ("names".toList, .array (items.map .string))

/-- The node of a line, if the line is not indented and is an import or defines something. -/
def ofLine? (number : Nat) (raw : Text) : Option Tree :=
  if raw.head?.any isBlank then none
  else
    let line := trim raw
    match fromImport? line with
    | some i =>
      some (node importFromKind none (some number) []
        (Attributes.ofList
          [("module".toList, .string i.module), ("level".toList, .ofNat i.level), names i.names]))
    | none =>
      match importClause? line with
      | some clause =>
        some (node importKind none (some number) []
          (Attributes.ofList [names (importedItems clause)]))
      | none =>
        match functionName? line with
        | some name => some (node functionKind (some name) (some number) [] Attributes.empty)
        | none =>
          (className? line).map fun name =>
            node classKind (some name) (some number) [] Attributes.empty

/-- The sketched tree of a script. -/
def sketch (source : Text) : Tree :=
  ofModule ((numberedLines source).filterMap fun (number, line) => ofLine? number line)

end SwiftDraft.Tree
