import SwiftDraft.Script.Recognition
import SwiftDraft.Text.Lines
import SwiftDraft.Text.Order

/-!
# Imports

What single lines import, and the packages that a script needs: the first segments of the modules
that its lines import. An import relative to the script names no package.
-/

namespace SwiftDraft.Script

open Text

/-- Nothing but blanks and a comment. -/
def endsLine (s : Text) : Bool := (trimStart s).head?.all (· == '#')

/-- The shortest non-empty text that is followed by nothing but blanks and a comment. -/
def upToComment : Text → Option Text
  | [] => none
  | c :: r => if endsLine r then some [c] else (upToComment r).map (c :: ·)

/-- What stands after `import` and at least one blank, without a comment. -/
def importClause? (s : Text) : Option Text := (afterKeyword? "import" s).bind upToComment

/-- The items of a clause: the first word of each piece between commas. -/
def importedItems (clause : Text) : List Text := (clause.splitOn ',').filterMap firstWord?

/-- A line that imports from a module. -/
structure FromImport where
  /-- The number of leading dots: how far up a relative import starts. -/
  level : Nat
  module : Text
  names : List Text
  deriving DecidableEq, Repr

def isParenthesis (c : Char) : Bool := c == '(' || c == ')'

/-- The names after `import`, which may stand in parentheses. -/
def importedNames? (s : Text) : Option (List Text) :=
  (importClause? s).map fun clause => importedItems (trimWhere isParenthesis clause)

/-- The parts of a trimmed line `from ..module import names`. The module may be missing if a blank
is left in front of `import`. -/
def fromImport? (line : Text) : Option FromImport := do
  let r ← after? "from" line
  let gap := r.takeWhile isBlank
  let s := r.dropWhile isBlank
  if gap = [] then none
  let dots := s.takeWhile (· == '.')
  let t := s.dropWhile (· == '.')
  let named : Option FromImport := do
    let (module, u) ← dottedName? (trimStart t)
    let names ← (afterGap? u).bind importedNames?
    return ⟨dots.length, module, names⟩
  let spare := if dots = [] then 2 ≤ gap.length else t.head?.any isBlank
  let unnamed : Option FromImport :=
    if spare then (importedNames? (trimStart t)).map fun names => ⟨dots.length, [], names⟩ else none
  named <|> unnamed

/-- The module of a line that imports from a module which is not relative. -/
def fromModule? (line : Text) : Option Text := do
  let (module, r) ← (afterKeyword? "from" (trimStart line)).bind dottedName?
  let rest ← (afterGap? r).bind (after? "import")
  if atWordEnd rest then some module else none

/-- The part of a dotted name before its first dot. -/
def firstSegment (module : Text) : Text := module.takeWhile (· ≠ '.')

/-- The packages that a line needs. -/
def linePackages (line : Text) : List Text :=
  match fromModule? line with
  | some module => [firstSegment module].filter (· ≠ [])
  | none =>
    match importClause? (trimStart line) with
    | some clause => ((importedItems clause).map firstSegment).filter (· ≠ [])
    | none => []

/-- The packages that a script needs. -/
def packages (source : Text) : TextSet := TextSet.ofList ((lines source).flatMap linePackages)

end SwiftDraft.Script
