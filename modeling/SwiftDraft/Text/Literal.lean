import SwiftDraft.Text.Basic

/-!
# String literals and brackets

Scans of one line that look only at what stands outside string literals. A literal runs from a quote
to the next quote of the same kind. In scripts a backslash inside it takes the next character out of
play (`Place`); in lists of arguments and parameters it does not (`Option Char`, the open quote).
-/

namespace SwiftDraft.Text

/-- Where a scan of script code stands with respect to string literals. -/
inductive Place where
  | code
  | literal (quote : Char)
  | escape (quote : Char)
  deriving DecidableEq, Repr

def isQuote (c : Char) : Bool := c == '"' || c == '\''

def Place.next : Place → Char → Place
  | .code, c => if isQuote c then .literal c else .code
  | .literal q, c => if c = '\\' then .escape q else if c = q then .code else .literal q
  | .escape q, _ => .literal q

def isOpening (c : Char) : Bool := c == '(' || c == '[' || c == '{'

def isClosing (c : Char) : Bool := c == ')' || c == ']' || c == '}'

/-- Opening brackets less closing ones, from place `p` up to a comment. -/
def bracketDeltaFrom (p : Place) : Text → Int
  | [] => 0
  | c :: r =>
    if p = .code then
      if c = '#' then 0
      else (if isOpening c then 1 else if isClosing c then -1 else 0) + bracketDeltaFrom (p.next c) r
    else bracketDeltaFrom (p.next c) r

/-- How many more brackets a line of code opens than it closes. -/
def bracketDelta (line : Text) : Int := bracketDeltaFrom .code line

/-- Whether `=` after `prev` and before `rest` assigns, and is not part of a comparison. -/
def assigns (prev : Char) (rest : Text) : Bool :=
  rest.head? != some '=' && !(prev == '=' || prev == '!' || prev == '<' || prev == '>')

def cutAssignmentFrom (p : Place) (prev : Char) : Text → Option (Text × Text)
  | [] => none
  | c :: r =>
    let further := (cutAssignmentFrom (p.next c) c r).map fun (l, rest) => (c :: l, rest)
    if p = .code then
      if c = '#' then none
      else if c = '=' && assigns prev r then some ([], r)
      else further
    else further

/-- The two sides of the first `=` of a line that assigns. -/
def cutAssignment (line : Text) : Option (Text × Text) := cutAssignmentFrom .code ' ' line

/-- The target and the value of an assignment, trimmed. -/
def splitAssignment (line : Text) : Option (Text × Text) :=
  (cutAssignment line).map fun (l, r) => (trim l, trim r)

/-- Puts a character in front of the first piece. -/
def consPiece (c : Char) : List Text → List Text
  | [] => [[c]]
  | p :: ps => (c :: p) :: ps

/-- The pieces between the commas that stand at bracket depth 0 and outside quotes. -/
def commaPieces (depth : Int) (quote : Option Char) : Text → List Text
  | [] => [[]]
  | c :: r =>
    match quote with
    | some q => consPiece c (commaPieces depth (if c = q then none else quote) r)
    | none =>
      if isQuote c then consPiece c (commaPieces depth (some c) r)
      else if isOpening c then consPiece c (commaPieces (depth + 1) none r)
      else if isClosing c then consPiece c (commaPieces (depth - 1) none r)
      else if c = ',' ∧ depth = 0 then [] :: commaPieces depth none r
      else consPiece c (commaPieces depth none r)

/-- The items of a list written with commas, trimmed. Blank text after the last comma is no item. -/
def splitTopLevel (s : Text) : List Text :=
  let pieces := (commaPieces 0 none s).map trim
  if pieces.getLast? = some [] then pieces.dropLast else pieces

/-- The text up to the `)` that closes a list opened just before it, and what follows that `)`. -/
def cutClosing (depth : Nat) (quote : Option Char) : Text → Option (Text × Text)
  | [] => none
  | c :: r =>
    let keep := fun (d : Nat) (q : Option Char) =>
      (cutClosing d q r).map fun (l, rest) => (c :: l, rest)
    match quote with
    | some q => keep depth (if c = q then none else quote)
    | none =>
      if isQuote c then keep depth (some c)
      else if isOpening c then keep (depth + 1) none
      else if c = ')' ∧ depth = 0 then some ([], r)
      else if isClosing c then keep (depth - 1) none
      else keep depth none

end SwiftDraft.Text
