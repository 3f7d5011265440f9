import SwiftDraft.Text.Lines
import SwiftDraft.Text.Literal
import SwiftDraft.Text.Word

/-!
# Declarations

Finds the types and functions that Swift text declares. Each line is read by itself: a function
counts if its header, up to the opening brace, stands on one line. A function belongs to the nearest
type above it that is indented less.
-/

namespace SwiftDraft.Draft

open Text

/-- A parameter of a declared function. -/
structure DeclaredParameter where
  /-- What a call writes in front of the argument, if anything. -/
  label : Option Text
  name : Text
  type : Option Text
  deriving DecidableEq, Repr

structure DeclaredFunction where
  name : Text
  parameters : List DeclaredParameter
  returnType : Option Text
  /-- The type it is a method of. -/
  owner : Option Text
  line : Nat
  deriving DecidableEq, Repr

structure Declarations where
  functions : List DeclaredFunction
  types : List Text
  deriving DecidableEq, Repr

/-- A parameter of a function header, without its default value. -/
def declaredParameter? (s : Text) : Option DeclaredParameter := do
  let declaration := trim (s.takeWhile (· ≠ '='))
  let (names, type) := match splitOnce? ':' declaration with
    | some (names, type) => (trim names, some (trim type))
    | none => (declaration, none)
  let (label, name) ← match words names with
    | [] => none
    | [only] => some (some only, only)
    | first :: second :: _ => some (if first = "_".toList then none else some first, second)
  let variadic := type.any (endsWith · "...")
  return ⟨if variadic then none else label, name, type.filter (· ≠ [])⟩

def declaredParameters (list : Text) : List DeclaredParameter :=
  (splitTopLevel list).filterMap declaredParameter?

/-- The name of the type that a line declares. -/
def declaredType? (line : Text) : Option Text := do
  let s := trimStart line
  let s := ((after? "final" s).bind afterGap?).getD s
  let r ← (after? "class" s) <|> (after? "struct" s)
  let (name, _) ← (afterGap? r).bind identifier?
  return name

/-- The return type between a parameter list and the opening brace. No return type, a blank one and
`Void` are the same. -/
def declaredReturn? (s : Text) : Option (Option Text) :=
  let s := trimStart s
  match after? "->" s with
  | some r =>
    match splitOnce? '{' r with
    | none => none
    | some (type, _) =>
      if type = [] then none
      else some ((some (trim type)).filter fun t => t ≠ [] ∧ t ≠ "Void".toList)
  | none => if s.head? = some '{' then some none else none

/-- The function whose header a line holds, as a function of `owner`. -/
def declaredFunction? (owner : Option Text) (number : Nat) (line : Text) :
    Option DeclaredFunction := do
  let (name, r) ← ((after? "func" (trimStart line)).bind afterGap?).bind identifier?
  let list ← after? "(" (trimStart r)
  let (inside, rest) ← cutClosing 0 none list
  let returnType ← declaredReturn? rest
  return ⟨name, declaredParameters inside, returnType, owner, number⟩

/-- What a scan knows after some lines: what it found, and the types that are still open with their
indentation, innermost first. -/
structure ScanState where
  found : Declarations
  scopes : List (Nat × Text)

def ScanState.start : ScanState := ⟨⟨[], []⟩, []⟩

/-- Blank lines and comments declare nothing. -/
def declaresNothing (line : Text) : Bool :=
  let s := trimStart line
  s.isEmpty || startsWith s "//"

def ScanState.read (state : ScanState) (numbered : Nat × Text) : ScanState :=
  let (number, line) := numbered
  if declaresNothing line then state
  else
    let indent := (line.takeWhile isBlank).length
    let scopes := state.scopes.dropWhile fun scope => indent ≤ scope.1
    match declaredType? line with
    | some name =>
      ⟨{ state.found with types := state.found.types ++ [name] }, (indent, name) :: scopes⟩
    | none =>
      match declaredFunction? (scopes.head?.map Prod.snd) number line with
      | some f => ⟨{ state.found with functions := state.found.functions ++ [f] }, scopes⟩
      | none => { state with scopes := scopes }

/-- The declarations of Swift text, in the order of its lines. -/
def declarations (swift : Text) : Declarations :=
  ((numberedLines swift).foldl ScanState.read ScanState.start).found

end SwiftDraft.Draft
