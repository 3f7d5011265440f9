import SwiftDraft.Draft.Hint
import SwiftDraft.Draft.Expression
import SwiftDraft.Draft.Header
import SwiftDraft.Script.Nesting

/-!
# Drafts

The Swift draft of a script: one line for each statement, and one for the closing brace of each
block. A build with overflow checks may stop before it is made (`ofScript?`); one without them always
makes it (`ofScript`).
-/

namespace SwiftDraft.Draft

open Text
open Script (Parameter Header Simple Node Warning)

/-- A parameter in a Swift header. `*rest` becomes a variadic one, `**rest` a dictionary. -/
def parameter (p : Parameter) : Text :=
  match after? "**" p.name with
  | some rest => rest ++ ": [String: Any]".toList
  | none =>
    match after? "*" p.name with
    | some rest => "_ ".toList ++ rest ++ ": Any...".toList
    | none =>
      let type := match p.hint with
        | some a => ": ".toList ++ (hintType a).text
        | none => []
      let default := match p.default with
        | some d => " = ".toList ++ expression d
        | none => []
      p.name ++ type ++ default

/-- The return clause of a function; one that returns nothing has none. -/
def returnClause (returns : Option Text) : Text :=
  match returns with
  | none => []
  | some a =>
    let type := (hintType a).text
    if type = "Void".toList then [] else " -> ".toList ++ type

def functionHeader (name : Text) (parameters : List Parameter) (returns : Option Text) : Text :=
  "func ".toList ++ name ++ '(' :: join ", " (parameters.map parameter) ++ ')' :: returnClause returns

/-- A line of a draft: its depth and its text. -/
structure Line where
  depth : Nat
  text : Text
  deriving DecidableEq, Repr

/-- A line indented by `unit` spaces for each level; an empty one is not indented. -/
def Line.render (unit : Nat) (l : Line) : Text :=
  if l.text = [] then ['\n'] else List.replicate (l.depth * unit) ' ' ++ l.text ++ ['\n']

/-- Where a build with overflow checks stops instead of making a draft. -/
inductive Stop where
  /-- At a line of the script whose columns are more than a machine word holds. -/
  | columns
  /-- At a line of the draft with more spaces in front of it than a machine word holds. -/
  | spaces
  /-- At a line of the draft with more spaces in front of it than a text can have. -/
  | capacity
  deriving DecidableEq, Repr

/-- No text has as many bytes. -/
def textLimit : Nat := wordSize / 2

/-- A line as it is written with overflow checks. -/
def Line.render? (unit : Nat) (l : Line) : Except Stop Text :=
  if l.text = [] then .ok (l.render unit)
  else if wordSize ≤ l.depth * unit then .error .spaces
  else if textLimit ≤ l.depth * unit then .error .capacity
  else .ok (l.render unit)

def docstringLine (content : Text) : Text :=
  if content = [] then "///".toList else "/// ".toList ++ content

/-- The lines of a simple statement, without their indentation. -/
def simpleLines : Simple → List Text
  | .blank => [[]]
  | .comment text => ["//".toList ++ text]
  | .docstring content => content.map docstringLine
  | .importing text =>
    ["// ".toList ++ text ++ "  (no automatic Swift equivalent; port manually)".toList]
  | .returning (some value) => ["return ".toList ++ expression value]
  | .returning none => ["return".toList]
  | .assign target hint value =>
    let type := match hint with
      | some a => ": ".toList ++ (hintType a).text
      | none => []
    let target := if ',' ∈ target then '(' :: target ++ [')'] else target
    ["let ".toList ++ target ++ type ++ " = ".toList ++ expression value]
  | .printing arguments => ["print(".toList ++ expression arguments ++ [')']]
  | .pass => ["// pass".toList]
  | .raw text => [expression text]

/-- The Swift header of a block in braces. A block without one is only commented. -/
def blockHeader? : Header → Option Text
  | .function name parameters returns => some (functionHeader name parameters returns)
  | .classType name => some ("class ".toList ++ name)
  | .ifTest condition => some ("if ".toList ++ expression condition)
  | .elseIf condition => some ("else if ".toList ++ expression condition)
  | .otherwise => some "else".toList
  | .loop target items => some ("for ".toList ++ trim target ++ " in ".toList ++ iterable items)
  | .whileTest condition => some ("while ".toList ++ expression condition)
  | .unsupported _ => none

/-- The line that opens a block. -/
def openingLine (h : Header) : Text :=
  match blockHeader? h, h with
  | some text, _ => text ++ " \x7b".toList
  | none, .unsupported header => "// unsupported: ".toList ++ header
  | none, _ => []

def closingLines (h : Header) (depth : Nat) : List Line :=
  if (blockHeader? h).isSome then [⟨depth, ['}']⟩] else []

mutual

/-- The lines of a node at a depth. -/
def nodeLines (depth : Nat) : Node → List Line
  | .leaf _ s => (simpleLines s).map (Line.mk depth)
  | .block _ h body =>
    ⟨depth, openingLine h⟩ :: blockLines (depth + 1) body ++ closingLines h depth

def blockLines (depth : Nat) : List Node → List Line
  | [] => []
  | n :: ns => nodeLines depth n ++ blockLines depth ns

end

/-- The statements of a draft, indented by `unit` spaces. -/
def render (unit : Nat) (nodes : List Node) : Text :=
  (blockLines 0 nodes).flatMap (Line.render unit)

/-- The statements of a draft as they are written with overflow checks. -/
def render? (unit : Nat) (nodes : List Node) : Except Stop Text :=
  ((blockLines 0 nodes).mapM (Line.render? unit)).map List.flatten

end Draft

/-- A Swift draft, and what was guessed in it. -/
structure Draft where
  text : Text
  warnings : List Script.Warning
  deriving DecidableEq, Repr

namespace Draft

/-- The unit a draft is read and written with: at least one column. -/
def effectiveUnit (unit : Nat) : Nat := max unit 1

/-- The draft of a script whose blocks are indented by `unit` columns. -/
def ofScript (unit : Nat) (generatedAt : Text) (source : Text) : Draft :=
  let unit := effectiveUnit unit
  let reading := Script.nest unit source
  ⟨header generatedAt ++ render unit reading.nodes, reading.warnings⟩

/-- The draft of a script as a build with overflow checks makes it. -/
def ofScript? (unit : Nat) (generatedAt : Text) (source : Text) : Except Stop Draft :=
  let unit := effectiveUnit unit
  match Script.nest? unit source with
  | none => .error .columns
  | some reading =>
    (render? unit reading.nodes).map fun body => ⟨header generatedAt ++ body, reading.warnings⟩

def hasHeader (d : Draft) : Bool := headerMarker.isPrefixOf d.text

end SwiftDraft.Draft
