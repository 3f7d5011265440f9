import SwiftDraft.Script.Statement
import SwiftDraft.Text.Word
import SwiftDraft.Text.Literal

/-!
# Recognition

Recognises one logical line, by the first form that fits. A header ends in a colon, after which only
blanks and a comment stand; the parts of a header are the shortest texts for which the rest of it
still fits, and a parameter list is the longest.
-/

namespace SwiftDraft.Script

open Text

/-- A colon and, after it, nothing but blanks and a comment. -/
def endsHeader (s : Text) : Bool :=
  match trimStart s with
  | ':' :: r => (trimStart r).head?.all (· == '#')
  | _ => false

/-- The shortest non-empty text that is followed by the end of a header. -/
def upToHeaderEnd : Text → Option Text
  | [] => none
  | c :: r => if endsHeader r then some [c] else (upToHeaderEnd r).map (c :: ·)

/-- The clause between at least `least` blanks and the end of the header. The last blank too many
counts as the clause where nothing else stands there. -/
def clauseAfter (least : Nat) (s : Text) : Option Text :=
  let gap := s.takeWhile isBlank
  let rest := s.dropWhile isBlank
  if gap.length < least then none
  else match upToHeaderEnd rest with
    | some clause => some clause
    | none =>
      if least < gap.length ∧ endsHeader rest then gap.getLast?.map fun b => [b] else none

/-- What follows a keyword and at least one blank. -/
def afterKeyword? (keyword : String) (s : Text) : Option Text := (after? keyword s).bind afterGap?

/-- The text without a leading `async`. -/
def skipAsync (s : Text) : Text := (afterKeyword? "async" s).getD s

def isImport (s : Text) : Bool :=
  (afterKeyword? "import" s).any (· ≠ []) ||
  ((afterKeyword? "from" s).any fun r =>
    !(r.takeWhile (! isBlank ·)).isEmpty &&
    ((afterGap? (r.dropWhile (! isBlank ·))).bind (after? "import")).any (·.head?.any isBlank))

def parameter (s : Text) : Parameter :=
  let (head, default) := match splitAssignment s with
    | some (head, default) => (head, some default)
    | none => (trim s, none)
  match splitOnce? ':' head with
  | some (name, hint) => ⟨trim name, some (trim hint), default⟩
  | none => ⟨head, none, default⟩

/-- Whether a parameter is the receiver of a method. -/
def Parameter.isReceiver (p : Parameter) : Bool :=
  (p.name = "self".toList ∨ p.name = "cls".toList) ∧ p.hint = none

/-- The parameters of a list as written, without a leading receiver. -/
def parameters (s : Text) : List Parameter :=
  match (splitTopLevel s).map parameter with
  | [] => []
  | p :: ps => if p.isReceiver then ps else p :: ps

/-- Whether a header could end somewhere in the text. -/
def hasHeaderEnd : Text → Bool
  | [] => false
  | c :: r => endsHeader (c :: r) || hasHeaderEnd r

/-- The text up to the last `)` after which `tail` succeeds, and what `tail` makes of the rest. -/
def upToLastClosing {α : Type} (tail : Text → Option α) : Text → Option (Text × α)
  | [] => none
  | c :: r =>
    match upToLastClosing tail r with
    | some (s, a) => some (c :: s, a)
    | none => if c = ')' then (tail r).map fun a => ([], a) else none

/-- The return hint after a parameter list, if the header ends as it should. -/
def functionTail? (s : Text) : Option (Option Text) :=
  match after? "->" (trimStart s) with
  | some r => (clauseAfter 0 r).map fun returns => some (trim returns)
  | none => if endsHeader s then some none else none

def functionHeader? (s : Text) : Option Header := do
  let (name, r) ← (afterKeyword? "def" (skipAsync s)).bind identifier?
  let list ← after? "(" (trimStart r)
  let (inside, returns) ← upToLastClosing functionTail? list
  return .function name (parameters inside) returns

def classHeader? (s : Text) : Option Header := do
  let (name, r) ← (afterKeyword? "class" s).bind identifier?
  let closed := match after? "(" (trimStart r) with
    | some bases => (upToLastClosing (fun t => if endsHeader t then some () else none) bases).isSome
    | none => endsHeader r
  if closed then some (.classType name) else none

/-- The clause after the keyword `in`. -/
def inClause? (s : Text) : Option Text := ((afterGap? s).bind (after? "in")).bind (clauseAfter 1)

/-- The shortest non-empty target that is followed by an `in` clause, and that clause. -/
def loopParts? : Text → Option (Text × Text)
  | [] => none
  | c :: r =>
    match inClause? r with
    | some iterable => some ([c], iterable)
    | none => (loopParts? r).map fun (target, iterable) => (c :: target, iterable)

def loopHeader? (s : Text) : Option Header := do
  let r ← after? "for" (skipAsync s)
  let gap := r.takeWhile isBlank
  let rest := r.dropWhile isBlank
  if gap = [] then none
  match loopParts? rest with
  | some (target, iterable) => some (.loop target iterable)
  | none =>
    if 3 ≤ gap.length then
      let target := (gap.dropLast).getLast?.toList
      ((after? "in" rest).bind (clauseAfter 1)).map (.loop target ·)
    else none

/-- Whether a line starts with one of the keywords of unsupported blocks and ends as a header. -/
def isUnsupported (s : Text) : Bool :=
  let continues (keyword : String) (t : Text) : Bool :=
    (after? keyword t).any fun r => atWordEnd r && hasHeaderEnd r
  ["try", "except", "finally", "with", "match", "case"].any (continues · s) ||
  (afterKeyword? "async" s).any (continues "with" ·)

def returning? (s : Text) : Option (Option Text) :=
  (after? "return" s).bind fun r =>
    if r = [] then some none else (afterGap? r).map some

def isDottedName : Text → Bool
  | [] => false
  | c :: r => startsName c && r.all fun d => isWord d || d == '.'

/-- A dotted name at the start of a text, and what follows it. -/
def dottedName? : Text → Option (Text × Text)
  | [] => none
  | c :: r =>
    if startsName c then
      some (c :: r.takeWhile (fun d => isWord d || d == '.'),
        r.dropWhile (fun d => isWord d || d == '.'))
    else none

/-- An index in brackets at the start of a text, or nothing, and what follows it. -/
def splitIndex (s : Text) : Text × Text :=
  match (after? "[" s).bind (splitOnce? ']') with
  | some (inside, rest) => ('[' :: inside ++ [']'], rest)
  | none => ([], s)

/-- The target and the hint on the left side of an assignment: a dotted name that may have an
index, further dotted names after commas, and a hint after a colon. -/
def assignmentTarget? (lhs : Text) : Option (Text × Option Text) := do
  let (name, r) ← dottedName? lhs
  let (index, s) := splitIndex r
  let front := s.takeWhile (· ≠ ':')
  let further ← match front.splitOn ',' with
    | [] => none
    | first :: names =>
      if first.all isBlank ∧ names.all (fun n => isDottedName (trim n)) then some (trimEnd front)
      else none
  match s.dropWhile (· ≠ ':') with
  | [] => some (name ++ index ++ further, none)
  | _ :: hint =>
    if trim hint = [] then none else some (name ++ index ++ further, some (trim hint))

/-- The characters before `=` that make an assignment an augmented one. -/
def augments (c : Char) : Bool := "+-*/%&|^<>@".toList.contains c

def assignment? (s : Text) : Option Simple := do
  let (lhs, value) ← splitAssignment s
  if lhs.getLast?.any augments ∨ value = [] then none
  let (target, hint) ← assignmentTarget? lhs
  return .assign target hint value

def printing? (s : Text) : Option Simple :=
  (after? "print(" s).bind fun r =>
    let inside := trimEnd r
    if inside.getLast? = some ')' then some (.printing inside.dropLast) else none

/-- The header a logical line is, if it opens a block. -/
def header? (s : Text) : Option Header :=
  functionHeader? s
    <|> classHeader? s
    <|> (((after? "if" s).bind (clauseAfter 1)).map Header.ifTest)
    <|> (((after? "elif" s).bind (clauseAfter 1)).map Header.elseIf)
    <|> (if (after? "else" s).any endsHeader then some .otherwise else none)
    <|> loopHeader? s
    <|> (((after? "while" s).bind (clauseAfter 1)).map Header.whileTest)
    <|> (if isUnsupported s then some (.unsupported s) else none)

/-- The simple statement a logical line is that opens no block. -/
def simple (s : Text) : Simple :=
  (((returning? s).map Simple.returning)
    <|> assignment? s
    <|> printing? s).getD (if s = "pass".toList then .pass else .raw s)

/-- Recognises a logical line. -/
def recognise (s : Text) : Statement :=
  if isImport s then .simple (.importing s)
  else match header? s with
    | some h => .header h
    | none => .simple (simple s)

end SwiftDraft.Script
