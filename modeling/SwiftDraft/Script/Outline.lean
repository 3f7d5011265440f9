import SwiftDraft.Text.Lines
import SwiftDraft.Text.Literal

/-!
# Outlines

A shallow inventory of a script, line by line: the functions and types it defines, nested or not,
and the variables it assigns.
-/

namespace SwiftDraft.Script

open Text

structure OutlineItem where
  name : Text
  line : Nat
  deriving DecidableEq, Repr

structure Outline where
  functions : List OutlineItem
  types : List OutlineItem
  assigned : List OutlineItem
  deriving DecidableEq, Repr

def Outline.empty : Outline := ⟨[], [], []⟩

def Outline.isEmpty (o : Outline) : Bool :=
  o.functions.isEmpty && o.types.isEmpty && o.assigned.isEmpty

/-- What a line defines. -/
inductive Definition where
  | function (name : Text)
  | classType (name : Text)
  | assigned (name : Text)
  deriving DecidableEq, Repr

/-- The trimmed text in front of the first character that satisfies `stop`, unless it is empty. -/
def nameBefore? (stop : Char → Bool) (s : Text) : Option Text :=
  let name := trim (s.takeWhile fun c => !stop c)
  if name = [] then none else some name

/-- The name of the function that a trimmed line defines. -/
def functionName? (line : Text) : Option Text :=
  ((after? "def " line) <|> (after? "async def " line)).bind (nameBefore? (· == '('))

/-- The name of the class that a trimmed line defines. -/
def className? (line : Text) : Option Text :=
  (after? "class " line).bind (nameBefore? fun c => c == '(' || c == ':')

/-- The characters that an augmented assignment leaves on its target. -/
def isAugmenting (c : Char) : Bool := "+-*/%@&|^".toList.contains c

/-- The target of the assignment that a trimmed line is. -/
def assignedName? (line : Text) : Option Text :=
  (splitAssignment line).bind fun (lhs, _) =>
    let target := trimEnd (trimEndWhere isAugmenting lhs)
    if target = [] then none else some target

/-- What a trimmed line defines; a comment defines nothing. -/
def definition? (line : Text) : Option Definition :=
  if line = [] ∨ line.head? = some '#' then none
  else
    ((functionName? line).map .function)
      <|> ((className? line).map .classType)
      <|> ((assignedName? line).map .assigned)

def Outline.add (o : Outline) (number : Nat) : Definition → Outline
  | .function name => { o with functions := o.functions ++ [⟨name, number⟩] }
  | .classType name => { o with types := o.types ++ [⟨name, number⟩] }
  | .assigned name => { o with assigned := o.assigned ++ [⟨name, number⟩] }

/-- The outline of a script. -/
def outline (source : Text) : Outline :=
  (numberedLines source).foldl
    (fun o (number, line) =>
      match definition? (trim line) with
      | some d => o.add number d
      | none => o)
    Outline.empty

end SwiftDraft.Script
