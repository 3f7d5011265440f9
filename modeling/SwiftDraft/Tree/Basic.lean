import SwiftDraft.Json.Value

/-!
# Syntax trees

The tree of a script as an interpreter describes it: imports, functions and classes are expanded,
any other statement is only its kind. A node carries further attributes under their names.
-/

namespace SwiftDraft

open Text

/-- Attributes by name, in the order of their names. -/
structure Attributes where
  entries : List (Text × Json.Value)
  ascending : Ascending entries

namespace Attributes

def empty : Attributes := ⟨[], List.Pairwise.nil⟩

def ofList (entries : List (Text × Json.Value)) : Attributes :=
  ⟨sortEntries entries, ascending_sortEntries entries⟩

end Attributes

inductive Tree where
  | node (kind : Text) (name : Option Text) (line : Option Nat) (children : List Tree)
    (attributes : Attributes)

namespace Tree

def kind : Tree → Text
  | node k _ _ _ _ => k

def name : Tree → Option Text
  | node _ n _ _ _ => n

def line : Tree → Option Nat
  | node _ _ l _ _ => l

def children : Tree → List Tree
  | node _ _ _ c _ => c

def attributes : Tree → Attributes
  | node _ _ _ _ a => a

def moduleKind : Text := "Module".toList
def importKind : Text := "Import".toList
def importFromKind : Text := "ImportFrom".toList
def functionKind : Text := "FunctionDef".toList
def asyncFunctionKind : Text := "AsyncFunctionDef".toList
def classKind : Text := "ClassDef".toList

/-- The kinds that are expanded at the top of a script. -/
def topLevelKinds : List Text :=
  [importKind, importFromKind, functionKind, asyncFunctionKind, classKind]

def isModule (t : Tree) : Bool := t.kind = moduleKind

def isFunction (t : Tree) : Bool := t.kind = functionKind ∨ t.kind = asyncFunctionKind

def isClass (t : Tree) : Bool := t.kind = classKind

def isImport (t : Tree) : Bool := t.kind = importKind ∨ t.kind = importFromKind

/-- A module with the given statements. -/
def ofModule (children : List Tree) : Tree := node moduleKind none none children Attributes.empty

mutual

/-- The number of nodes of a tree. -/
def size : Tree → Nat
  | node _ _ _ children _ => sizes children + 1

def sizes : List Tree → Nat
  | [] => 0
  | t :: ts => t.size + sizes ts

end

theorem sizes_append (ts us : List Tree) : sizes (ts ++ us) = sizes ts + sizes us := by
  induction ts with
  | nil => simp [sizes]
  | cons t ts ih => simp [sizes, ih, Nat.add_assoc]

theorem size_eq (t : Tree) : t.size = sizes t.children + 1 := by
  cases t; simp [size, children]

/-- The nodes still to be met, from a stack of trees whose top is first. -/
def walkFrom : List Tree → List Tree
  | [] => []
  | t :: stack => t :: walkFrom (t.children ++ stack)
  termination_by stack => sizes stack
  decreasing_by
    rw [sizes_append, sizes, size_eq]
    omega

theorem walkFrom_cons (t : Tree) (stack : List Tree) :
    walkFrom (t :: stack) = t :: walkFrom (t.children ++ stack) := by
  rw [walkFrom]

/-- The nodes of a tree, each before its children. -/
def walk (t : Tree) : List Tree := walkFrom [t]

def findAll (kind : Text) (t : Tree) : List Tree := t.walk.filter fun n => n.kind = kind

def functionNames (t : Tree) : List Text := (t.walk.filter isFunction).filterMap name

def classNames (t : Tree) : List Text := (t.walk.filter isClass).filterMap name

def nodeCount (t : Tree) : Nat := t.walk.length

/-- What the outline says of a node. -/
def label (t : Tree) : Text :=
  t.kind ++
  (match t.name with
    | some name => ' ' :: name
    | none => []) ++
  (match t.line with
    | some line => " (line ".toList ++ ofNat line ++ [')']
    | none => [])

mutual

/-- One line for each node, indented by its depth. -/
def outlineAt (depth : Nat) : Tree → Text
  | node kind name line children attributes =>
    List.replicate (2 * depth) ' ' ++ (node kind name line children attributes).label ++ '\n' ::
      outlinesAt (depth + 1) children

def outlinesAt (depth : Nat) : List Tree → Text
  | [] => []
  | t :: ts => t.outlineAt depth ++ outlinesAt depth ts

end

def outline (t : Tree) : Text := t.outlineAt 0

end Tree

end SwiftDraft
