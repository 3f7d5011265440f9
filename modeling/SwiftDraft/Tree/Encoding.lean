import SwiftDraft.Tree.Basic

/-!
# Trees as JSON

A node is an object: `type` is its kind, `name`, `line` and `children` are what they say, and every
other key is an attribute.
-/

namespace SwiftDraft.Tree

open Json (Value)

/-- The keys that are not attributes. -/
def ownKeys : List Text := ["type".toList, "name".toList, "line".toList, "children".toList]

/-- The fields of a node in front of its attributes. What is missing is left out. -/
def ownFields (kind : Text) (name : Option Text) (line : Option Nat) (children : List Value) :
    List (Text × Value) :=
  ("type".toList, .string kind) ::
  (match name with
    | some name => [("name".toList, .string name)]
    | none => []) ++
  (match line with
    | some line => [("line".toList, .ofNat line)]
    | none => []) ++
  (if children.isEmpty then [] else [("children".toList, .array children)])

mutual

/-- The tree as a value. -/
def encode : Tree → Value
  | node kind name line children attributes =>
    .object (ownFields kind name line (encodeAll children) ++ attributes.entries)

def encodeAll : List Tree → List Value
  | [] => []
  | t :: ts => t.encode :: encodeAll ts

end

/-- An optional field: missing and `null` are the same. -/
def optionalField? {α : Type} (read : Value → Option α) (key : Text) (fields : List (Text × Value)) :
    Option (Option α) :=
  match (Value.object fields).field? key with
  | none => some none
  | some .null => some none
  | some v => (read v).map some

/-- A node with the given fields and children. -/
def ofFields? (fields : List (Text × Value)) (children : List Tree) : Option Tree := do
  let kind ← ((Value.object fields).field? "type".toList).bind Value.text?
  let name ← optionalField? Value.text? "name".toList fields
  let line ← optionalField? Value.count? "line".toList fields
  return node kind name line children (Attributes.ofList (fields.filter fun f => !ownKeys.contains f.1))

mutual

/-- The tree that a value stands for. -/
def decode? : Value → Option Tree
  | .object fields =>
    match decodeChildren? fields with
    | some children => ofFields? fields children
    | none => none
  | _ => none

/-- The trees under the key `children`. -/
def decodeChildren? : List (Text × Value) → Option (List Tree)
  | [] => some []
  | (key, v) :: rest =>
    if key = "children".toList then
      match v with
      | .array items => decodeAll? items
      | _ => none
    else decodeChildren? rest

def decodeAll? : List Value → Option (List Tree)
  | [] => some []
  | v :: vs =>
    match decode? v, decodeAll? vs with
    | some t, some ts => some (t :: ts)
    | _, _ => none

end

end SwiftDraft.Tree
