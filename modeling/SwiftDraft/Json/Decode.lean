import SwiftDraft.Json.Value

/-!
# Reading structures from values

A structure is an object with its fields, other keys being ignored, or an array of its fields in
order. A field that may be missing may also be `null`.
-/

namespace SwiftDraft.Json

open Text

/-- Reads each item of an array. -/
def list? {α : Type} (read : Value → Option α) : Value → Option (List α)
  | .array items => items.mapM read
  | _ => none

/-- Reads a value that may be `null`. -/
def nullable? {α : Type} (read : Value → Option α) : Value → Option (Option α)
  | .null => some none
  | v => (read v).map some

/-- The fields of a structure with the given keys, in their order. A structure is never written as
an array of more or fewer values. -/
def structure? (keys : List String) : Value → Option (List (Option Value))
  | .object fields => some (keys.map fun key => (Value.object fields).field? key.toList)
  | .array items => if items.length = keys.length then some (items.map some) else none
  | _ => none

/-- One of some names; the name may also be the only key of an object, with `null` as its value. -/
def name? : Value → Option Text
  | .string s => some s
  | .object [(key, .null)] => some key
  | _ => none

/-- `null`, or the value that is there. -/
def orNull {α : Type} (write : α → Value) : Option α → Value
  | some a => write a
  | none => .null

end SwiftDraft.Json
