import SwiftDraft.Json.Decode
import SwiftDraft.Tree.Encoding
import SwiftDraft.Workbench.Record

/-!
# Records as JSON

How records and what they hold are written as values, and read back.
-/

namespace SwiftDraft

open Json (Value structure? list? nullable? name? orNull)

namespace Script

def OutlineItem.encode (i : OutlineItem) : Value :=
  .object [("name".toList, .string i.name), ("line".toList, .ofNat i.line)]

def OutlineItem.decode? (v : Value) : Option OutlineItem := do
  let [name, line] ← structure? ["name", "line"] v | none
  return ⟨← name.bind Value.text?, ← line.bind Value.count?⟩

def Outline.encode (o : Outline) : Value :=
  .object
    [("functions".toList, .array (o.functions.map OutlineItem.encode)),
      ("types".toList, .array (o.types.map OutlineItem.encode)),
      ("variables".toList, .array (o.assigned.map OutlineItem.encode))]

def Outline.decode? (v : Value) : Option Outline := do
  let [functions, types, assigned] ← structure? ["functions", "types", "variables"] v | none
  return ⟨← functions.bind (list? OutlineItem.decode?), ← types.bind (list? OutlineItem.decode?),
    ← assigned.bind (list? OutlineItem.decode?)⟩

def Warning.encode (w : Warning) : Value :=
  .object [("line".toList, .ofNat w.line), ("message".toList, .string w.message)]

def Warning.decode? (v : Value) : Option Warning := do
  let [line, message] ← structure? ["line", "message"] v | none
  return ⟨← line.bind Value.count?, ← message.bind Value.text?⟩

end Script

namespace Draft

def encode (d : Draft) : Value :=
  .object
    [("text".toList, .string d.text),
      ("warnings".toList, .array (d.warnings.map Script.Warning.encode))]

def decode? (v : Value) : Option Draft := do
  let [text, warnings] ← structure? ["text", "warnings"] v | none
  return ⟨← text.bind Value.text?, ← warnings.bind (list? Script.Warning.decode?)⟩

end Draft

namespace Skeleton

def Kind.ofText? (s : Text) : Option Kind := [Kind.unit, Kind.integration].find? fun k => k.text = s

def Test.encode (t : Test) : Value :=
  .object
    [("name".toList, .string t.name), ("body".toList, .string t.body),
      ("kind".toList, .string t.kind.text)]

def Test.decode? (v : Value) : Option Test := do
  let [name, body, kind] ← structure? ["name", "body", "kind"] v | none
  return ⟨← name.bind Value.text?, ← body.bind Value.text?,
    ← (kind.bind name?).bind Kind.ofText?⟩

end Skeleton

namespace Workbench

def Status.encode (s : Status) : Value := .string s.text

def Status.decode? (v : Value) : Option Status := (name? v).bind Status.ofText?

/-- A record as it is stored: with the moment at which it was made, which nothing but its written form
shows. -/
structure StoredRecord (Moment : Type) extends Record where
  createdAt : Moment

/-- How ids and moments are written as texts, and read. Both are left to libraries. -/
structure Forms (Moment : Type) where
  id : Id → Text
  id? : Text → Option Id
  moment : Moment → Text
  moment? : Text → Option Moment

/-- The ids are numbers of 128 bits. -/
def idLimit : Nat := 0x100000000000000000000000000000000

/-- What is relied on: every id and every moment is read back from its text, and what is read from a
text is an id. -/
structure Forms.Lawful {Moment : Type} (forms : Forms Moment) : Prop where
  id_back : ∀ id, id < idLimit → forms.id? (forms.id id) = some id
  id_lt : ∀ t id, forms.id? t = some id → id < idLimit
  moment_back : ∀ m, forms.moment? (forms.moment m) = some m

namespace StoredRecord

variable {Moment : Type}

/-- The names of a record's fields, in the order in which they are written. -/
def keys : List String :=
  ["id", "name", "source", "origin", "status", "history", "dependencies", "outline", "ast",
    "translated", "tests", "error_message", "created_at"]

def encode (forms : Forms Moment) (r : StoredRecord Moment) : Value :=
  .object
    [("id".toList, .string (forms.id r.id)),
      ("name".toList, .string r.name),
      ("source".toList, .string r.source),
      ("origin".toList, orNull .string r.origin),
      ("status".toList, r.status.encode),
      ("history".toList, .array (r.history.map Status.encode)),
      ("dependencies".toList, .array (r.packages.elements.map .string)),
      ("outline".toList, r.outline.encode),
      ("ast".toList, orNull Tree.encode r.tree),
      ("translated".toList, orNull Draft.encode r.draft),
      ("tests".toList, .array (r.tests.map Skeleton.Test.encode)),
      ("error_message".toList, orNull .string r.error),
      ("created_at".toList, .string (forms.moment r.createdAt))]

/-- A field that may be missing or `null`. -/
def optional? {α : Type} (read : Value → Option α) : Option Value → Option (Option α)
  | none => some none
  | some v => nullable? read v

def decode? (forms : Forms Moment) (v : Value) : Option (StoredRecord Moment) := do
  let [id, name, source, origin, status, history, packages, outline, tree, draft, tests, error,
    createdAt] ← structure? keys v | none
  return {
    id := ← (id.bind Value.text?).bind forms.id?
    name := ← name.bind Value.text?
    source := ← source.bind Value.text?
    origin := ← optional? Value.text? origin
    status := ← status.bind Status.decode?
    history := ← history.bind (list? Status.decode?)
    packages := TextSet.ofList (← packages.bind (list? Value.text?))
    outline := ← outline.bind Script.Outline.decode?
    tree := ← optional? Tree.decode? tree
    draft := ← optional? Draft.decode? draft
    tests := ← tests.bind (list? Skeleton.Test.decode?)
    error := ← optional? Value.text? error
    createdAt := ← (createdAt.bind Value.text?).bind forms.moment? }

end StoredRecord

end Workbench

end SwiftDraft
