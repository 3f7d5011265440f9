import SwiftDraft.Workbench.Record

/-!
# Shelves

The records in the order in which they came in, and which of them is the current one.
-/

namespace SwiftDraft.Workbench

structure Shelf where
  records : List Record
  current : Option Id

namespace Shelf

def empty : Shelf := ⟨[], none⟩

def get? (s : Shelf) (id : Id) : Option Record := s.records.find? fun r => r.id = id

def currentRecord (s : Shelf) : Option Record := s.current.bind s.get?

/-- Adds a record, which becomes the current one. -/
def push (s : Shelf) (r : Record) : Shelf := ⟨s.records ++ [r], some r.id⟩

def select (s : Shelf) (id : Id) : Shelf := { s with current := some id }

/-- Changes the first record with an id, if `f` allows it. -/
def changeIn (id : Id) (f : Record → Option Record) : List Record → Option (List Record)
  | [] => none
  | r :: rs =>
    if r.id = id then (f r).map (· :: rs) else (changeIn id f rs).map (r :: ·)

def change (s : Shelf) (id : Id) (f : Record → Option Record) : Option Shelf :=
  (changeIn id f s.records).map fun records => { s with records }

/-- The shelf without a record. If it was the current one, the first that is left is. -/
def remove (s : Shelf) (id : Id) : Shelf :=
  if (s.get? id).isSome then
    let records := s.records.eraseP fun r => r.id = id
    ⟨records, if s.current = some id then records.head?.map Record.id else s.current⟩
  else s

end Shelf

end SwiftDraft.Workbench
