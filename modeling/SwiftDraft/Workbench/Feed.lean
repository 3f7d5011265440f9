import SwiftDraft.Workbench.Load

/-!
# Feeds

A feed lets one listener read the announcements that come after it was opened. The newest are kept,
as many as the capacity rounded up to a power of two; a listener who was too slow is told how many
went by.
-/

namespace SwiftDraft.Workbench

structure Feed where
  capacity : Nat
  /-- The number of announcements that have been read or were made before. -/
  position : Nat
  deriving DecidableEq, Repr

/-- What is read at once. -/
structure Reading where
  lost : Nat
  announcements : List Announcement
  deriving DecidableEq, Repr

namespace Feed

def opened (capacity : Nat) (bench : Bench) : Feed := ⟨capacity, bench.announced.length⟩

/-- Reads everything that has not been read. -/
def read (feed : Feed) (bench : Bench) : Reading × Feed :=
  let pending := bench.announced.drop feed.position
  let lost := pending.length - feed.capacity.nextPowerOfTwo
  (⟨lost, pending.drop lost⟩, { feed with position := bench.announced.length })

end Feed

end SwiftDraft.Workbench
