import SwiftDraft.Files.Disk
import SwiftDraft.Workbench.Record

/-!
# Troubles

Why something that was asked of the workbench could not be done, and how that is said. Records are
shown as the asker numbers them.
-/

namespace SwiftDraft.Workbench

open Files (Fault)

/-- A setting that nothing can be done with. -/
inductive BadConfig where
  | indentWidth
  | eventCapacity
  deriving DecidableEq, Repr

def BadConfig.text : BadConfig → Text
  | .indentWidth => "indent width must be at least 1".toList
  | .eventCapacity => "event capacity must be at least 1".toList

inductive Trouble where
  | reading (path : Text) (fault : Fault)
  | noRecord (id : Id)
  | notFinished (id : Id) (status : Status)
  | exporting (path : Text) (fault : Fault)
  | config (bad : BadConfig)
  deriving DecidableEq, Repr

namespace Trouble

def message (shown : Id → Text) : Trouble → Text
  | reading path fault => "Failed to read ".toList ++ path ++ ": ".toList ++ fault.text
  | noRecord id => "Script not found: ".toList ++ shown id
  | notFinished id status =>
    "Script ".toList ++ shown id ++ " cannot be exported while ".toList ++ status.text
  | exporting path fault => "Failed to export to ".toList ++ path ++ ": ".toList ++ fault.text
  | config bad => "Configuration error: ".toList ++ bad.text

/-- What is behind a trouble, if something is. -/
def cause : Trouble → Option Text
  | reading _ fault | exporting _ fault => some fault.text
  | _ => none

end Trouble

end SwiftDraft.Workbench
