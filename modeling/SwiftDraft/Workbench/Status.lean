import SwiftDraft.Text.Basic

/-!
# Statuses

A script is analyzed, converted and tested, and then it has succeeded; until then it can fail.
-/

namespace SwiftDraft.Workbench

inductive Status where
  | analyzing
  | converting
  | testing
  | success
  | failed
  deriving DecidableEq, Repr

namespace Status

/-- The statuses of a run that succeeds, in order. -/
def pipeline : List Status := [analyzing, converting, testing, success]

def all : List Status := [analyzing, converting, testing, success, failed]

def isTerminal : Status → Bool
  | success | failed => true
  | _ => false

/-- Whether a script may go from one status to another. -/
def canBecome : Status → Status → Bool
  | analyzing, converting => true
  | converting, testing => true
  | testing, success => true
  | analyzing, failed | converting, failed | testing, failed => true
  | _, _ => false

/-- Whether a draft may be there. -/
def hasDraft : Status → Bool
  | testing | success => true
  | _ => false

def text : Status → Text
  | analyzing => "analyzing".toList
  | converting => "converting".toList
  | testing => "testing".toList
  | success => "success".toList
  | failed => "failed".toList

def ofText? (s : Text) : Option Status := all.find? fun status => status.text = s

theorem ofText_text (s : Status) : ofText? s.text = some s := by cases s <;> decide

theorem not_canBecome_of_isTerminal {a b : Status} (h : a.isTerminal) : a.canBecome b = false := by
  cases a <;> first | (simp [isTerminal] at h; done) | (cases b <;> rfl)

end Status

end SwiftDraft.Workbench
