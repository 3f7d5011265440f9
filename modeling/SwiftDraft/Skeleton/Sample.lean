import SwiftDraft.Text.Basic

/-!
# Sample values

The literal that a test skeleton passes for a Swift type.
-/

namespace SwiftDraft.Skeleton

open Text

/-- Whether a colon stands at bracket depth 0. -/
def hasTopColon (depth : Int) : Text → Bool
  | [] => false
  | c :: r =>
    if c = '[' ∨ c = '(' ∨ c = '<' then hasTopColon (depth + 1) r
    else if c = ']' ∨ c = ')' ∨ c = '>' then hasTopColon (depth - 1) r
    else if c = ':' ∧ depth = 0 then true
    else hasTopColon depth r

/-- The sample literal of a type that is written as `type`; `nil` where none is known. -/
def sampleOf (type : Text) : Text :=
  let is (names : List String) : Bool := names.any fun n => type == n.toList
  if is ["Int", "Int8", "Int16", "Int32", "Int64", "UInt"] then "42".toList
  else if is ["Double", "Float", "CGFloat"] then "3.14".toList
  else if is ["String", "Substring"] then "\"test\"".toList
  else if is ["Bool"] then "true".toList
  else if type.head? = some '[' ∧ type.getLast? = some ']' then
    if hasTopColon 0 type.tail.dropLast then "[:]".toList else "[]".toList
  else if startsWith type "Set<" then "[]".toList
  else "nil".toList

/-- The sample literal of a type that may be missing. -/
def sample : Option Text → Text
  | some type => sampleOf (trim type)
  | none => "nil".toList

end SwiftDraft.Skeleton
