import SwiftDraft.Text.Basic

/-!
# Swift types

The types that occur in drafts, and how they are written.
-/

namespace SwiftDraft.Draft

inductive SwiftType where
  | int
  | double
  | string
  | bool
  | data
  | any
  | void
  /-- A set of anything that can be hashed. -/
  | anySet
  | array (element : SwiftType)
  | set (element : SwiftType)
  | dictionary (key value : SwiftType)
  | optional (wrapped : SwiftType)
  | tuple (elements : List SwiftType)
  deriving Repr

namespace SwiftType

mutual

def text : SwiftType → Text
  | int => "Int".toList
  | double => "Double".toList
  | string => "String".toList
  | bool => "Bool".toList
  | data => "Data".toList
  | any => "Any".toList
  | void => "Void".toList
  | anySet => "Set<AnyHashable>".toList
  | array t => '[' :: t.text ++ [']']
  | set t => "Set<".toList ++ t.text ++ ['>']
  | dictionary k v => '[' :: k.text ++ ": ".toList ++ v.text ++ [']']
  | optional t => t.text ++ ['?']
  | tuple ts => '(' :: Text.join ", " (texts ts) ++ [')']

def texts : List SwiftType → List Text
  | [] => []
  | t :: ts => t.text :: texts ts

end

end SwiftType

end SwiftDraft.Draft
