import SwiftDraft.Text.Order

/-!
# JSON values

Numbers are integers of 64 bits, with or without a sign, or doubles. The fields of an object that
was read stand in the order of their keys, each key once.
-/

namespace SwiftDraft.Json

inductive Number where
  | int (value : Int)
  | float (value : Float)
  deriving Repr

inductive Value where
  | null
  | bool (value : Bool)
  | number (value : Number)
  | string (value : Text)
  | array (items : List Value)
  | object (fields : List (Text × Value))
  deriving Repr, Inhabited

namespace Value

def ofNat (n : Nat) : Value := .number (.int n)

/-- The value of a field, if the value is an object that has one. -/
def field? (key : Text) : Value → Option Value
  | .object fields => (fields.find? fun f => f.1 == key).map Prod.snd
  | _ => none

def text? : Value → Option Text
  | .string s => some s
  | _ => none

/-- A number that counts something: an integer from 0 to 2^64 - 1. -/
def count? : Value → Option Nat
  | .number (.int n) => if 0 ≤ n ∧ n < Text.wordSize then some n.toNat else none
  | _ => none

end Value

end SwiftDraft.Json
