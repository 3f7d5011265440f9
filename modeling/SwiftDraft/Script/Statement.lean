import SwiftDraft.Text.Basic

/-!
# Statements

What a logical line of a script is recognised as: a header that opens a block, or a simple
statement. Expressions stay as they are written. A script is a list of nodes.
-/

namespace SwiftDraft.Script

/-- A parameter as it is written in a function header. -/
structure Parameter where
  name : Text
  hint : Option Text
  default : Option Text
  deriving DecidableEq, Repr

inductive Header where
  | function (name : Text) (parameters : List Parameter) (returns : Option Text)
  | classType (name : Text)
  | ifTest (condition : Text)
  | elseIf (condition : Text)
  | otherwise
  | loop (target iterable : Text)
  | whileTest (condition : Text)
  /-- A block without a Swift counterpart here, such as `try:` or `with …:`. -/
  | unsupported (header : Text)
  deriving DecidableEq, Repr

inductive Simple where
  | blank
  | comment (text : Text)
  | docstring (content : List Text)
  | importing (text : Text)
  | returning (value : Option Text)
  | assign (target : Text) (hint : Option Text) (value : Text)
  | printing (arguments : Text)
  | pass
  | raw (text : Text)
  deriving DecidableEq, Repr

inductive Statement where
  | simple (s : Simple)
  | header (h : Header)
  deriving DecidableEq, Repr

/-- A statement with the number of its first line; a header holds the nodes of its block. -/
inductive Node where
  | leaf (line : Nat) (statement : Simple)
  | block (line : Nat) (header : Header) (body : List Node)
  deriving Repr

namespace Node

def line : Node → Nat
  | leaf n _ => n
  | block n _ _ => n

def isBlank : Node → Bool
  | leaf _ .blank => true
  | _ => false

end Node

/-- Something that had to be guessed about a script. -/
structure Warning where
  line : Nat
  message : Text
  deriving DecidableEq, Repr

def Warning.text (w : Warning) : Text :=
  "line ".toList ++ Text.ofNat w.line ++ ": ".toList ++ w.message

end SwiftDraft.Script
