import SwiftDraft.Json.Value
import SwiftDraft.Text.Quoted
import SwiftDraft.Decimal.Shortest

/-!
# Writing JSON

A value on one line without blanks, or on many lines indented by two spaces. Fields stand in the
order in which the object has them. Doubles are written as their shortest decimals, with a point or
an exponent.
-/

namespace SwiftDraft.Json

open Text

/-- A decimal with digits `d` and exponent `k`, positional from 10^-5 up to below 10^16 and
otherwise with a signed exponent. -/
def decimalText (d : Nat) (k : Int) : Text :=
  let digits := ofNat d
  let point := (digits.length : Int) + k
  if -5 < point ∧ point ≤ 16 then
    if point ≤ 0 then "0.".toList ++ List.replicate (-point).toNat '0' ++ digits
    else if 0 ≤ k then digits ++ List.replicate k.toNat '0' ++ ".0".toList
    else digits.take point.toNat ++ '.' :: digits.drop point.toNat
  else
    let exponent := point - 1
    let fraction := digits.drop 1
    digits.take 1 ++ (if fraction = [] then [] else '.' :: fraction) ++
    'e' :: (if exponent < 0 then '-' else '+') :: ofNat exponent.natAbs

/-- The text of a finite double. -/
def floatText (x : Float) : Text :=
  let bits := x.toBits.toNat
  let (d, k) := (Decimal.Magnitude.ofBits bits).shortest
  (if Text.wordSize / 2 ≤ bits then ['-'] else []) ++ decimalText d k

def intText (n : Int) : Text := if n < 0 then '-' :: ofNat n.natAbs else ofNat n.natAbs

def Number.text : Number → Text
  | .int n => intText n
  | .float x => floatText x

namespace Value

mutual

/-- The value on one line. -/
def text : Value → Text
  | null => "null".toList
  | bool b => (if b then "true" else "false").toList
  | number n => n.text
  | string s => Quoted.encode s
  | array items => '[' :: join "," (itemTexts items) ++ [']']
  | object fields => '\x7b' :: join "," (fieldTexts fields) ++ ['\x7d']

def itemTexts : List Value → List Text
  | [] => []
  | v :: vs => v.text :: itemTexts vs

def fieldTexts : List (Text × Value) → List Text
  | [] => []
  | (key, v) :: fs => (Quoted.encode key ++ ':' :: v.text) :: fieldTexts fs

end

def indentation (depth : Nat) : Text := List.replicate (2 * depth) ' '

/-- Parts on lines of their own between two brackets. -/
def prettyBlock (depth : Nat) (opening closing : Char) (parts : List Text) : Text :=
  if parts = [] then [opening, closing]
  else opening :: '\n' ::
    (join ",\n" (parts.map (indentation (depth + 1) ++ ·)) ++ '\n' :: indentation depth ++ [closing])

mutual

/-- The value on many lines, the first of which is at the given depth. -/
def prettyText (depth : Nat) : Value → Text
  | array items => prettyBlock depth '[' ']' (prettyItems depth items)
  | object fields => prettyBlock depth '\x7b' '\x7d' (prettyFields depth fields)
  | v => v.text

def prettyItems (depth : Nat) : List Value → List Text
  | [] => []
  | v :: vs => v.prettyText (depth + 1) :: prettyItems depth vs

def prettyFields (depth : Nat) : List (Text × Value) → List Text
  | [] => []
  | (key, v) :: fs => (Quoted.encode key ++ ": ".toList ++ v.prettyText (depth + 1)) ::
      prettyFields depth fs

end

end Value

end SwiftDraft.Json
