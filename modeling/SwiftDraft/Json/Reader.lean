import SwiftDraft.Json.Value
import SwiftDraft.Text.Quoted

/-!
# Reading JSON

Reads one value and nothing after it. Arrays and objects may be nested 127 deep. An integer that
does not fit into 64 bits is a double; a double is a significand of 64 bits, multiplied or divided
by a power of ten, so that digits beyond its significand do not count.
-/

namespace SwiftDraft.Json

open Text

/-- The blanks between the tokens of JSON. -/
def skipBlanks (s : Text) : Text :=
  s.dropWhile fun c => c == ' ' || c == '\n' || c == '\t' || c == '\r'

def digitValues (s : Text) : List Nat := s.map fun c => c.toNat - 48

/-- Appends digits to a significand while it fits into 64 bits; gives the number of digits left. -/
def absorb (significand : Nat) : List Nat → Nat × Nat
  | [] => (significand, 0)
  | d :: ds =>
    if significand * 10 + d < wordSize then absorb (significand * 10 + d) ds
    else (significand, ds.length + 1)

def powerOfTen (k : Nat) : Float := Float.ofScientific 1 false k

/-- Divides by powers of ten until the exponent is one that a double has. A value that became zero
stays zero. -/
def scaleDown : Nat → Float → Nat → Float
  | 0, f, _ => f
  | steps + 1, f, k =>
    if k ≤ 308 then f / powerOfTen k
    else if f == 0 then f
    else scaleDown steps (f / powerOfTen 308) (k - 308)

/-- The double `significand · 10 ^ exponent`, unless it is too large. -/
def scale? (significand : Nat) (exponent : Int) : Option Float :=
  let f := significand.toUInt64.toFloat
  if exponent < 0 then some (scaleDown 8 f exponent.natAbs)
  else if exponent ≤ 308 then
    let scaled := f * powerOfTen exponent.toNat
    if scaled.isInf then none else some scaled
  else if significand = 0 then some f
  else none

/-- The exponent after `e` or `E`, if there is one, and what follows. -/
def readExponent (s : Text) : Option (Int × Text) :=
  match s with
  | c :: r =>
    if c = 'e' ∨ c = 'E' then
      let (negative, r) := match r with
        | '+' :: r => (false, r)
        | '-' :: r => (true, r)
        | r => (false, r)
      let digits := r.takeWhile Char.isDigit
      if digits = [] then none
      else
        let n : Int := (digitValues digits).foldl (fun (n : Int) (d : Nat) => n * 10 + d) 0
        some (if negative then -n else n, r.dropWhile Char.isDigit)
    else some (0, s)
  | [] => some (0, s)

def signed (negative : Bool) (f : Float) : Number := .float (if negative then -f else f)

/-- A number after its sign. -/
def readUnsigned (negative : Bool) (s : Text) : Option (Number × Text) := do
  let whole := s.takeWhile Char.isDigit
  let rest := s.dropWhile Char.isDigit
  if whole = [] ∨ (whole.head? = some '0' ∧ whole.length ≠ 1) then none
  let (significand, left) := absorb 0 (digitValues whole)
  let fraction ← match rest with
    | '.' :: r =>
      if (r.takeWhile Char.isDigit) = [] then none
      else some (some (r.takeWhile Char.isDigit), r.dropWhile Char.isDigit)
    | r => some (none, r)
  match fraction with
  | (some digits, r) =>
    let (exact, unread) := absorb significand (digitValues digits)
    let (exponent, r) ← readExponent r
    let f ← scale? exact (exponent + left - (digits.length - unread : Nat))
    return (signed negative f, r)
  | (none, r) =>
    let hasExponent := r.head?.any fun c => c == 'e' || c == 'E'
    if left = 0 ∧ !hasExponent then
      if !negative then return (.int significand, r)
      else if significand = 0 ∨ wordSize / 2 < significand then
        return (signed true significand.toUInt64.toFloat, r)
      else return (.int (-significand), r)
    else
      let (exponent, r) ← readExponent r
      let f ← scale? significand (exponent + left)
      return (signed negative f, r)

def readNumber (s : Text) : Option (Number × Text) :=
  match s with
  | '-' :: r => readUnsigned true r
  | r => readUnsigned false r

mutual

/-- A value at the start of a text without blanks in front. `depth` more arrays and objects may be
nested in it; each step of the reading takes one of `fuel`. -/
def readValue (fuel depth : Nat) (s : Text) : Option (Value × Text) :=
  match fuel with
  | 0 => none
  | fuel + 1 =>
    match s with
    | [] => none
    | '"' :: r => (Quoted.decode r).map fun (t, rest) => (.string t, rest)
    | '[' :: r =>
      match depth with
      | 0 => none
      | depth + 1 =>
        match skipBlanks r with
        | ']' :: rest => some (.array [], rest)
        | r => (readItems fuel depth r).map fun (items, rest) => (.array items, rest)
    | '{' :: r =>
      match depth with
      | 0 => none
      | depth + 1 =>
        match skipBlanks r with
        | '}' :: rest => some (.object [], rest)
        | r => (readFields fuel depth r).map fun (fields, rest) => (.object (sortEntries fields), rest)
    | s =>
      match after? "null" s with
      | some rest => some (.null, rest)
      | none =>
        match after? "true" s with
        | some rest => some (.bool true, rest)
        | none =>
          match after? "false" s with
          | some rest => some (.bool false, rest)
          | none => (readNumber s).map fun (n, rest) => (.number n, rest)

/-- The items of an array up to its end, of which there is at least one. -/
def readItems (fuel depth : Nat) (s : Text) : Option (List Value × Text) :=
  match fuel with
  | 0 => none
  | fuel + 1 =>
    match readValue fuel depth s with
    | none => none
    | some (v, r) =>
      match skipBlanks r with
      | ']' :: rest => some ([v], rest)
      | ',' :: r => (readItems fuel depth (skipBlanks r)).map fun (vs, rest) => (v :: vs, rest)
      | _ => none

/-- The fields of an object up to its end, of which there is at least one. -/
def readFields (fuel depth : Nat) (s : Text) : Option (List (Text × Value) × Text) :=
  match fuel with
  | 0 => none
  | fuel + 1 =>
    match s with
    | '"' :: r =>
      match Quoted.decode r with
      | none => none
      | some (key, r) =>
        match skipBlanks r with
        | ':' :: r =>
          match readValue fuel depth (skipBlanks r) with
          | none => none
          | some (v, r) =>
            match skipBlanks r with
            | '}' :: rest => some ([(key, v)], rest)
            | ',' :: r =>
              (readFields fuel depth (skipBlanks r)).map fun (fs, rest) => ((key, v) :: fs, rest)
            | _ => none
        | _ => none
    | _ => none

end

/-- The value that a text is. -/
def read? (s : Text) : Option Value :=
  match readValue (2 * s.length + 2) 127 (skipBlanks s) with
  | some (v, rest) => if skipBlanks rest = [] then some v else none
  | none => none

end SwiftDraft.Json
