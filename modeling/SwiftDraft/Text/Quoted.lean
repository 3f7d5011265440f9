import SwiftDraft.Text.Basic

/-!
# Quoted text

Text between double quotes: quotes, backslashes and control characters are escaped by a backslash.
Reading accepts every escape of JSON; a character outside the basic plane may be escaped as a pair
of surrogates, and a surrogate by itself is refused.
-/

namespace SwiftDraft.Text.Quoted

def hexDigit (n : Nat) : Char := Nat.digitChar n

/-- A character as it stands between the quotes. -/
def escape (c : Char) : Text :=
  if c = '"' then ['\\', '"']
  else if c = '\\' then ['\\', '\\']
  else if c = '\n' then ['\\', 'n']
  else if c = '\r' then ['\\', 'r']
  else if c = '\t' then ['\\', 't']
  else if c.toNat = 8 then ['\\', 'b']
  else if c.toNat = 12 then ['\\', 'f']
  else if c.toNat < 0x20 then
    ['\\', 'u', '0', '0', hexDigit (c.toNat / 16), hexDigit (c.toNat % 16)]
  else [c]

/-- The text in quotes. -/
def encode (s : Text) : Text := '"' :: s.flatMap escape ++ ['"']

def hexValue? (c : Char) : Option Nat :=
  let n := c.toNat
  if '0' ≤ c ∧ c ≤ '9' then some (n - 48)
  else if 'a' ≤ c ∧ c ≤ 'f' then some (n - 87)
  else if 'A' ≤ c ∧ c ≤ 'F' then some (n - 55)
  else none

/-- What the character after a backslash stands for, unless it is `u`. -/
def simpleEscape? (c : Char) : Option Char :=
  if c = '"' ∨ c = '\\' ∨ c = '/' then some c
  else if c = 'b' then some (Char.ofNat 8)
  else if c = 'f' then some (Char.ofNat 12)
  else if c = 'n' then some '\n'
  else if c = 'r' then some '\r'
  else if c = 't' then some '\t'
  else none

/-- What has been read of an escape. -/
inductive Pending where
  | nothing
  | backslash
  /-- Some of the four digits of a code unit, after the first unit of a pair if there is one. -/
  | digits (high : Option Nat) (read : Nat) (value : Nat)
  /-- The first unit of a pair, and of what has to follow it. -/
  | pair (high : Nat)
  | pairBackslash (high : Nat)
  deriving DecidableEq, Repr

/-- What four digits complete: a character, the first unit of a pair, or nothing allowed. -/
inductive Unit16 where
  | char (c : Char)
  | high (value : Nat)
  | refused

def unit16 : Option Nat → Nat → Unit16
  | none, n =>
    if 0xD800 ≤ n ∧ n < 0xDC00 then .high n
    else if 0xDC00 ≤ n ∧ n < 0xE000 then .refused
    else .char (Char.ofNat n)
  | some high, n =>
    if 0xDC00 ≤ n ∧ n < 0xE000 then
      .char (Char.ofNat (0x10000 + (high - 0xD800) * 0x400 + (n - 0xDC00)))
    else .refused

/-- Reads up to the closing quote; gives the text and what follows the quote. -/
def decodeFrom : Pending → Text → Option (Text × Text)
  | _, [] => none
  | .nothing, c :: r =>
    if c = '"' then some ([], r)
    else if c = '\\' then decodeFrom .backslash r
    else if c.toNat < 0x20 then none
    else (decodeFrom .nothing r).map fun (s, rest) => (c :: s, rest)
  | .backslash, c :: r =>
    if c = 'u' then decodeFrom (.digits none 0 0) r
    else match simpleEscape? c with
      | some d => (decodeFrom .nothing r).map fun (s, rest) => (d :: s, rest)
      | none => none
  | .digits high read value, c :: r =>
    match hexValue? c with
    | none => none
    | some d =>
      if read < 3 then decodeFrom (.digits high (read + 1) (value * 16 + d)) r
      else match unit16 high (value * 16 + d) with
        | .char e => (decodeFrom .nothing r).map fun (s, rest) => (e :: s, rest)
        | .high h => decodeFrom (.pair h) r
        | .refused => none
  | .pair high, c :: r => if c = '\\' then decodeFrom (.pairBackslash high) r else none
  | .pairBackslash high, c :: r => if c = 'u' then decodeFrom (.digits (some high) 0 0) r else none

/-- Reads text after its opening quote. -/
def decode (s : Text) : Option (Text × Text) := decodeFrom .nothing s

end SwiftDraft.Text.Quoted
