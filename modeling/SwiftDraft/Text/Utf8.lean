import SwiftDraft.Text.Basic

/-!
# UTF-8

Texts as bytes and back. Where bytes are not well formed, each longest start of a character, or else
a single byte, counts as one place.
-/

namespace SwiftDraft.Text

abbrev Bytes := List UInt8

def encodeUtf8 (s : Text) : Bytes := s.flatMap String.utf8EncodeChar

/-- The second bytes that may follow a first one, and the number of bytes after the first. -/
def followers (b : Nat) : Option (Nat × Nat × Nat) :=
  if 0xC2 ≤ b ∧ b ≤ 0xDF then some (1, 0x80, 0xBF)
  else if b = 0xE0 then some (2, 0xA0, 0xBF)
  else if b = 0xED then some (2, 0x80, 0x9F)
  else if 0xE1 ≤ b ∧ b ≤ 0xEF then some (2, 0x80, 0xBF)
  else if b = 0xF0 then some (3, 0x90, 0xBF)
  else if 0xF1 ≤ b ∧ b ≤ 0xF3 then some (3, 0x80, 0xBF)
  else if b = 0xF4 then some (3, 0x80, 0x8F)
  else none

/-- Reads `left` bytes that continue a character, the first of them between `low` and `high`. Gives
the character, if it is complete, and how many of the bytes belong to it. -/
def continueChar (value : Nat) : Nat → Nat → Nat → Bytes → Option Char × Nat
  | 0, _, _, _ => (some (Char.ofNat value), 0)
  | _ + 1, _, _, [] => (none, 0)
  | left + 1, low, high, b :: bs =>
    if low ≤ b.toNat ∧ b.toNat ≤ high then
      let (c, n) := continueChar (value * 64 + b.toNat % 64) left 0x80 0xBF bs
      (c, n + 1)
    else (none, 0)

/-- The character that starts with the byte `b`, if the bytes are well formed there, and how many of
the bytes `bs` after it belong to the place. -/
def firstChar (b : UInt8) (bs : Bytes) : Option Char × Nat :=
  if b.toNat < 0x80 then (some (Char.ofNat b.toNat), 0)
  else match followers b.toNat with
    | none => (none, 0)
    | some (count, low, high) =>
      continueChar (b.toNat % (64 >>> count)) count low high bs

/-- The characters of bytes, with `none` for each place that is not well formed. -/
def readUtf8 : Bytes → List (Option Char)
  | [] => []
  | b :: bs => (firstChar b bs).1 :: readUtf8 (bs.drop (firstChar b bs).2)
  termination_by bs => bs.length
  decreasing_by
    rw [List.length_drop, List.length_cons]
    omega

/-- The text of well-formed bytes. -/
def decodeUtf8? (bs : Bytes) : Option Text := (readUtf8 bs).mapM id

/-- The text of bytes, with U+FFFD for each place that is not well formed. -/
def decodeLossy (bs : Bytes) : Text := (readUtf8 bs).map (·.getD '\uFFFD')

end SwiftDraft.Text
