import SwiftDraft.Text.Basic

/-!
# Shortest decimals

The decimal with the fewest digits that reads back as a given binary fraction, and of those the
nearest. A finite double is `mantissa · 2 ^ exponent`; the reals that round to it lie between the
points half way to its neighbours, and those points belong to it iff the mantissa is even. All of it
is exact arithmetic on natural numbers.
-/

namespace SwiftDraft.Decimal

/-- The absolute value of a finite double. -/
structure Magnitude where
  mantissa : Nat
  exponent : Int
  /-- The neighbour below is only half as far as the one above. -/
  narrow : Bool
  deriving DecidableEq, Repr

/-- The leading bit of a mantissa, which the bits of a double leave out: the 53rd. -/
def hiddenBit : Nat := 0x10000000000000

/-- The magnitude that the bits of a double stand for. -/
def Magnitude.ofBits (bits : Nat) : Magnitude :=
  let field : Nat := bits / hiddenBit % 0x800
  let fraction := bits % hiddenBit
  if field = 0 then ⟨fraction, -1074, false⟩
  else ⟨hiddenBit + fraction, (field : Int) - 1075, fraction == 0 && 1 < field⟩

/-- `base ^ k`, or 1 if `k` is negative. -/
def power (base : Nat) (k : Int) : Nat := base.pow k.toNat

/-- Whether `a · 2 ^ e ≤ d · 10 ^ k`, or `<` if `strict`. -/
def binaryBelow (strict : Bool) (a : Nat) (e : Int) (d : Nat) (k : Int) : Bool :=
  let left := a * power 2 e * power 10 (-k)
  let right := d * power 10 k * power 2 (-e)
  if strict then left < right else left ≤ right

/-- Whether `d · 10 ^ k ≤ a · 2 ^ e`, or `<` if `strict`. -/
def decimalBelow (strict : Bool) (d : Nat) (k : Int) (a : Nat) (e : Int) : Bool :=
  let left := d * power 10 k * power 2 (-e)
  let right := a * power 2 e * power 10 (-k)
  if strict then left < right else left ≤ right

/-- Whether `d · 10 ^ k` lies in the interval that rounds to `m`. -/
def Magnitude.readsBack (m : Magnitude) (d : Nat) (k : Int) : Bool :=
  let strict := m.mantissa % 2 = 1
  let low := 4 * m.mantissa - (if m.narrow then 1 else 2)
  binaryBelow strict low (m.exponent - 2) d k &&
  decimalBelow strict d k (4 * m.mantissa + 2) (m.exponent - 2)

/-- The value divided by `10 ^ k`, as numerator and denominator. -/
def Magnitude.scaled (m : Magnitude) (k : Int) : Nat × Nat :=
  (m.mantissa * power 2 m.exponent * power 10 (-k), power 2 (-m.exponent) * power 10 k)

/-- A number of tens that takes the least positive double above 1. -/
def margin : Nat := 400

/-- The exponent of the leading decimal digit of a positive magnitude. -/
def Magnitude.leading (m : Magnitude) : Int :=
  let (num, den) := m.scaled (-(margin : Int))
  ((num / den).repr.length : Int) - 1 - margin

/-- The grid points next to the value that read back, the nearer first; a tie goes to the even one. -/
def Magnitude.onGrid (m : Magnitude) (k : Int) : Option Nat :=
  let (num, den) := m.scaled k
  let below := num / den
  let twice := 2 * (num % den)
  let nearer := if twice < den ∨ (twice = den ∧ below % 2 = 0) then [below, below + 1]
    else [below + 1, below]
  nearer.find? fun d => m.readsBack d k

/-- The digits and the exponent of the shortest decimal. Seventeen digits always read back. -/
def Magnitude.shortest (m : Magnitude) : Nat × Int :=
  if m.mantissa = 0 then (0, 0)
  else
    let lead := m.leading
    let found := (List.range 17).findSome? fun (n : Nat) =>
      (m.onGrid (lead - (n : Int))).map fun d => (d, lead - (n : Int))
    match found with
    | some (10, k) => (1, k + 1)
    | some decimal => decimal
    | none => (0, 0)

end SwiftDraft.Decimal
