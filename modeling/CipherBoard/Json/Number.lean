/-
CipherBoard.Json.Number — the value of a number's text.

The digits of a number are gathered into a significand of 64 bits and a power of ten. A digit
ahead of the point that no longer fits counts as a factor of ten, and so does every digit
between it and the point; a digit behind the point that no longer fits is dropped with all
behind it. The value is then the significand, multiplied or divided once by the power of ten as
floating-point numbers, so that the last bit may differ from that of the nearest number. A
value beyond the range is an error; a value too small to represent is zero.
-/
import CipherBoard.Json.Value

namespace CipherBoard.Json

/-- The greatest significand. -/
def greatestSignificand : Nat := 0xffffffffffffffff

/-- The greatest significand of a whole number below zero. -/
def greatestNegation : Nat := 0x8000000000000000

/-- Whether one more digit fits into a significand. -/
def fits (significand digit : Nat) : Bool :=
  significand * 10 + digit ≤ greatestSignificand

/-- Gathers the digits ahead of the point: the significand, and how many digits did not fit. -/
def gatherWhole (significand : Nat) : List Nat → Nat × Nat
  | [] => (significand, 0)
  | d :: rest =>
    if fits significand d then gatherWhole (significand * 10 + d) rest
    else (significand, rest.length + 1)

/-- Gathers the digits behind the point, each a tenth of the one before. -/
def gatherFraction (significand : Nat) (exponent : Int) : List Nat → Nat × Int
  | [] => (significand, exponent)
  | d :: rest =>
    if fits significand d then gatherFraction (significand * 10 + d) (exponent - 1) rest
    else (significand, exponent)

/-- The greatest power of ten that is a floating-point number. -/
def greatestPower : Nat := 308

/-- A power of ten. -/
def powerOfTen (n : Nat) : Float :=
  Float.ofScientific 1 false n

/-- `x` · 10^`exponent`, if it is in range. -/
def scale (x : Float) (exponent : Int) : Option Float :=
  if exponent < -(greatestPower : Int) then
    if x == 0 then some x else scale (x / powerOfTen greatestPower) (exponent + greatestPower)
  else if exponent < 0 then some (x / powerOfTen exponent.natAbs)
  else if exponent ≤ greatestPower then
    let y := x * powerOfTen exponent.natAbs
    if y.isInf then none else some y
  else if x == 0 then some x
  else none
termination_by exponent.natAbs
decreasing_by simp only [greatestPower] at *; omega

/-- The parts of a number's text: its sign, its digits, and its exponent if it has one. The
digits behind the point are absent when there is no point. -/
structure NumberText where
  negative : Bool
  whole : List Nat
  fraction : Option (List Nat)
  exponent : Option Int

/-- The value of a number's text, unless it is beyond the range. -/
def NumberText.value? (t : NumberText) : Option Number :=
  let (significand, excess) := gatherWhole 0 t.whole
  let signed (x : Float) : Number := .floating (if t.negative then -x else x)
  if t.fraction.isNone && t.exponent.isNone && excess == 0 then
    if !t.negative then some (.whole significand)
    else if significand = 0 ∨ greatestNegation < significand then
      some (signed (Float.ofNat significand))
    else some (.whole (-(significand : Int)))
  else
    let (significand, power) := gatherFraction significand excess (t.fraction.getD [])
    (scale (Float.ofNat significand) (power + t.exponent.getD 0)).map signed

end CipherBoard.Json
