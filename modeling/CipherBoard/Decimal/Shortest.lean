/-
CipherBoard.Decimal.Shortest — the fewest decimal digits that tell a number apart.

A decimal reads back as ± m · 2^q when it lies between the two halfway points to the
neighbouring numbers; the ends belong to the interval when m is even, because halfway points
are read as the even neighbour. `shortest` tries one digit, two digits, …, and of each count
only the two decimals next to the exact value: if any decimal of that count lies in the
interval, one of these two does. Everything is computed on naturals.
-/
import CipherBoard.Decimal.Binary

namespace CipherBoard.Decimal

/-- Which of two equally near decimals is taken. -/
inductive Tie where
  | up
  | toEven
  deriving DecidableEq, Repr

/-- The decimal `digits` · 10^`exponent`. -/
structure Digits where
  digits : Nat
  exponent : Int
  deriving DecidableEq, Repr

/-- The number of decimal digits of `n`; zero has none. -/
def digitCount (n : Nat) : Nat :=
  if n = 0 then 0 else digitCount (n / 10) + 1
termination_by n
decreasing_by omega

/-- The exponent of the leading digit of the positive value `num / den`. -/
def leadingExponent (num den : Nat) : Int :=
  if den ≤ num then digitCount (num / den) - 1
  else -(digitCount ((den + num - 1) / num - 1) : Int)

/-- The interval of values that are read as one number: its value and the two ends, over a
common denominator. -/
structure Interval where
  low : Nat
  value : Nat
  high : Nat
  den : Nat
  closed : Bool

/-- The interval of m · 2^q. Below a power of two the neighbour is only half as far away, except
at the bottom of the range. -/
def Interval.of (significand : Nat) (exponent : Int) : Interval :=
  let near := significand = hiddenBit ∧ leastExponent < exponent
  let up : Nat := if 2 ≤ exponent then twoTo (exponent - 2).natAbs else 1
  let down : Nat := if 2 ≤ exponent then 1 else twoTo (2 - exponent).natAbs
  { low := (4 * significand - (if near then 1 else 2)) * up
    value := 4 * significand * up
    high := (4 * significand + 2) * up
    den := down
    closed := significand % 2 = 0 }

/-- Whether `d` · 10^k lies in the interval. -/
def Interval.holds (i : Interval) (d : Nat) (k : Int) : Bool :=
  let scaled := if 0 ≤ k then d * tenTo k.natAbs * i.den else d * i.den
  let unit := if 0 ≤ k then 1 else tenTo k.natAbs
  if i.closed then i.low * unit ≤ scaled && scaled ≤ i.high * unit
  else i.low * unit < scaled && scaled < i.high * unit

/-- Whether the exact value lies nearer to `d + 1` than to `d`, in units of 10^k. -/
def Interval.roundsUp (i : Interval) (tie : Tie) (d : Nat) (k : Int) : Bool :=
  let value := if 0 ≤ k then i.value else i.value * tenTo k.natAbs
  let unit := if 0 ≤ k then i.den * tenTo k.natAbs else i.den
  let twice := 2 * (value - d * unit)
  unit < twice || (twice == unit && (tie == .up || d % 2 == 1))

/-- The greatest `d` with `d` · 10^k at most the exact value. -/
def Interval.floor (i : Interval) (k : Int) : Nat :=
  if 0 ≤ k then i.value / (i.den * tenTo k.natAbs) else i.value * tenTo k.natAbs / i.den

/-- Tries the grid of step 10^k, then the finer ones. -/
def Interval.search (i : Interval) (tie : Tie) : (tries : Nat) → (k : Int) → Digits
  | 0, k => ⟨i.floor k, k⟩
  | tries + 1, k =>
    let d := i.floor k
    let below := i.holds d k
    let above := i.holds (d + 1) k
    if below && above then ⟨if i.roundsUp tie d k then d + 1 else d, k⟩
    else if below then ⟨d, k⟩
    else if above then ⟨d + 1, k⟩
    else i.search tie tries (k - 1)

/-- Drops the zeros at the end of the digits. -/
def Digits.trim (d : Digits) : Digits :=
  if d.digits % 10 = 0 ∧ d.digits ≠ 0 then Digits.trim ⟨d.digits / 10, d.exponent + 1⟩ else d
termination_by d.digits
decreasing_by omega

/-- Seventeen digits tell all numbers apart. -/
def mostDigits : Nat := 17

/-- The shortest decimal that reads back as m · 2^q, of those the nearest. -/
def shortest (tie : Tie) (significand : Nat) (exponent : Int) : Digits :=
  if significand = 0 then ⟨0, 0⟩
  else
    let i := Interval.of significand exponent
    (i.search tie mostDigits (leadingExponent i.value i.den)).trim

end CipherBoard.Decimal
