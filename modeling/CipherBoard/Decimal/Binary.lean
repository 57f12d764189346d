/-
CipherBoard.Decimal.Binary — the exact value of a binary floating-point number.

A finite number is ± m · 2^q with a natural m; `Binary.ofFloat` reads m and q off its bits, so
that what follows is arithmetic on naturals. `wholePart` is the number cut off at the point and
held within 64 bits; the cut goes towards zero, for numbers below zero as well.
-/
namespace CipherBoard.Decimal

/-- A power of two. -/
def twoTo (n : Nat) : Nat :=
  Nat.pow 2 n

/-- A power of ten. -/
def tenTo (n : Nat) : Nat :=
  Nat.pow 10 n

/-- A floating-point number taken apart. `finite` is ± `significand` · 2^`exponent`. -/
inductive Binary where
  | notANumber
  | infinite (negative : Bool)
  | finite (negative : Bool) (significand : Nat) (exponent : Int)
  deriving DecidableEq, Repr

/-- The significand of the smallest number that is stored with a leading one. -/
def hiddenBit : Nat := 0x10000000000000

/-- The value of the bit that holds the sign. -/
def signBit : Nat := 0x8000000000000000

/-- The exponent of the smallest numbers. -/
def leastExponent : Int := -1074

/-- Takes a number apart: a sign, eleven bits of exponent, fifty-two of significand. -/
def Binary.ofFloat (x : Float) : Binary :=
  let bits := x.toBits.toNat
  let negative := bits / signBit == 1
  let stored := bits / hiddenBit % 2048
  let fraction := bits % hiddenBit
  if stored = 2047 then
    if fraction = 0 then .infinite negative else .notANumber
  else if stored = 0 then .finite negative fraction leastExponent
  else .finite negative (hiddenBit + fraction) (leastExponent + (stored - 1 : Nat))

/-- The least whole number of 64 bits. -/
def leastWhole : Int := -0x8000000000000000

/-- The greatest whole number of 64 bits. -/
def greatestWhole : Int := 0x7fffffffffffffff

/-- The whole part of ± m · 2^q. -/
def cutOff (negative : Bool) (significand : Nat) (exponent : Int) : Int :=
  let whole : Nat :=
    if exponent < 0 then significand / twoTo exponent.natAbs
    else significand * twoTo exponent.natAbs
  if negative then -(whole : Int) else whole

/-- The whole part of a number, cut off towards zero. What is beyond 64 bits is held at their
ends, and what is not a number has no whole part. -/
def wholePart (x : Float) : Int :=
  match Binary.ofFloat x with
  | .notANumber => 0
  | .infinite true => leastWhole
  | .infinite false => greatestWhole
  | .finite negative significand exponent =>
    max leastWhole (min greatestWhole (cutOff negative significand exponent))

/-- Whether a number is finite and has no fraction. -/
def isIntegral (x : Float) : Bool :=
  match Binary.ofFloat x with
  | .finite _ significand exponent => 0 ≤ exponent || significand % twoTo exponent.natAbs == 0
  | _ => false

end CipherBoard.Decimal
