/-
CipherBoard.Decimal.Range — which decimals have a finite floating-point number next to them.

A decimal is n · 10^e. The greatest finite number is (2^53 - 1) · 2^971; what is at least half a
step above it is nearest to infinity. Decimals of other than 309 digits ahead of the point are
told apart by that alone, so that no power of ten is larger than the number at hand.
-/
import CipherBoard.Decimal.Shortest

namespace CipherBoard.Decimal

/-- The least number that is beyond the range: half a step above the greatest finite one. -/
def leastBeyond : Nat :=
  (twoTo 54 - 1) * twoTo 970

/-- How many digits `leastBeyond` has. -/
def sizeOfLeastBeyond : Nat := 309

/-- Whether n · 10^e is beyond the range. -/
def isBeyond (n : Nat) (e : Int) : Bool :=
  let size := digitCount n + e
  if n = 0 ∨ size < sizeOfLeastBeyond then false
  else if sizeOfLeastBeyond < size then true
  else if e < 0 then leastBeyond * tenTo e.natAbs ≤ n
  else leastBeyond ≤ n * tenTo e.natAbs

end CipherBoard.Decimal
