/-
CipherBoard.Decimal.Text — numbers as text.

`Float.positional` writes the shortest digits of a number in positional notation, however many
zeros that takes; of two equally near digits it takes the upper. It is how positions, sizes and
angles appear in messages.
-/
import CipherBoard.Decimal.Shortest

namespace CipherBoard.Decimal

/-- `n` copies of the digit zero. -/
def zeros (n : Nat) : String :=
  String.ofList (List.replicate n '0')

/-- The decimal in positional notation, with a point only where a digit follows it. -/
def Digits.positional (d : Digits) : String :=
  let text := toString d.digits
  if 0 ≤ d.exponent then text ++ (if d.digits = 0 then "" else zeros d.exponent.natAbs)
  else
    let behind := d.exponent.natAbs
    if behind < text.length then
      let ahead := text.length - behind
      String.ofList (text.toList.take ahead) ++ "." ++ String.ofList (text.toList.drop ahead)
    else "0." ++ zeros (behind - text.length) ++ text

/-- A number in positional notation, with the fewest digits that tell it apart. The sign of a
negative zero is kept. -/
def positional (x : Float) : String :=
  match Binary.ofFloat x with
  | .notANumber => "NaN"
  | .infinite negative => if negative then "-inf" else "inf"
  | .finite negative significand exponent =>
    (if negative then "-" else "") ++ (shortest .up significand exponent).positional

end CipherBoard.Decimal
