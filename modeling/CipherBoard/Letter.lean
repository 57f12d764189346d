/-
CipherBoard.Letter — the one-letter steps every cipher on the board is made of.

A letter is a byte. The alphabet is `a` … `z`, but a word may hold any byte, so each
step is defined on all 256 of them with arithmetic modulo 256: a step never fails, and
on the alphabet it is the step its name says.

`isLower` is the alphabet, `pairs` the six dotted pairs; everything else maps a byte to
a byte.
-/
namespace CipherBoard.Letter

/-- First letter of the alphabet, `a`. -/
def first : UInt8 := 97

/-- First letter of the alphabet's second half, `n`. -/
def middle : UInt8 := 110

/-- Last letter of the alphabet, `z`. -/
def last : UInt8 := 122

/-- The alphabet: the bytes `a` … `z`. -/
def isLower (b : UInt8) : Bool := first ≤ b && b ≤ last

/-! ## One step along the alphabet -/

/-- The next letter; what would pass `z` starts again at `a`. -/
def next (b : UInt8) : UInt8 :=
  if last < b + 1 then first else b + 1

/-- The previous letter; what would pass `a` starts again at `z`. -/
def prev (b : UInt8) : UInt8 :=
  if b - 1 < first then last else b - 1

/-- The next letter; what would pass `z` stays there. -/
def nextClamped (b : UInt8) : UInt8 :=
  if last < b + 1 then last else b + 1

/-- The previous letter; what would pass `a` stays there. -/
def prevClamped (b : UInt8) : UInt8 :=
  if b - 1 < first then first else b - 1

/-! ## Folding the alphabet in the middle -/

/-- Exchanges the halves of the alphabet: thirteen letters on, or thirteen back. -/
def rot13 (b : UInt8) : UInt8 :=
  if b < middle then middle + (b - first) else first + (b - middle)

/-- Reads the alphabet backwards. -/
def atbash (b : UInt8) : UInt8 :=
  first + (25 - (b - first))

/-- Reads the second half of the alphabet backwards onto the first. -/
def hardshiftLeft (b : UInt8) : UInt8 :=
  if b < middle then b else atbash b

/-- Reads the first half of the alphabet backwards onto the second. -/
def hardshiftRight (b : UInt8) : UInt8 :=
  if b < middle then atbash b else b

/-! ## Dotted letters -/

/-- The letters whose glyph carries a dot, each opener with its partner at the other end of
the alphabet: `az`, `cx`, `ev`, `gt`, `ir`, `kp`. -/
def pairs : List (UInt8 × UInt8) :=
  [(97, 122), (99, 120), (101, 118), (103, 116), (105, 114), (107, 112)]

/-- Whether a letter carries a dot, as an opener or as a partner. -/
def isDotted (b : UInt8) : Bool :=
  pairs.any fun (opener, partner) => opener == b || partner == b

/-- The letter that completes a dotted pair after `b`, if `b` opens one. -/
def partner? (b : UInt8) : Option UInt8 :=
  pairs.lookup b

/-- The next letter of a dotted letter; any other letter is kept. -/
def nextDotted (b : UInt8) : UInt8 :=
  if isDotted b then next b else b

/-- The previous letter of a letter without a dot; a dotted letter is kept. -/
def prevUndotted (b : UInt8) : UInt8 :=
  if isDotted b then b else prev b

end CipherBoard.Letter
