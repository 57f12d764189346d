/-
CipherBoard.Transform — the steps a transform piece can apply to the word it is given.

A transform is a rearrangement of the word or a letter step on a span of it. `Transform.apply`
is its meaning, and `Transform.named` the table of the names under which a board refers to
transforms; a name that is not in the table names none.
-/
import CipherBoard.Word

namespace CipherBoard

/-- A step on single letters. -/
inductive LetterStep where
  | rot13
  | atbash
  | next
  | prev
  | nextClamped
  | prevClamped
  | nextDotted
  | prevUndotted
  | hardshiftLeft
  | hardshiftRight
  deriving DecidableEq, Repr

/-- The letter that a letter step makes of `b`. -/
def LetterStep.apply : LetterStep → UInt8 → UInt8
  | .rot13 => Letter.rot13
  | .atbash => Letter.atbash
  | .next => Letter.next
  | .prev => Letter.prev
  | .nextClamped => Letter.nextClamped
  | .prevClamped => Letter.prevClamped
  | .nextDotted => Letter.nextDotted
  | .prevUndotted => Letter.prevUndotted
  | .hardshiftLeft => Letter.hardshiftLeft
  | .hardshiftRight => Letter.hardshiftRight

/-- A step on whole words. A rotation may leave the first letter in place. -/
inductive Transform where
  | reverse
  | swapHalves
  | zigzag
  | collapsePairs
  | rotateLeft (keepFirst : Bool)
  | rotateRight (keepFirst : Bool)
  | letters (step : LetterStep) (span : Span)
  deriving DecidableEq, Repr

namespace Transform

/-- The word that a transform makes of `w`. -/
def apply : Transform → Word → Word
  | reverse, w => w.reverse
  | swapHalves, w => w.swapHalves
  | zigzag, w => w.zigzag
  | collapsePairs, w => w.collapsePairs
  | rotateLeft false, w => w.rotateLeft
  | rotateLeft true, w => w.onTail Word.rotateLeft
  | rotateRight false, w => w.rotateRight
  | rotateRight true, w => w.onTail Word.rotateRight
  | letters step span, w => span.map step.apply w

/-- The transforms that have a name, in the order in which a standard tileset lists them. -/
def named : List (String × Transform) :=
  [("reverse", reverse),
   ("swap_halves", swapHalves),
   ("zigzag", zigzag),
   ("polygraphic_atbash", collapsePairs),
   ("rotate_left", rotateLeft false),
   ("rotate_left_butfirst", rotateLeft true),
   ("rotate_right", rotateRight false),
   ("rotate_right_butfirst", rotateRight true),
   ("rot13", letters .rot13 .all),
   ("rot13_first", letters .rot13 .first),
   ("rot13_butfirst", letters .rot13 .butFirst),
   ("rot13_butlast", letters .rot13 .butLast),
   ("atbash", letters .atbash .all),
   ("atbash_first", letters .atbash .first),
   ("atbash_butlast", letters .atbash .butLast),
   ("add", letters .next .all),
   ("add_first", letters .next .first),
   ("add_last", letters .next .last),
   ("add_butfirst", letters .next .butFirst),
   ("add_odd", letters .next .odd),
   ("add_even", letters .next .even),
   ("add_nowrap", letters .nextClamped .all),
   ("add_butfirst_nowrap", letters .nextClamped .butFirst),
   ("add_dotted", letters .nextDotted .all),
   ("add_butfirst_dotted", letters .nextDotted .butFirst),
   ("sub", letters .prev .all),
   ("sub_first", letters .prev .first),
   ("sub_last", letters .prev .last),
   ("sub_butlast", letters .prev .butLast),
   ("sub_odd", letters .prev .odd),
   ("sub_even", letters .prev .even),
   ("sub_nowrap", letters .prevClamped .all),
   ("sub_undotted", letters .prevUndotted .all),
   ("hardshift_left", letters .hardshiftLeft .all),
   ("hardshift_right", letters .hardshiftRight .all)]

/-- The names of the named transforms, in the order of the table. -/
def names : List String :=
  named.map (·.1)

/-- The transform of a name. -/
def ofName? (name : String) : Option Transform :=
  named.lookup name

end Transform

end CipherBoard
