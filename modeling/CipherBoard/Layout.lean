/-
CipherBoard.Layout — a level before it is built: which pieces lie where, and the words to
decode.

A layout says nothing about which piece leads to which; that follows from the positions alone.
-/
import CipherBoard.Condition
import CipherBoard.Place

namespace CipherBoard

/-- What a piece carries besides its class. -/
inductive Payload where
  | none
  /-- A bend, mirrored or not. -/
  | bend (mirrored : Bool)
  /-- A countdown and where it starts. -/
  | countdown (start : Nat)
  /-- A test and its condition. -/
  | condition (spec : ConditionSpec)
  deriving DecidableEq, Repr, Inhabited

/-- A piece as it lies on the board; `pos` is its centre. -/
structure Placement where
  className : String
  pos : Point
  turn : QuarterTurn
  payload : Payload
  deriving Repr

/-- A note on the board. It plays no part in the circuit. -/
structure Hint where
  text : String
  pos : Point
  deriving Repr

/-- A level: its pieces, and its keywords, of which the first `requiredCount` have to be
decoded. -/
structure Layout where
  tileWidth : Float
  tileHeight : Float
  placements : List Placement
  requiredCount : Nat
  keywords : List String
  hints : List Hint
  deriving Repr

namespace Layout

/-- The keywords that have to be decoded. -/
def required (l : Layout) : List String :=
  l.keywords.take l.requiredCount

/-- The keywords that are only shown. -/
def decoys (l : Layout) : List String :=
  l.keywords.drop l.requiredCount

end Layout

end CipherBoard
