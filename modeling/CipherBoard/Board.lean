/-
CipherBoard.Board — a level that is ready to run.

A board is its pieces with the ways out of each, the number of the piece where a signal enters,
and the keywords with what the board makes of them. A piece's number is its place among the
pieces. `Piece.next` lists the ways out in the order in which a behaviour counts them: one for
most pieces, two for a branch, none for an output.
-/
import CipherBoard.Families
import CipherBoard.Layout

namespace CipherBoard

/-- What a piece does with a signal. -/
inductive Behaviour where
  /-- Passes it on. -/
  | forward
  | transform (op : Transform)
  /-- Takes the first way if the condition holds, and remembers the outcome. -/
  | test (condition : Condition)
  /-- Takes the first way if the condition fails, and remembers that. -/
  | testNot (condition : Condition)
  /-- Goes by the remembered outcome. -/
  | repeater
  /-- Goes against the remembered outcome. -/
  | inverseRepeater
  /-- Takes the first way on its first `start` visits. -/
  | countdown (start : Nat)
  /-- Ends the run. -/
  | stop
  deriving DecidableEq, Repr

/-- A piece with its ways out. -/
structure Piece where
  id : Nat
  className : String
  role : Role
  pos : Point
  turn : QuarterTurn
  payload : Payload
  behaviour : Behaviour
  next : List Nat
  deriving Repr

/-- The piece as messages name it. -/
def Piece.label (p : Piece) : Label :=
  ⟨p.className, p.pos⟩

/-- A level that is ready to run. `encoded` holds what the board makes of each keyword. -/
structure Board where
  entry : Nat
  pieces : Array Piece
  requiredCount : Nat
  keywords : List String
  encoded : List String
  families : Families
  deriving Repr

namespace Board

/-- The keywords that have to be decoded. -/
def required (b : Board) : List String :=
  b.keywords.take b.requiredCount

/-- The keywords that are only shown. -/
def decoys (b : Board) : List String :=
  b.keywords.drop b.requiredCount

/-- The kinds of the conditions that the board tests, in the order of its pieces. -/
def conditionKinds (b : Board) : List String :=
  b.pieces.toList.filterMap fun p =>
    match p.behaviour with
    | .test c | .testNot c => some c.kindName
    | _ => none

end Board

end CipherBoard
