/-
CipherBoard.PieceClass — the vocabulary of pieces.

A level names the class of each piece, and the class alone says what the piece is.
`PieceClass.ofName?` reads a class name; a name it does not read cannot stand on a board.
`PieceClass.role` is what wiring distinguishes. `isSpecial` marks the names that mark the first
way out of a branch.

Names are read as character lists, with the list operations of the same meaning.
-/
import CipherBoard.Occurrence
import CipherBoard.Transform

namespace CipherBoard

/-- How a branch chooses between its two ways. -/
inductive BranchKind where
  | test
  | testNot
  | repeater
  | inverseRepeater
  | countdown
  deriving DecidableEq, Repr

/-- What a piece is. A pipe has one end to enter and one to leave: opposite ends for a straight
pipe, neighbouring ends for a bend. A joint has two ends to enter. A loose pipe passes the signal
on like a pipe, but can be entered and left on every side, like everything that is no pipe. -/
inductive PieceClass where
  | input
  | output
  | mux
  | pipe
  | bend
  | joint
  | loosePipe
  | branch (kind : BranchKind)
  | transform (op : Transform)
  deriving DecidableEq, Repr

/-- What wiring distinguishes about a piece. -/
inductive Role where
  | input
  | output
  | mux
  | pipe
  | joint
  | branch
  | transform
  deriving DecidableEq, Repr

/-- Whether a name has the given part. -/
def nameHas (name part : String) : Bool :=
  occursIn part.toList name.toList

/-- Whether a name begins with the given part. -/
def nameStarts (name part : String) : Bool :=
  part.toList.isPrefixOf name.toList

/-- Whether a name ends with the given part. -/
def nameEnds (name part : String) : Bool :=
  part.toList.isSuffixOf name.toList

/-- Where the counter of a countdown starts, read off its class name. -/
def countdownStart? (name : String) : Option Nat :=
  [("elem_countdown0", 0), ("elem_countdown1", 1), ("elem_countdown2", 2),
   ("elem_countdown3", 3)].lookup name

/-- Whether a piece of this class takes the first way out of a branch. -/
def isSpecial (name : String) : Bool :=
  nameStarts name "special_"

namespace PieceClass

/-- The classes with a name of their own. -/
def named : List (String × PieceClass) :=
  [("elem_input", input),
   ("elem_output", output),
   ("elem_mux", mux),
   ("elem_if", branch .test),
   ("elem_ifnot", branch .testNot),
   ("elem_repeater", branch .repeater),
   ("elem_inv_repeater", branch .inverseRepeater),
   ("pipe_connect2", joint),
   ("pipe", pipe),
   ("special_pipe", pipe),
   ("angle_pipe", bend),
   ("special_angle_pipe", bend)]

/-- What a class name that starts with this is followed by is the name of a transform. -/
def transformStart : String := "apply_"

/-- The class of a name. A name of its own comes first, then the transforms, the countdowns, and
last every other name that speaks of a pipe. -/
def ofName? (name : String) : Option PieceClass :=
  match named.lookup name with
  | some c => some c
  | none =>
    if nameStarts name transformStart then
      (Transform.ofName? (String.ofList (name.toList.drop transformStart.length))).map transform
    else if nameHas name "_countdown" then
      (countdownStart? name).map fun _ => branch .countdown
    else if nameHas name "pipe" then some loosePipe
    else none

/-- What wiring distinguishes about a class. -/
def role : PieceClass → Role
  | input => .input
  | output => .output
  | mux => .mux
  | pipe | bend | loosePipe => .pipe
  | joint => .joint
  | branch _ => .branch
  | transform _ => .transform

end PieceClass

end CipherBoard
