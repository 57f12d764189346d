/-
CipherBoard.Signal — a signal on its way over a board.

`Signal.step` lets the piece on which the signal stands work and moves the signal on. On an
output there is no step. A way out that the piece does not have, or that leads off the board,
breaks the run; both are outcomes of a step like any other (`Motion`).

`Signal.run` repeats the step under a limit on the number of moves. A run that is not at an
output after that many moves is over the limit.
-/
import CipherBoard.Board
import CipherBoard.Text.Utf8

namespace CipherBoard

/-- How many moves a run may take unless something else is asked for. -/
def defaultLimit : Nat := 100000

/-- A signal: the number of the piece it stands on, the word it set out with, the word it
carries, the counter of every piece, and the outcome of the last test. -/
structure Signal where
  here : Nat
  input : Word
  word : Word
  counters : Array Nat
  outcome : Bool
  deriving DecidableEq, Repr

/-- What breaks a run. -/
inductive Break where
  /-- The piece has no way out of this number. -/
  | missingWay (piece : Label) (way : Nat)
  /-- The way leads to a number that no piece has. -/
  | offBoard (id : Nat)
  deriving Repr

/-- The break in words. -/
def Break.message : Break → String
  | missingWay piece way =>
    s!"schema invariant violated: {piece.className} at {piece.pos.text} has no next[{way}]"
  | offBoard id => s!"schema invariant violated: there is no elem {id}"

/-- What a step comes to. -/
inductive Motion where
  | halted
  | moved (s : Signal)
  | broken (b : Break)
  deriving Repr

namespace Signal

/-- The counter with which a piece starts. -/
def startCounter (p : Piece) : Nat :=
  match p.behaviour with
  | .countdown start => start
  | _ => 0

/-- A signal that is about to enter the board with a word. -/
def enter (b : Board) (word : Word) : Signal where
  here := b.entry
  input := word
  word := word
  counters := b.pieces.map startCounter
  outcome := false

/-- The number of the way that an outcome chooses: the first if it is true. -/
def wayOf (outcome : Bool) : Nat :=
  if outcome then 0 else 1

/-- What a piece makes of the signal, and the number of the way by which the signal leaves; an
output keeps it. -/
def pass (p : Piece) (s : Signal) : Option (Signal × Nat) :=
  match p.behaviour with
  | .stop => none
  | .forward => some (s, 0)
  | .transform op => some ({ s with word := op.apply s.word }, 0)
  | .test c =>
    let outcome := c.holds s.word s.input
    some ({ s with outcome }, wayOf outcome)
  | .testNot c =>
    let outcome := !c.holds s.word s.input
    some ({ s with outcome }, wayOf outcome)
  | .repeater => some (s, wayOf s.outcome)
  | .inverseRepeater => some (s, wayOf !s.outcome)
  | .countdown _ =>
    match s.counters.getD p.id 0 with
    | 0 => some (s, 1)
    | left + 1 => some ({ s with counters := s.counters.setIfInBounds p.id left }, 0)

/-- One step over the board. -/
def step (b : Board) (s : Signal) : Motion :=
  match b.pieces[s.here]? with
  | none => .broken (.offBoard s.here)
  | some p =>
    match s.pass p with
    | none => .halted
    | some (passed, way) =>
      match p.next[way]? with
      | none => .broken (.missingWay p.label way)
      | some target =>
        if target < b.pieces.size then .moved { passed with here := target }
        else .broken (.offBoard target)

/-- The word that the signal carries, as text. -/
def text (s : Signal) : String :=
  Text.decodeLossy s.word

/-- Whether the signal stands on an output. -/
def finished (b : Board) (s : Signal) : Bool :=
  match b.pieces[s.here]? with
  | none => false
  | some p => p.behaviour == .stop

end Signal

/-- How a run ends, and where the signal is then. -/
inductive Ending where
  | reached (s : Signal)
  | overLimit (s : Signal)
  | broken (s : Signal) (b : Break)
  deriving Repr

namespace Signal

/-- Runs until the signal stands on an output, for at most `limit` moves. The move after the last
one that is allowed is made, and ends the run. -/
def run (b : Board) : (limit : Nat) → Signal → Ending
  | 0, s =>
    match s.step b with
    | .halted => .reached s
    | .moved t => .overLimit t
    | .broken e => .broken s e
  | limit + 1, s =>
    match s.step b with
    | .halted => .reached s
    | .moved t => run b limit t
    | .broken e => .broken s e

/-- Runs like `run` and lists the signal after each move within the limit, behind `seen`. -/
def trace (b : Board) (seen : Array Signal) : (limit : Nat) → Signal → Array Signal × Ending
  | 0, s =>
    match s.step b with
    | .halted => (seen, .reached s)
    | .moved t => (seen, .overLimit t)
    | .broken e => (seen, .broken s e)
  | limit + 1, s =>
    match s.step b with
    | .halted => (seen, .reached s)
    | .moved t => trace b (seen.push t) limit t
    | .broken e => (seen, .broken s e)

end Signal

/-- Why a run has no result. -/
inductive RunError where
  | overLimit (input : String) (limit : Nat)
  | broken (b : Break)
  deriving Repr

/-- The error in words. -/
def RunError.message : RunError → String
  | overLimit input limit =>
    s!"run on input '{input}' did not reach an output within {limit} steps"
  | broken b => b.message

/-- What a run comes to for someone who sent `input` under `limit`. -/
def Ending.result (input : String) (limit : Nat) : Ending → Except RunError String
  | .reached s => .ok s.text
  | .overLimit _ => .error (.overLimit input limit)
  | .broken _ b => .error (.broken b)

/-- What the board makes of an input. -/
def Board.encode (b : Board) (limit : Nat) (input : String) : Except RunError String :=
  ((Signal.enter b (Word.ofText input)).run b limit).result input limit

end CipherBoard
