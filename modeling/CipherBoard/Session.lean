/-
CipherBoard.Session — playing a board.

A player sends inputs and sees what the board makes of them. A session keeps one runner for all
its inputs. `Session.submit` runs the board on an input, classifies it (`Attempt`) and records
it; an input whose run fails is not recorded and leaves nothing behind but the runner where it
stopped (`Session.after`). `Session.predict` shows what a submission would show, on a runner of
its own, and records nothing.
-/
import CipherBoard.Runner

namespace CipherBoard

/-- What an input turns out to be. -/
inductive Attempt where
  /-- The secret keyword. -/
  | secret (output : String)
  /-- A required keyword, decoded for the first time; `complete` when it was the last. -/
  | decoded (index : Nat) (output : String) (complete : Bool)
  /-- No keyword to decode, but its output is that of the keyword `index`. -/
  | collision (index : Nat) (output : String)
  | miss (output : String)
  deriving DecidableEq, Repr

/-- The output of the run, whatever the input turned out to be. -/
def Attempt.output : Attempt → String
  | secret output | decoded _ output _ | collision _ output | miss output => output

/-- A game on a board: the runner of the submissions and the step limit of the predictions, a
flag for each required keyword, the last entries of the log, oldest first, and what has been
seen. -/
structure Session where
  board : Board
  runner : Runner
  limit : Nat
  secret : Option String
  secretDecoded : Bool
  decoded : List Bool
  log : List String
  sawCollision : Bool
  deriving Repr

/-- How many entries the log keeps. -/
def logCapacity : Nat := 3

namespace Session

/-- A game in which nothing has happened. -/
def start (b : Board) : Session where
  board := b
  runner := .fresh
  limit := defaultLimit
  secret := none
  secretDecoded := false
  decoded := b.required.map fun _ => false
  log := []
  sawCollision := false

/-- The game with a secret keyword. -/
def withSecret (s : Session) (keyword : String) : Session :=
  { s with secret := some keyword }

/-- The game under another step limit, for submissions and for predictions. -/
def withLimit (s : Session) (limit : Nat) : Session :=
  { s with runner := s.runner.withLimit limit, limit }

/-- Whether every required keyword is decoded. -/
def complete (s : Session) : Bool :=
  s.decoded.all id

/-- How many required keywords are decoded. -/
def decodedCount (s : Session) : Nat :=
  s.decoded.count true

/-- What a submission of the input would show. -/
def predict (s : Session) (input : String) : Except RunError String :=
  ((Runner.fresh.withLimit s.limit).exec s.board input).1

/-- The log with one entry more; beyond its capacity the oldest goes. -/
def logged (s : Session) (input output : String) : List String :=
  let entries := s.log ++ [s!"{input} -> {output}"]
  entries.drop (entries.length - logCapacity)

/-- The required keyword that the input decodes: the first place of the word among them, if it is
still to be decoded. -/
def decodes? (s : Session) (input : String) : Option Nat :=
  (s.board.required.idxOf? input).filter fun i => s.decoded[i]? == some false

/-- Classifies an input by its output and records it: the secret keyword comes first, then the
keywords still to be decoded, then collisions with the output of any keyword. -/
def record (s : Session) (input output : String) : Attempt × Session :=
  let s := { s with log := s.logged input output }
  if s.secret = some input then
    (.secret output, { s with secretDecoded := true })
  else
    match s.decodes? input with
    | some i =>
      let s := { s with decoded := s.decoded.set i true }
      (.decoded i output s.complete, s)
    | none =>
      match s.board.encoded.idxOf? output with
      | some i => (.collision i output, { s with sawCollision := true })
      | none => (.miss output, s)

/-- Runs the board on an input with the runner of the game. -/
def send (s : Session) (input : String) : Except RunError String × Session :=
  let (result, runner) := s.runner.exec s.board input
  (result, { s with runner })

/-- Runs the board on an input and records what it turns out to be. -/
def submit (s : Session) (input : String) : Except RunError (Attempt × Session) :=
  let (result, sent) := s.send input
  result.map (sent.record input)

/-- The game after a submission, whether its run had a result or not. -/
def after (s : Session) (input : String) : Session :=
  match s.submit input with
  | .ok (_, t) => t
  | .error _ => (s.send input).2

end Session

end CipherBoard
