/-
CipherBoard.Runner — a machine that is kept between runs.

A runner holds a step limit and the signal of the run it is in, so that a run can be watched
step by step and left in the middle. Starting a run replaces everything but the limit: what a
run comes to does not depend on the runs before it.
-/
import CipherBoard.Signal

namespace CipherBoard

/-- A machine that runs boards, and the run it is in, if any. -/
structure Runner where
  limit : Nat := defaultLimit
  running : Option (Board × Signal) := none
  deriving Repr

namespace Runner

/-- A runner that has run nothing. -/
def fresh : Runner := {}

/-- The runner under another step limit. -/
def withLimit (r : Runner) (limit : Nat) : Runner :=
  { r with limit }

/-- Puts a fresh signal at the entry of a board. -/
def reset (r : Runner) (b : Board) (input : String) : Runner :=
  { r with running := some (b, Signal.enter b (Word.ofText input)) }

/-- Makes one step and answers with the position of the piece that the signal moved to: none if
there was no step to make. -/
def step (r : Runner) : Except Break (Option Point × Runner) :=
  match r.running with
  | none => .ok (none, r)
  | some (b, s) =>
    match s.step b with
    | .halted => .ok (none, r)
    | .broken e => .error e
    | .moved t => .ok (b.pieces[t.here]?.map (·.pos), { r with running := some (b, t) })

/-- Runs a board from the entry to the end. -/
def exec (r : Runner) (b : Board) (input : String) : Except RunError String × Runner :=
  let started := r.reset b input
  let ending := (Signal.enter b (Word.ofText input)).run b r.limit
  let last := match ending with
    | .reached s | .overLimit s | .broken s _ => s
  (ending.result input r.limit, { started with running := some (b, last) })

/-- The number of the piece on which the signal stands. -/
def here? (r : Runner) : Option Nat :=
  r.running.map fun (_, s) => s.here

/-- The word that the signal carries; no letters before the first run. -/
def word (r : Runner) : Word :=
  r.running.elim [] fun (_, s) => s.word

/-- The outcome of the last test of the run. -/
def outcome (r : Runner) : Bool :=
  r.running.elim false fun (_, s) => s.outcome

/-- Whether there is no step to make. -/
def finished (r : Runner) : Bool :=
  r.running.elim true fun (b, s) => s.finished b

end Runner

end CipherBoard
