/-
CipherBoard.Grid — the board's cells, eight rows of twelve.

A cell is a row and a column, so every value of the type is a cell of the board. `Cell.at?`
accepts the numbers that name one; `Cell.neighbours` are the cells next to a cell that lie on
the board.
-/
namespace CipherBoard

/-- Rows of the board. -/
def rowCount : Nat := 8

/-- Columns of the board. -/
def columnCount : Nat := 12

/-- A cell of the board. -/
structure Cell where
  row : Fin rowCount
  column : Fin columnCount
  deriving DecidableEq, Repr

namespace Cell

/-- The cell of a row and a column, if the board has it. -/
def at? (row column : Int) : Option Cell :=
  if h : 0 ≤ row ∧ row < rowCount ∧ 0 ≤ column ∧ column < columnCount then
    some ⟨⟨row.toNat, by omega⟩, ⟨column.toNat, by omega⟩⟩
  else none

/-- The cells above, to the left, to the right and below, as far as the board reaches. -/
def neighbours (c : Cell) : List Cell :=
  let row : Int := c.row.val
  let column : Int := c.column.val
  [at? (row - 1) column, at? row (column - 1), at? row (column + 1),
   at? (row + 1) column].filterMap id

end Cell

end CipherBoard
