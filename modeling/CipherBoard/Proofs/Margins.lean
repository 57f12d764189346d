/-
CipherBoard.Proofs.Margins — which positions lie on the board.

The cell of a position is a quotient that is cut off towards zero. So the first column reaches
a tile further to the left than it should, and the first row a tile further up: a piece can
stand beyond these two edges of the board and is accepted.

* `Decimal.IsWhole` — a floating-point number is a whole number; `wholePart_of_isWhole` and
  `wholePart_add_sub_zero` say what is read of it on a board that lies at the corner.
* `tdiv_nonneg_iff`, `tdiv_lt_iff` — which numerators have a quotient that is a row or a column.
* `Frame.cell?_place` — the cell of a placement, as a quotient of whole numbers.
* `on_board_iff` — the cells of the pieces that are accepted, and which of these pieces lie on
  the board.
-/
import CipherBoard.Proofs.Board
import CipherBoard.Proofs.Floating

namespace CipherBoard

/-! ## Section 1 — whole numbers -/

namespace Decimal

/-- A number with its sign. -/
def signed (negative : Bool) (significand : Nat) : Int :=
  if negative then -(significand : Int) else significand

/-- The number is the whole number `n`: ± m · 2^q = n. -/
def Binary.IsWhole : Binary → Int → Prop
  | .finite negative significand exponent, n =>
    signed negative significand * twoTo exponent.toNat = n * twoTo (-exponent).toNat
  | _, _ => False

/-- The floating-point number is the whole number `n`. -/
def IsWhole (x : Float) (n : Int) : Prop :=
  (Binary.ofFloat x).IsWhole n

instance : (b : Binary) → (n : Int) → Decidable (b.IsWhole n)
  | .finite negative significand exponent, n => inferInstanceAs (Decidable
      (signed negative significand * twoTo exponent.toNat = n * twoTo (-exponent).toNat))
  | .notANumber, _ => inferInstanceAs (Decidable False)
  | .infinite _, _ => inferInstanceAs (Decidable False)

instance (x : Float) (n : Int) : Decidable (IsWhole x n) :=
  inferInstanceAs (Decidable ((Binary.ofFloat x).IsWhole n))

/-- A whole number, held within 64 bits. -/
def held (n : Int) : Int :=
  max leastWhole (min greatestWhole n)

/-- The whole number fits 64 bits. -/
def Fits (n : Int) : Prop :=
  leastWhole ≤ n ∧ n ≤ greatestWhole

instance (n : Int) : Decidable (Fits n) :=
  inferInstanceAs (Decidable (leastWhole ≤ n ∧ n ≤ greatestWhole))

theorem held_of_fits {n : Int} (h : Fits n) : held n = n := by
  unfold held
  rw [Int.min_eq_right h.2, Int.max_eq_right h.1]

theorem held_pos_iff {n : Int} : 1 ≤ held n ↔ 1 ≤ n := by
  unfold held leastWhole greatestWhole
  omega

theorem twoTo_pos (k : Nat) : 0 < twoTo k := Nat.pow_pos (by decide)

theorem signed_div (negative : Bool) {significand k : Nat} {n : Int}
    (h : signed negative significand = n * twoTo k) :
    signed negative (significand / twoTo k) = n := by
  have hne : (twoTo k : Int) ≠ 0 := by
    have hpos := twoTo_pos k
    omega
  cases negative with
  | false =>
    have hm : (significand : Int) = n * twoTo k := h
    show ((significand / twoTo k : Nat) : Int) = n
    rw [Int.natCast_ediv, hm, Int.mul_ediv_cancel n hne]
  | true =>
    have hm : (significand : Int) = -n * twoTo k := by
      rw [Int.neg_mul, ← h]
      exact (Int.neg_neg _).symm
    show -((significand / twoTo k : Nat) : Int) = n
    rw [Int.natCast_ediv, hm, Int.mul_ediv_cancel _ hne, Int.neg_neg]

theorem signed_mul (negative : Bool) (significand k : Nat) :
    signed negative (significand * twoTo k) = signed negative significand * twoTo k := by
  cases negative with
  | false => exact Int.natCast_mul significand (twoTo k)
  | true =>
    show -((significand * twoTo k : Nat) : Int) = -significand * twoTo k
    rw [Int.natCast_mul, Int.neg_mul]

/-- Nothing is cut off a whole number. -/
theorem cutOff_of_isWhole {negative : Bool} {significand : Nat} {exponent n : Int}
    (h : (Binary.finite negative significand exponent).IsWhole n) :
    cutOff negative significand exponent = n := by
  have hvalue : signed negative significand * twoTo exponent.toNat =
      n * twoTo (-exponent).toNat := h
  have hone : (twoTo 0 : Int) = 1 := rfl
  unfold cutOff
  dsimp only
  rcases Int.lt_or_le exponent 0 with hlt | hge
  · rw [show exponent.toNat = 0 by omega, show (-exponent).toNat = exponent.natAbs by omega,
      hone, Int.mul_one] at hvalue
    rw [if_pos hlt]
    exact signed_div negative hvalue
  · rw [show (-exponent).toNat = 0 by omega, show exponent.toNat = exponent.natAbs by omega,
      hone, Int.mul_one, ← signed_mul] at hvalue
    rw [if_neg (Int.not_lt.mpr hge)]
    exact hvalue

/-- A whole number is its own whole part, as far as it fits. -/
theorem wholePart_of_isWhole {x : Float} {n : Int} (h : IsWhole x n) : wholePart x = held n := by
  unfold IsWhole at h
  unfold wholePart
  cases hx : Binary.ofFloat x with
  | notANumber => rw [hx] at h; cases h
  | infinite => rw [hx] at h; cases h
  | finite negative significand exponent =>
    rw [hx] at h
    dsimp only
    rw [cutOff_of_isWhole h]
    rfl

/-- Moving a number by nothing does not change its whole part. -/
theorem wholePart_add_sub_zero (x : Float) : wholePart (x + 0 - 0) = wholePart x := by
  rw [Floating.sub_zero]
  rcases Floating.add_zero x with h | ⟨hzero, h⟩
  · rw [h]
  · obtain ⟨a⟩ := x
    rw [h, ← Floating.pack_unpack a]
    dsimp only at hzero
    rw [hzero]
    decide +kernel

end Decimal

/-! ## Section 2 — the quotient that is cut off -/

theorem tdiv_of_nonpos {a size : Int} (h : a ≤ 0) : a.tdiv size = -(-a / size) := by
  have hneg : a.tdiv size = -((-a).tdiv size) := by rw [Int.neg_tdiv, Int.neg_neg]
  rw [hneg, Int.tdiv_eq_ediv_of_nonneg (by omega)]

section

variable {a size : Int} (hsize : 0 < size)
include hsize

/-- The first row and the first column begin one tile early. -/
theorem tdiv_nonneg_iff : 0 ≤ a.tdiv size ↔ -size < a := by
  rcases Int.le_total 0 a with h | h
  · have hnonneg := Int.tdiv_nonneg h (Int.le_of_lt hsize)
    omega
  · rw [tdiv_of_nonpos h]
    have hzero : -a / size < 1 ↔ -a < size := by
      rw [Int.ediv_lt_iff_lt_mul hsize, Int.one_mul]
    omega

theorem tdiv_lt_iff {count : Int} (hcount : 0 < count) :
    a.tdiv size < count ↔ a < count * size := by
  rcases Int.le_total 0 a with h | h
  · rw [Int.tdiv_eq_ediv_of_nonneg h, Int.ediv_lt_iff_lt_mul hsize]
  · have hpos := Int.mul_pos hcount hsize
    have hquot := Int.ediv_nonneg (show 0 ≤ -a by omega) (Int.le_of_lt hsize)
    rw [tdiv_of_nonpos h]
    omega

/-- Below zero the quotient is not the one that is rounded down, but the next. -/
theorem tdiv_eq_fdiv_iff (h : -size < a) : a.tdiv size = a.fdiv size ↔ 0 ≤ a := by
  rw [Int.fdiv_eq_ediv_of_nonneg a (Int.le_of_lt hsize)]
  rcases Int.lt_or_le a 0 with hlt | hge
  · have hquot : a / size < 0 := Int.ediv_neg_of_neg_of_pos hlt hsize
    have hcut := (tdiv_nonneg_iff hsize).mpr h
    omega
  · simp [Int.tdiv_eq_ediv_of_nonneg hge, hge]

end

/-! ## Section 3 — positions on the board -/

open Decimal

/-- The rows and columns that a quotient names. -/
theorem Cell.at?_tdiv_iff {x y width height : Int} (hwidth : 0 < width) (hheight : 0 < height) :
    (∃ c, Cell.at? (y.tdiv height) (x.tdiv width) = some c) ↔
      (-width < x ∧ x < columnCount * width) ∧ -height < y ∧ y < rowCount * height := by
  rw [← tdiv_nonneg_iff hwidth, ← tdiv_nonneg_iff hheight,
    ← tdiv_lt_iff hwidth (by decide), ← tdiv_lt_iff hheight (by decide)]
  simp only [Cell.at?_eq_some_iff]
  constructor
  · rintro ⟨c, hrow, hcolumn⟩
    have hr := c.row.isLt
    have hc := c.column.isLt
    omega
  · rintro ⟨⟨hleft, hright⟩, htop, hbottom⟩
    exact ⟨⟨⟨(y.tdiv height).toNat, by omega⟩, ⟨(x.tdiv width).toNat, by omega⟩⟩,
      by dsimp only; omega, by dsimp only; omega⟩

/-- **The cell of a placement** on a board that lies at the corner. -/
theorem Frame.cell?_place {f : Frame} (hf : f.origin = .zero) (p : Placement) {x y : Int}
    (hx : IsWhole p.pos.x x) (hy : IsWhole p.pos.y y) :
    f.cell? (f.place p) =
      Cell.at? ((held y).tdiv f.cellHeight) ((held x).tdiv f.cellWidth) := by
  rw [← wholePart_of_isWhole hx, ← wholePart_of_isWhole hy, ← wholePart_add_sub_zero p.pos.x,
    ← wholePart_add_sub_zero p.pos.y]
  unfold Frame.cell? Frame.place
  rw [hf]
  rfl

/-- The position lies on a board of tiles of the size, in the cell that rounding down gives. -/
structure Cell.Holds (c : Cell) (width height x y : Int) : Prop where
  left : 0 ≤ x
  right : x < columnCount * width
  top : 0 ≤ y
  bottom : y < rowCount * height
  row : (c.row.val : Int) = y.fdiv height
  column : (c.column.val : Int) = x.fdiv width

/-- A cell that is a quotient cut off towards zero is the one that rounding down gives, unless the
position lies to the left of the board or above it. -/
theorem Cell.holds_iff {c : Cell} {width height x y : Int} (hwidth : 0 < width)
    (hheight : 0 < height) (hc : Cell.at? (y.tdiv height) (x.tdiv width) = some c) :
    c.Holds width height x y ↔ 0 ≤ x ∧ 0 ≤ y := by
  obtain ⟨hrow, hcolumn⟩ := Cell.at?_eq_some_iff.mp hc
  obtain ⟨⟨hleft, hright⟩, htop, hbottom⟩ := (Cell.at?_tdiv_iff hwidth hheight).mp ⟨c, hc⟩
  constructor
  · intro hholds
    exact ⟨hholds.left, hholds.top⟩
  · rintro ⟨hx, hy⟩
    exact ⟨hx, hright, hy, hbottom, hrow.symm.trans ((tdiv_eq_fdiv_iff hheight htop).mpr hy),
      hcolumn.symm.trans ((tdiv_eq_fdiv_iff hwidth hleft).mpr hx)⟩

/-- **Which pieces a board accepts.** On a board at the corner, whose tiles have a whole size, a
piece at a whole position stands in the cell that the quotients name if they are cut off towards
zero, all numbers being held within 64 bits. So it lies less than a tile to the left of the board
or above it, or on it; and if all numbers fit, it lies on the board, in the cell that rounding down
gives, exactly if it is neither to the left of the board nor above it. -/
theorem on_board_iff {l : Layout} {limit : Nat} {b : Board} {width height : Int}
    (h : l.build .zero limit = .ok b) (hwidth : IsWhole l.tileWidth width)
    (hheight : IsWhole l.tileHeight height) :
    1 ≤ width ∧ 1 ≤ height ∧ ∃ v, l.survey .zero = .ok v ∧
      ∀ (i : Nat) (p : Placement) (x y : Int), l.placements[i]? = some p →
        IsWhole p.pos.x x → IsWhole p.pos.y y → ∃ s q, v.sites[i]? = some s ∧
          b.pieces[i]? = some q ∧ q.pos = s.pos ∧ q.className = p.className ∧
          (s.cell.row.val : Int) = (held y).tdiv (held height) ∧
          (s.cell.column.val : Int) = (held x).tdiv (held width) ∧
          (-held width < held x ∧ held x < columnCount * held width) ∧
          (-held height < held y ∧ held y < rowCount * held height) ∧
          (Fits width → Fits height → Fits x → Fits y →
            (s.cell.Holds width height x y ↔ 0 ≤ x ∧ 0 ≤ y)) := by
  obtain ⟨c, encoded, hc, _, rfl⟩ := Layout.build_eq_ok_iff.mp h
  obtain ⟨v, w, hv, hw, rfl⟩ := Layout.wire_eq_ok_iff.mp hc
  obtain ⟨f, hf, hlies, _⟩ := Layout.survey_eq_ok_iff.mp hv
  obtain ⟨rfl, hwide, hhigh⟩ := Layout.frame?_eq_some_iff.mp hf
  dsimp only at hwide hhigh
  rw [wholePart_of_isWhole hwidth] at hwide
  rw [wholePart_of_isWhole hheight] at hhigh
  refine ⟨held_pos_iff.mp hwide, held_pos_iff.mp hhigh, v, hv, fun i p x y hp hx hy => ?_⟩
  obtain ⟨s, hs, hsite⟩ := exists_site hlies hp
  have hcell := hsite.cell
  rw [hsite.pos, Frame.cell?_place rfl _ hx hy] at hcell
  dsimp only at hcell
  rw [wholePart_of_isWhole hwidth, wholePart_of_isWhole hheight] at hcell
  obtain ⟨hrow, hcolumn⟩ := Cell.at?_eq_some_iff.mp hcell
  obtain ⟨hacross, hdown⟩ := (Cell.at?_tdiv_iff hwide hhigh).mp ⟨_, hcell⟩
  refine ⟨s, s.piece i w, hs, ?_, rfl, hsite.className, hrow.symm, hcolumn.symm, hacross, hdown,
    fun hw64 hh64 hx64 hy64 => ?_⟩
  · exact (v.getElem?_pieces w l i).trans (by rw [hs]; rfl)
  · rw [held_of_fits hx64, held_of_fits hy64, held_of_fits hw64, held_of_fits hh64] at hcell
    rw [held_of_fits hw64] at hwide
    rw [held_of_fits hh64] at hhigh
    exact Cell.holds_iff hwide hhigh hcell

/-- The output of the line lies on the board, in the fifth cell of the first row. -/
theorem shiftLine_on_board :
    ∃ b v s, shiftLine.build .zero 100 = .ok b ∧ shiftLine.survey .zero = .ok v ∧
      v.sites[4]? = some s ∧ s.cell.Holds 96 96 432 48 := by
  obtain ⟨b, hb, _⟩ := shiftLine_built
  have htile : IsWhole 96 96 := by decide +kernel
  obtain ⟨_, _, v, hv, hcells⟩ := on_board_iff hb htile htile
  obtain ⟨s, _, hs, _, _, _, _, _, _, _, hholds⟩ :=
    hcells 4 (.onCell "elem_output" 4 0) 432 48 rfl (by decide +kernel) (by decide +kernel)
  refine ⟨b, v, s, hb, hv, hs, (hholds ?_ ?_ ?_ ?_).mpr ⟨by decide, by decide⟩⟩
  all_goals decide

/-- An input to the left of the board, with a pipe and an output below it. -/
def leftOfBoard : Layout :=
  .onCells
    [⟨"elem_input", ⟨-48, 48⟩, .none, .none⟩, ⟨"pipe", ⟨-48, 144⟩, .quarter, .none⟩,
     ⟨"elem_output", ⟨-48, 240⟩, .none, .none⟩]
    []

/-- **Pieces to the left of the board are accepted**, in the cells of its first column. -/
theorem leftOfBoard_accepted :
    ∃ b v s p, leftOfBoard.build .zero 100 = .ok b ∧ leftOfBoard.survey .zero = .ok v ∧
      IsWhole leftOfBoard.tileWidth 96 ∧ IsWhole leftOfBoard.tileHeight 96 ∧
      (∀ p ∈ leftOfBoard.placements, ∃ x y, IsWhole p.pos.x x ∧ IsWhole p.pos.y y) ∧
      leftOfBoard.placements[0]? = some p ∧ IsWhole p.pos.x (-48) ∧
      v.sites[0]? = some s ∧ s.cell.column.val = 0 := by
  have htile : IsWhole 96 96 := by decide +kernel
  have hleft : IsWhole (-48) (-48) := by decide +kernel
  have h48 : IsWhole 48 48 := by decide +kernel
  have h144 : IsWhole 144 144 := by decide +kernel
  have h240 : IsWhole 240 240 := by decide +kernel
  obtain ⟨b, hb, _⟩ := exists_ok_of_any
    (show (leftOfBoard.build .zero 100).toOption.any (fun _ => true) = true by decide +kernel)
  obtain ⟨v, hv, hcell⟩ := exists_ok_of_any
    (show (leftOfBoard.survey .zero).toOption.any (fun v =>
        v.sites[0]?.any (·.cell.column.val == 0)) = true by decide +kernel)
  obtain ⟨s, hs, hcolumn⟩ := (Option.any_eq_true _ _).mp hcell
  refine ⟨b, v, s, _, hb, hv, htile, htile, ?_, rfl, hleft, hs, by simpa using hcolumn⟩
  intro p hp
  rcases List.mem_cons.mp hp with rfl | hp
  · exact ⟨-48, 48, hleft, h48⟩
  · rcases List.mem_cons.mp hp with rfl | hp
    · exact ⟨-48, 144, hleft, h144⟩
    · rw [List.mem_singleton.mp hp]
      exact ⟨-48, 240, hleft, h240⟩

end CipherBoard
