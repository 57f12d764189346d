/-
CipherBoard.Pins — where a signal can enter a piece and where it can leave.

A pipe, a bend and a joint have pins on some of their sides, and the sides depend on how the
piece is turned. Every other piece can be entered and left on all four. One piece feeds
another when an exit of the first lies on an entry of the second (`Pins.feed`).

Sides are counted in quarter turns, clockwise from the right-hand side.
-/
import CipherBoard.Layout
import CipherBoard.PieceClass

namespace CipherBoard

/-- The side of a tile. -/
def tileSide : Float := 96

/-- How far a pin lies from the centre of its piece. -/
def pinDistance : Float := tileSide / 2

/-- Pins that are no further apart than this on either axis lie on each other. -/
def pinTolerance : Float := tileSide * 0.001

/-- By how much the number that stands for a quarter turn in radians falls short of one. -/
def quarterShortfall : Float := 6.123233995736766e-17

/-- The direction `k` quarter turns from the right, one unit long. The angle is `k` times the
number that stands for a quarter turn, so the coordinate that would be zero keeps `k` times the
shortfall of that number. -/
def direction (k : Int) : Point :=
  let shortfall := Float.ofInt k * quarterShortfall
  if k % 4 = 0 then ⟨1, 0 - shortfall⟩
  else if k % 4 = 1 then ⟨shortfall, 1⟩
  else if k % 4 = 2 then ⟨-1, shortfall⟩
  else ⟨0 - shortfall, -1⟩

/-- The pin `k` quarter turns from the right-hand side of the piece at `centre`. -/
def pinAt (centre : Point) (k : Int) : Point :=
  let d := direction k
  ⟨centre.x + d.x * pinDistance, centre.y + d.y * pinDistance⟩

/-- Whether two pins lie on each other. -/
def coincide (a b : Point) : Bool :=
  (a.x - b.x).abs ≤ pinTolerance && (a.y - b.y).abs ≤ pinTolerance

/-- The pins of a piece. -/
structure Pins where
  entries : List Point
  exits : List Point
  deriving Repr

namespace Pins

/-- Pins on all four sides, left, right, above and below, each for both purposes. -/
def onAllSides (centre : Point) : Pins :=
  let sides :=
    [⟨centre.x + -pinDistance, centre.y + 0⟩, ⟨centre.x + pinDistance, centre.y + 0⟩,
     ⟨centre.x + 0, centre.y + -pinDistance⟩, ⟨centre.x + 0, centre.y + pinDistance⟩]
  ⟨sides, sides⟩

/-- The pins of a piece. Unturned, a pipe is entered from the left and left to the right; a bend
is entered from the left and left downwards, a mirrored one entered from the right instead; a
joint is entered from above and below and left to the right. -/
def of (cls : PieceClass) (centre : Point) (turn : QuarterTurn) (payload : Payload) : Pins :=
  let k : Int := turn.count
  match cls with
  | .pipe => ⟨[pinAt centre (k - 2)], [pinAt centre k]⟩
  | .bend =>
    let side := if payload = .bend true then k else k - 2
    ⟨[pinAt centre side], [pinAt centre (k + 1)]⟩
  | .joint => ⟨[pinAt centre (k - 1), pinAt centre (k - 3)], [pinAt centre k]⟩
  | _ => onAllSides centre

/-- Whether a signal that leaves `a` can enter `b`. -/
def feed (a b : Pins) : Bool :=
  a.exits.any fun exit => b.entries.any fun entry => coincide exit entry

end Pins

end CipherBoard
