/-
CipherBoard.Place — where a piece stands and how it is turned.

Positions are pairs of floating-point numbers. A piece is turned by a whole number of quarter
turns; `QuarterTurn.ofDegrees?` accepts the four angles and nothing between them. A `Label`
names a piece in messages, by position and class.
-/
import CipherBoard.Decimal.Text

namespace CipherBoard

/-- A position, or the way from one position to another. -/
structure Point where
  x : Float
  y : Float
  deriving Repr, Inhabited

namespace Point

/-- The position reached from `p` along `d`. -/
def add (p d : Point) : Point := ⟨p.x + d.x, p.y + d.y⟩

instance : Add Point := ⟨add⟩

/-- No way at all; the corner of the board. -/
def zero : Point := ⟨0, 0⟩

end Point

/-- How a piece is turned: clockwise, as the vertical axis points down. -/
inductive QuarterTurn where
  | none
  | quarter
  | half
  | threeQuarters
  deriving DecidableEq, Repr, Inhabited

namespace QuarterTurn

/-- The number of quarter turns. -/
def count : QuarterTurn → Nat
  | none => 0
  | quarter => 1
  | half => 2
  | threeQuarters => 3

/-- The turn in degrees. -/
def degrees (t : QuarterTurn) : Nat :=
  90 * t.count

/-- The turn of exactly so many degrees. -/
def ofDegrees? (degrees : Float) : Option QuarterTurn :=
  if degrees == 0 then some none
  else if degrees == 90 then some quarter
  else if degrees == 180 then some half
  else if degrees == 270 then some threeQuarters
  else Option.none

/-- What a degree is in radians. -/
def radiansPerDegree : Float := 3.141592653589793 / 180

/-- The turn in radians. -/
def radians (t : QuarterTurn) : Float :=
  Float.ofNat t.degrees * radiansPerDegree

end QuarterTurn

/-- A piece as messages name it. -/
structure Label where
  className : String
  pos : Point
  deriving Repr

/-- A position in messages. -/
def Point.text (p : Point) : String :=
  s!"({Decimal.positional p.x}, {Decimal.positional p.y})"

/-- A piece in messages. -/
def Label.text (l : Label) : String :=
  s!"{l.pos.text}: {l.className}"

end CipherBoard
