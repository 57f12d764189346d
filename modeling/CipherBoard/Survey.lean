/-
CipherBoard.Survey — finding out what lies where.

A survey reads the placements of a layout one after the other and stops at the first fault. Of
each it learns the class, the cell and the behaviour; two pieces cannot share a cell. After the
last it counts the outputs and the inputs.

`Site.links` then says which neighbours of a site share a pin with it. Where a signal could go
both ways between two neighbours, each sees the other as feeding it.
-/
import CipherBoard.Board
import CipherBoard.Grid
import CipherBoard.Pins

namespace CipherBoard

/-- What can be wrong with one piece of a layout. -/
inductive PieceFault where
  | unknownClass
  | offBoard
  | cellTaken (holder : String)
  | missingCondition
  | missingCountdown
  | badCondition (cause : ConditionError)
  | outgoingCount (expected found : Nat)
  | incomingCount (expected found : Nat)
  | unexpectedOutgoing
  | unexpectedIncoming
  /-- The two ways out of a branch are not one special piece and one other. -/
  | unclearBranch
  deriving DecidableEq, Repr

/-- A fault of a layout. Faults of a piece name the piece. -/
inductive LayoutError where
  | tileSize (width height : Float)
  | piece (id : Nat) (label : Label) (fault : PieceFault)
  | noOutput
  | inputCount (found : Nat)
  deriving Repr

/-- A piece whose class, cell and behaviour are known. -/
structure Site where
  className : String
  cls : PieceClass
  pos : Point
  turn : QuarterTurn
  payload : Payload
  behaviour : Behaviour
  cell : Cell
  deriving Repr

namespace Site

/-- The piece as messages name it. -/
def label (s : Site) : Label := ⟨s.className, s.pos⟩

/-- The piece's pins. -/
def pins (s : Site) : Pins := Pins.of s.cls s.pos s.turn s.payload

/-- Whether a signal that leaves `s` can enter `t`. -/
def feeds (s t : Site) : Bool := s.pins.feed t.pins

end Site

/-- Where the board lies and how large its cells are, in whole units. -/
structure Frame where
  origin : Point
  cellWidth : Int
  cellHeight : Int

/-- The cell of a position. Distances from the origin are cut off towards zero, and so is their
quotient by the size of a cell. -/
def Frame.cell? (f : Frame) (pos : Point) : Option Cell :=
  Cell.at? ((Decimal.wholePart (pos.y - f.origin.y)).tdiv f.cellHeight)
    ((Decimal.wholePart (pos.x - f.origin.x)).tdiv f.cellWidth)

/-- The condition that a test carries. -/
def conditionOf (payload : Payload) : Except PieceFault Condition :=
  match payload with
  | .condition spec => (Condition.ofSpec spec).mapError .badCondition
  | _ => .error .missingCondition

/-- What a piece of a class does, given what it carries. -/
def Behaviour.of (cls : PieceClass) (payload : Payload) : Except PieceFault Behaviour :=
  match cls with
  | .output => .ok .stop
  | .transform op => .ok (.transform op)
  | .branch .test => (conditionOf payload).map .test
  | .branch .testNot => (conditionOf payload).map .testNot
  | .branch .repeater => .ok .repeater
  | .branch .inverseRepeater => .ok .inverseRepeater
  | .branch .countdown =>
    match payload with
    | .countdown start => .ok (.countdown start)
    | _ => .error .missingCountdown
  | .input | .mux | .pipe | .bend | .joint | .loosePipe => .ok .forward

/-- Where a placement stands on a board that lies at `f.origin`. -/
def Frame.place (f : Frame) (p : Placement) : Point :=
  p.pos + f.origin

/-- Learns about one placement, after the sites before it. -/
def Frame.examine (f : Frame) (before : List Site) (p : Placement) : Except PieceFault Site :=
  match PieceClass.ofName? p.className with
  | none => .error .unknownClass
  | some cls =>
    match f.cell? (f.place p) with
    | none => .error .offBoard
    | some cell =>
      match before.find? (·.cell = cell) with
      | some other => .error (.cellTaken other.className)
      | none =>
        (Behaviour.of cls p.payload).map fun behaviour =>
          { className := p.className, cls, pos := f.place p, turn := p.turn,
            payload := p.payload, behaviour, cell }

/-- Learns about the placements in order, after the sites before them. -/
def Frame.sites (f : Frame) (before : List Site) : List Placement → Except LayoutError (List Site)
  | [] => .ok before
  | p :: rest =>
    match f.examine before p with
    | .error fault => .error (.piece before.length ⟨p.className, f.place p⟩ fault)
    | .ok site => f.sites (before ++ [site]) rest

/-- What a survey finds: the sites in the order of the placements, and the number of the input. -/
structure Survey where
  sites : List Site
  entry : Nat
  deriving Repr

/-- How many sites have a role. -/
def roleCount (role : Role) (sites : List Site) : Nat :=
  sites.countP (·.cls.role = role)

/-- The frame of a layout at `origin`, unless its tiles are smaller than one unit. -/
def Layout.frame? (l : Layout) (origin : Point) : Option Frame :=
  let width := Decimal.wholePart l.tileWidth
  let height := Decimal.wholePart l.tileHeight
  if width < 1 ∨ height < 1 then none else some ⟨origin, width, height⟩

/-- Surveys a layout on a board that lies at `origin`. -/
def Layout.survey (l : Layout) (origin : Point) : Except LayoutError Survey :=
  match l.frame? origin with
  | none => .error (.tileSize l.tileWidth l.tileHeight)
  | some frame =>
    match frame.sites [] l.placements with
    | .error e => .error e
    | .ok sites =>
      if roleCount .output sites = 0 then .error .noOutput
      else if roleCount .input sites ≠ 1 then .error (.inputCount (roleCount .input sites))
      else .ok { sites, entry := sites.findIdx (·.cls.role = .input) }

/-! ## Links -/

/-- Whether a signal comes from the neighbour or goes to it. -/
inductive Direction where
  | incoming
  | outgoing
  deriving DecidableEq, Repr

/-- A neighbour that shares a pin: its number, the direction, and whether it is special. -/
structure Link where
  other : Nat
  direction : Direction
  special : Bool
  deriving DecidableEq, Repr

/-- The number of the site on a cell. -/
def siteAt? (sites : List Site) (c : Cell) : Option Nat :=
  sites.findIdx? (·.cell = c)

/-- How a signal can pass between a site and a neighbour. -/
def Site.direction? (s other : Site) : Option Direction :=
  if other.feeds s then some .incoming
  else if s.feeds other then some .outgoing
  else none

/-- The neighbours of a site that share a pin with it. -/
def Site.links (sites : List Site) (s : Site) : List Link :=
  s.cell.neighbours.filterMap fun c => do
    let id ← siteAt? sites c
    let other ← sites[id]?
    let direction ← s.direction? other
    return { other := id, direction, special := isSpecial other.className }

end CipherBoard
