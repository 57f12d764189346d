/-
CipherBoard.Build — from a layout to a board.

`Layout.wire` surveys a layout and settles where its pieces lead; the result is a board whose
keywords are not encoded yet. `Layout.build` then has one runner send every keyword through that
board, and fails if one of them does not arrive within the step limit.
-/
import CipherBoard.Runner
import CipherBoard.Wiring

namespace CipherBoard

namespace PieceFault

/-- The fault in words, behind the name of the piece. -/
def message : PieceFault → String
  | unknownClass => "unexpected elem class"
  | offBoard => s!"outside of the {columnCount}x{rowCount} schema grid"
  | cellTaken holder => s!"grid cell already holds {holder}"
  | missingCondition => "missing branch condition data"
  | missingCountdown => "missing countdown data"
  | badCondition _ => "invalid branch condition"
  | outgoingCount expected found => s!"expected {expected} outgoing pipe(s), found {found}"
  | incomingCount expected found =>
    s!"expected at least {expected} incoming pipe(s), found {found}"
  | unexpectedOutgoing => "unexpected outgoing pipe"
  | unexpectedIncoming => "unexpected incoming pipe"
  | unclearBranch => "invalid combination of outgoing pipes"

/-- The fault behind the fault, if there is one. -/
def causes : PieceFault → List String
  | badCondition cause => [cause.message]
  | _ => []

end PieceFault

/-- The complaint that a level has not exactly one input. -/
def inputCountMessage (found : Nat) : String :=
  s!"expected exactly 1 IN (input) element, found {found}"

namespace LayoutError

/-- The error in words. -/
def message : LayoutError → String
  | tileSize width height =>
    s!"tile size must be at least 1x1, found {Decimal.positional width}x{Decimal.positional height}"
  | piece _ label fault => s!"{label.text}: {fault.message}"
  | noOutput => "expected at least 1 OUT (output) element, found 0"
  | inputCount found => inputCountMessage found

/-- The errors behind the error, outermost first. -/
def causes : LayoutError → List String
  | piece _ _ fault => fault.causes
  | _ => []

end LayoutError

/-- Why a layout does not become a board. -/
inductive BuildError where
  | layout (e : LayoutError)
  /-- The run of a keyword is over the step limit. -/
  | unencodable (keyword : String) (cause : RunError)
  /-- The run of a keyword breaks. -/
  | broken (b : Break)
  deriving Repr

namespace BuildError

/-- The error in words. -/
def message : BuildError → String
  | layout e => e.message
  | unencodable keyword _ => s!"keyword '{keyword}' cannot be encoded"
  | broken b => b.message

/-- The errors behind the error, outermost first. -/
def causes : BuildError → List String
  | layout e => e.causes
  | unencodable _ cause => [cause.message]
  | broken _ => []

/-- What the failed run of a keyword means for the build. -/
def ofRun (keyword : String) : RunError → BuildError
  | .overLimit input limit => unencodable keyword (.overLimit input limit)
  | .broken b => broken b

end BuildError

/-- The piece that a site becomes. An output leads nowhere, whatever was settled. -/
def Site.piece (s : Site) (id : Nat) (ways : Ways) : Piece where
  id := id
  className := s.className
  role := s.cls.role
  pos := s.pos
  turn := s.turn
  payload := s.payload
  behaviour := s.behaviour
  next := if s.cls.role = .output then [] else (ways.get? id).getD []

/-- The board of a survey whose ways are settled, its keywords not encoded. -/
def Survey.board (s : Survey) (ways : Ways) (l : Layout) : Board where
  entry := s.entry
  pieces := (s.sites.mapIdx fun id site => site.piece id ways).toArray
  requiredCount := min l.requiredCount l.keywords.length
  keywords := l.keywords
  encoded := []
  families := Families.ofClasses (s.sites.map (·.className))

/-- Names the piece of a fault. -/
def Survey.fault (s : Survey) (id : Nat) (fault : PieceFault) : LayoutError :=
  .piece id ((s.sites[id]?.map Site.label).getD ⟨"", .zero⟩) fault

namespace Layout

/-- The board of a layout, its keywords not encoded. -/
def wire (l : Layout) (origin : Point) : Except LayoutError Board :=
  match l.survey origin with
  | .error e => .error e
  | .ok survey =>
    match connectAll survey.nodes with
    | .error (id, fault) => .error (survey.fault id fault)
    | .ok ways => .ok (survey.board ways l)

end Layout

/-- What a runner makes of keywords, one after the other, up to the first that has no result. -/
def Runner.encodeAll (b : Board) : Runner → List String → Except BuildError (List String)
  | _, [] => .ok []
  | r, keyword :: rest =>
    match r.exec b keyword with
    | (.error e, _) => .error (.ofRun keyword e)
    | (.ok output, r) => (encodeAll b r rest).map (output :: ·)

/-- The board of a layout that lies at `origin`, with its keywords encoded in at most `limit`
moves each. -/
def Layout.build (l : Layout) (origin : Point) (limit : Nat) : Except BuildError Board :=
  match l.wire origin with
  | .error e => .error (.layout e)
  | .ok board =>
    ((Runner.fresh.withLimit limit).encodeAll board board.keywords).map fun encoded =>
      { board with encoded }

end CipherBoard
