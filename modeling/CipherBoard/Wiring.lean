/-
CipherBoard.Wiring — deciding where each piece leads.

Wiring sees of each piece only its number, its role and its links (`Node`); positions, cells
and pins no longer matter. It goes over the pieces twice. The first time every piece but the
pipes and joints settles where it leads and draws the pieces that feed it to itself; the second
time the pipes and joints that still lead nowhere do the same. A piece that leads somewhere
already is not drawn any more; only a branch takes over the pieces that feed it in any case.

`Ways` is what has been settled so far.
-/
import CipherBoard.Survey

namespace CipherBoard

/-- What wiring sees of a piece. -/
structure Node where
  id : Nat
  role : Role
  links : List Link
  deriving DecidableEq, Repr

/-- Where the pieces lead, as far as it is settled: the latest entry of a piece counts. -/
structure Ways where
  settled : List (Nat × List Nat)
  deriving DecidableEq, Repr

namespace Ways

/-- Nothing is settled. -/
def unsettled : Ways := ⟨[]⟩

/-- Where a piece leads. -/
def get? (w : Ways) (id : Nat) : Option (List Nat) :=
  w.settled.lookup id

/-- Settles where a piece leads, whatever was settled before. -/
def set (w : Ways) (id : Nat) (targets : List Nat) : Ways :=
  ⟨(id, targets) :: w.settled⟩

/-- Leads a piece to `target` unless it leads somewhere already. -/
def draw (w : Ways) (target id : Nat) : Ways :=
  if (w.get? id).isSome then w else w.set id [target]

end Ways

namespace Node

/-- The pieces that feed this one. -/
def feeders (n : Node) : List Nat :=
  (n.links.filter (·.direction = .incoming)).map (·.other)

/-- The links to the pieces that this one feeds. -/
def outgoing (n : Node) : List Link :=
  n.links.filter (·.direction = .outgoing)

/-- The pieces that this one feeds. -/
def targets (n : Node) : List Nat :=
  n.outgoing.map (·.other)

/-- Draws every feeder to this piece. -/
def drawFeeders (n : Node) (w : Ways) : Ways :=
  n.feeders.foldl (fun w id => w.draw n.id id) w

/-- Takes over every feeder. -/
def takeFeeders (n : Node) (w : Ways) : Ways :=
  n.feeders.foldl (fun w id => w.set id [n.id]) w

/-- A piece with one way out and at least `least` ways in. -/
def connectLine (least : Nat) (n : Node) (w : Ways) : Except PieceFault Ways :=
  if n.targets.length ≠ 1 then .error (.outgoingCount 1 n.targets.length)
  else if n.feeders.length < least then .error (.incomingCount least n.feeders.length)
  else .ok ((n.drawFeeders w).set n.id n.targets)

/-- An output has a way in and none out. -/
def connectOutput (n : Node) (w : Ways) : Except PieceFault Ways :=
  if n.targets ≠ [] then .error .unexpectedOutgoing
  else if n.feeders = [] then .error (.incomingCount 1 0)
  else .ok (n.drawFeeders w)

/-- The input has one way out and none in. -/
def connectInput (n : Node) (w : Ways) : Except PieceFault Ways :=
  if n.feeders ≠ [] then .error .unexpectedIncoming
  else if n.targets.length ≠ 1 then .error (.outgoingCount 1 n.targets.length)
  else .ok (w.set n.id n.targets)

/-- A branch has two ways out, first the special one, and a way in. -/
def connectBranch (n : Node) (w : Ways) : Except PieceFault Ways :=
  if n.targets.length ≠ 2 then .error (.outgoingCount 2 n.targets.length)
  else
    match n.outgoing.find? (·.special), n.outgoing.find? (!·.special) with
    | some first, some second =>
      if n.feeders = [] then .error (.incomingCount 1 0)
      else .ok ((n.takeFeeders w).set n.id [first.other, second.other])
    | _, _ => .error .unclearBranch

/-- Settles a piece that is no pipe and no joint. -/
def connect (n : Node) (w : Ways) : Except PieceFault Ways :=
  match n.role with
  | .transform | .mux => n.connectLine 1 w
  | .output => n.connectOutput w
  | .input => n.connectInput w
  | .branch => n.connectBranch w
  | .pipe | .joint => .ok w

/-- Settles a pipe or a joint that leads nowhere yet. -/
def connectLoose (n : Node) (w : Ways) : Except PieceFault Ways :=
  if (w.get? n.id).isSome then .ok w
  else
    match n.role with
    | .pipe => n.connectLine 1 w
    | .joint => n.connectLine 2 w
    | _ => .ok w

end Node

/-- Settles the pieces in order. A fault comes with the number of its piece. -/
def connectEach (settle : Node → Ways → Except PieceFault Ways) :
    List Node → Ways → Except (Nat × PieceFault) Ways
  | [], w => .ok w
  | n :: rest, w =>
    match settle n w with
    | .error fault => .error (n.id, fault)
    | .ok w => connectEach settle rest w

/-- Settles all pieces: first those that are no pipes, then the rest. -/
def connectAll (nodes : List Node) : Except (Nat × PieceFault) Ways :=
  match connectEach Node.connect nodes .unsettled with
  | .error e => .error e
  | .ok w => connectEach Node.connectLoose nodes w

/-- What wiring sees of a survey. -/
def Survey.nodes (s : Survey) : List Node :=
  s.sites.mapIdx fun id site => { id, role := site.cls.role, links := site.links s.sites }

end CipherBoard
