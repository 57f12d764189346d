/-
CipherBoard.Proofs.Geometry — what the places of the pieces decide.

Building looks at where a piece lies and at how it is turned for two things: the cell that the
piece takes, and the pieces that it feeds. Whatever else a place is goes into the pieces of the
board and into the labels of messages, and nothing looks at it there.

* `Layout.SameCircuit` — two layouts have the same pieces on the same cells, and the same of
  them feed each other.
* `Site.unplaced`, `Board.unplaced`, `BuildError.unplaced` — the same without places and turns.
* `survey_unplaced`, `nodes_eq`, `wire_unplaced` — surveying and wiring two such layouts comes
  to the same, up to places and turns.
* `step_unplaced`, `encode_unplaced`, `encodeAll_unplaced` — no run depends on the places.
* `geometry_decides` — the same for building, and for a level that is moved as a whole.
-/
import CipherBoard.Proofs.Board

namespace CipherBoard

/-! ## Section 1 — layouts with the same circuit -/

/-- The pins of a placement on a board that lies at `origin`, if its class is known. -/
def Placement.pins? (p : Placement) (origin : Point) : Option Pins :=
  (PieceClass.ofName? p.className).map fun cls => Pins.of cls (p.pos + origin) p.turn p.payload

/-- Whether a signal that leaves `p` can enter `q`. -/
def Placement.feeds (p : Placement) (origin : Point) (q : Placement) : Bool :=
  match p.pins? origin, q.pins? origin with
  | some a, some b => a.feed b
  | _, _ => false

namespace Layout

/-- The cell that a placement takes, if it takes one. -/
def cell? (l : Layout) (origin : Point) (p : Placement) : Option Cell :=
  (l.frame? origin).bind fun f => f.cell? (f.place p)

/-- Two layouts, one at `origin` and one at `origin'`, are the same but for the places of their
pieces: they have pieces of the same classes that carry the same, each pair on the same cell or
both on none; a piece feeds another in the one layout as it does in the other; and the keywords
are the same. No tiles are smaller than one unit. -/
structure SameCircuit (l : Layout) (origin : Point) (l' : Layout) (origin' : Point) : Prop where
  tiles : 1 ≤ Decimal.wholePart l.tileWidth ∧ 1 ≤ Decimal.wholePart l.tileHeight
  tiles' : 1 ≤ Decimal.wholePart l'.tileWidth ∧ 1 ≤ Decimal.wholePart l'.tileHeight
  pieces : List.Forall₂ (fun p p' => p'.className = p.className ∧ p'.payload = p.payload ∧
    l'.cell? origin' p' = l.cell? origin p) l.placements l'.placements
  feeds : List.Forall₂ (fun p p' => List.Forall₂ (fun q q' =>
    p'.feeds origin' q' = p.feeds origin q) l.placements l'.placements) l.placements l'.placements
  requiredCount : l'.requiredCount = l.requiredCount
  keywords : l'.keywords = l.keywords

end Layout

/-- Two computations both have results, which `R` relates, or both fail, with errors that `E`
relates. -/
inductive SameOutcome {ε α : Type} (E : ε → ε → Prop) (R : α → α → Prop) :
    Except ε α → Except ε α → Prop
  | ok {a a' : α} : R a a' → SameOutcome E R (.ok a) (.ok a')
  | error {e e' : ε} : E e e' → SameOutcome E R (.error e) (.error e')

/-! ## Section 2 — what is left without places -/

/-- The class of a piece, without its place. -/
def Label.unplaced (l : Label) : Label :=
  ⟨l.className, .zero⟩

/-- The site without its place and its turn. -/
def Site.unplaced (s : Site) : Site :=
  { s with pos := .zero, turn := .none }

/-- The piece without its place and its turn. -/
def Piece.unplaced (p : Piece) : Piece :=
  { p with pos := .zero, turn := .none }

/-- The board without the places and the turns of its pieces. -/
def Board.unplaced (b : Board) : Board :=
  { b with pieces := b.pieces.map Piece.unplaced }

/-- The fault of a layout, the piece named by its number and its class only. -/
def LayoutError.unplaced : LayoutError → LayoutError
  | .piece id label fault => .piece id label.unplaced fault
  | .tileSize width height => .tileSize width height
  | .noOutput => .noOutput
  | .inputCount found => .inputCount found

/-- The break of a run, the piece named by its class only. -/
def Break.unplaced : Break → Break
  | .missingWay piece way => .missingWay piece.unplaced way
  | .offBoard id => .offBoard id

/-- The failure of a run, without places. -/
def RunError.unplaced : RunError → RunError
  | .overLimit input limit => .overLimit input limit
  | .broken b => .broken b.unplaced

/-- The failure of a build, without places. -/
def BuildError.unplaced : BuildError → BuildError
  | .layout e => .layout e.unplaced
  | .unencodable keyword cause => .unencodable keyword cause.unplaced
  | .broken b => .broken b.unplaced

/-! ## Section 3 — surveys -/

/-- Two placements are of one class, carry the same and lie on the same cell, or both on none. -/
structure Placement.Matches (f f' : Frame) (p p' : Placement) : Prop where
  className : p'.className = p.className
  payload : p'.payload = p.payload
  cell : f'.cell? (f'.place p') = f.cell? (f.place p)

section

variable {f f' : Frame} {before before' : List Site} {p p' : Placement}
  (hbefore : before'.map Site.unplaced = before.map Site.unplaced)
include hbefore

/-- What holds a cell has the same class. -/
theorem holder_unplaced (c : Cell) :
    (before'.find? (·.cell = c)).map (·.className) =
      (before.find? (·.cell = c)).map (·.className) := by
  have hfind : ∀ sites : List Site, (sites.find? (·.cell = c)).map (·.className) =
      ((sites.map Site.unplaced).find? (·.cell = c)).map (·.className) := by
    intro sites
    rw [List.find?_map, Option.map_map]
    rfl
  rw [hfind before', hfind before, hbefore]

theorem examine_unplaced (hp : p.Matches f f' p') :
    SameOutcome (fun e e' => e' = e) (fun s s' => s'.unplaced = s.unplaced)
      (f.examine before p) (f'.examine before' p') := by
  unfold Frame.examine
  rw [hp.className, hp.payload, hp.cell]
  cases PieceClass.ofName? p.className with
  | none => exact .error rfl
  | some cls =>
    cases f.cell? (f.place p) with
    | none => exact .error rfl
    | some c =>
      dsimp only
      have hholder := holder_unplaced hbefore c
      cases hfind : before.find? (·.cell = c) with
      | some other =>
        obtain ⟨other', hother', hname⟩ := Option.map_eq_some_iff.mp (hfind ▸ hholder)
        rw [hother']
        exact .error (congrArg PieceFault.cellTaken hname)
      | none =>
        have hfree : before'.find? (·.cell = c) = none :=
          Option.map_eq_none_iff.mp (hfind ▸ hholder)
        rw [hfree]
        cases Behaviour.of cls p.payload with
        | error fault => exact .error rfl
        | ok behaviour =>
          refine .ok ?_
          simp only [Site.unplaced]

omit hbefore in
/-- **Reading placements on the same cells** gives the same sites up to places, or the same fault
with the same piece. -/
theorem sites_unplaced {ps ps' : List Placement} (h : List.Forall₂ (Placement.Matches f f') ps ps')
    (hbefore : before'.map Site.unplaced = before.map Site.unplaced) :
    SameOutcome (fun e e' => e'.unplaced = e.unplaced)
      (fun s s' => s'.map Site.unplaced = s.map Site.unplaced)
      (f.sites before ps) (f'.sites before' ps') := by
  induction h generalizing before before' with
  | nil => exact .ok hbefore
  | @cons p p' _ _ hp _ ih =>
    rw [Frame.sites, Frame.sites]
    have hlength : before'.length = before.length := by
      simpa using congrArg List.length hbefore
    have hexamine := examine_unplaced hbefore hp
    generalize f.examine before p = x, f'.examine before' p' = x' at hexamine
    cases hexamine with
    | error he =>
      refine .error ?_
      simp only [LayoutError.unplaced, Label.unplaced, hlength, hp.className, he]
    | ok hs =>
      refine ih ?_
      rw [List.map_append, List.map_append, hbefore, List.map_singleton, List.map_singleton, hs]

end

/-- The survey without the places of its sites. -/
def Survey.unplaced (v : Survey) : Survey :=
  { v with sites := v.sites.map Site.unplaced }

section

variable {l l' : Layout} {origin origin' : Point} (h : l.SameCircuit origin l' origin')
include h

theorem Layout.SameCircuit.exists_frames :
    ∃ f f', l.frame? origin = some f ∧ f.origin = origin ∧ l'.frame? origin' = some f' ∧
      f'.origin = origin' ∧ List.Forall₂ (Placement.Matches f f') l.placements l'.placements := by
  have hf : l.frame? origin = some _ := Layout.frame?_eq_some_iff.mpr ⟨rfl, h.tiles⟩
  have hf' : l'.frame? origin' = some _ := Layout.frame?_eq_some_iff.mpr ⟨rfl, h.tiles'⟩
  refine ⟨_, _, hf, rfl, hf', rfl, h.pieces.imp ?_⟩
  rintro p p' ⟨hname, hpayload, hcell⟩
  unfold Layout.cell? at hcell
  rw [hf, hf'] at hcell
  exact ⟨hname, hpayload, hcell⟩

/-- **Surveys of the same circuit** find the same, up to places. -/
theorem Layout.SameCircuit.survey_unplaced :
    SameOutcome (fun e e' => e'.unplaced = e.unplaced) (fun v v' => v'.unplaced = v.unplaced)
      (l.survey origin) (l'.survey origin') := by
  obtain ⟨f, f', hf, _, hf', _, hmatches⟩ := h.exists_frames
  unfold Layout.survey
  rw [hf, hf']
  dsimp only
  have hsites := sites_unplaced hmatches
    (show ([] : List Site).map Site.unplaced = [].map Site.unplaced from rfl)
  generalize f.sites [] l.placements = x, f'.sites [] l'.placements = x' at hsites
  cases hsites with
  | error he => exact .error he
  | @ok sites sites' hs =>
    -- Roles are not touched, so they are counted and found alike.
    have hcount : ∀ r, roleCount r sites' = roleCount r sites := by
      intro r
      have hbare : ∀ k : List Site, roleCount r k = roleCount r (k.map Site.unplaced) := by
        intro k
        rw [roleCount, roleCount, List.countP_map]
        rfl
      rw [hbare sites', hbare sites, hs]
    have hentry : sites'.findIdx (·.cls.role = .input) = sites.findIdx (·.cls.role = .input) := by
      have hbare : ∀ k : List Site, k.findIdx (·.cls.role = .input) =
          (k.map Site.unplaced).findIdx (·.cls.role = .input) := by
        intro k
        rw [List.findIdx_map]
        rfl
      rw [hbare sites', hbare sites, hs]
    dsimp only
    rw [hcount, hcount, hentry]
    split_ifs
    · exact .error rfl
    · exact .error rfl
    · refine .ok ?_
      rw [Survey.unplaced, Survey.unplaced, hs]

end

/-! ## Section 4 — wiring -/

/-- What a site feeds is what its placement feeds. -/
theorem Site.Lies.feeds_eq {f : Frame} {p q : Placement} {s t : Site} (hs : s.Lies f p)
    (ht : t.Lies f q) : s.feeds t = p.feeds f.origin q := by
  unfold Site.feeds Site.pins Placement.feeds Placement.pins?
  rw [← hs.className, ← ht.className, hs.cls, ht.cls, hs.pos, ht.pos, hs.turn, ht.turn,
    hs.payload, ht.payload]
  simp only [Option.map_some, Frame.place]

/-- Two surveys find the same, up to places: the sites have the same cells, classes and
behaviours, and each feeds the same sites. -/
structure Survey.SameCircuit (v v' : Survey) : Prop where
  sites : v'.sites.map Site.unplaced = v.sites.map Site.unplaced
  entry : v'.entry = v.entry
  feeds : ∀ {i j : Nat} {s s' t t' : Site}, v.sites[i]? = some s → v'.sites[i]? = some s' →
    v.sites[j]? = some t → v'.sites[j]? = some t' → s'.feeds t' = s.feeds t

/-- What two layouts of the same circuit are surveyed to. -/
theorem Layout.SameCircuit.survey {l l' : Layout} {origin origin' : Point}
    (h : l.SameCircuit origin l' origin') :
    SameOutcome (fun e e' => e'.unplaced = e.unplaced) Survey.SameCircuit
      (l.survey origin) (l'.survey origin') := by
  have houtcome := h.survey_unplaced
  generalize hv : l.survey origin = x, hv' : l'.survey origin' = x' at houtcome ⊢
  cases houtcome with
  | error he => exact .error he
  | ok hsame =>
    obtain ⟨f, hf, hlies, _⟩ := Layout.survey_eq_ok_iff.mp hv
    obtain ⟨f', hf', hlies', _⟩ := Layout.survey_eq_ok_iff.mp hv'
    obtain ⟨rfl, _⟩ := Layout.frame?_eq_some_iff.mp hf
    obtain ⟨rfl, _⟩ := Layout.frame?_eq_some_iff.mp hf'
    refine .ok ⟨(congrArg Survey.sites hsame :), (congrArg Survey.entry hsame :), ?_⟩
    intro i j s s' t t' hs hs' ht ht'
    obtain ⟨p, hp, hsp⟩ := exists_getElem?_of_forall₂ hlies hs
    obtain ⟨p', hp', hsp'⟩ := exists_getElem?_of_forall₂ hlies' hs'
    obtain ⟨q, hq, htq⟩ := exists_getElem?_of_forall₂ hlies ht
    obtain ⟨q', hq', htq'⟩ := exists_getElem?_of_forall₂ hlies' ht'
    -- The table of the layouts has one entry for the pair.
    obtain ⟨_, hrow, hfeeds⟩ := exists_getElem?_of_forall₂ h.feeds hp'
    cases hp.symm.trans hrow
    obtain ⟨_, hcolumn, hsame⟩ := exists_getElem?_of_forall₂ hfeeds hq'
    cases hq.symm.trans hcolumn
    rw [hsp'.feeds_eq htq', hsp.feeds_eq htq]
    exact hsame

namespace Survey.SameCircuit

variable {v v' : Survey} (h : v.SameCircuit v')
include h

theorem exists_site {i : Nat} {s : Site} (hs : v.sites[i]? = some s) :
    ∃ s', v'.sites[i]? = some s' ∧ s'.unplaced = s.unplaced := by
  have hat := congrArg (·[i]?) h.sites
  simp only [List.getElem?_map, hs, Option.map_some, Option.map_eq_some_iff] at hat
  exact hat

theorem getElem?_eq_none {i : Nat} (hs : v.sites[i]? = none) : v'.sites[i]? = none := by
  have hat := congrArg (·[i]?) h.sites
  simpa only [List.getElem?_map, hs, Option.map_none, Option.map_eq_none_iff] using hat

theorem siteAt?_eq (c : Cell) : siteAt? v'.sites c = siteAt? v.sites c := by
  have hbare : ∀ k : List Site, siteAt? k c = siteAt? (k.map Site.unplaced) c := by
    intro k
    unfold siteAt?
    rw [List.findIdx?_map]
    rfl
  rw [hbare v'.sites, hbare v.sites, h.sites]

theorem direction?_eq {i j : Nat} {s s' t t' : Site} (hs : v.sites[i]? = some s)
    (hs' : v'.sites[i]? = some s') (ht : v.sites[j]? = some t) (ht' : v'.sites[j]? = some t') :
    s'.direction? t' = s.direction? t := by
  unfold Site.direction?
  rw [h.feeds hs hs' ht ht', h.feeds ht ht' hs hs']

theorem links_eq {i : Nat} {s s' : Site} (hs : v.sites[i]? = some s)
    (hs' : v'.sites[i]? = some s') : s'.links v'.sites = s.links v.sites := by
  obtain ⟨_, hs₂, hbare⟩ := h.exists_site hs
  rw [hs'] at hs₂
  cases hs₂
  have hcell : s'.cell = s.cell := (congrArg Site.cell hbare :)
  unfold Site.links
  rw [hcell]
  congr 1
  funext c
  rw [h.siteAt?_eq]
  cases siteAt? v.sites c with
  | none => simp only [Option.bind_eq_bind, Option.bind_none]
  | some j =>
    cases ht : v.sites[j]? with
    | none =>
      have ht' := h.getElem?_eq_none ht
      simp only [Option.bind_eq_bind, Option.bind_some, ht, ht', Option.bind_none]
    | some t =>
      obtain ⟨t', ht', hbare'⟩ := h.exists_site ht
      have hname : t'.className = t.className := (congrArg Site.className hbare' :)
      simp only [Option.bind_eq_bind, Option.bind_some, ht, ht', hname,
        h.direction?_eq hs hs' ht ht']

/-- **Wiring sees the same.** -/
theorem nodes_eq : v'.nodes = v.nodes := by
  refine List.ext_getElem? fun i => ?_
  rw [Survey.getElem?_nodes, Survey.getElem?_nodes]
  cases hs : v.sites[i]? with
  | none => rw [h.getElem?_eq_none hs, Option.map_none, Option.map_none]
  | some s =>
    obtain ⟨s', hs', hbare⟩ := h.exists_site hs
    have hcls : s'.cls = s.cls := (congrArg Site.cls hbare :)
    rw [hs', Option.map_some, Option.map_some, h.links_eq hs hs', hcls]

theorem fault_unplaced (id : Nat) (fault : PieceFault) :
    (v'.fault id fault).unplaced = (v.fault id fault).unplaced := by
  have hlabel : (v'.sites[id]?.map Site.label).map Label.unplaced =
      (v.sites[id]?.map Site.label).map Label.unplaced := by
    cases hs : v.sites[id]? with
    | none => rw [h.getElem?_eq_none hs]
    | some s =>
      obtain ⟨s', hs', hbare⟩ := h.exists_site hs
      have hname : s'.className = s.className := (congrArg Site.className hbare :)
      simp [hs', Label.unplaced, Site.label, hname]
  unfold Survey.fault LayoutError.unplaced
  generalize v'.sites[id]?.map Site.label = x', v.sites[id]?.map Site.label = x at hlabel
  cases x <;> cases x' <;> simp_all

theorem board_unplaced {l l' : Layout} (hrequired : l'.requiredCount = l.requiredCount)
    (hkeywords : l'.keywords = l.keywords) (w : Ways) :
    (v'.board w l').unplaced = (v.board w l).unplaced := by
  have hpieces : (v'.board w l').pieces.map Piece.unplaced =
      (v.board w l).pieces.map Piece.unplaced := by
    refine Array.ext_getElem? fun i => ?_
    rw [Array.getElem?_map, Array.getElem?_map, Survey.getElem?_pieces, Survey.getElem?_pieces]
    cases hs : v.sites[i]? with
    | none => rw [h.getElem?_eq_none hs, Option.map_none, Option.map_none]
    | some s =>
      obtain ⟨s', hs', hbare⟩ := h.exists_site hs
      have hpiece : ∀ t : Site, (t.piece i w).unplaced = t.unplaced.piece i w := fun _ => rfl
      simp only [hs', Option.map_some, hpiece, hbare]
  have hnames : v'.sites.map (·.className) = v.sites.map (·.className) := by
    have hbare : ∀ k : List Site, k.map (·.className) = (k.map Site.unplaced).map (·.className) := by
      intro k
      rw [List.map_map]
      rfl
    rw [hbare v'.sites, hbare v.sites, h.sites]
  unfold Board.unplaced
  rw [hpieces]
  unfold Survey.board
  rw [hrequired, hkeywords, hnames, h.entry]

end Survey.SameCircuit

/-- **Wiring layouts of the same circuit** comes to the same board up to places, or to the same
fault of the same piece. -/
theorem Layout.SameCircuit.wire {l l' : Layout} {origin origin' : Point}
    (h : l.SameCircuit origin l' origin') :
    SameOutcome (fun e e' => e'.unplaced = e.unplaced) (fun b b' => b'.unplaced = b.unplaced)
      (l.wire origin) (l'.wire origin') := by
  have hsurvey := h.survey
  unfold Layout.wire
  generalize l.survey origin = x, l'.survey origin' = x' at hsurvey
  cases hsurvey with
  | error he => exact .error he
  | @ok v v' hsame =>
    dsimp only
    rw [hsame.nodes_eq]
    cases connectAll v.nodes with
    | error e => exact .error (hsame.fault_unplaced e.1 e.2)
    | ok w => exact .ok (hsame.board_unplaced h.requiredCount h.keywords w)

/-! ## Section 5 — running -/

/-- What a step comes to, without places. -/
def Motion.unplaced : Motion → Motion
  | .halted => .halted
  | .moved s => .moved s
  | .broken b => .broken b.unplaced

/-- How a run ends, without places. -/
def Ending.unplaced : Ending → Ending
  | .reached s => .reached s
  | .overLimit s => .overLimit s
  | .broken s b => .broken s b.unplaced

section

variable (b : Board) (s : Signal) (limit : Nat)

/-- **A step does not look at places.** -/
theorem Signal.step_unplaced : s.step b.unplaced = (s.step b).unplaced := by
  have hpieces : b.unplaced.pieces = b.pieces.map Piece.unplaced := rfl
  unfold Signal.step
  rw [hpieces, Array.getElem?_map, Array.size_map]
  cases b.pieces[s.here]? with
  | none => rfl
  | some p =>
    have hpass : s.pass p.unplaced = s.pass p := rfl
    have hnext : p.unplaced.next = p.next := rfl
    simp only [Option.map_some, hpass, hnext]
    cases s.pass p with
    | none => rfl
    | some passed =>
      dsimp only
      cases p.next[passed.2]? with
      | none => rfl
      | some target =>
        dsimp only
        split_ifs <;> rfl

/-- **Nor does a run**, however long. -/
theorem Signal.run_unplaced : s.run b.unplaced limit = (s.run b limit).unplaced := by
  induction limit generalizing s with
  | zero =>
    rw [Signal.run, Signal.run, Signal.step_unplaced]
    cases s.step b <;> rfl
  | succ limit ih =>
    rw [Signal.run, Signal.run, Signal.step_unplaced]
    cases s.step b with
    | halted => rfl
    | moved t => exact ih t
    | broken e => rfl

theorem Board.encode_unplaced (input : String) :
    b.unplaced.encode limit input = (b.encode limit input).mapError RunError.unplaced := by
  unfold Board.encode
  have henter : Signal.enter b.unplaced (Word.ofText input) =
      Signal.enter b (Word.ofText input) := by
    unfold Signal.enter Board.unplaced
    simp only [Array.map_map]
    rfl
  rw [henter, Signal.run_unplaced]
  cases (Signal.enter b (Word.ofText input)).run b limit <;> rfl

theorem BuildError.unplaced_ofRun (keyword : String) (e : RunError) :
    (BuildError.ofRun keyword e).unplaced = .ofRun keyword e.unplaced := by
  cases e <;> rfl

theorem Board.encodeAll_unplaced (keywords : List String) :
    b.unplaced.encodeAll limit keywords =
      (b.encodeAll limit keywords).mapError BuildError.unplaced := by
  induction keywords with
  | nil => rfl
  | cons k rest ih =>
    rw [Board.encodeAll, Board.encodeAll, ih, Board.encode_unplaced]
    cases b.encode limit k with
    | error e => exact congrArg Except.error (BuildError.unplaced_ofRun k e).symm
    | ok output => cases b.encodeAll limit rest <;> rfl

end

/-- Boards that are the same up to places encode their keywords to the same, or fail at the
same. -/
theorem Board.encodeAll_outcome {b b' : Board} (h : b'.unplaced = b.unplaced) (limit : Nat) :
    SameOutcome (fun e e' => e'.unplaced = e.unplaced) (fun es es' => es' = es)
      (b.encodeAll limit b.keywords) (b'.encodeAll limit b'.keywords) := by
  have hkeywords : b'.keywords = b.keywords := (congrArg Board.keywords h :)
  have hboth : (b'.encodeAll limit b.keywords).mapError BuildError.unplaced =
      (b.encodeAll limit b.keywords).mapError BuildError.unplaced := by
    rw [← Board.encodeAll_unplaced, ← Board.encodeAll_unplaced, h]
  rw [hkeywords]
  generalize b.encodeAll limit b.keywords = x, b'.encodeAll limit b.keywords = x' at hboth
  cases x with
  | error e =>
    cases x' with
    | error e' => exact .error (Except.error.inj hboth)
    | ok es' => cases hboth
  | ok es =>
    cases x' with
    | error e' => cases hboth
    | ok es' => exact .ok (Except.ok.inj hboth)

/-! ## Section 6 — building -/

/-- The piece where a placement lies on a board at `origin`, and turned like the placement. -/
def Piece.relaid (origin : Point) (p : Piece) (q : Placement) : Piece :=
  { p with pos := q.pos + origin, turn := q.turn }

/-- The board with its pieces where a layout at `origin` has them. -/
def Board.relaid (b : Board) (l : Layout) (origin : Point) : Board :=
  { b with pieces := (List.zipWith (Piece.relaid origin) b.pieces.toList l.placements).toArray }

/-- **Building layouts of the same circuit** comes to the same, up to places. -/
theorem Layout.SameCircuit.build {l l' : Layout} {origin origin' : Point}
    (h : l.SameCircuit origin l' origin') (limit : Nat) :
    SameOutcome (fun e e' => e'.unplaced = e.unplaced) (fun b b' => b'.unplaced = b.unplaced)
      (l.build origin limit) (l'.build origin' limit) := by
  rw [Layout.build_eq, Layout.build_eq]
  have hwire := h.wire
  generalize l.wire origin = x, l'.wire origin' = x' at hwire
  cases hwire with
  | error he => exact .error (congrArg BuildError.layout he)
  | @ok b b' hsame =>
    have hencoded := Board.encodeAll_outcome hsame limit
    dsimp only
    generalize b.encodeAll limit b.keywords = y, b'.encodeAll limit b'.keywords = y' at hencoded
    cases hencoded with
    | error he => exact .error he
    | @ok encoded _ heq =>
      cases heq
      exact .ok (congrArg (fun c : Board => { c with encoded }) hsame)

theorem Board.relaid_unplaced (b : Board) (l : Layout) (origin : Point) :
    b.unplaced.relaid l origin = b.relaid l origin := by
  unfold Board.relaid Board.unplaced
  simp only [Array.toList_map, List.zipWith_map_left]
  rfl

theorem Board.getElem?_relaid (b : Board) (l : Layout) (origin : Point) (i : Nat) :
    (b.relaid l origin).pieces[i]? =
      b.pieces[i]?.bind fun p => l.placements[i]?.map (p.relaid origin) := by
  unfold Board.relaid
  rw [List.getElem?_toArray, List.getElem?_zipWith, Array.getElem?_toList]
  cases b.pieces[i]? <;> cases l.placements[i]? <;> rfl

/-- A board that is built has its pieces where its layout has them. -/
theorem Layout.relaid_of_build {l : Layout} {origin : Point} {limit : Nat} {b : Board}
    (h : l.build origin limit = .ok b) : b.relaid l origin = b := by
  obtain ⟨c, encoded, hc, _, rfl⟩ := Layout.build_eq_ok_iff.mp h
  obtain ⟨v, w, hv, hw, rfl⟩ := Layout.wire_eq_ok_iff.mp hc
  have hwired : Survey.Wired l origin v w := ⟨hv, hw⟩
  have hpieces : ((v.board w l).relaid l origin).pieces = (v.board w l).pieces := by
    refine Array.ext_getElem? fun i => ?_
    rw [Board.getElem?_relaid, Survey.getElem?_pieces]
    cases hs : v.sites[i]? with
    | none => rfl
    | some s =>
      obtain ⟨f, p, hf, hp, hlies⟩ := hwired.lies hs
      obtain ⟨rfl, _⟩ := Layout.frame?_eq_some_iff.mp hf
      have hlaid : (s.piece i w).relaid origin p = s.piece i w := by
        unfold Piece.relaid Site.piece
        rw [hlies.pos, hlies.turn]
        rfl
      rw [hp, Option.map_some, Option.bind_some, Option.map_some, hlaid]
  exact congrArg (fun pieces => { v.board w l with pieces, encoded }) hpieces

/-- **Places decide cells and links, and nothing else.** Take two layouts whose pieces are of the
same classes and carry the same, lie on the same cells and feed each other in the same way,
and whose keywords are the same. Under every limit either both are built, to boards that
differ in the positions and turns of the pieces only, which are those of the layouts; or both
fail, for the same reason, with the same piece and the same numbers. If a layout as a whole is
moved in such a way, each piece of its board stays the same but for its position. -/
theorem geometry_decides :
    (∀ (l : Layout) (origin : Point) (l' : Layout) (origin' : Point),
      l.SameCircuit origin l' origin' → ∀ limit,
        SameOutcome (fun e e' => e'.unplaced = e.unplaced)
          (fun b b' => b = b.relaid l origin ∧ b' = b.relaid l' origin')
          (l.build origin limit) (l'.build origin' limit)) ∧
    ∀ (l : Layout) (origin origin' : Point), l.SameCircuit origin l origin' → ∀ limit,
      SameOutcome (fun e e' => e'.unplaced = e.unplaced)
        (fun b b' => b' = b.relaid l origin' ∧ ∀ (i : Nat) (p : Piece), b.pieces[i]? = some p →
          ∃ q, l.placements[i]? = some q ∧
            b'.pieces[i]? = some { p with pos := q.pos + origin' })
        (l.build origin limit) (l.build origin' limit) := by
  have hboth : ∀ (l : Layout) (origin : Point) (l' : Layout) (origin' : Point),
      l.SameCircuit origin l' origin' → ∀ limit,
        SameOutcome (fun e e' => e'.unplaced = e.unplaced)
          (fun b b' => b = b.relaid l origin ∧ b' = b.relaid l' origin')
          (l.build origin limit) (l'.build origin' limit) := by
    intro l origin l' origin' h limit
    have houtcome := h.build limit
    generalize hb : l.build origin limit = x, hb' : l'.build origin' limit = x' at houtcome ⊢
    cases houtcome with
    | error he => exact .error he
    | @ok b b' hsame =>
      refine .ok ⟨(Layout.relaid_of_build hb).symm, ?_⟩
      calc b' = b'.relaid l' origin' := (Layout.relaid_of_build hb').symm
        _ = b'.unplaced.relaid l' origin' := (Board.relaid_unplaced b' l' origin').symm
        _ = b.unplaced.relaid l' origin' := by rw [hsame]
        _ = b.relaid l' origin' := Board.relaid_unplaced b l' origin'
  refine ⟨hboth, fun l origin origin' h limit => ?_⟩
  have houtcome := hboth l origin l origin' h limit
  generalize l.build origin limit = x, l.build origin' limit = x' at houtcome ⊢
  cases houtcome with
  | error he => exact .error he
  | @ok b b' hlaid =>
    obtain ⟨hb, rfl⟩ := hlaid
    refine .ok ⟨rfl, fun i p hp => ?_⟩
    -- The turn of the piece is that of its placement already.
    have hat := hp
    rw [hb, Board.getElem?_relaid, hp, Option.bind_some, Option.map_eq_some_iff] at hat
    obtain ⟨q, hq, hturn⟩ := hat
    refine ⟨q, hq, ?_⟩
    rw [Board.getElem?_relaid, hp, hq, Option.bind_some, Option.map_some, ← hturn]
    rfl

/-- The line of `shiftLine` on tiles of another size, its pieces a little off their places and
some of them turned. -/
def nudgedLine : Layout where
  tileWidth := 97.5
  tileHeight := 90
  placements :=
    [⟨"elem_input", ⟨48.0625, 48⟩, .half, .none⟩, ⟨"pipe", ⟨144, 48.03125⟩, .none, .none⟩,
     ⟨"apply_add", ⟨240, 48⟩, .quarter, .none⟩, ⟨"pipe", ⟨335.96875, 48⟩, .none, .none⟩,
     ⟨"elem_output", ⟨432, 48⟩, .threeQuarters, .none⟩]
  requiredCount := 1
  keywords := ["abc"]
  hints := []

/-- The line, the other line elsewhere, and the line itself elsewhere. -/
theorem nudgedLine_alike :
    ∃ b, shiftLine.build .zero 100 = .ok b ∧
      nudgedLine.build ⟨960, 384⟩ 100 = .ok (b.relaid nudgedLine ⟨960, 384⟩) ∧
      shiftLine.build ⟨960, 384⟩ 100 = .ok (b.relaid shiftLine ⟨960, 384⟩) := by
  obtain ⟨hother, hmoved⟩ := geometry_decides
  have hnudged : shiftLine.SameCircuit .zero nudgedLine ⟨960, 384⟩ :=
    ⟨by decide +kernel, by decide +kernel, by decide +kernel, by decide +kernel, rfl, rfl⟩
  have hself : shiftLine.SameCircuit .zero shiftLine ⟨960, 384⟩ :=
    ⟨by decide +kernel, by decide +kernel, by decide +kernel, by decide +kernel, rfl, rfl⟩
  obtain ⟨b, hb, _⟩ := shiftLine_built
  have hfirst := hother shiftLine .zero nudgedLine ⟨960, 384⟩ hnudged 100
  have hsecond := hmoved shiftLine .zero ⟨960, 384⟩ hself 100
  rw [hb] at hfirst hsecond
  generalize hx : nudgedLine.build ⟨960, 384⟩ 100 = x at hfirst
  generalize hy : shiftLine.build ⟨960, 384⟩ 100 = y at hsecond
  refine ⟨b, hb, ?_, ?_⟩
  · cases hfirst with
    | ok h => rw [h.2]
  · cases hsecond with
    | ok h => rw [h.1]

end CipherBoard
