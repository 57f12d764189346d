/-
CipherBoard.Proofs.Provisions — what reading a level provides for building it.

Reading and building look at the name of a piece each in its own way. Reading knows the names of
the tests, of the countdowns and of the input, and gives a piece what goes with its name; building
goes by the class that a name has, and asks for what the class needs. The two agree, so that no
level that was read lacks any of it when it is built.

* `PieceClass.ofName?_cases` — where the class of a name comes from; `role_eq_input_iff`,
  `name_of_test` and `exists_start` turn this round for the classes that need something.
* `Placement.Provided` — a piece carries what its class needs; `Describes.provided` says that
  what is read does.
* `PieceFault.isMissing` — the faults of a piece that does not; `connectAll_isMissing` and
  `Layout.Provided.survey` say that neither wiring nor surveying reports one.
* `Layout.Provided` — a layout with one input, pieces that carry what they need, and a word to
  decode; `Level.provided_of_layout` says that a level that was read gives one.
* `layout_provides` — what this means for building.
-/
import CipherBoard.Proofs.Acceptance

namespace CipherBoard

/-! ## Section 1 — names and classes -/

namespace PieceClass

variable {name : String} {cls : PieceClass}

/-- Where a class comes from: the table of names, or a name that speaks of a transform, of a
countdown or of a pipe. -/
theorem ofName?_cases (h : ofName? name = some cls) :
    (name, cls) ∈ named ∨ (∃ op, cls = transform op) ∨
      (cls = branch .countdown ∧ ∃ start, countdownStart? name = some start) ∨
      cls = loosePipe := by
  unfold ofName? at h
  split at h
  · rename_i hnamed
    cases h
    obtain ⟨before, after, hsplit, _⟩ := List.lookup_eq_some_iff.mp hnamed
    left
    rw [hsplit]
    exact List.mem_append_right _ List.mem_cons_self
  · right
    split_ifs at h
    · obtain ⟨op, _, rfl⟩ := Option.map_eq_some_iff.mp h
      exact Or.inl ⟨op, rfl⟩
    · obtain ⟨start, hstart, rfl⟩ := Option.map_eq_some_iff.mp h
      exact Or.inr (Or.inl ⟨rfl, start, hstart⟩)
    · cases h
      exact Or.inr (Or.inr rfl)

/-- Only one name is that of an input. -/
theorem role_eq_input_iff (h : ofName? name = some cls) :
    cls.role = .input ↔ name = Level.inputClass := by
  constructor
  · intro hrole
    have hcls : cls = input := by
      cases cls <;> cases hrole
      rfl
    subst hcls
    rcases ofName?_cases h with hnamed | ⟨_, hop⟩ | ⟨hcount, _⟩ | hpipe
    · simpa [named, Level.inputClass] using hnamed
    · cases hop
    · cases hcount
    · cases hpipe
  · rintro rfl
    have hinput : ofName? Level.inputClass = some input := by decide
    rw [hinput] at h
    cases h
    rfl

/-- Tests have a name of their own each. -/
theorem name_of_test {kind : BranchKind} (hkind : kind = .test ∨ kind = .testNot)
    (h : ofName? name = some (branch kind)) : name = "elem_if" ∨ name = "elem_ifnot" := by
  rcases ofName?_cases h with hnamed | ⟨_, hop⟩ | ⟨hcount, _⟩ | hpipe
  · rcases hkind with rfl | rfl
    · exact Or.inl (by simpa [named] using hnamed)
    · exact Or.inr (by simpa [named] using hnamed)
  · cases hop
  · cases hcount
    rcases hkind with hkind | hkind <;> cases hkind
  · cases hpipe

/-- The name of a countdown says where it starts. -/
theorem exists_start (h : ofName? name = some (branch .countdown)) :
    ∃ start, countdownStart? name = some start := by
  rcases ofName?_cases h with hnamed | ⟨_, hop⟩ | ⟨_, hstart⟩ | hpipe
  · simp [named] at hnamed
  · cases hop
  · exact hstart
  · cases hpipe

end PieceClass

/-- Bends and tests are no countdowns. -/
theorem countdownStart?_eq_none {name : String}
    (h : (name = "angle_pipe" ∨ name = "special_angle_pipe") ∨
      name = "elem_if" ∨ name = "elem_ifnot") : countdownStart? name = none := by
  rcases h with (rfl | rfl) | rfl | rfl <;> decide

/-! ## Section 2 — what a piece carries -/

/-- A piece carries what building asks for: a test its condition, and a countdown the start that
its name says. -/
structure Placement.Provided (p : Placement) : Prop where
  condition : ∀ kind, kind = .test ∨ kind = .testNot →
    PieceClass.ofName? p.className = some (.branch kind) → ∃ spec, p.payload = .condition spec
  start : PieceClass.ofName? p.className = some (.branch .countdown) →
    ∃ start, countdownStart? p.className = some start ∧ p.payload = .countdown start

/-- **What is read of an object is what building asks for.** -/
theorem Level.Describes.provided {tileset : Tileset} {o : MapObject} {cls : String}
    {p : Placement} (h : Describes tileset o cls p) : p.Provided := by
  have hcarries := h.payload
  rw [← h.className] at hcarries
  constructor
  · intro kind hkind hcls
    have hname := PieceClass.name_of_test hkind hcls
    generalize p.className = name, p.payload = payload at hname hcarries
    cases hcarries with
    | bend hbend => rcases hname with rfl | rfl <;> simp at hbend
    | condition _ hspec => exact ⟨_, rfl⟩
    | countdown hcount =>
      rw [countdownStart?_eq_none (Or.inr hname)] at hcount
      cases hcount
    | nothing _ htest _ => exact absurd hname htest
  · intro hcls
    obtain ⟨start, hstart⟩ := PieceClass.exists_start hcls
    refine ⟨start, hstart, ?_⟩
    generalize p.className = name, p.payload = payload at hstart hcarries
    cases hcarries with
    | bend hbend =>
      rw [countdownStart?_eq_none (Or.inl hbend)] at hstart
      cases hstart
    | condition htest hspec =>
      rw [countdownStart?_eq_none (Or.inr htest)] at hstart
      cases hstart
    | countdown hcount =>
      rw [hstart] at hcount
      cases hcount
      rfl
    | nothing _ _ hcount =>
      rw [hstart] at hcount
      cases hcount

/-! ## Section 3 — faults -/

/-- Whether a piece is at fault for what it does not carry. -/
def PieceFault.isMissing : PieceFault → Bool
  | .missingCondition | .missingCountdown => true
  | _ => false

/-- Whether a layout is at fault for what a piece does not carry, or for the number of its
inputs. -/
def LayoutError.isMissing : LayoutError → Bool
  | .piece _ _ fault => fault.isMissing
  | .inputCount _ => true
  | _ => false

section

variable {f : Frame} {p : Placement} {ps : List Placement} {before : List Site}
  {cls : PieceClass} {fault : PieceFault} {n : Node} {w : Ways}

theorem conditionOf_isMissing {spec : ConditionSpec} {behaviour : Condition → Behaviour}
    (h : (conditionOf (.condition spec)).map behaviour = .error fault) :
    fault.isMissing = false := by
  unfold conditionOf at h
  dsimp only at h
  cases hspec : Condition.ofSpec spec <;> rw [hspec] at h <;> cases h
  rfl

/-- A piece that carries what its class needs may have a bad condition, but lacks nothing. -/
theorem Placement.Provided.behaviour (h : p.Provided)
    (hcls : PieceClass.ofName? p.className = some cls)
    (hfault : Behaviour.of cls p.payload = .error fault) : fault.isMissing = false := by
  unfold Behaviour.of at hfault
  -- Only tests and countdowns look at what they carry.
  split at hfault
  case h_3 =>
    obtain ⟨spec, hspec⟩ := h.condition .test (Or.inl rfl) hcls
    rw [hspec] at hfault
    exact conditionOf_isMissing hfault
  case h_4 =>
    obtain ⟨spec, hspec⟩ := h.condition .testNot (Or.inr rfl) hcls
    rw [hspec] at hfault
    exact conditionOf_isMissing hfault
  case h_7 =>
    obtain ⟨start, _, hstart⟩ := h.start hcls
    rw [hstart] at hfault
    cases hfault
  all_goals cases hfault

theorem Placement.Provided.examine (h : p.Provided) (hfault : f.examine before p = .error fault) :
    fault.isMissing = false := by
  unfold Frame.examine at hfault
  split at hfault
  · cases hfault
    rfl
  · rename_i cls hcls
    split at hfault
    · cases hfault
      rfl
    · split at hfault
      · cases hfault
        rfl
      · cases hbehaviour : Behaviour.of cls p.payload <;> rw [hbehaviour] at hfault <;>
          cases hfault
        exact h.behaviour hcls hbehaviour

/-- Reading placements fails at one of them. -/
theorem Frame.exists_of_sites_eq_error {e : LayoutError} (h : f.sites before ps = .error e) :
    ∃ p ∈ ps, ∃ before' fault, f.examine before' p = .error fault ∧
      e = .piece before'.length ⟨p.className, f.place p⟩ fault := by
  induction ps generalizing before with
  | nil => cases h
  | cons p rest ih =>
    rw [Frame.sites] at h
    split at h
    · rename_i fault hfault
      cases h
      exact ⟨p, List.mem_cons_self, before, fault, hfault, rfl⟩
    · obtain ⟨q, hq, hrest⟩ := ih h
      exact ⟨q, List.mem_cons_of_mem p hq, hrest⟩

theorem Node.connectLine_isMissing {least : Nat} (h : n.connectLine least w = .error fault) :
    fault.isMissing = false := by
  unfold Node.connectLine at h
  split_ifs at h <;> cases h <;> rfl

theorem Node.connect_isMissing (h : n.connect w = .error fault) : fault.isMissing = false := by
  unfold Node.connect at h
  split at h
  · exact connectLine_isMissing h
  · exact connectLine_isMissing h
  · unfold Node.connectOutput at h
    split_ifs at h <;> cases h <;> rfl
  · unfold Node.connectInput at h
    split_ifs at h <;> cases h <;> rfl
  · unfold Node.connectBranch at h
    split at h
    · cases h
      rfl
    · split at h
      · split at h <;> cases h
        rfl
      · cases h
        rfl
  · cases h
  · cases h

theorem Node.connectLoose_isMissing (h : n.connectLoose w = .error fault) :
    fault.isMissing = false := by
  unfold Node.connectLoose at h
  split_ifs at h
  split at h
  · exact connectLine_isMissing h
  · exact connectLine_isMissing h
  · cases h

theorem connectEach_isMissing {settle : Node → Ways → Except PieceFault Ways}
    (hsettle : ∀ n w fault, settle n w = .error fault → fault.isMissing = false)
    {nodes : List Node} {id : Nat} (h : connectEach settle nodes w = .error (id, fault)) :
    fault.isMissing = false := by
  induction nodes generalizing w with
  | nil => cases h
  | cons n rest ih =>
    rw [connectEach] at h
    split at h
    · rename_i fault' hfault
      cases h
      exact hsettle n w _ hfault
    · exact ih h

/-- **Wiring asks for nothing that a piece carries.** -/
theorem connectAll_isMissing {nodes : List Node} {id : Nat}
    (h : connectAll nodes = .error (id, fault)) : fault.isMissing = false := by
  unfold connectAll at h
  split at h
  · rename_i hfirst
    cases h
    exact connectEach_isMissing (fun _ _ _ => Node.connect_isMissing) hfirst
  · exact connectEach_isMissing (fun _ _ _ => Node.connectLoose_isMissing) h

/-- There are as many inputs among the sites as pieces with the name of one. -/
theorem roleCount_input {sites : List Site} (h : List.Forall₂ (Site.Lies f) ps sites) :
    roleCount .input sites = ps.countP (·.className = Level.inputClass) := by
  unfold roleCount
  induction h with
  | nil => rfl
  | @cons p s _ _ hs _ ih =>
    have hrole := PieceClass.role_eq_input_iff hs.cls
    rw [hs.className] at hrole
    simp only [List.countP_cons, ih, hrole]

end

/-! ## Section 4 — layouts -/

/-- A layout that lacks nothing that building asks for. -/
structure Layout.Provided (l : Layout) : Prop where
  piece : ∀ p ∈ l.placements, p.Provided
  input : l.placements.countP (·.className = Level.inputClass) = 1
  one_le : 1 ≤ l.requiredCount
  le : l.requiredCount ≤ l.keywords.length

namespace Level

variable {tileset : Tileset} {first : Nat} {objects : List MapObject} {es : List Entry}

theorem provided_of_reads (h : List.Forall₂ (Reads tileset first) objects es) :
    ∀ p ∈ pieces es, p.Provided := by
  induction h with
  | nil => exact fun _ hp => absurd hp List.not_mem_nil
  | cons he _ ih =>
    cases he with
    | settings => exact ih
    | hint => exact ih
    | piece _ _ _ hp =>
      rw [pieces_piece]
      exact List.forall_mem_cons.mpr ⟨(describes_of_placement hp).provided, ih⟩

/-- **A level that is read is provided for.** -/
theorem provided_of_layout {map : TileMap} {l : Layout} (h : layout tileset map = .ok l) :
    l.Provided := by
  obtain ⟨_, _, _, _, es, hreads, hcount, hassemble⟩ := layout_eq_ok_iff.mp h
  obtain ⟨hinput, count, keywords, _, _, hone, hle, rfl⟩ := assemble_eq_ok_iff.mp hassemble
  refine ⟨provided_of_reads hreads, hinput, ?_, ?_⟩
  · show 1 ≤ count.toNat
    omega
  · show count.toNat ≤ keywords.length
    omega

end Level

namespace Layout.Provided

variable {l : Layout} {origin : Point} {limit : Nat} {b : Board} {e : LayoutError}

theorem survey (h : l.Provided) (herror : l.survey origin = .error e) : e.isMissing = false := by
  unfold Layout.survey at herror
  split at herror
  · cases herror
    rfl
  · rename_i f _
    split at herror
    · rename_i e' hsites
      cases herror
      obtain ⟨p, hp, before, fault, hfault, rfl⟩ := f.exists_of_sites_eq_error hsites
      exact (h.piece p hp).examine hfault
    · rename_i sites hsites
      split at herror
      · cases herror
        rfl
      · obtain ⟨_, rfl, hlies, _⟩ := (Frame.sites_eq_ok_iff (by simp)).mp hsites
        split at herror
        · -- Inputs are counted by their class here, and by their name when the level was read.
          rename_i hinput
          exact absurd ((roleCount_input hlies).trans h.input) hinput
        · cases herror

theorem wire (h : l.Provided) (herror : l.wire origin = .error e) : e.isMissing = false := by
  unfold Layout.wire at herror
  split at herror
  · rename_i hsurvey
    cases herror
    exact h.survey hsurvey
  · split at herror
    · rename_i hconnect
      cases herror
      exact connectAll_isMissing hconnect
    · cases herror

/-- Running keywords does not touch the layout, so its faults are those of wiring. -/
theorem build (h : l.Provided) (herror : l.build origin limit = .error (.layout e)) :
    e.isMissing = false := by
  cases hwire : l.wire origin with
  | error e' =>
    rw [Layout.build_eq, hwire] at herror
    cases herror
    exact h.wire hwire
  | ok c =>
    obtain ⟨_, _, _, cause, _, _, _, hcause⟩ :=
      Board.encodeAll_eq_error_iff.mp ((Layout.build_eq_error_iff hwire).mp herror)
    cases cause <;> cases hcause

/-- There is a word to decode. -/
theorem required (h : l.Provided) (hb : l.build origin limit = .ok b) :
    b.required ≠ [] ∧ b.required <+: b.keywords := by
  obtain ⟨c, encoded, hwire, _, rfl⟩ := Layout.build_eq_ok_iff.mp hb
  obtain ⟨v, w, _, _, rfl⟩ := Layout.wire_eq_ok_iff.mp hwire
  refine ⟨?_, List.take_prefix _ _⟩
  show l.keywords.take (min l.requiredCount l.keywords.length) ≠ []
  have hone := h.one_le
  have hle := h.le
  rw [List.ne_nil_iff_length_pos, List.length_take]
  omega

end Layout.Provided

/-- **What is read can be built, as far as reading goes.** Of a level document that is read, every
test carries a condition, and every countdown the start that its name says. So wherever the layout
lies and whatever the step limit is, it is never refused for a condition or a start that is
missing, nor for the number of its inputs; and if a board is built, its required keywords are the
first of its keywords, and at least one. -/
theorem layout_provides {tileset : Tileset} {bytes : List UInt8} {l : Layout}
    (h : Level.layoutOfBytes tileset bytes = .ok l) :
    (∀ p ∈ l.placements, p.Provided) ∧ ∀ (origin : Point) (limit : Nat),
      (∀ id label,
        l.build origin limit ≠ .error (.layout (.piece id label .missingCondition)) ∧
        l.build origin limit ≠ .error (.layout (.piece id label .missingCountdown))) ∧
      (∀ found, l.build origin limit ≠ .error (.layout (.inputCount found))) ∧
      ∀ b, l.build origin limit = .ok b → b.required ≠ [] ∧ b.required <+: b.keywords := by
  have hprovided : l.Provided := by
    unfold Level.layoutOfBytes at h
    split at h
    · cases h
    · exact Level.provided_of_layout h
  refine ⟨hprovided.piece, fun origin limit => ⟨fun id label => ⟨fun herror => ?_,
    fun herror => ?_⟩, fun found herror => ?_, fun b hb => hprovided.required hb⟩⟩
  · exact Bool.noConfusion (hprovided.build herror)
  · exact Bool.noConfusion (hprovided.build herror)
  · exact Bool.noConfusion (hprovided.build herror)

/-- Tiles for a level with a test. -/
def testTiles : Tileset :=
  ⟨96, 96, [⟨0, "settings"⟩, ⟨1, "elem_input"⟩, ⟨2, "pipe"⟩, ⟨3, "elem_if"⟩,
    ⟨4, "special_pipe"⟩, ⟨5, "elem_output"⟩]⟩

/-- A level document with a test for even length; words of even length leave by the special
pipe. -/
def testDocument : List UInt8 :=
  ["\x7b\"tilesets\":[\x7b\"firstgid\":1\x7d],", "\"layers\":[\x7b\"objects\":[",
   "\x7b\"gid\":1,\"x\":0,\"y\":768,\"properties\":[",
   "\x7b\"name\":\"keywords\",\"value\":\"abc\"\x7d,",
   "\x7b\"name\":\"num_keywords\",\"value\":1\x7d]\x7d,",
   "\x7b\"gid\":2,\"x\":0,\"y\":288\x7d,", "\x7b\"gid\":3,\"x\":96,\"y\":288\x7d,",
   "\x7b\"gid\":4,\"x\":192,\"y\":288,\"properties\":[",
   "\x7b\"name\":\"cond_kind\",\"value\":\"len_even\"\x7d]\x7d,",
   "\x7b\"gid\":5,\"x\":288,\"y\":192,\"rotation\":270\x7d,",
   "\x7b\"gid\":6,\"x\":192,\"y\":96\x7d,",
   "\x7b\"gid\":3,\"x\":192,\"y\":288,\"rotation\":90\x7d,",
   "\x7b\"gid\":6,\"x\":192,\"y\":480\x7d", "]\x7d]\x7d"].flatMap Word.ofText

theorem testDocument_provided :
    ∃ l b, Level.layoutOfBytes testTiles testDocument = .ok l ∧
      (∃ p ∈ l.placements, p.className = "elem_if" ∧ ∃ spec, p.payload = .condition spec) ∧
      (∀ found, l.build .zero 3 ≠ .error (.layout (.inputCount found))) ∧
      l.build .zero 10 = .ok b ∧ b.required ≠ [] ∧ b.required <+: b.keywords := by
  obtain ⟨l, hl, hshape⟩ := exists_ok_of_any
    (show (Level.layoutOfBytes testTiles testDocument).toOption.any (fun l =>
      l.placements.any (·.className == "elem_if") &&
      (l.build .zero 10).toOption.any (fun _ => true)) = true by decide +kernel)
  rw [Bool.and_eq_true, List.any_eq_true] at hshape
  obtain ⟨⟨p, hp, hname⟩, hbuild⟩ := hshape
  obtain ⟨b, hb, _⟩ := exists_ok_of_any hbuild
  obtain ⟨hpieces, hbuilds⟩ := layout_provides hl
  obtain ⟨_, hinput, _⟩ := hbuilds .zero 3
  obtain ⟨_, _, hboard⟩ := hbuilds .zero 10
  have htest : PieceClass.ofName? p.className = some (.branch .test) := by
    rw [beq_iff_eq.mp hname]
    decide
  exact ⟨l, b, hl, ⟨p, hp, beq_iff_eq.mp hname, (hpieces p hp).condition .test (Or.inl rfl) htest⟩,
    hinput, hb, hboard b hb⟩

end CipherBoard
