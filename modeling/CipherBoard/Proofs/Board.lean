/-
CipherBoard.Proofs.Board — the boards that building gives.

A board is read off a survey and the ways that wiring settles (`wire_eq_ok_iff`,
`build_eq_ok_iff`), piece by piece (`getElem?_pieces`). What is known of sites and
of settled ways therefore becomes known of pieces:

* `Board.Realizes` — the board has the pieces of the layout and as many ways out
  of each as its role wants, up to branches that another branch took over.
  `build_realizes` proves it of every board that is built.
* `Piece.FlowsTo` — the geometry behind a way: the cells of two pieces adjoin, and
  a pin of the one lies on a pin of the other. `build_flows` proves it of every way
  of every board, and that no run comes back to the entry.
-/
import CipherBoard.Build
import CipherBoard.Proofs.Run
import CipherBoard.Proofs.Survey
import CipherBoard.Proofs.Wiring

namespace CipherBoard

/-! ## Section 1 — from a layout to a board -/

variable {l : Layout} {origin : Point} {limit : Nat} {b : Board} {v : Survey} {w : Ways}

theorem Layout.wire_eq_ok_iff : l.wire origin = .ok b ↔
    ∃ v w, l.survey origin = .ok v ∧ connectAll v.nodes = .ok w ∧ b = v.board w l := by
  unfold Layout.wire
  cases hv : l.survey origin with
  | error e => simp
  | ok v =>
    cases hw : connectAll v.nodes with
    | error e => simp [hw]
    | ok w => simp [hw, eq_comm]

/-- What a board makes of each keyword by itself, up to the first that has no result. -/
def Board.encodeAll (b : Board) (limit : Nat) : List String → Except BuildError (List String)
  | [] => .ok []
  | keyword :: rest =>
    match b.encode limit keyword with
    | .error e => .error (.ofRun keyword e)
    | .ok output => (b.encodeAll limit rest).map (output :: ·)

/-- A runner that goes from keyword to keyword makes of each what the board makes of it by
itself: whatever the last run left behind, only the limit stays. -/
theorem Runner.encodeAll_eq (r : Runner) (b : Board) (keywords : List String) :
    r.encodeAll b keywords = b.encodeAll r.limit keywords := by
  induction keywords generalizing r with
  | nil => rfl
  | cons k rest ih =>
    have hresult : (r.exec b k).1 = b.encode r.limit k := rfl
    have hlimit : (r.exec b k).2.limit = r.limit := rfl
    rw [Runner.encodeAll, Board.encodeAll, ← hresult, ← hlimit, ← ih]
    generalize r.exec b k = ran
    obtain ⟨_ | _, _⟩ := ran <;> rfl

/-- Building encodes every keyword as if it were the only one. -/
theorem Layout.build_eq (l : Layout) (origin : Point) (limit : Nat) :
    l.build origin limit = match l.wire origin with
      | .error e => .error (.layout e)
      | .ok board =>
        (board.encodeAll limit board.keywords).map fun encoded => { board with encoded } := by
  unfold Layout.build
  simp only [Runner.encodeAll_eq]
  rfl

/-- The keywords of a board are encoded one by one. -/
theorem Board.encodeAll_eq_ok_iff {keywords encoded : List String} :
    b.encodeAll limit keywords = .ok encoded ↔
      List.Forall₂ (fun k e => b.encode limit k = .ok e) keywords encoded := by
  induction keywords generalizing encoded with
  | nil => simp [Board.encodeAll, eq_comm]
  | cons k rest ih =>
    rw [Board.encodeAll, List.forall₂_cons_left_iff]
    cases hk : b.encode limit k with
    | error e => simp
    | ok output =>
      cases hrest : b.encodeAll limit rest with
      | error e =>
        simp only [Except.map, reduceCtorEq, Except.ok.injEq, false_iff]
        rintro ⟨_, tail, -, htail, -⟩
        rw [ih.mpr htail] at hrest
        cases hrest
      | ok tail =>
        have htail := ih.mp hrest
        simp only [Except.map, Except.ok.injEq]
        constructor
        · rintro rfl
          exact ⟨output, tail, rfl, htail, rfl⟩
        · rintro ⟨_, tail', rfl, htail', rfl⟩
          have heq := ih.mpr htail'
          rw [hrest] at heq
          cases heq
          rfl

/-- The encoding of keywords fails at the first that has no result. -/
theorem Board.encodeAll_eq_error_iff {keywords : List String} {x : BuildError} :
    b.encodeAll limit keywords = .error x ↔ ∃ pre k post e, keywords = pre ++ k :: post ∧
      (∀ j ∈ pre, ∃ output, b.encode limit j = .ok output) ∧
      b.encode limit k = .error e ∧ x = .ofRun k e := by
  induction keywords with
  | nil => simp [Board.encodeAll]
  | cons k rest ih =>
    constructor
    · intro h
      rw [Board.encodeAll] at h
      split at h
      · rename_i e hk
        cases h
        exact ⟨[], k, rest, e, rfl, by simp, hk, rfl⟩
      · rename_i output hk
        have hrest : b.encodeAll limit rest = .error x := by
          cases hr : b.encodeAll limit rest <;> rw [hr] at h <;> cases h
          rfl
        obtain ⟨pre, j, post, e, rfl, hpre, hj, hx⟩ := ih.mp hrest
        refine ⟨k :: pre, j, post, e, rfl, ?_, hj, hx⟩
        intro i hi
        rcases List.mem_cons.mp hi with rfl | hi
        · exact ⟨output, hk⟩
        · exact hpre i hi
    · rintro ⟨pre, j, post, e, heq, hpre, hj, rfl⟩
      rw [Board.encodeAll]
      cases pre with
      | nil =>
        cases heq
        rw [hj]
      | cons i pre =>
        cases heq
        obtain ⟨output, hk⟩ := hpre k List.mem_cons_self
        have hrest := ih.mpr
          ⟨pre, j, post, e, rfl, fun i hi => hpre i (List.mem_cons_of_mem _ hi), hj, rfl⟩
        rw [hk, hrest]
        rfl

theorem Layout.build_eq_ok_iff : l.build origin limit = .ok b ↔
    ∃ c encoded, l.wire origin = .ok c ∧
      List.Forall₂ (fun k e => c.encode limit k = .ok e) c.keywords encoded ∧
      b = { c with encoded } := by
  rw [Layout.build_eq]
  cases hc : l.wire origin with
  | error e => simp
  | ok c =>
    dsimp only
    cases he : c.encodeAll limit c.keywords with
    | error e =>
      simp only [Except.map, reduceCtorEq, Except.ok.injEq, exists_and_left, exists_eq_left',
        false_iff]
      rintro ⟨encoded, hencoded, _⟩
      rw [Board.encodeAll_eq_ok_iff.2 hencoded] at he
      cases he
    | ok encoded =>
      have hencoded := Board.encodeAll_eq_ok_iff.1 he
      simp only [Except.map, Except.ok.injEq, exists_and_left, exists_eq_left']
      constructor
      · rintro rfl
        exact ⟨encoded, hencoded, rfl⟩
      · rintro ⟨encoded', hencoded', rfl⟩
        have heq := Board.encodeAll_eq_ok_iff.2 hencoded'
        rw [he] at heq
        cases heq
        rfl

/-- A layout that is wired is refused exactly for what its keywords come to. -/
theorem Layout.build_eq_error_iff {x : BuildError} (h : l.wire origin = .ok b) :
    l.build origin limit = .error x ↔ b.encodeAll limit b.keywords = .error x := by
  rw [Layout.build_eq, h]
  dsimp only
  cases b.encodeAll limit b.keywords <;> simp [Except.map]

/-- The encodings of a board play no part in its runs. -/
theorem Signal.run_withEncoded (b : Board) (encoded : List String) (s : Signal) (limit : Nat) :
    s.run { b with encoded } limit = s.run b limit := by
  induction limit generalizing s with
  | zero => rfl
  | succ limit ih =>
    have hstep : s.step { b with encoded } = s.step b := rfl
    rw [Signal.run, Signal.run, hstep]
    cases s.step b with
    | halted => rfl
    | moved t => exact ih t
    | broken e => rfl

theorem Board.encode_withEncoded (b : Board) (encoded : List String) (limit : Nat)
    (input : String) : Board.encode { b with encoded } limit input = b.encode limit input :=
  congrArg (Ending.result input limit) (Signal.run_withEncoded b encoded _ limit)

/-- **What the encodings of a board are**: in the place of each keyword, what the board makes of
it within the limit it was built with. -/
theorem Layout.exists_encoded (h : l.build origin limit = .ok b) {i : Nat} {keyword : String}
    (hk : b.keywords[i]? = some keyword) :
    ∃ output, b.encoded[i]? = some output ∧ b.encode limit keyword = .ok output := by
  obtain ⟨c, encoded, _, hencoded, rfl⟩ := Layout.build_eq_ok_iff.1 h
  obtain ⟨hi, rfl⟩ := List.getElem?_eq_some_iff.mp hk
  have hlt : i < encoded.length := hencoded.length_eq ▸ hi
  exact ⟨encoded[i], List.getElem?_eq_getElem hlt,
    (Board.encode_withEncoded c encoded limit _).trans (hencoded.get hi hlt)⟩

/-- Every encoding is that of the keyword in its place. -/
theorem Layout.exists_keyword (h : l.build origin limit = .ok b) {i : Nat} {output : String}
    (hi : b.encoded[i]? = some output) :
    ∃ keyword, b.keywords[i]? = some keyword ∧ b.encode limit keyword = .ok output := by
  obtain ⟨c, encoded, _, hencoded, rfl⟩ := Layout.build_eq_ok_iff.1 h
  obtain ⟨hlt, rfl⟩ := List.getElem?_eq_some_iff.mp hi
  have hk : i < c.keywords.length := hencoded.length_eq ▸ hlt
  exact ⟨c.keywords[i], List.getElem?_eq_getElem hk,
    (Board.encode_withEncoded c encoded limit _).trans (hencoded.get hk hlt)⟩

/-! ## Section 2 — from a site to a piece -/

@[simp] theorem Survey.getElem?_pieces (v : Survey) (w : Ways) (l : Layout) (i : Nat) :
    (v.board w l).pieces[i]? = v.sites[i]?.map fun s => s.piece i w := by
  unfold Survey.board
  rw [List.getElem?_toArray, List.getElem?_mapIdx]

theorem Survey.size_pieces (v : Survey) (w : Ways) (l : Layout) :
    (v.board w l).pieces.size = v.sites.length := by
  unfold Survey.board
  rw [List.size_toArray, List.length_mapIdx]

/-- The behaviour of a class tells as many ways apart as its role has. -/
theorem Behaviour.wayCount_of {cls : PieceClass} {payload : Payload} {be : Behaviour}
    (h : Behaviour.of cls payload = .ok be) :
    be.wayCount = match cls.role with
      | .output => 0
      | .branch => 2
      | _ => 1 := by
  unfold Behaviour.of at h
  split at h
  case h_1 => cases h; rfl
  case h_2 => cases h; rfl
  case h_3 =>
    cases hc : conditionOf payload <;> rw [hc] at h <;> cases h
    rfl
  case h_4 =>
    cases hc : conditionOf payload <;> rw [hc] at h <;> cases h
    rfl
  case h_5 => cases h; rfl
  case h_6 => cases h; rfl
  case h_7 => split at h <;> cases h; rfl
  all_goals cases h; rfl

/-- A piece stops a signal exactly if it is an output. -/
theorem Behaviour.eq_stop_iff {cls : PieceClass} {payload : Payload} {be : Behaviour}
    (h : Behaviour.of cls payload = .ok be) : be = .stop ↔ cls.role = .output := by
  have hcount := Behaviour.wayCount_of h
  constructor
  · rintro rfl
    cases hr : cls.role <;> simp_all [Behaviour.wayCount]
  · intro hr
    rw [hr] at hcount
    cases be <;> simp_all [Behaviour.wayCount]

/-- A survey of a layout and the ways that wiring settles for it. -/
structure Survey.Wired (l : Layout) (origin : Point) (v : Survey) (w : Ways) : Prop where
  survey : l.survey origin = .ok v
  ways : connectAll v.nodes = .ok w

/-- The node of a site. -/
theorem Survey.exists_node {i : Nat} {s : Site} (hs : v.sites[i]? = some s) :
    ∃ n ∈ v.nodes, n.id = i ∧ n.role = s.cls.role := by
  have hn := v.getElem?_nodes i
  rw [hs] at hn
  exact ⟨_, List.mem_of_getElem? hn, rfl, rfl⟩

namespace Survey.Wired

variable (h : Survey.Wired l origin v w) {i : Nat} {s t : Site}
include h

theorem cells_nodup : (v.sites.map Site.cell).Nodup := by
  obtain ⟨_, _, _, hd, _⟩ := Layout.survey_eq_ok_iff.mp h.survey
  exact hd

theorem lies (hs : v.sites[i]? = some s) :
    ∃ f p, l.frame? origin = some f ∧ l.placements[i]? = some p ∧ s.Lies f p := by
  obtain ⟨f, hf, hlies, _⟩ := Layout.survey_eq_ok_iff.mp h.survey
  obtain ⟨hi, rfl⟩ := List.getElem?_eq_some_iff.mp hs
  have hp : i < l.placements.length := hlies.length_eq ▸ hi
  exact ⟨f, l.placements[i], hf, List.getElem?_eq_getElem hp, hlies.get hp hi⟩

/-- The input of a survey is its entry, and the only input. -/
theorem input_iff (hs : v.sites[i]? = some s) : s.cls.role = .input ↔ i = v.entry := by
  obtain ⟨_, _, _, _, _, hone, hentry⟩ := Layout.survey_eq_ok_iff.mp h.survey
  rw [hentry]
  exact role_eq_iff_of_roleCount hone hs

theorem entry_lt : v.entry < v.sites.length := by
  obtain ⟨_, _, _, _, _, hone, hentry⟩ := Layout.survey_eq_ok_iff.mp h.survey
  rw [hentry, List.findIdx_lt_length]
  have hpos : 0 < v.sites.countP (·.cls.role = .input) := by
    rw [← roleCount, hone]
    exact Nat.one_pos
  exact List.countP_pos_iff.mp hpos

theorem exists_output : ∃ s ∈ v.sites, s.cls.role = .output := by
  obtain ⟨_, _, _, _, hout, _⟩ := Layout.survey_eq_ok_iff.mp h.survey
  have hpos : 0 < v.sites.countP (·.cls.role = .output) := Nat.pos_of_ne_zero hout
  simpa using List.countP_pos_iff.mp hpos

/-- **Where the ways of a piece come from**: an output has none; every other piece
has those that `Led` allows. -/
theorem next_led (hs : v.sites[i]? = some s) :
    ∃ n ∈ v.nodes, n.id = i ∧ n.role = s.cls.role ∧
      (s.cls.role = .output ∧ (s.piece i w).next = [] ∨
        s.cls.role ≠ .output ∧ Led v.nodes n (s.piece i w).next) := by
  obtain ⟨n, hn, rfl, hrole⟩ := Survey.exists_node hs
  refine ⟨n, hn, rfl, hrole, ?_⟩
  by_cases hout : s.cls.role = .output
  · exact Or.inl ⟨hout, by simp [Site.piece, hout]⟩
  · obtain ⟨ts, hts, hled⟩ := connectAll_led v.nodes_id_nodup h.ways hn (hrole ▸ hout)
    have hnext : (s.piece n.id w).next = ts := by simp [Site.piece, hout, hts]
    exact Or.inr ⟨hout, hnext ▸ hled⟩

/-- **What a way means**: a signal flows from the piece to the one where the way leads. -/
theorem next_flows (hs : v.sites[i]? = some s) {j : Nat} (hj : j ∈ (s.piece i w).next) :
    ∃ t, v.sites[j]? = some t ∧ s.FlowsTo t := by
  obtain ⟨n, hn, rfl, _, ⟨_, hnil⟩ | ⟨_, hled⟩⟩ := h.next_led hs
  · rw [hnil] at hj
    cases hj
  · generalize (s.piece n.id w).next = ts at hj hled
    cases hled with
    | own hsound =>
      obtain ⟨t, ht, hflow, _⟩ := (Survey.mem_targets_iff h.cells_nodup hn hs).mp
        (Node.ways_subset_targets hj)
      exact ⟨t, ht, hflow⟩
    | @fed m hm hfeeds =>
      obtain ⟨t, ht, _⟩ := Survey.mem_nodes.mp hm
      obtain ⟨s', hs', hflow⟩ := (Survey.mem_feeders_iff h.cells_nodup hm ht).mp hfeeds
      rw [hs] at hs'
      cases hs'
      rw [List.mem_singleton.mp hj]
      exact ⟨t, ht, hflow⟩

end Survey.Wired

/-! ## Section 3 — layouts on cells

Small layouts are written cell by cell, and what they come to is computed. -/

theorem exists_ok_of_any {ε α : Type} {e : Except ε α} {p : α → Bool}
    (h : e.toOption.any p = true) : ∃ a, e = .ok a ∧ p a = true := by
  cases e with
  | error e => cases h
  | ok a => exact ⟨a, rfl, h⟩

/-- Whether there is no result, for a reason that `p` accepts. -/
def failsWith {ε α : Type} (p : ε → Bool) : Except ε α → Bool
  | .error e => p e
  | .ok _ => false

theorem exists_error_of_failsWith {ε α : Type} {p : ε → Bool} {e : Except ε α}
    (h : failsWith p e = true) : ∃ x, e = .error x ∧ p x = true := by
  cases e with
  | error x => exact ⟨x, rfl, h⟩
  | ok a => cases h

/-- A piece on a cell of a board with tiles of 96 units. -/
def Placement.onCell (className : String) (column row : Nat) (turn : QuarterTurn := .none)
    (payload : Payload := .none) : Placement where
  className := className
  pos := ⟨96 * Float.ofNat column + 48, 96 * Float.ofNat row + 48⟩
  turn := turn
  payload := payload

/-- A test for words of even length. -/
def Placement.evenTest (column row : Nat) : Placement :=
  .onCell "elem_if" column row .none (.condition ⟨"len_even", "", 0⟩)

/-- A board with tiles of 96 units. -/
def Layout.onCells (placements : List Placement) (keywords : List String) : Layout where
  tileWidth := 96
  tileHeight := 96
  placements := placements
  requiredCount := 1
  keywords := keywords
  hints := []

/-- A line from the input to the output that moves letters on by one. -/
def shiftLine : Layout :=
  .onCells
    [.onCell "elem_input" 0 0, .onCell "pipe" 1 0, .onCell "apply_add" 2 0, .onCell "pipe" 3 0,
     .onCell "elem_output" 4 0]
    ["abc"]

theorem shiftLine_built :
    ∃ b, shiftLine.build .zero 100 = .ok b ∧ b.encoded = ["bcd"] ∧
      b.pieces.toList.map (fun p => (p.role, p.next)) =
        [(.input, [1]), (.pipe, [2]), (.transform, [3]), (.pipe, [4]), (.output, [])] := by
  obtain ⟨b, hb, hshape⟩ := exists_ok_of_any
    (show (shiftLine.build .zero 100).toOption.any (fun b => b.encoded == ["bcd"] &&
        b.pieces.toList.map (fun p => (p.role, p.next)) ==
          [(.input, [1]), (.pipe, [2]), (.transform, [3]), (.pipe, [4]), (.output, [])]) = true by
      decide +kernel)
  rw [Bool.and_eq_true, beq_iff_eq, beq_iff_eq] at hshape
  exact ⟨b, hb, hshape.1, hshape.2⟩

/-! ## Section 4 — the pieces of a board -/

/-- The board has the pieces of the layout in their order, one entry, and outputs
where signals stop; its ways lead to pieces, as many from each as its role wants,
save that a branch may be left with a single one. -/
structure Board.Realizes (b : Board) (l : Layout) : Prop where
  size : b.pieces.size = l.placements.length
  piece : ∀ (i : Nat) (p : Piece), b.pieces[i]? = some p → p.id = i ∧
    ∃ q, l.placements[i]? = some q ∧ p.className = q.className ∧ p.payload = q.payload ∧
      (PieceClass.ofName? q.className).map (·.role) = some p.role
  entry : ∃ p : Piece, b.pieces[b.entry]? = some p ∧ p.role = .input
  input : ∀ (i : Nat) (p : Piece), b.pieces[i]? = some p → p.role = .input → i = b.entry
  output : ∃ p ∈ b.pieces, p.role = .output
  stop : ∀ p ∈ b.pieces, p.behaviour = .stop ↔ p.role = .output
  next_lt : ∀ p ∈ b.pieces, ∀ j ∈ p.next, j < b.pieces.size
  next_output : ∀ p ∈ b.pieces, p.role = .output → p.next = []
  next_line : ∀ p ∈ b.pieces, p.role ≠ .output → p.role ≠ .branch → p.next.length = 1
  next_branch : ∀ p ∈ b.pieces, p.role = .branch → p.next.length = 1 ∨
    ∃ (i j : Nat) (first second : Piece), p.next = [i, j] ∧ i ≠ j ∧
      b.pieces[i]? = some first ∧ isSpecial first.className = true ∧
      b.pieces[j]? = some second ∧ isSpecial second.className = false
  encoded : b.encoded.length = b.keywords.length
  requiredCount_le : b.requiredCount ≤ b.keywords.length
  keywords : b.keywords = l.keywords ∧ b.required ++ b.decoys = b.keywords

/-- The entry and all ways of a board are pieces of it. -/
structure Board.Closed (b : Board) : Prop where
  entry_lt : b.entry < b.pieces.size
  next_lt : ∀ p ∈ b.pieces, ∀ j ∈ p.next, j < b.pieces.size

theorem Board.Realizes.closed (h : b.Realizes l) : b.Closed where
  entry_lt := by
    obtain ⟨p, hp, _⟩ := h.entry
    exact (Array.getElem?_eq_some_iff.mp hp).1
  next_lt := h.next_lt

theorem Survey.Wired.mem_pieces (v : Survey) (w : Ways) (l : Layout) {p : Piece}
    (hp : p ∈ (v.board w l).pieces) :
    ∃ (i : Nat) (s : Site), v.sites[i]? = some s ∧ p = s.piece i w := by
  obtain ⟨i, hi⟩ := Array.mem_iff_getElem?.mp hp
  rw [Survey.getElem?_pieces] at hi
  obtain ⟨s, hs, rfl⟩ := Option.map_eq_some_iff.mp hi
  exact ⟨i, s, hs, rfl⟩

/-- **The pieces of a wired board**: it realizes its layout, up to the encodings. -/
theorem Survey.Wired.realizes (h : Survey.Wired l origin v w) (encoded : List String)
    (hlen : encoded.length = l.keywords.length) :
    Board.Realizes { v.board w l with encoded } l where
  size := by
    obtain ⟨_, _, hlies, _⟩ := Layout.survey_eq_ok_iff.mp h.survey
    rw [Survey.size_pieces, hlies.length_eq]
  piece i p hp := by
    rw [Survey.getElem?_pieces] at hp
    obtain ⟨s, hs, rfl⟩ := Option.map_eq_some_iff.mp hp
    obtain ⟨f, q, _, hq, hlies⟩ := h.lies hs
    refine ⟨rfl, q, hq, hlies.className, hlies.payload, ?_⟩
    rw [← hlies.className, hlies.cls]
    rfl
  entry := by
    obtain ⟨s, hs⟩ : ∃ s, v.sites[v.entry]? = some s :=
      ⟨_, List.getElem?_eq_getElem h.entry_lt⟩
    refine ⟨s.piece v.entry w, ?_, (h.input_iff hs).mpr rfl⟩
    exact (v.getElem?_pieces w l v.entry).trans (by rw [hs]; rfl)
  input i p hp hrole := by
    rw [Survey.getElem?_pieces] at hp
    obtain ⟨s, hs, rfl⟩ := Option.map_eq_some_iff.mp hp
    exact (h.input_iff hs).mp hrole
  output := by
    obtain ⟨s, hs, hout⟩ := h.exists_output
    obtain ⟨i, hi⟩ := List.mem_iff_getElem?.mp hs
    refine ⟨s.piece i w, Array.mem_of_getElem? (i := i) ?_, hout⟩
    rw [Survey.getElem?_pieces, hi]
    rfl
  stop p hp := by
    obtain ⟨i, s, hs, rfl⟩ := Survey.Wired.mem_pieces v w l hp
    obtain ⟨f, q, _, _, hlies⟩ := h.lies hs
    exact Behaviour.eq_stop_iff hlies.behaviour
  next_lt p hp j hj := by
    obtain ⟨i, s, hs, rfl⟩ := Survey.Wired.mem_pieces v w l hp
    obtain ⟨t, ht, _⟩ := h.next_flows hs hj
    rw [Survey.size_pieces]
    exact (List.getElem?_eq_some_iff.mp ht).1
  next_output p hp hrole := by
    obtain ⟨i, s, hs, rfl⟩ := Survey.Wired.mem_pieces v w l hp
    exact if_pos hrole
  next_line p hp hout hbranch := by
    obtain ⟨i, s, hs, rfl⟩ := Survey.Wired.mem_pieces v w l hp
    obtain ⟨n, hn, rfl, hrole, ⟨hrole', _⟩ | ⟨_, hled⟩⟩ := h.next_led hs
    · exact absurd hrole' hout
    · generalize (s.piece n.id w).next = ts at hled
      cases hled with
      | own hsound => exact Node.length_ways hsound (hrole ▸ hout) (hrole ▸ hbranch)
      | fed => rfl
  next_branch p hp hrole := by
    obtain ⟨i, s, hs, rfl⟩ := Survey.Wired.mem_pieces v w l hp
    obtain ⟨n, hn, rfl, hrole', ⟨hrole'', _⟩ | ⟨_, hled⟩⟩ := h.next_led hs
    · rw [show s.cls.role = .branch from hrole] at hrole''
      cases hrole''
    · generalize (s.piece n.id w).next = ts at hled ⊢
      cases hled with
      | fed => exact Or.inl rfl
      | own hsound =>
        obtain ⟨first, hfirst, second, hsecond, hspecial, hplain, hways⟩ :=
          Node.ways_of_branch hsound (hrole'.trans hrole)
        obtain ⟨_, t, ht, _, _, ht'⟩ := (Survey.mem_outgoing_iff h.cells_nodup hn hs).mp hfirst
        obtain ⟨_, u, hu, _, _, hu'⟩ := (Survey.mem_outgoing_iff h.cells_nodup hn hs).mp hsecond
        rw [ht'] at hspecial
        rw [hu'] at hplain
        refine Or.inr ⟨first.other, second.other, t.piece first.other w,
          u.piece second.other w, hways, ?_, ?_, hspecial, ?_, hplain⟩
        · -- One of the two is special and the other is not.
          intro heq
          rw [heq, hu] at ht
          cases ht
          rw [hspecial] at hplain
          cases hplain
        · rw [Survey.getElem?_pieces, ht]
          rfl
        · rw [Survey.getElem?_pieces, hu]
          rfl
  encoded := hlen
  requiredCount_le := Nat.min_le_right _ _
  keywords := ⟨rfl, List.take_append_drop _ _⟩

/-- **Every board that is built realizes its layout.** -/
theorem build_realizes (h : l.build origin limit = .ok b) : b.Realizes l := by
  obtain ⟨c, encoded, hc, hencoded, rfl⟩ := Layout.build_eq_ok_iff.1 h
  obtain ⟨v, w, hv, hw, rfl⟩ := Layout.wire_eq_ok_iff.1 hc
  exact Survey.Wired.realizes ⟨hv, hw⟩ encoded hencoded.length_eq.symm

theorem shiftLine_realized :
    ∃ b, shiftLine.build .zero 100 = .ok b ∧ b.encoded = ["bcd"] ∧ b.Realizes shiftLine := by
  obtain ⟨b, hb, hencoded, _⟩ := shiftLine_built
  exact ⟨b, hb, hencoded, build_realizes hb⟩

/-! ## Section 5 — the geometry behind the ways -/

/-- The pins of a piece, as its class name gives them. -/
def Piece.pins? (p : Piece) : Option Pins :=
  (PieceClass.ofName? p.className).map fun cls => Pins.of cls p.pos p.turn p.payload

/-- A signal that leaves `p` can enter `q`: their cells on the frame share a side,
and an exit of `p` lies on an entry of `q`. -/
def Piece.FlowsTo (f : Frame) (p q : Piece) : Prop :=
  (∃ c d, f.cell? p.pos = some c ∧ f.cell? q.pos = some d ∧ c.Adjoins d) ∧
    ∃ x y, p.pins? = some x ∧ q.pins? = some y ∧ x.feed y = true

/-- The pieces of two sites stand to each other as the sites do. -/
theorem Site.Lies.flowsTo_iff {f : Frame} {p q : Placement} {s t : Site} (hs : s.Lies f p)
    (ht : t.Lies f q) {i j : Nat} {w : Ways} :
    (s.piece i w).FlowsTo f (t.piece j w) ↔ s.FlowsTo t := by
  unfold Piece.FlowsTo Piece.pins? Site.FlowsTo Site.feeds Site.pins Site.piece
  simp [hs.cell, ht.cell, hs.cls, ht.cls]

namespace Survey.Wired

variable (h : Survey.Wired l origin v w)
include h

theorem flowsTo_iff {f : Frame} (hf : l.frame? origin = some f) {i j : Nat} {s t : Site}
    (hs : v.sites[i]? = some s) (ht : v.sites[j]? = some t) :
    (s.piece i w).FlowsTo f (t.piece j w) ↔ s.FlowsTo t := by
  obtain ⟨f', p, hf', _, hlies⟩ := h.lies hs
  rw [hf] at hf'
  cases hf'
  obtain ⟨f', q, hf', _, hlies'⟩ := h.lies ht
  rw [hf] at hf'
  cases hf'
  exact hlies.flowsTo_iff hlies'

/-- Nothing feeds the input. -/
theorem not_flowsTo_entry {s t : Site} {i : Nat} (hs : v.sites[i]? = some s)
    (ht : v.sites[v.entry]? = some t) : ¬ s.FlowsTo t := by
  obtain ⟨n, hn, hid, hrole⟩ := Survey.exists_node ht
  rw [(h.input_iff ht).mpr rfl] at hrole
  have hsound := connectAll_sound h.ways hn (by rw [hrole]; rfl)
  simp only [Node.sound, hrole, Bool.and_eq_true, List.isEmpty_iff] at hsound
  intro hflow
  have hmem : i ∈ n.feeders :=
    (Survey.mem_feeders_iff h.cells_nodup hn (hid ▸ ht)).mpr ⟨s, hs, hflow⟩
  rw [hsound.1] at hmem
  cases hmem

/-- No way of a board leads to its entry. -/
theorem entry_not_mem_next {i : Nat} {s : Site} (hs : v.sites[i]? = some s) :
    v.entry ∉ (s.piece i w).next := by
  intro hmem
  obtain ⟨t, ht, hflow⟩ := h.next_flows hs hmem
  exact h.not_flowsTo_entry hs ht hflow

end Survey.Wired

/-- A signal that has moved stands where some way leads. -/
theorem Signal.Reaches.here_mem_next {n : Nat} {s t : Signal} (h : Signal.Reaches b s (n + 1) t) :
    ∃ p ∈ b.pieces, t.here ∈ p.next := by
  cases h with
  | move _ hstep =>
    obtain ⟨p, _, way, target, hp, _, hnext, _, rfl⟩ := Signal.step_eq_moved_iff.mp hstep
    exact ⟨p, Array.mem_of_getElem? hp, List.mem_of_getElem? hnext⟩

/-- Where no way leads to the entry, a runner that has made a step does not stand there. -/
theorem Board.Realizes.here?_ne_entry (hreal : b.Realizes l)
    (hentry : ∀ p ∈ b.pieces, b.entry ∉ p.next) {r r' : Runner} {input : String} {k : Nat}
    (hsteps : (r.reset b input).steps (k + 1) = .ok r') : r'.here? ≠ some b.entry := by
  obtain ⟨n, s, hn, hend, hreach, rfl⟩ := Runner.steps_reset_eq_ok hsteps
  rw [Runner.here?_holding]
  intro hhere
  have hat : s.here = b.entry := Option.some.inj hhere
  cases n with
  | succ n =>
    obtain ⟨p, hp, hmem⟩ := hreach.here_mem_next
    exact hentry p hp (hat ▸ hmem)
  | zero =>
    -- The signal has not moved, so the entry would have to be an output.
    rcases hend with hzero | hhalt
    · cases hzero
    · obtain ⟨p, hp, hstop⟩ := Signal.step_eq_halted_iff.mp hhalt
      have hout := (hreal.stop p (Array.mem_of_getElem? hp)).mp hstop
      obtain ⟨q, hq, hin⟩ := hreal.entry
      rw [hat, hq] at hp
      cases hp
      rw [hout] at hin
      cases hin

/-- **Every way of a board that is built lies in the geometry**: it leads to a piece
in an adjoining cell, from an exit to an entry. No way leads to the entry, and a
runner that has made a step never stands there again. -/
theorem build_flows (h : l.build origin limit = .ok b) :
    ∃ f, l.frame? origin = some f ∧
      (∀ p ∈ b.pieces, ∀ j ∈ p.next, ∃ q, b.pieces[j]? = some q ∧ p.FlowsTo f q) ∧
      (∀ p ∈ b.pieces, b.entry ∉ p.next) ∧
      ∀ (r : Runner) (input : String) (k : Nat) (r' : Runner),
        (r.reset b input).steps (k + 1) = .ok r' → r'.here? ≠ some b.entry := by
  obtain ⟨c, encoded, hc, hencoded, rfl⟩ := Layout.build_eq_ok_iff.1 h
  obtain ⟨v, w, hv, hw, rfl⟩ := Layout.wire_eq_ok_iff.1 hc
  have hwired : Survey.Wired l origin v w := ⟨hv, hw⟩
  have hreal := hwired.realizes encoded hencoded.length_eq.symm
  obtain ⟨f, hf, _⟩ := Layout.survey_eq_ok_iff.mp hv
  have hentry : ∀ p ∈ (v.board w l).pieces, v.entry ∉ p.next := by
    intro p hp
    obtain ⟨i, s, hs, rfl⟩ := Survey.Wired.mem_pieces v w l hp
    exact hwired.entry_not_mem_next hs
  refine ⟨f, hf, fun p hp j hj => ?_, hentry,
    fun r input k r' hsteps => hreal.here?_ne_entry hentry hsteps⟩
  obtain ⟨i, s, hs, rfl⟩ := Survey.Wired.mem_pieces v w l hp
  obtain ⟨t, ht, hflow⟩ := hwired.next_flows hs hj
  refine ⟨t.piece j w, ?_, (hwired.flowsTo_iff hf hs ht).mpr hflow⟩
  exact (v.getElem?_pieces w l j).trans (by rw [ht]; rfl)

theorem shiftLine_flows :
    ∃ b f p q, shiftLine.build .zero 100 = .ok b ∧ shiftLine.frame? .zero = some f ∧
      p ∈ b.pieces ∧ p.role = .input ∧ b.pieces[1]? = some q ∧ p.FlowsTo f q := by
  obtain ⟨b, hb, _, hshape⟩ := shiftLine_built
  obtain ⟨f, hf, hflows, _⟩ := build_flows hb
  have hinput : (Role.input, [1]) ∈ b.pieces.toList.map (fun p => (p.role, p.next)) := by
    rw [hshape]
    exact List.mem_cons_self
  obtain ⟨p, hp, heq⟩ := List.mem_map.mp hinput
  obtain ⟨hrole, hnext⟩ := Prod.mk.inj heq
  have hmem : p ∈ b.pieces := Array.mem_def.mpr hp
  obtain ⟨q, hq, hflow⟩ := hflows p hmem 1 (by rw [hnext]; exact List.mem_singleton_self 1)
  exact ⟨b, f, p, q, hb, hf, hmem, hrole, hq, hflow⟩

end CipherBoard
