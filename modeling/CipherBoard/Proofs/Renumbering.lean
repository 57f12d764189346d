/-
CipherBoard.Proofs.Renumbering — the numbers of the pieces carry no meaning.

Neither wiring nor running does more with the number of a piece than look it up. If
the pieces get other numbers, everything that is settled and everything that runs is
the same up to these numbers.

* `connectAll_renumber` — wiring renumbered pieces gives the renumbered ways, or
  fails at the renumbered piece.
* `Board.Renumbers` — one board is another with other numbers.
* `Board.Renumbers.encode_eq` — such boards make the same of every input under every
  limit, by a simulation of their signals (`Signal.Renumbers`).
-/
import CipherBoard.Build
import CipherBoard.Proofs.Board

namespace CipherBoard

/-! ## Section 1 — wiring under other numbers -/

/-- A link to the piece under its other number. -/
def Link.renumber (f : Nat → Nat) (k : Link) : Link :=
  { k with other := f k.other }

/-- A node under other numbers. -/
def Node.renumber (f : Nat → Nat) (n : Node) : Node where
  id := f n.id
  role := n.role
  links := n.links.map (Link.renumber f)

/-- Settled ways under other numbers. -/
def Ways.renumber (f : Nat → Nat) (w : Ways) : Ways :=
  ⟨w.settled.map fun entry => (f entry.1, entry.2.map f)⟩

section

variable {f : Nat → Nat} (hf : Function.Injective f)

namespace Ways

include hf in
theorem get?_renumber (w : Ways) (id : Nat) :
    (w.renumber f).get? (f id) = (w.get? id).map (List.map f) := by
  unfold get? renumber
  induction w.settled with
  | nil => rfl
  | cons entry rest ih =>
    obtain ⟨i, ts⟩ := entry
    rw [List.map_cons, List.lookup_cons, List.lookup_cons, ih]
    by_cases h : id = i
    · simp [h]
    · have hne : (id == i) = false := by simpa using h
      have hne' : (f id == f i) = false := by simpa using fun heq => h (hf heq)
      rw [hne, hne']

include hf in
theorem renumber_draw (w : Ways) (target id : Nat) :
    (w.draw target id).renumber f = (w.renumber f).draw (f target) (f id) := by
  unfold draw
  rw [get?_renumber hf]
  cases w.get? id <;> rfl

end Ways

namespace Node

@[simp] theorem feeders_renumber (n : Node) : (n.renumber f).feeders = n.feeders.map f := by
  unfold feeders renumber
  rw [List.filter_map, List.map_map, List.map_map]
  rfl

@[simp] theorem outgoing_renumber (n : Node) :
    (n.renumber f).outgoing = n.outgoing.map (Link.renumber f) := by
  unfold outgoing renumber
  rw [List.filter_map]
  rfl

@[simp] theorem targets_renumber (n : Node) : (n.renumber f).targets = n.targets.map f := by
  simp [targets, Link.renumber, Function.comp_def]

include hf in
theorem drawFeeders_renumber (n : Node) (w : Ways) :
    (n.renumber f).drawFeeders (w.renumber f) = (n.drawFeeders w).renumber f := by
  unfold drawFeeders
  rw [feeders_renumber]
  induction n.feeders generalizing w with
  | nil => rfl
  | cons id ids ih =>
    rw [List.map_cons, List.foldl_cons, List.foldl_cons, ← ih, Ways.renumber_draw hf]
    rfl

theorem takeFeeders_renumber (n : Node) (w : Ways) :
    (n.renumber f).takeFeeders (w.renumber f) = (n.takeFeeders w).renumber f := by
  unfold takeFeeders
  rw [feeders_renumber]
  induction n.feeders generalizing w with
  | nil => rfl
  | cons id ids ih =>
    rw [List.map_cons, List.foldl_cons, List.foldl_cons, ← ih]
    rfl

include hf in
theorem connectLine_renumber (least : Nat) (n : Node) (w : Ways) :
    (n.renumber f).connectLine least (w.renumber f) =
      (n.connectLine least w).map (Ways.renumber f) := by
  unfold connectLine
  simp only [targets_renumber, feeders_renumber, List.length_map, drawFeeders_renumber hf]
  split_ifs <;> rfl

include hf in
/-- A piece settles the same under other numbers. -/
theorem connect_renumber (n : Node) (w : Ways) :
    (n.renumber f).connect (w.renumber f) = (n.connect w).map (Ways.renumber f) := by
  have hrole : (n.renumber f).role = n.role := rfl
  unfold connect
  rw [hrole]
  cases n.role with
  | transform | mux => exact connectLine_renumber hf 1 n w
  | pipe | joint => rfl
  | output =>
    simp only [connectOutput, targets_renumber, feeders_renumber, drawFeeders_renumber hf,
      ne_eq, List.map_eq_nil_iff]
    split_ifs <;> rfl
  | input =>
    simp only [connectInput, targets_renumber, feeders_renumber, List.length_map,
      ne_eq, List.map_eq_nil_iff]
    split_ifs <;> rfl
  | branch =>
    have hspecial : ((fun k : Link => k.special) ∘ Link.renumber f) = (·.special) := rfl
    have hplain : ((fun k : Link => !k.special) ∘ Link.renumber f) = (!·.special) := rfl
    simp only [connectBranch, targets_renumber, feeders_renumber, outgoing_renumber,
      List.length_map, List.map_eq_nil_iff, List.find?_map, hspecial, hplain,
      takeFeeders_renumber]
    cases n.outgoing.find? (·.special) <;> cases n.outgoing.find? (!·.special) <;>
      simp only [Option.map_some, Option.map_none] <;> split_ifs <;> rfl

include hf in
theorem connectLoose_renumber (n : Node) (w : Ways) :
    (n.renumber f).connectLoose (w.renumber f) = (n.connectLoose w).map (Ways.renumber f) := by
  have hid : (w.renumber f).get? (n.renumber f).id = (w.get? n.id).map (List.map f) :=
    Ways.get?_renumber hf w n.id
  have hrole : (n.renumber f).role = n.role := rfl
  unfold connectLoose
  rw [hid, hrole, Option.isSome_map]
  split_ifs
  · rfl
  · cases n.role with
    | pipe => exact connectLine_renumber hf 1 n w
    | joint => exact connectLine_renumber hf 2 n w
    | transform | mux | output | input | branch => rfl

end Node

/-- A fault at the piece under its other number. -/
def renumberFault (f : Nat → Nat) (e : Nat × PieceFault) : Nat × PieceFault := (f e.1, e.2)

theorem connectEach_renumber {settle : Node → Ways → Except PieceFault Ways}
    (hsettle : ∀ n w, settle (n.renumber f) (w.renumber f) =
      (settle n w).map (Ways.renumber f)) (ns : List Node) (w : Ways) :
    connectEach settle (ns.map (Node.renumber f)) (w.renumber f) =
      ((connectEach settle ns w).map (Ways.renumber f)).mapError (renumberFault f) := by
  induction ns generalizing w with
  | nil => rfl
  | cons n rest ih =>
    rw [List.map_cons, connectEach, connectEach, hsettle]
    cases settle n w with
    | error fault => rfl
    | ok v => exact ih v

include hf in
/-- **Wiring does not look at numbers.** -/
theorem connectAll_renumber (ns : List Node) :
    connectAll (ns.map (Node.renumber f)) =
      ((connectAll ns).map (Ways.renumber f)).mapError (renumberFault f) := by
  unfold connectAll
  have hfirst := connectEach_renumber (Node.connect_renumber hf) ns .unsettled
  rw [show Ways.unsettled.renumber f = .unsettled from rfl] at hfirst
  rw [hfirst]
  cases connectEach Node.connect ns .unsettled with
  | error e => rfl
  | ok w => exact connectEach_renumber (Node.connectLoose_renumber hf) ns w

include hf in
theorem connectAll_renumber_eq_ok {ns : List Node} {w' : Ways} :
    connectAll (ns.map (Node.renumber f)) = .ok w' ↔
      ∃ w, connectAll ns = .ok w ∧ w' = w.renumber f := by
  rw [connectAll_renumber hf]
  cases connectAll ns with
  | error e => simp [Except.map, Except.mapError]
  | ok w => simp [Except.map, Except.mapError, eq_comm]

end

/-! ## Section 2 — boards under other numbers -/

/-- A piece under its other number. -/
def Piece.renumber (f : Nat → Nat) (p : Piece) : Piece :=
  { p with id := f p.id, next := p.next.map f }

/-- `b'` has the pieces of `b` under the numbers that `f` gives to them. -/
structure Board.Renumbers (f : Nat → Nat) (b b' : Board) : Prop where
  injective : Function.Injective f
  size : b'.pieces.size = b.pieces.size
  piece : ∀ i, b'.pieces[f i]? = b.pieces[i]?.map (Piece.renumber f)
  entry : b'.entry = f b.entry

/-- Two signals are in the same state, up to the numbers of the pieces. -/
structure Signal.Renumbers (f : Nat → Nat) (s s' : Signal) : Prop where
  here : s'.here = f s.here
  input : s'.input = s.input
  word : s'.word = s.word
  counter : ∀ i, s'.counters[f i]? = s.counters[i]?
  outcome : s'.outcome = s.outcome

/-- Two steps over the boards come to the same, up to the numbers of the pieces. -/
inductive Motion.Renumbers (f : Nat → Nat) (b : Board) : Motion → Motion → Prop
  | halted : Renumbers f b .halted .halted
  | moved {t t' : Signal} : t.Renumbers f t' → t.here < b.pieces.size →
      Renumbers f b (.moved t) (.moved t')
  | broken (e : Break) : Renumbers f b (.broken e) (.broken e)

section

variable {f : Nat → Nat} {b b' : Board} {s s' : Signal}

theorem Board.Renumbers.lt_size_iff (h : b.Renumbers f b') {i : Nat} :
    f i < b'.pieces.size ↔ i < b.pieces.size := by
  rw [← not_iff_not, ← Array.getElem?_eq_none_iff.trans Nat.not_lt.symm,
    ← Array.getElem?_eq_none_iff.trans Nat.not_lt.symm, h.piece, Option.map_eq_none_iff]

/-- Fresh signals are in the same state. -/
theorem Board.Renumbers.enter (h : b.Renumbers f b') (word : Word) :
    (Signal.enter b word).Renumbers f (Signal.enter b' word) where
  here := h.entry
  input := rfl
  word := rfl
  counter i := by
    unfold Signal.enter
    rw [Array.getElem?_map, Array.getElem?_map, h.piece, Option.map_map]
    rfl
  outcome := rfl

/-- A counter is set under either number. -/
theorem Signal.Renumbers.setCounter (h : s.Renumbers f s') (hf : Function.Injective f)
    (id left : Nat) :
    Signal.Renumbers f { s with counters := s.counters.setIfInBounds id left }
      { s' with counters := s'.counters.setIfInBounds (f id) left } where
  here := h.here
  input := h.input
  word := h.word
  counter i := by
    have hlt : f id < s'.counters.size ↔ id < s.counters.size := by
      rw [← not_iff_not, ← Array.getElem?_eq_none_iff.trans Nat.not_lt.symm,
        ← Array.getElem?_eq_none_iff.trans Nat.not_lt.symm, h.counter]
    by_cases hi : id = i
    · subst hi
      simp [Array.getElem?_setIfInBounds, hlt]
    · have hne : f id ≠ f i := fun heq => hi (hf heq)
      simp [hi, hne, h.counter]
  outcome := h.outcome

/-- A piece makes the same of signals in the same state, and sends them the same way. -/
theorem Signal.Renumbers.pass (h : s.Renumbers f s') (hf : Function.Injective f) (p : Piece) :
    (s.pass p = none ∧ s'.pass (p.renumber f) = none) ∨
      ∃ t t' way, s.pass p = some (t, way) ∧ s'.pass (p.renumber f) = some (t', way) ∧
        t.Renumbers f t' := by
  have hbehaviour : (p.renumber f).behaviour = p.behaviour := rfl
  unfold Signal.pass
  rw [hbehaviour]
  cases p.behaviour with
  | stop => exact Or.inl ⟨rfl, rfl⟩
  | forward => exact Or.inr ⟨s, s', 0, rfl, rfl, h⟩
  | transform op =>
    exact Or.inr ⟨_, _, 0, rfl, rfl,
      { h with word := congrArg op.apply h.word }⟩
  | test c =>
    have hholds : c.holds s'.word s'.input = c.holds s.word s.input := by rw [h.word, h.input]
    dsimp only
    rw [hholds]
    exact Or.inr ⟨_, _, _, rfl, rfl, { h with outcome := rfl }⟩
  | testNot c =>
    have hholds : c.holds s'.word s'.input = c.holds s.word s.input := by rw [h.word, h.input]
    dsimp only
    rw [hholds]
    exact Or.inr ⟨_, _, _, rfl, rfl, { h with outcome := rfl }⟩
  | repeater => exact Or.inr ⟨s, s', _, rfl, by rw [h.outcome], h⟩
  | inverseRepeater => exact Or.inr ⟨s, s', _, rfl, by rw [h.outcome], h⟩
  | countdown start =>
    have hcount : s'.counters.getD (p.renumber f).id 0 = s.counters.getD p.id 0 := by
      rw [Array.getD_eq_getD_getElem?, Array.getD_eq_getD_getElem?]
      exact congrArg (Option.getD · 0) (h.counter p.id)
    dsimp only
    rw [hcount]
    cases s.counters.getD p.id 0 with
    | zero => exact Or.inr ⟨s, s', 1, rfl, rfl, h⟩
    | succ left => exact Or.inr ⟨_, _, 0, rfl, rfl, h.setCounter hf p.id left⟩

/-- **One step, under either numbers**: signals in the same state halt, move or break
together, and are in the same state afterwards. -/
theorem Board.Renumbers.step (hb : b.Renumbers f b') (hc : b.Closed) (hs : s.Renumbers f s')
    (hlt : s.here < b.pieces.size) : Motion.Renumbers f b (s.step b) (s'.step b') := by
  have hp : b.pieces[s.here]? = some b.pieces[s.here] := Array.getElem?_eq_getElem hlt
  have hp' := hb.piece s.here
  rw [← hs.here, hp, Option.map_some] at hp'
  have hnext := hc.next_lt _ (Array.getElem_mem hlt)
  generalize b.pieces[s.here] = p at hp hp' hnext
  unfold Signal.step
  rw [hp, hp']
  dsimp only
  rcases hs.pass hb.injective p with ⟨hpass, hpass'⟩ | ⟨t, t', way, hpass, hpass', ht⟩
  · rw [hpass, hpass']
    exact .halted
  · rw [hpass, hpass']
    dsimp only
    have hway : (p.renumber f).next[way]? = p.next[way]?.map f := List.getElem?_map
    rw [hway]
    cases htarget : p.next[way]? with
    | none => exact .broken _
    | some target =>
      have hin := hnext target (List.mem_of_getElem? htarget)
      dsimp only [Option.map_some]
      rw [if_pos hin, if_pos (hb.lt_size_iff.mpr hin)]
      exact .moved { ht with here := rfl } hin

/-- **Whole runs, under either numbers**, end alike. -/
theorem Board.Renumbers.run (hb : b.Renumbers f b') (hc : b.Closed) (hs : s.Renumbers f s')
    (hlt : s.here < b.pieces.size) (limit : Nat) (input : String) (shown : Nat) :
    (s'.run b' limit).result input shown = (s.run b limit).result input shown := by
  induction limit generalizing s s' with
  | zero =>
    have hstep := hb.step hc hs hlt
    unfold Signal.run
    generalize s.step b = m, s'.step b' = m' at hstep
    cases hstep with
    | halted => simp only [Ending.result, Signal.text, hs.word]
    | moved => rfl
    | broken => rfl
  | succ limit ih =>
    have hstep := hb.step hc hs hlt
    unfold Signal.run
    generalize s.step b = m, s'.step b' = m' at hstep
    cases hstep with
    | halted => simp only [Ending.result, Signal.text, hs.word]
    | moved ht hin => exact ih ht hin
    | broken => rfl

/-- **Other numbers change no result**, whatever the input and the limit. -/
theorem Board.Renumbers.encode_eq (hb : b.Renumbers f b') (hc : b.Closed) (limit : Nat)
    (input : String) : b'.encode limit input = b.encode limit input :=
  hb.run hc (hb.enter _) hc.entry_lt limit input limit

end

end CipherBoard
