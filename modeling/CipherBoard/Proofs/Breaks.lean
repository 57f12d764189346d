/-
CipherBoard.Proofs.Breaks — when a run breaks.

A branch takes over whatever feeds it, and what feeds it may be another branch: of
two branches that touch, the one that is wired first keeps a single way, although
it goes on choosing between two. `Board.Overrun` names that branch by the geometry
alone: a signal can flow from it into a branch with a greater number.

* `complete_iff` — a piece has every way that its behaviour may take, unless it is
  an overrun branch.
* `Strands` — the signal stands on an overrun branch and takes the second way.
* `step_breaks_iff_strands` — this, and nothing else, breaks a run, whether it
  encodes a keyword or runs on a board that is built.
-/
import CipherBoard.Proofs.Board

namespace CipherBoard

variable {l : Layout} {origin : Point} {b : Board} {v : Survey} {w : Ways} {f : Frame}

/-! ## Section 1 — the branch that loses its ways -/

/-- The piece is a branch from which a signal can flow into a later branch. -/
def Board.Overrun (f : Frame) (b : Board) (i : Nat) : Prop :=
  ∃ (p q : Piece) (j : Nat), b.pieces[i]? = some p ∧ b.pieces[j]? = some q ∧ i < j ∧
    p.role = .branch ∧ q.role = .branch ∧ p.FlowsTo f q

theorem Board.Overrun.role_eq {i : Nat} {p : Piece} (h : b.Overrun f i)
    (hp : b.pieces[i]? = some p) : p.role = .branch := by
  obtain ⟨p', _, _, hp', _, _, hrole, _⟩ := h
  rw [hp] at hp'
  cases hp'
  exact hrole

/-- The signal stands on an overrun branch and takes the second way. -/
def Signal.Strands (f : Frame) (b : Board) (s : Signal) (e : Break) : Prop :=
  ∃ p t, b.pieces[s.here]? = some p ∧ b.Overrun f s.here ∧ s.pass p = some (t, 1) ∧
    e = .missingWay p.label 1

namespace Survey.Wired

variable (h : Survey.Wired l origin v w) (hf : l.frame? origin = some f)
include h hf

/-- A later branch takes the piece over exactly if a signal can flow there. -/
theorem overrun_iff {i : Nat} {s : Site} (hs : v.sites[i]? = some s)
    (hrole : s.cls.role = .branch) :
    (v.board w l).Overrun f i ↔ takers (v.nodes.drop (i + 1)) i ≠ [] := by
  constructor
  · rintro ⟨p, q, j, hp, hq, hij, _, hbranch, hflow⟩
    rw [Survey.getElem?_pieces] at hp hq
    obtain ⟨s', hs', rfl⟩ := Option.map_eq_some_iff.mp hp
    obtain ⟨t, ht, rfl⟩ := Option.map_eq_some_iff.mp hq
    have hnode := v.getElem?_nodes j
    rw [ht, Option.map_some] at hnode
    have hfeeds := (Survey.mem_feeders_iff h.cells_nodup (List.mem_of_getElem? hnode) ht).mpr
      ⟨s', hs', (h.flowsTo_iff hf hs' ht).mp hflow⟩
    rw [← show i + 1 + (j - (i + 1)) = j by omega, ← List.getElem?_drop] at hnode
    exact List.ne_nil_of_mem (mem_takers.mpr ⟨List.mem_of_getElem? hnode, hbranch, hfeeds⟩)
  · intro hne
    obtain ⟨m, hm⟩ := List.exists_mem_of_ne_nil _ hne
    obtain ⟨hdrop, hbranch, hfeeds⟩ := mem_takers.mp hm
    obtain ⟨k, hk⟩ := List.mem_iff_getElem?.mp hdrop
    rw [List.getElem?_drop, Survey.getElem?_nodes] at hk
    obtain ⟨t, ht, rfl⟩ := Option.map_eq_some_iff.mp hk
    have hmem := List.mem_of_mem_drop hdrop
    obtain ⟨s', hs', hflow⟩ := (Survey.mem_feeders_iff h.cells_nodup hmem ht).mp hfeeds
    rw [hs] at hs'
    cases hs'
    refine ⟨s.piece i w, t.piece (i + 1 + k) w, i + 1 + k, ?_, ?_, by omega, hrole, hbranch,
      (h.flowsTo_iff hf hs ht).mpr hflow⟩
    · rw [Survey.getElem?_pieces, hs]
      rfl
    · rw [Survey.getElem?_pieces, ht]
      rfl

/-- **A branch keeps two ways unless it is overrun**, and has one way then. -/
theorem length_next_branch {i : Nat} {s : Site} (hs : v.sites[i]? = some s)
    (hrole : s.cls.role = .branch) :
    ((v.board w l).Overrun f i ∧ (s.piece i w).next.length = 1) ∨
      (¬ (v.board w l).Overrun f i ∧ (s.piece i w).next.length = 2) := by
  have hout : s.cls.role ≠ .output := by rw [hrole]; decide
  -- The order of the nodes around the branch decides which branches come later.
  have hsplit := Survey.nodes_eq_append hs
  generalize he : ({ id := i, role := s.cls.role, links := s.links v.sites } : Node) = e at hsplit
  have hid : e.id = i := by rw [← he]
  have hbranch : e.role = .branch := by rw [← he]; exact hrole
  have hmem : e ∈ v.nodes := by
    rw [hsplit]
    exact List.mem_append_right _ List.mem_cons_self
  have hd := v.nodes_id_nodup
  have hways := h.ways
  rw [hsplit] at hd hways
  have hget := get?_firm hd hways (by rw [hbranch]; rfl)
  rw [hid] at hget
  have hnext : (s.piece i w).next =
      ((takers (v.nodes.drop (i + 1)) i).getLast?.map Node.here).getD e.ways := by
    simp [Site.piece, hout, hget]
  rw [hnext, h.overrun_iff hf hs hrole]
  cases ht : (takers (v.nodes.drop (i + 1)) i).getLast? with
  | some t =>
    refine Or.inl ⟨?_, rfl⟩
    exact List.ne_nil_of_mem (List.mem_of_getLast? ht)
  | none =>
    have hsound := connectAll_sound h.ways hmem (by rw [hbranch]; rfl)
    obtain ⟨_, _, _, _, _, _, htwo⟩ := Node.ways_of_branch hsound hbranch
    refine Or.inr ⟨?_, ?_⟩
    · rw [not_not]
      exact List.getLast?_eq_none_iff.mp ht
    · simp [htwo]

/-- **What an overrun branch lacks**: a piece of a wired board is complete exactly if
it is not overrun. -/
theorem complete_iff {i : Nat} {p : Piece} (hp : (v.board w l).pieces[i]? = some p) :
    p.Complete ↔ ¬ (v.board w l).Overrun f i := by
  have hreal := h.realizes l.keywords rfl
  have hmem := Array.mem_of_getElem? hp
  have hbranch_of : (v.board w l).Overrun f i → p.role = .branch := fun hover => hover.role_eq hp
  rw [Survey.getElem?_pieces] at hp
  obtain ⟨s, hs, rfl⟩ := Option.map_eq_some_iff.mp hp
  obtain ⟨_, _, _, _, hlies⟩ := h.lies hs
  have hcount : (s.piece i w).behaviour.wayCount = _ := Behaviour.wayCount_of hlies.behaviour
  unfold Piece.Complete
  by_cases hbranch : s.cls.role = .branch
  · rw [hcount, hbranch]
    rcases h.length_next_branch hf hs hbranch with ⟨hover, hlen⟩ | ⟨hover, hlen⟩
    · simp [hlen, hover]
    · simp [hlen, hover]
  · simp only [mt hbranch_of hbranch, not_false_iff, iff_true]
    by_cases hout : s.cls.role = .output
    · rw [hcount, hout]
      exact Nat.zero_le _
    · rw [hreal.next_line _ hmem hout hbranch, hcount]
      cases hr : s.cls.role <;> simp_all

/-! ## Section 2 — the step that breaks -/

/-- **Why a step breaks** on a wired board: the signal strands. -/
theorem step_eq_broken_iff {s : Signal} (hlt : s.here < (v.board w l).pieces.size) {e : Break} :
    s.step (v.board w l) = .broken e ↔ s.Strands f (v.board w l) e := by
  have hreal := h.realizes l.keywords rfl
  rw [Signal.step_eq_broken_iff]
  constructor
  · rintro (⟨hnone, _⟩ | ⟨p, t, way, hp, hpass, ⟨hnext, rfl⟩ | ⟨target, hnext, hfar, _⟩⟩)
    · rw [Array.getElem?_eq_none_iff] at hnone
      omega
    · have hway := Signal.way_lt_wayCount hpass
      rw [List.getElem?_eq_none_iff] at hnext
      have hover : (v.board w l).Overrun f s.here := by
        by_contra hnot
        have hcomplete : p.behaviour.wayCount ≤ p.next.length := (h.complete_iff hf hp).mpr hnot
        omega
      -- A behaviour tells two ways apart at most, and the first is there.
      have hone : way = 1 := by
        have hcount := p.behaviour.wayCount_le_two
        rcases hreal.next_branch p (Array.mem_of_getElem? hp) (hover.role_eq hp) with
          hlen | ⟨_, _, _, _, hlen, _⟩
        · omega
        · rw [hlen, List.length_cons, List.length_singleton] at hnext
          omega
      subst hone
      exact ⟨p, t, hp, hover, hpass, rfl⟩
    · exact absurd (hreal.next_lt p (Array.mem_of_getElem? hp) target
        (List.mem_of_getElem? hnext)) hfar
  · rintro ⟨p, t, hp, hover, hpass, rfl⟩
    refine Or.inr ⟨p, t, 1, hp, hpass, Or.inl ⟨?_, rfl⟩⟩
    rw [List.getElem?_eq_none_iff]
    by_contra hlen
    refine (h.complete_iff hf hp).mp ?_ hover
    have hcount := p.behaviour.wayCount_le_two
    unfold Piece.Complete
    omega

end Survey.Wired

/-! ## Section 3 — the runs that break -/

/-- An input breaks on a board at a state that its signal reaches within the limit. -/
theorem Board.encode_eq_broken_iff {limit : Nat} {input : String} {e : Break} :
    b.encode limit input = .error (.broken e) ↔ ∃ n ≤ limit, ∃ s,
      Signal.Reaches b (Signal.enter b (Word.ofText input)) n s ∧ s.step b = .broken e := by
  unfold Board.encode
  rw [Ending.result_eq_broken_iff]
  constructor
  · rintro ⟨s, hrun⟩
    obtain ⟨n, hn, hreach, hbroken⟩ := Signal.run_eq_broken_iff.mp hrun
    exact ⟨n, hn, s, hreach, hbroken⟩
  · rintro ⟨n, hn, s, hreach, hbroken⟩
    exact ⟨s, Signal.run_eq_broken_iff.mpr ⟨n, hn, hreach, hbroken⟩⟩

/-- The keywords break at the first that has no encoding, if that one breaks. -/
theorem Board.encodeAll_eq_broken_iff {limit : Nat} {keywords : List String} {e : Break} :
    b.encodeAll limit keywords = .error (.broken e) ↔ ∃ pre k post, keywords = pre ++ k :: post ∧
      (∀ j ∈ pre, ∃ output, b.encode limit j = .ok output) ∧
      b.encode limit k = .error (.broken e) := by
  rw [Board.encodeAll_eq_error_iff]
  constructor
  · rintro ⟨pre, k, post, e', hkeys, hpre, hk, he⟩
    cases e' with
    | overLimit => cases he
    | broken =>
      cases he
      exact ⟨pre, k, post, hkeys, hpre, hk⟩
  · rintro ⟨pre, k, post, hkeys, hpre, hk⟩
    exact ⟨pre, k, post, _, hkeys, hpre, hk, rfl⟩

theorem Layout.build_eq_broken_iff {c : Board} {limit : Nat} {e : Break}
    (hc : l.wire origin = .ok c) :
    l.build origin limit = .error (.broken e) ↔
      c.encodeAll limit c.keywords = .error (.broken e) :=
  Layout.build_eq_error_iff hc

/-- **A run breaks where its signal strands, and nowhere else.** A piece of a wired
board is complete unless it is an overrun branch. Building breaks exactly if the
signal of a keyword strands within the limit, all keywords before it being encoded;
and a runner on the board that is built breaks exactly where its signal strands, so
never if no branch is overrun. -/
theorem step_breaks_iff_strands {c : Board} (hc : l.wire origin = .ok c) :
    ∃ f, l.frame? origin = some f ∧
      (∀ (i : Nat) (p : Piece), c.pieces[i]? = some p → (p.Complete ↔ ¬ c.Overrun f i)) ∧
      (∀ limit e, l.build origin limit = .error (.broken e) ↔
        ∃ pre k post, l.keywords = pre ++ k :: post ∧
          (∀ j ∈ pre, ∃ output, c.encode limit j = .ok output) ∧ ∃ n ≤ limit, ∃ s,
            Signal.Reaches c (Signal.enter c (Word.ofText k)) n s ∧ s.Strands f c e) ∧
      ∀ limit b, l.build origin limit = .ok b → ∀ (r : Runner) (input : String) (k : Nat),
        (∀ r', (r.reset b input).steps k = .ok r' → ∃ s p, r' = r.holding b s ∧
          b.pieces[s.here]? = some p ∧ (p.Complete ↔ ¬ b.Overrun f s.here) ∧
          ∀ e, r'.step = .error e ↔ s.Strands f b e) ∧
        ((∀ i, ¬ b.Overrun f i) → ∃ r', (r.reset b input).steps k = .ok r') := by
  obtain ⟨v, w, hv, hw, rfl⟩ := Layout.wire_eq_ok_iff.mp hc
  have h : Survey.Wired l origin v w := ⟨hv, hw⟩
  obtain ⟨f, hf, _⟩ := Layout.survey_eq_ok_iff.mp hv
  -- Every signal that comes from the entry is on the board.
  have hentry : v.entry < (v.board w l).pieces.size := by
    rw [Survey.size_pieces]
    exact h.entry_lt
  have hbreak : ∀ {word n s}, Signal.Reaches (v.board w l) (Signal.enter (v.board w l) word) n s →
      ∀ e, s.step (v.board w l) = .broken e ↔ s.Strands f (v.board w l) e :=
    fun hreach _ => h.step_eq_broken_iff hf (hreach.here_lt hentry)
  refine ⟨f, hf, fun i p hp => h.complete_iff hf hp, fun limit e => ?_, ?_⟩
  · rw [Layout.build_eq_broken_iff hc, Board.encodeAll_eq_broken_iff]
    simp only [Board.encode_eq_broken_iff]
    constructor
    · rintro ⟨pre, k, post, hkeys, hpre, n, hn, s, hreach, hbroken⟩
      exact ⟨pre, k, post, hkeys, hpre, n, hn, s, hreach, (hbreak hreach e).mp hbroken⟩
    · rintro ⟨pre, k, post, hkeys, hpre, n, hn, s, hreach, hstrands⟩
      exact ⟨pre, k, post, hkeys, hpre, n, hn, s, hreach, (hbreak hreach e).mpr hstrands⟩
  · intro limit b hb r input k
    obtain ⟨c, encoded, hc', _, rfl⟩ := Layout.build_eq_ok_iff.mp hb
    rw [hc] at hc'
    cases hc'
    -- The encodings change neither the pieces nor the steps.
    have hbreak' : ∀ {s : Signal}, s.here < (v.board w l).pieces.size → ∀ e,
        s.step { v.board w l with encoded } = .broken e ↔
          s.Strands f { v.board w l with encoded } e :=
      fun hlt _ => h.step_eq_broken_iff hf hlt
    constructor
    · intro r' hsteps
      obtain ⟨n, s, _, _, hreach, rfl⟩ := Runner.steps_reset_eq_ok hsteps
      have hlt := hreach.here_lt hentry
      have hp := Array.getElem?_eq_getElem hlt
      refine ⟨s, _, rfl, hp, h.complete_iff hf hp, fun e => ?_⟩
      rw [Runner.step_holding_eq_error_iff, hbreak' hlt]
    · intro hnone
      refine Runner.exists_steps (fun n s hreach e hbroken => ?_) k
      obtain ⟨_, _, _, hover, _⟩ := (hbreak' (hreach.here_lt hentry) e).mp hbroken
      exact hnone _ hover

/-- Without branches no run ever breaks. -/
theorem shiftLine_never_breaks :
    ∃ c f, shiftLine.wire .zero = .ok c ∧ shiftLine.frame? .zero = some f ∧
      (∀ i, ¬ c.Overrun f i) ∧ ∃ b, shiftLine.build .zero 100 = .ok b ∧
        ∀ (r : Runner) (input : String) (k : Nat), ∃ r', (r.reset b input).steps k = .ok r' := by
  obtain ⟨b, hb, _, hshape⟩ := shiftLine_built
  obtain ⟨c, encoded, hc, _, rfl⟩ := Layout.build_eq_ok_iff.mp hb
  obtain ⟨f, hf, _, _, hruns⟩ := step_breaks_iff_strands hc
  have hnone : ∀ i, ¬ c.Overrun f i := by
    rintro i ⟨p, _, _, hp, _, _, hrole, _⟩
    have hmem := List.mem_map_of_mem (f := fun p : Piece => (p.role, p.next))
      (Array.mem_def.mp (Array.mem_of_getElem? hp))
    rw [hshape, hrole] at hmem
    simp at hmem
  exact ⟨c, f, hc, hf, hnone, _, hb, fun r input k => (hruns 100 _ hb r input k).2 hnone⟩

/-- Two tests next to each other, each with an output above and one below. -/
def adjacentTests : Layout :=
  .onCells
    [.onCell "elem_input" 0 2, .onCell "pipe" 1 2, .evenTest 2 2, .evenTest 3 2,
     .onCell "special_pipe" 2 1 .threeQuarters, .onCell "elem_output" 2 0,
     .onCell "pipe" 2 3 .quarter, .onCell "elem_output" 2 4,
     .onCell "special_pipe" 3 1 .threeQuarters, .onCell "elem_output" 3 0,
     .onCell "pipe" 3 3 .quarter, .onCell "elem_output" 3 4]
    []

/-- Whether building stopped because the run of a keyword broke. -/
def BuildError.isBreak : BuildError → Bool
  | .broken _ => true
  | .layout _ | .unencodable _ _ => false

/-- **A board that is built breaks a run**: after two steps the runner stands on a
branch that has a single way, and the third step fails. With the word among the
keywords, building itself breaks. -/
theorem adjacentTests_breaks :
    (∃ b r i p e, adjacentTests.build .zero 100 = .ok b ∧
      (Runner.fresh.reset b "abc").steps 2 = .ok r ∧ r.here? = some i ∧
      b.pieces[i]? = some p ∧ p.role = .branch ∧ p.next.length = 1 ∧ r.step = .error e) ∧
    ∃ e, { adjacentTests with keywords := ["abc"] }.build .zero 100 = .error (.broken e) := by
  constructor
  · obtain ⟨b, hb, hrun⟩ := exists_ok_of_any
      (show (adjacentTests.build .zero 100).toOption.any (fun b =>
          ((Runner.fresh.reset b "abc").steps 2).toOption.any fun r =>
            failsWith (fun _ => true) r.step && r.here?.any fun i => b.pieces[i]?.any fun p =>
              p.role == .branch && p.next.length == 1) = true by decide +kernel)
    obtain ⟨r, hr, hstuck⟩ := exists_ok_of_any hrun
    rw [Bool.and_eq_true] at hstuck
    obtain ⟨i, hi, hpiece⟩ := (Option.any_eq_true _ _).mp hstuck.2
    obtain ⟨p, hp, hshape⟩ := (Option.any_eq_true _ _).mp hpiece
    obtain ⟨e, hstep, _⟩ := exists_error_of_failsWith hstuck.1
    rw [Bool.and_eq_true, beq_iff_eq, beq_iff_eq] at hshape
    exact ⟨b, r, i, p, e, hb, hr, hi, hp, hshape.1, hshape.2, hstep⟩
  · obtain ⟨error, hbuild, hbreak⟩ := exists_error_of_failsWith
      (show failsWith BuildError.isBreak
        ({ adjacentTests with keywords := ["abc"] }.build .zero 100) = true by decide +kernel)
    cases error with
    | broken e => exact ⟨e, hbuild⟩
    | layout | unencodable => cases hbreak

end CipherBoard
