/-
CipherBoard.Proofs.Arrival — boards on which every signal arrives.

A board may have loops and still let go of every signal: it does if each loop runs over the
first way of some countdown. Such a way can be taken only as often as the counters allow, and
between two times there is no coming back to a piece.

* `Board.Onward` — the ways of a board, save the first ways of countdowns.
* `Board.rank` — how many pieces lie further onward; it falls along every way, if these ways
  have no cycle.
* `Signal.potential` — the counters that are left, and the rank below them: a bound on the
  moves still to come. `potential_of_moved` is one move, `Reaches.potential` any number.
* `exec_arrives` — a limit under which every input has a result.
-/
import CipherBoard.Proofs.Countdown
import CipherBoard.Proofs.Limit
import Mathlib.Algebra.GroupWithZero.Nat
import Mathlib.Data.Finset.Card
import Mathlib.Data.Finset.Range
import Mathlib.Logic.Relation

namespace CipherBoard

/-! ## Section 1 — ways onward -/

/-- The ways out of a piece, save the first way of a countdown. -/
def Piece.onward (p : Piece) : List Nat :=
  match p.behaviour with
  | .countdown _ => p.next.tail
  | _ => p.next

theorem Piece.mem_onward {p : Piece} {way j : Nat} (h : p.next[way]? = some j)
    (hway : way = 0 → p.behaviour.start? = none) : j ∈ p.onward := by
  unfold onward
  split
  · rename_i start hb
    cases way with
    | zero => simp [hb, Behaviour.start?] at hway
    | succ k =>
      rw [← List.getElem?_tail] at h
      exact List.mem_of_getElem? h
  · exact List.mem_of_getElem? h

namespace Board

variable {b : Board} {i j : Nat}

/-- A way leads from the piece at `i` to the place `j`, and is no first way of a countdown. -/
def Onward (b : Board) (i j : Nat) : Prop :=
  ∃ p, b.pieces[i]? = some p ∧ j ∈ p.onward

/-- Ways that lead to ever greater heights have no cycle. -/
theorem not_onward_cycle_of_height (height : Nat → Nat)
    (h : ∀ i j, b.Onward i j → height i < height j) (i : Nat) :
    ¬ Relation.TransGen b.Onward i i := by
  have hclimbs : ∀ j, Relation.TransGen b.Onward i j → height i < height j := by
    intro j hpath
    induction hpath with
    | single hedge => exact h _ _ hedge
    | tail _ hedge ih => exact Nat.lt_trans ih (h _ _ hedge)
  intro hcycle
  exact Nat.lt_irrefl _ (hclimbs i hcycle)

open Classical in
/-- How many places of the board lie onward from a piece, by one way or more. -/
noncomputable def rank (b : Board) (i : Nat) : Nat :=
  ((Finset.range b.pieces.size).filter (Relation.TransGen b.Onward i)).card

/-- No piece lies onward from itself, so the rank falls short of the number of pieces. -/
theorem rank_lt_size (hacyclic : ∀ i, ¬ Relation.TransGen b.Onward i i)
    (hi : i < b.pieces.size) : b.rank i < b.pieces.size := by
  classical
  have hsub : (Finset.range b.pieces.size).filter (Relation.TransGen b.Onward i) ⊆
      (Finset.range b.pieces.size).erase i := by
    intro j hj
    obtain ⟨hrange, hpath⟩ := Finset.mem_filter.mp hj
    refine Finset.mem_erase.mpr ⟨?_, hrange⟩
    rintro rfl
    exact hacyclic j hpath
  have hcard := Finset.card_le_card hsub
  rw [Finset.card_erase_of_mem (Finset.mem_range.mpr hi), Finset.card_range] at hcard
  unfold rank
  omega

/-- **The rank falls along every way onward.** -/
theorem rank_lt_of_onward (hacyclic : ∀ i, ¬ Relation.TransGen b.Onward i i)
    (h : b.Onward i j) (hj : j < b.pieces.size) : b.rank j < b.rank i := by
  classical
  apply Finset.card_lt_card
  rw [Finset.ssubset_iff_of_subset]
  · -- The place itself lies onward from `i`, and not from itself.
    refine ⟨j, ?_, ?_⟩
    · exact Finset.mem_filter.mpr ⟨Finset.mem_range.mpr hj, .single h⟩
    · intro hmem
      exact hacyclic j (Finset.mem_filter.mp hmem).2
  · intro k hk
    obtain ⟨hrange, hpath⟩ := Finset.mem_filter.mp hk
    exact Finset.mem_filter.mpr ⟨hrange, .head h hpath⟩

/-- The start numbers of all countdowns, taken together. -/
def startTotal (b : Board) : Nat :=
  (b.pieces.toList.filterMap (·.behaviour.start?)).sum

end Board

/-! ## Section 2 — counters -/

/-- A number in a list that goes down by one takes one from the sum. -/
theorem sum_set_of_succ {l : List Nat} {i n : Nat} (h : l[i]? = some (n + 1)) :
    (l.set i n).sum + 1 = l.sum := by
  induction l generalizing i with
  | nil => simp at h
  | cons a l ih =>
    cases i with
    | zero =>
      simp only [List.getElem?_cons_zero, Option.some.injEq] at h
      simp only [List.set_cons_zero, List.sum_cons]
      omega
    | succ i =>
      have hrest := ih (List.getElem?_cons_succ ▸ h)
      simp only [List.set_cons_succ, List.sum_cons]
      omega

namespace Signal

variable {b : Board} {p : Piece} {s t : Signal} {way : Nat}

/-- The sum of all counters. -/
def counterTotal (s : Signal) : Nat :=
  s.counters.toList.sum

theorem counterTotal_enter (b : Board) (word : Word) :
    (enter b word).counterTotal = b.startTotal := by
  have hsum : ∀ pieces : List Piece,
      (pieces.map startCounter).sum = (pieces.filterMap (·.behaviour.start?)).sum := by
    intro pieces
    induction pieces with
    | nil => rfl
    | cons p pieces ih =>
      rw [List.map_cons, List.sum_cons, ih]
      cases hb : p.behaviour <;> simp [startCounter, Behaviour.start?, hb]
  show (b.pieces.map startCounter).toList.sum = b.startTotal
  rw [Array.toList_map]
  exact hsum b.pieces.toList

/-- **What a visit costs**: either it takes one from the counters, or it takes nothing, and the
way is not the first way of a countdown. -/
theorem pass_cost (h : s.pass p = some (t, way)) :
    t.counterTotal + 1 = s.counterTotal ∨
      t.counterTotal = s.counterTotal ∧ (way = 0 → p.behaviour.start? = none) := by
  cases hb : p.behaviour.start? with
  | none =>
    right
    exact ⟨by rw [counterTotal, counters_of_plain h hb, counterTotal], fun _ => rfl⟩
  | some start =>
    rw [Behaviour.start?_eq_some_iff] at hb
    unfold pass at h
    rw [hb] at h
    dsimp only at h
    split at h
    · cases h
      right
      simp
    · rename_i left hcounter
      cases h
      left
      have hat : s.counters.toList[p.id]? = some (left + 1) := by
        rw [Array.getElem?_toList]
        cases hget : s.counters[p.id]? with
        | none => simp [hget] at hcounter
        | some c => simpa [hget] using hcounter
      unfold counterTotal
      rw [Array.toList_setIfInBounds]
      exact sum_set_of_succ hat

/-- A bound on the moves that a signal has still to make. -/
noncomputable def potential (b : Board) (s : Signal) : Nat :=
  s.counterTotal * b.pieces.size + b.rank s.here

/-- **Every move brings the signal closer to its end.** Where a move takes one from the counters
the rank may rise again, but it stays short of the number of pieces. -/
theorem potential_of_moved (hacyclic : ∀ i, ¬ Relation.TransGen b.Onward i i)
    (h : s.step b = .moved t) : potential b t + 1 ≤ potential b s := by
  obtain ⟨p, passed, way, target, hp, hpass, hnext, hlt, rfl⟩ := step_eq_moved_iff.mp h
  unfold potential
  show passed.counterTotal * b.pieces.size + b.rank target + 1 ≤ _
  rcases pass_cost hpass with hcost | ⟨hsame, hway⟩
  · have hshort := Board.rank_lt_size hacyclic hlt
    rw [← hcost, Nat.add_mul, Nat.one_mul]
    omega
  · have honward : b.Onward s.here target := ⟨p, hp, Piece.mem_onward hnext hway⟩
    have hfalls := Board.rank_lt_of_onward hacyclic honward hlt
    rw [hsame]
    omega

/-- A run is no longer than the potential at its start. -/
theorem Reaches.potential (hacyclic : ∀ i, ¬ Relation.TransGen b.Onward i i) {n : Nat}
    (h : Reaches b s n t) : Signal.potential b t + n ≤ Signal.potential b s := by
  induction h with
  | start => exact Nat.le_refl _
  | move _ hstep ih =>
    have hless := potential_of_moved hacyclic hstep
    omega

theorem potential_enter (hacyclic : ∀ i, ¬ Relation.TransGen b.Onward i i)
    (hentry : b.entry < b.pieces.size) (word : Word) :
    Signal.potential b (enter b word) < (1 + b.startTotal) * b.pieces.size := by
  have hshort := Board.rank_lt_size hacyclic hentry
  unfold Signal.potential
  rw [counterTotal_enter, Nat.add_mul, Nat.one_mul]
  show b.startTotal * b.pieces.size + b.rank b.entry < _
  omega

end Signal

/-! ## Section 3 — runs that end -/

theorem Board.Closed.arrivesWithin {b : Board} (h : b.Closed)
    (hways : ∀ p ∈ b.pieces, p.Complete) (hacyclic : ∀ i, ¬ Relation.TransGen b.Onward i i)
    {limit : Nat} (hlimit : (1 + b.startTotal) * b.pieces.size ≤ limit) (input : String) :
    b.ArrivesWithin input limit := by
  obtain ⟨r, hsteps⟩ := h.carries hways input limit
  obtain ⟨n, s, hn, hend, hreach, rfl⟩ := Runner.steps_reset_eq_ok hsteps
  rcases hend with rfl | hhalt
  · -- So many moves are more than the potential at the entry.
    have hmoves := hreach.potential hacyclic
    have hentry := Signal.potential_enter hacyclic h.entry_lt (Word.ofText input)
    omega
  · exact Board.arrivesWithin_iff.mpr ⟨n, hn, s, hreach, hhalt⟩

/-- **Loops that run over a countdown come to an end.** If every piece has its ways and all of
them lead to pieces, and if the ways other than the first ways of countdowns have no cycle, then
every input has a result, under every limit that is at least the number of pieces times one more
than all start numbers together. -/
theorem exec_arrives {b : Board} (hclosed : b.Closed) (hways : ∀ p ∈ b.pieces, p.Complete)
    (hacyclic : ∀ i, ¬ Relation.TransGen b.Onward i i) (r : Runner)
    (hlimit : (1 + b.startTotal) * b.pieces.size ≤ r.limit) (input : String) :
    ∃ text, (r.exec b input).1 = .ok text := by
  rw [Runner.exec_fst, Board.exists_encode_iff]
  exact hclosed.arrivesWithin hways hacyclic hlimit input

/-- How far along the loop of `countdownLoop` each piece lies, from where the first way of the
countdown leads to the output. -/
def loopHeight (i : Nat) : Nat :=
  [1, 2, 3, 4, 5, 6, 7, 0, 1, 2].getD i 0

/-- Ten pieces, and a start number of two: a limit of thirty is enough for every word. -/
theorem countdownLoop_arrives :
    ∃ b, countdownLoop.build .zero 100 = .ok b ∧ (1 + b.startTotal) * b.pieces.size = 30 ∧
      ∀ input, ∃ text, ((Runner.fresh.withLimit 30).exec b input).1 = .ok text := by
  obtain ⟨b, hb, hshape⟩ := exists_ok_of_any
    (show (countdownLoop.build .zero 100).toOption.any (fun b =>
        decide (b.entry < b.pieces.size ∧ ∀ p ∈ b.pieces.toList,
          (∀ j ∈ p.next, j < b.pieces.size) ∧ p.behaviour.wayCount ≤ p.next.length) &&
        b.pieces.toList.zipIdx.all (fun (p, i) =>
          p.onward.all fun j => loopHeight i < loopHeight j) &&
        (1 + b.startTotal) * b.pieces.size == 30) = true by
      decide +kernel)
  rw [Bool.and_eq_true, Bool.and_eq_true, decide_eq_true_eq, List.all_eq_true,
    beq_iff_eq] at hshape
  obtain ⟨⟨⟨hentry, hpieces⟩, hheights⟩, hbound⟩ := hshape
  have hclosed : b.Closed := ⟨hentry, fun p hp => (hpieces p (Array.mem_toList_iff.mpr hp)).1⟩
  have hways : ∀ p ∈ b.pieces, p.Complete :=
    fun p hp => (hpieces p (Array.mem_toList_iff.mpr hp)).2
  have hclimbs : ∀ i j, b.Onward i j → loopHeight i < loopHeight j := by
    intro i j honward
    obtain ⟨p, hp, hj⟩ := honward
    have hmem : (p, i) ∈ b.pieces.toList.zipIdx := by
      rw [List.mk_mem_zipIdx_iff_getElem?, Array.getElem?_toList]
      exact hp
    exact of_decide_eq_true (List.all_eq_true.mp (hheights (p, i) hmem) j hj)
  exact ⟨b, hb, hbound, exec_arrives hclosed hways
    (Board.not_onward_cycle_of_height loopHeight hclimbs) (Runner.fresh.withLimit 30) hbound.le⟩

end CipherBoard
