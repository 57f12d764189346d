/-
CipherBoard.Proofs.Run — the steps of a run.

* `step_eq_moved_iff`, `step_eq_halted_iff`, `step_eq_broken_iff` — what one step
  can do, each outcome with everything that it depends on.
* `Signal.Reaches` — a signal gets from one state to another in so many moves.
* `Signal.Ends` — how a run under a limit ends, in terms of the states that the
  signal reaches; `run_eq_iff` says that every run ends so.
* `Runner.steps` — so many steps of a runner, whether the signal moves or not;
  `steps_reset_eq_ok` says that a runner only ever holds states that the signal
  reaches from the entry, and `steps_of_reaches` that it comes to hold each of them.
-/
import CipherBoard.Runner

namespace CipherBoard

/-! ## Section 1 — one step -/

/-- How many ways out a behaviour tells apart. -/
def Behaviour.wayCount : Behaviour → Nat
  | .stop => 0
  | .forward | .transform _ => 1
  | .test _ | .testNot _ | .repeater | .inverseRepeater | .countdown _ => 2

theorem Behaviour.wayCount_le_two (be : Behaviour) : be.wayCount ≤ 2 := by
  cases be <;> simp [Behaviour.wayCount]

/-- A piece has every way that its behaviour may take. -/
def Piece.Complete (p : Piece) : Prop :=
  p.behaviour.wayCount ≤ p.next.length

namespace Signal

variable {b : Board} {s t u : Signal}

theorem wayOf_lt (outcome : Bool) : wayOf outcome < 2 := by
  cases outcome <;> decide

theorem pass_eq_none_iff {p : Piece} : s.pass p = none ↔ p.behaviour = .stop := by
  unfold pass
  split <;> simp_all
  split <;> simp

/-- A signal leaves a piece by one of the ways that the behaviour tells apart. -/
theorem way_lt_wayCount {p : Piece} {way : Nat} (h : s.pass p = some (t, way)) :
    way < p.behaviour.wayCount := by
  unfold pass at h
  split at h
  case h_1 => cases h
  case h_2 hb | h_3 hb =>
    cases h
    simp [hb, Behaviour.wayCount]
  case h_4 hb | h_5 hb | h_6 hb | h_7 hb =>
    cases h
    rw [hb]
    exact wayOf_lt _
  case h_8 hb =>
    rw [hb]
    split at h <;> cases h <;> simp [Behaviour.wayCount]

theorem step_eq_halted_iff :
    s.step b = .halted ↔ ∃ p, b.pieces[s.here]? = some p ∧ p.behaviour = .stop := by
  constructor
  · intro h
    unfold step at h
    split at h
    · cases h
    · rename_i p hp
      split at h
      · rename_i hpass
        exact ⟨p, hp, pass_eq_none_iff.1 hpass⟩
      · split at h
        · cases h
        · split at h <;> cases h
  · rintro ⟨p, hp, hstop⟩
    simp [step, hp, pass_eq_none_iff.2 hstop]

theorem finished_iff : s.finished b = true ↔ s.step b = .halted := by
  rw [step_eq_halted_iff]
  unfold finished
  cases b.pieces[s.here]? <;> simp

theorem step_eq_moved_iff :
    s.step b = .moved t ↔ ∃ p passed way target, b.pieces[s.here]? = some p ∧
      s.pass p = some (passed, way) ∧ p.next[way]? = some target ∧ target < b.pieces.size ∧
      t = { passed with here := target } := by
  constructor
  · intro h
    unfold step at h
    split at h
    · cases h
    · rename_i p hp
      split at h
      · cases h
      · rename_i passed way hpass
        split at h
        · cases h
        · rename_i target hnext
          split at h
          · rename_i hlt
            cases h
            exact ⟨p, passed, way, target, hp, hpass, hnext, hlt, rfl⟩
          · cases h
  · rintro ⟨p, passed, way, target, hp, hpass, hnext, hlt, rfl⟩
    simp only [step, hp, hpass, hnext, if_pos hlt]

/-- A step breaks off the board, at a way that is missing, or at one that leads
nowhere. -/
theorem step_eq_broken_iff {e : Break} :
    s.step b = .broken e ↔
      (b.pieces[s.here]? = none ∧ e = .offBoard s.here) ∨
      ∃ p passed way, b.pieces[s.here]? = some p ∧ s.pass p = some (passed, way) ∧
        ((p.next[way]? = none ∧ e = .missingWay p.label way) ∨
          ∃ target, p.next[way]? = some target ∧ ¬ target < b.pieces.size ∧
            e = .offBoard target) := by
  constructor
  · intro h
    unfold step at h
    split at h
    · rename_i hp
      cases h
      exact Or.inl ⟨hp, rfl⟩
    · rename_i p hp
      split at h
      · cases h
      · rename_i passed way hpass
        refine Or.inr ⟨p, passed, way, hp, hpass, ?_⟩
        split at h
        · rename_i hnext
          cases h
          exact Or.inl ⟨hnext, rfl⟩
        · rename_i target hnext
          split at h
          · cases h
          · rename_i hlt
            cases h
            exact Or.inr ⟨target, hnext, hlt, rfl⟩
  · rintro (⟨hp, rfl⟩ | ⟨p, passed, way, hp, hpass, ⟨hnext, rfl⟩ | ⟨target, hnext, hlt, rfl⟩⟩)
    · simp only [step, hp]
    · simp only [step, hp, hpass, hnext]
    · simp only [step, hp, hpass, hnext, if_neg hlt]

/-! ## Section 2 — runs -/

/-- The signal gets from `s` to `t` in `n` moves. -/
inductive Reaches (b : Board) (s : Signal) : Nat → Signal → Prop
  | start : Reaches b s 0 s
  | move {n : Nat} {t u : Signal} : Reaches b s n t → t.step b = .moved u → Reaches b s (n + 1) u

theorem Reaches.head {n : Nat} (hst : s.step b = .moved t) (h : Reaches b t n u) :
    Reaches b s (n + 1) u := by
  induction h with
  | start => exact .move .start hst
  | move _ hlast ih => exact .move ih hlast

/-- Before the last state of a run there are all the others. -/
theorem Reaches.exists_earlier {m n : Nat} (h : Reaches b s n t) (hle : m ≤ n) :
    ∃ u, Reaches b s m u := by
  induction h with
  | start => exact ⟨s, (Nat.le_zero.mp hle) ▸ .start⟩
  | @move n t u hbefore hstep ih =>
    rcases Nat.lt_or_eq_of_le hle with hlt | rfl
    · exact ih (Nat.le_of_lt_succ hlt)
    · exact ⟨u, hbefore.move hstep⟩

/-- A signal that starts on the board stays on it. -/
theorem Reaches.here_lt {n : Nat} (h : Reaches b s n t) (hs : s.here < b.pieces.size) :
    t.here < b.pieces.size := by
  cases h with
  | start => exact hs
  | move _ hstep =>
    obtain ⟨_, _, _, _, _, _, _, hlt, rfl⟩ := step_eq_moved_iff.1 hstep
    exact hlt

/-- What a run has left to do after `n` of its moves. -/
theorem Reaches.run {n : Nat} (h : Reaches b s n t) (rest : Nat) :
    s.run b (n + rest) = t.run b rest := by
  induction h generalizing rest with
  | start => rw [Nat.zero_add]
  | @move n t u _ hlast ih =>
    rw [show n + 1 + rest = n + (rest + 1) by omega, ih, Signal.run, hlast]

/-- How a run under a limit ends: at an output or at a break that the signal reaches within the
limit, or at the first state beyond it. -/
inductive Ends (b : Board) (s : Signal) (limit : Nat) : Ending → Prop
  | reached {n : Nat} {t : Signal} :
      n ≤ limit → Reaches b s n t → t.step b = .halted → Ends b s limit (.reached t)
  | overLimit {t : Signal} : Reaches b s (limit + 1) t → Ends b s limit (.overLimit t)
  | broken {n : Nat} {t : Signal} {e : Break} :
      n ≤ limit → Reaches b s n t → t.step b = .broken e → Ends b s limit (.broken t e)

/-- A move in front of a run takes one from its limit. -/
theorem Ends.head {limit : Nat} {e : Ending} (hst : s.step b = .moved t) (h : Ends b t limit e) :
    Ends b s (limit + 1) e := by
  cases h with
  | reached hn hreach hhalt => exact .reached (Nat.succ_le_succ hn) (hreach.head hst) hhalt
  | overLimit hreach => exact .overLimit (hreach.head hst)
  | broken hn hreach hbroken => exact .broken (Nat.succ_le_succ hn) (hreach.head hst) hbroken

theorem run_ends (b : Board) (s : Signal) (limit : Nat) : Ends b s limit (s.run b limit) := by
  induction limit generalizing s with
  | zero =>
    rw [run]
    cases hstep : s.step b with
    | halted => exact .reached (Nat.le_refl _) .start hstep
    | moved t => exact .overLimit (.move .start hstep)
    | broken e => exact .broken (Nat.le_refl _) .start hstep
  | succ limit ih =>
    rw [run]
    cases hstep : s.step b with
    | halted => exact .reached (Nat.zero_le _) .start hstep
    | moved t => exact (ih t).head hstep
    | broken e => exact .broken (Nat.zero_le _) .start hstep

/-- **How a run ends** depends on the states that the signal reaches, and on nothing else. -/
theorem run_eq_iff {limit : Nat} {e : Ending} : s.run b limit = e ↔ Ends b s limit e := by
  constructor
  · rintro rfl
    exact run_ends b s limit
  · intro h
    cases h with
    | @reached n t hn hreach hhalt =>
      rw [← Nat.add_sub_cancel' hn, hreach.run]
      cases limit - n <;> rw [run, hhalt]
    | @overLimit t hreach =>
      cases hreach with
      | move hbefore hlast => rw [← Nat.add_zero limit, hbefore.run, run, hlast]
    | @broken n t e hn hreach hbroken =>
      rw [← Nat.add_sub_cancel' hn, hreach.run]
      cases limit - n <;> rw [run, hbroken]

/-- A run breaks exactly at a state that the signal reaches within the limit. -/
theorem run_eq_broken_iff {limit : Nat} {e : Break} : s.run b limit = .broken t e ↔
    ∃ n ≤ limit, Reaches b s n t ∧ t.step b = .broken e := by
  rw [run_eq_iff]
  constructor
  · rintro (_ | _ | ⟨hn, hreach, hbroken⟩)
    exact ⟨_, hn, hreach, hbroken⟩
  · rintro ⟨n, hn, hreach, hbroken⟩
    exact .broken hn hreach hbroken

/-- A run arrives exactly at an output that the signal reaches within the limit. -/
theorem run_eq_reached_iff {limit : Nat} : s.run b limit = .reached t ↔
    ∃ n ≤ limit, Reaches b s n t ∧ t.step b = .halted := by
  rw [run_eq_iff]
  constructor
  · rintro (⟨hn, hreach, hhalt⟩ | _ | _)
    exact ⟨_, hn, hreach, hhalt⟩
  · rintro ⟨n, hn, hreach, hhalt⟩
    exact .reached hn hreach hhalt

/-- A run is over the limit exactly if the signal makes one move more than that. -/
theorem run_eq_overLimit_iff {limit : Nat} :
    s.run b limit = .overLimit t ↔ Reaches b s (limit + 1) t := by
  rw [run_eq_iff]
  constructor
  · rintro (_ | hreach | _)
    exact hreach
  · exact .overLimit

end Signal

namespace Ending

variable {e : Ending} {input input' : String} {limit shown : Nat}

theorem result_eq_ok_iff {text : String} :
    e.result input limit = .ok text ↔ ∃ s, e = .reached s ∧ s.text = text := by
  cases e <;> simp [result]

theorem result_eq_overLimit_iff :
    e.result input limit = .error (.overLimit input' shown) ↔
      input' = input ∧ shown = limit ∧ ∃ s, e = .overLimit s := by
  cases e <;> simp [result, eq_comm]

theorem result_eq_broken_iff {x : Break} :
    e.result input limit = .error (.broken x) ↔ ∃ s, e = .broken s x := by
  cases e <;> simp [result]

end Ending

/-- A runner after so many steps. -/
def Runner.steps : Nat → Runner → Except Break Runner
  | 0, r => .ok r
  | n + 1, r =>
    match r.steps n with
    | .error e => .error e
    | .ok t => t.step.map (·.2)

/-- The runner that runs `b` and holds the signal `s`. -/
def Runner.holding (r : Runner) (b : Board) (s : Signal) : Runner :=
  { r with running := some (b, s) }

namespace Runner

variable {b : Board} {r r' : Runner} {s : Signal} {input : String}

@[simp] theorem here?_holding : (r.holding b s).here? = some s.here := rfl

/-- A step of a runner is a step of its signal; at an output it changes nothing. -/
theorem step_holding (r : Runner) (b : Board) (s : Signal) :
    ((r.holding b s).step).map (·.2) =
      match s.step b with
      | .halted => .ok (r.holding b s)
      | .broken e => .error e
      | .moved t => .ok (r.holding b t) := by
  unfold step holding
  dsimp only
  cases s.step b <;> rfl

theorem step_holding_eq_error_iff {e : Break} :
    (r.holding b s).step = .error e ↔ s.step b = .broken e := by
  unfold step holding
  dsimp only
  cases s.step b <;> simp

/-- One step more of a runner that holds `s`. -/
theorem steps_succ {k : Nat} (h : r.steps k = .ok (r'.holding b s)) :
    r.steps (k + 1) = match s.step b with
      | .halted => .ok (r'.holding b s)
      | .broken e => .error e
      | .moved t => .ok (r'.holding b t) := by
  rw [steps, h]
  exact step_holding r' b s

/-- **What a runner holds after a reset**: a state that the signal reaches from the
entry, in as many moves as steps were made unless it has come to an end. -/
theorem steps_reset_eq_ok {k : Nat} (h : (r.reset b input).steps k = .ok r') :
    ∃ n s, n ≤ k ∧ (n = k ∨ s.step b = .halted) ∧
      Signal.Reaches b (Signal.enter b (Word.ofText input)) n s ∧ r' = r.holding b s := by
  induction k generalizing r' with
  | zero =>
    cases h
    exact ⟨0, _, Nat.le_refl _, Or.inl rfl, .start, rfl⟩
  | succ k ih =>
    cases ht : (r.reset b input).steps k with
    | error e => rw [steps, ht] at h; cases h
    | ok t =>
      obtain ⟨n, s, hn, hend, hreach, rfl⟩ := ih ht
      rw [steps_succ ht] at h
      cases hstep : s.step b with
      | halted =>
        rw [hstep] at h
        cases h
        exact ⟨n, s, by omega, Or.inr hstep, hreach, rfl⟩
      | broken e => rw [hstep] at h; cases h
      | moved u =>
        rw [hstep] at h
        cases h
        have hnk : n = k := by
          rcases hend with hnk | hhalt
          · exact hnk
          · rw [hhalt] at hstep; cases hstep
        exact ⟨n + 1, u, by omega, Or.inl (by omega), .move hreach hstep, rfl⟩

/-- What the signal reaches, the runner comes to hold. -/
theorem steps_of_reaches {n : Nat}
    (h : Signal.Reaches b (Signal.enter b (Word.ofText input)) n s) :
    (r.reset b input).steps n = .ok (r.holding b s) := by
  induction h with
  | start => rfl
  | move _ hstep ih => rw [steps_succ ih, hstep]

/-- Where no state that the signal reaches breaks, a runner can go on for ever. -/
theorem exists_steps (h : ∀ n s, Signal.Reaches b (Signal.enter b (Word.ofText input)) n s →
    ∀ e, s.step b ≠ .broken e) (k : Nat) : ∃ r', (r.reset b input).steps k = .ok r' := by
  induction k with
  | zero => exact ⟨_, rfl⟩
  | succ k ih =>
    obtain ⟨t, ht⟩ := ih
    obtain ⟨n, s, _, _, hreach, rfl⟩ := steps_reset_eq_ok ht
    rw [steps_succ ht]
    cases hstep : s.step b with
    | halted => exact ⟨_, rfl⟩
    | moved u => exact ⟨_, rfl⟩
    | broken e => exact absurd hstep (h n s hreach e)

end Runner

end CipherBoard
