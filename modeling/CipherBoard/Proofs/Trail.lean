/-
CipherBoard.Proofs.Trail — what a signal knows of its way.

The trail of a run is the list of the pieces that the signal has left, in the order of
its visits; a piece that was left twice stands there twice. The trail and the word
that the signal set out with determine the word that it carries and the outcome by
which repeaters choose.

* `pass_input`, `pass_word`, `pass_outcome`, `way_eq_wayOf` — what a piece makes of a
  signal, field by field, with what it leaves alone.
* `wordAfter`, `LastOutcome` — word and outcome, read off a trail.
* `Signal.Leaves` — the signal gets from one state to another and leaves a trail.
* `Leaves.remembers` — a signal carries what its trail says, by induction over the
  moves of the run.
* `trail_determines` — the same for a runner that makes single steps, with the way that
  each step takes and the end of the run.
-/
import CipherBoard.Proofs.Board

namespace CipherBoard

/-! ## Section 1 — what a trail says -/

namespace Behaviour

/-- The step that a transform applies to the word. -/
def transform? : Behaviour → Option Transform
  | .transform op => some op
  | _ => none

/-- The outcome that a test comes to, for the word at hand and the word at the entry. -/
def verdict? (word input : Word) : Behaviour → Option Bool
  | .test c => some (c.holds word input)
  | .testNot c => some (!c.holds word input)
  | _ => none

/-- Whether a behaviour comes to an outcome of its own. -/
def isTest : Behaviour → Bool
  | .test _ | .testNot _ => true
  | _ => false

/-- Whether the first way is taken, where that depends on an outcome. -/
def choice? (outcome : Bool) : Behaviour → Option Bool
  | .test _ | .testNot _ | .repeater => some outcome
  | .inverseRepeater => some !outcome
  | _ => none

theorem verdict?_eq_none_iff {be : Behaviour} {word input : Word} :
    be.verdict? word input = none ↔ be.isTest = false := by
  cases be <;> simp [verdict?, isTest]

end Behaviour

/-- The transforms on a trail, in the order of the visits. -/
def transforms (trail : List Piece) : List Transform :=
  trail.filterMap (·.behaviour.transform?)

/-- The word that the transforms on a trail make of the word at the entry. -/
def wordAfter (input : Word) (trail : List Piece) : Word :=
  (transforms trail).foldl (fun word op => op.apply word) input

/-- The outcome of the last test on a trail, for the word as it was when the signal left that
test; false on a trail without a test. -/
def LastOutcome (input : Word) (trail : List Piece) (outcome : Bool) : Prop :=
  (∃ before p after, trail = before ++ p :: after ∧
    p.behaviour.verdict? (wordAfter input before) input = some outcome ∧
    ∀ q ∈ after, q.behaviour.isTest = false) ∨
  ((∀ q ∈ trail, q.behaviour.isTest = false) ∧ outcome = false)

variable {input : Word} {trail : List Piece} {p : Piece} {outcome : Bool}

@[simp] theorem wordAfter_nil : wordAfter input [] = input := rfl

theorem wordAfter_concat : wordAfter input (trail ++ [p]) =
    (p.behaviour.transform?).elim (wordAfter input trail)
      (fun op => op.apply (wordAfter input trail)) := by
  unfold wordAfter transforms
  rw [List.filterMap_append, List.foldl_append]
  cases h : p.behaviour.transform? <;> simp [h]

theorem lastOutcome_nil : LastOutcome input [] false := by
  right
  simp

/-- A test at the end of a trail decides. -/
theorem lastOutcome_of_verdict
    (h : p.behaviour.verdict? (wordAfter input trail) input = some outcome) :
    LastOutcome input (trail ++ [p]) outcome := by
  left
  exact ⟨trail, p, [], rfl, h, by simp⟩

/-- A piece that is no test leaves the decision to those before it. -/
theorem LastOutcome.concat (h : LastOutcome input trail outcome)
    (hp : p.behaviour.isTest = false) : LastOutcome input (trail ++ [p]) outcome := by
  rcases h with ⟨before, q, after, rfl, hverdict, hafter⟩ | ⟨hnone, rfl⟩
  · refine Or.inl ⟨before, q, after ++ [p], by simp, hverdict, ?_⟩
    simpa [or_imp, forall_and, hp] using hafter
  · refine Or.inr ⟨?_, rfl⟩
    simpa [or_imp, forall_and, hp] using hnone

/-! ## Section 2 — one piece -/

namespace Signal

variable {b : Board} {s t u : Signal} {way : Nat}

theorem pass_input (h : s.pass p = some (t, way)) : t.input = s.input := by
  unfold pass at h
  split at h
  case h_1 => cases h
  case h_8 => split at h <;> cases h <;> rfl
  all_goals cases h; rfl

/-- Only a transform changes the word. -/
theorem pass_word (h : s.pass p = some (t, way)) :
    t.word = (p.behaviour.transform?).elim s.word (fun op => op.apply s.word) := by
  unfold pass at h
  split at h
  case h_1 => cases h
  case h_8 hb => split at h <;> cases h <;> rw [hb] <;> rfl
  all_goals
    rename_i hb
    cases h
    rw [hb]
    rfl

/-- Only a test changes the outcome. -/
theorem pass_outcome (h : s.pass p = some (t, way)) :
    t.outcome = (p.behaviour.verdict? s.word s.input).getD s.outcome := by
  unfold pass at h
  split at h
  case h_1 => cases h
  case h_8 hb => split at h <;> cases h <;> rw [hb] <;> rfl
  all_goals
    rename_i hb
    cases h
    rw [hb]
    rfl

/-- A piece that chooses by the outcome goes by the one that it leaves behind. -/
theorem way_eq_wayOf (h : s.pass p = some (t, way)) {first : Bool}
    (hfirst : p.behaviour.choice? t.outcome = some first) : way = wayOf first := by
  unfold pass at h
  split at h
  case h_1 => cases h
  case h_8 hb => rw [hb] at hfirst; cases hfirst
  all_goals
    rename_i hb
    cases h
    rw [hb] at hfirst
    cases hfirst
  all_goals rfl

/-- What a signal that set out with a word and has left the pieces of a trail carries. -/
structure Remembers (start : Word) (trail : List Piece) (s : Signal) : Prop where
  input : s.input = start
  word : s.word = wordAfter start trail
  outcome : LastOutcome start trail s.outcome

theorem remembers_enter (b : Board) (input : Word) : (enter b input).Remembers input [] :=
  ⟨rfl, rfl, lastOutcome_nil⟩

/-- **What one piece adds to the memory of a signal**: itself, at the end of the trail. -/
theorem Remembers.pass (h : s.Remembers input trail) (hpass : s.pass p = some (t, way)) :
    t.Remembers input (trail ++ [p]) where
  input := by rw [pass_input hpass, h.input]
  word := by rw [pass_word hpass, wordAfter_concat, h.word]
  outcome := by
    rw [pass_outcome hpass, h.word, h.input]
    cases hverdict : p.behaviour.verdict? (wordAfter input trail) input with
    | some outcome => exact lastOutcome_of_verdict hverdict
    | none => exact h.outcome.concat (Behaviour.verdict?_eq_none_iff.1 hverdict)

/-! ## Section 3 — whole runs -/

/-- The signal gets from `s` to `t` and leaves the pieces of the trail, in their order. -/
inductive Leaves (b : Board) (s : Signal) : List Piece → Signal → Prop
  | start : Leaves b s [] s
  | move {trail : List Piece} {p : Piece} {t u : Signal} : Leaves b s trail t →
      b.pieces[t.here]? = some p → t.step b = .moved u → Leaves b s (trail ++ [p]) u

/-- A run of `n` moves leaves `n` pieces. -/
theorem Reaches.exists_trail {n : Nat} (h : Reaches b s n t) :
    ∃ trail, Leaves b s trail t ∧ trail.length = n := by
  induction h with
  | start => exact ⟨[], .start, rfl⟩
  | move _ hstep ih =>
    obtain ⟨trail, hleaves, hlen⟩ := ih
    obtain ⟨p, _, _, _, hp, _⟩ := step_eq_moved_iff.mp hstep
    exact ⟨trail ++ [p], hleaves.move hp hstep, by simp [hlen]⟩

/-- A trail is as long as the run. -/
theorem Leaves.reaches (h : Leaves b s trail t) : Reaches b s trail.length t := by
  induction h with
  | start => exact .start
  | move _ _ hstep ih =>
    rw [List.length_append]
    exact ih.move hstep

/-- A signal leaves pieces of the board only. -/
theorem Leaves.mem_pieces (h : Leaves b s trail t) : ∀ p ∈ trail, p ∈ b.pieces := by
  induction h with
  | start => exact fun _ hp => absurd hp List.not_mem_nil
  | move _ hp _ ih =>
    intro q hq
    rcases List.mem_append.mp hq with hbefore | hlast
    · exact ih q hbefore
    · rw [List.mem_singleton.mp hlast]
      exact Array.mem_of_getElem? hp

/-- One move more. -/
theorem Remembers.step (h : s.Remembers input trail) (hp : b.pieces[s.here]? = some p)
    (hstep : s.step b = .moved t) : t.Remembers input (trail ++ [p]) := by
  obtain ⟨p', passed, way, target, hp', hpass, _, _, rfl⟩ := step_eq_moved_iff.mp hstep
  rw [hp] at hp'
  cases hp'
  obtain ⟨hinput, hword, houtcome⟩ := h.pass hpass
  exact ⟨hinput, hword, houtcome⟩

/-- **A signal carries what its trail says**, however long the trail is. -/
theorem Leaves.remembers (h : Leaves b (enter b input) trail s) : s.Remembers input trail := by
  induction h with
  | start => exact remembers_enter b input
  | move _ hp hstep ih => exact ih.step hp hstep

/-- A step takes the first way of a piece that chooses exactly if the outcome says so. -/
theorem here_of_choice (hp : b.pieces[s.here]? = some p) (hstep : s.step b = .moved t)
    {first : Bool} (hfirst : p.behaviour.choice? t.outcome = some first) :
    p.next[wayOf first]? = some t.here := by
  obtain ⟨p', passed, way, target, hp', hpass, hnext, _, rfl⟩ := step_eq_moved_iff.mp hstep
  rw [hp] at hp'
  cases hp'
  rw [← way_eq_wayOf hpass hfirst]
  exact hnext

end Signal

/-! ## Section 4 — runners -/

namespace Runner

variable {b : Board} {r r' : Runner} {s : Signal}

/-- What a step of a runner answers: a position exactly if the signal moves. -/
theorem step_holding_eq_some_iff {pos : Point} :
    (r.holding b s).step = .ok (some pos, r') ↔
      ∃ t, s.step b = .moved t ∧ b.pieces[t.here]?.map (·.pos) = some pos ∧ r' = r.holding b t := by
  unfold step holding
  dsimp only
  cases s.step b <;> simp [eq_comm]

/-- A runner whose signal stands on an output answers with no position, and stays as it is. -/
theorem step_of_finished (h : (r.holding b s).finished = true) :
    (r.holding b s).step = .ok (none, r.holding b s) := by
  have hhalt : s.step b = .halted := Signal.finished_iff.mp h
  unfold step holding
  dsimp only
  rw [hhalt]

theorem steps_of_finished (h : (r.holding b s).finished = true) (k : Nat) :
    (r.holding b s).steps k = .ok (r.holding b s) := by
  induction k with
  | zero => rfl
  | succ k ih =>
    rw [steps_succ ih, Signal.finished_iff.mp h]

end Runner

/-- **The trail determines the state.** After any number of steps from a reset, a runner holds a
signal that has left a piece with each step, unless it stands on an output. It remembers the
input as it was; its word is what the transforms on the trail make of the input; its outcome is
that of the last test on the trail. A step that moves the signal adds the piece to the trail, and
takes the first way of a test or repeater exactly if the outcome is true then, and of an inverse
repeater exactly if it is false. On an output nothing moves or changes any more. -/
theorem trail_determines {b : Board} {r r' : Runner} {input : String} {n : Nat}
    (h : (r.reset b input).steps n = .ok r') :
    ∃ trail s, r' = r.holding b s ∧
      Signal.Leaves b (Signal.enter b (Word.ofText input)) trail s ∧
      (trail.length = n ∨ trail.length < n ∧ r'.finished = true) ∧
      s.Remembers (Word.ofText input) trail ∧
      (∀ pos r'', r'.step = .ok (some pos, r'') → ∃ p t, b.pieces[s.here]? = some p ∧
        r'' = r.holding b t ∧ t.Remembers (Word.ofText input) (trail ++ [p]) ∧
        ∀ first, p.behaviour.choice? t.outcome = some first →
          p.next[if first then 0 else 1]? = some t.here) ∧
      ∀ p, b.pieces[s.here]? = some p → p.behaviour = .stop →
        r'.step = .ok (none, r') ∧ ∀ k, r'.steps k = .ok r' := by
  obtain ⟨m, s, hm, hend, hreach, rfl⟩ := Runner.steps_reset_eq_ok h
  obtain ⟨trail, hleaves, hlen⟩ := hreach.exists_trail
  have hmem := hleaves.remembers
  refine ⟨trail, s, rfl, hleaves, ?_, hmem, ?_, ?_⟩
  · rcases hend with rfl | hhalt
    · exact Or.inl hlen
    · rcases Nat.lt_or_eq_of_le hm with hlt | heq
      · exact Or.inr ⟨hlen ▸ hlt, Signal.finished_iff.mpr hhalt⟩
      · exact Or.inl (hlen.trans heq)
  · intro pos r'' hstep
    obtain ⟨t, hmoved, _, rfl⟩ := Runner.step_holding_eq_some_iff.1 hstep
    obtain ⟨p, _, _, _, hp, _⟩ := Signal.step_eq_moved_iff.mp hmoved
    exact ⟨p, t, hp, rfl, hmem.step hp hmoved,
      fun first hfirst => Signal.here_of_choice hp hmoved hfirst⟩
  · intro p hp hstop
    have hfinished : (r.holding b s).finished = true :=
      Signal.finished_iff.mpr (Signal.step_eq_halted_iff.mpr ⟨p, hp, hstop⟩)
    exact ⟨Runner.step_of_finished hfinished, Runner.steps_of_finished hfinished⟩

/-- A piece of a board that is wired by hand. -/
def Piece.wired (id : Nat) (role : Role) (behaviour : Behaviour) (next : List Nat) : Piece where
  id := id
  className := ""
  role := role
  pos := .zero
  turn := .none
  payload := .none
  behaviour := behaviour
  next := next

/-- A test whether the word is still the first one. If it is, its letters are moved on and it is
tested again; if not, an inverse repeater sends it to the first of two outputs. -/
def shiftOnce : Board where
  entry := 0
  pieces := #[.wired 0 .input .forward [1], .wired 1 .branch (.test .unchanged) [2, 3],
    .wired 2 .transform (.transform (.letters .next .all)) [1],
    .wired 3 .branch .inverseRepeater [4, 5], .wired 4 .output .stop [], .wired 5 .output .stop []]
  requiredCount := 0
  keywords := []
  encoded := []
  families := .empty

/-- The test is left twice, the second time with another outcome. -/
theorem shiftOnce_remembers :
    ∃ r trail, (Runner.fresh.reset shiftOnce "abc").steps 5 = .ok r ∧ r.here? = some 4 ∧
      wordAfter (Word.ofText "abc") trail = Word.ofText "bcd" ∧
      LastOutcome (Word.ofText "abc") trail false ∧ r.step = .ok (none, r) := by
  obtain ⟨r, hsteps, hshape⟩ := exists_ok_of_any
    (show ((Runner.fresh.reset shiftOnce "abc").steps 5).toOption.any (fun r =>
      r.here? == some 4 && r.word == Word.ofText "bcd" && !r.outcome) = true by decide +kernel)
  obtain ⟨trail, s, rfl, _, _, hmem, _, hend⟩ := trail_determines hsteps
  simp only [Bool.and_eq_true, beq_iff_eq, Bool.not_eq_true'] at hshape
  obtain ⟨⟨hhere, hword⟩, houtcome⟩ := hshape
  have hat : s.here = 4 := Option.some.inj hhere
  have hlast : s.outcome = false := houtcome
  refine ⟨_, trail, hsteps, hhere, hmem.word.symm.trans hword, hlast ▸ hmem.outcome, ?_⟩
  exact (hend (.wired 4 .output .stop []) (by rw [hat]; rfl) rfl).1

end CipherBoard
