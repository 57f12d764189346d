/-
CipherBoard.Proofs.Steering — boards on which no word is tested.

A word steers the signal that carries it at tests and nowhere else: repeaters go by the outcome
of the last test, and countdowns count visits. On a board without tests all signals go one way,
so that the board makes of every word what one list of transforms makes of it. If these can be
undone, it makes different words of different words.

* `Board.Testless` — no piece tests the word.
* `Signal.SameCourse` — two signals differ in their words only; `SameCourse.pass`,
  `SameCourse.step` and `Leaves.exists_twin` say that they stay so, by a piece, by a step, by
  a whole run.
* `steps_sameCourse` — the same for runners that make single steps.
* `exists_course` — the transforms that a board without tests applies, whatever the input.
* `testless_law` — these together, with what they mean for collisions in a session.
-/
import CipherBoard.Proofs.Countdown
import CipherBoard.Proofs.Decoding
import CipherBoard.Proofs.Undoing

namespace CipherBoard

/-! ## Section 1 — signals on one course -/

/-- No piece of the board tests the word. -/
def Board.Testless (b : Board) : Prop :=
  ∀ p ∈ b.pieces, p.behaviour.isTest = false

instance (b : Board) : Decidable b.Testless :=
  decidable_of_iff (∀ p ∈ b.pieces.toList, p.behaviour.isTest = false) (by
    simp only [Array.mem_toList_iff, Board.Testless])

namespace Signal

variable {b : Board} {s t s' : Signal} {p : Piece} {way : Nat} {trail : List Piece}

/-- Two signals differ in their words only. -/
structure SameCourse (s t : Signal) : Prop where
  here : t.here = s.here
  counters : t.counters = s.counters
  outcome : t.outcome = s.outcome

theorem sameCourse_enter (b : Board) (word word' : Word) :
    (enter b word).SameCourse (enter b word') :=
  ⟨rfl, rfl, rfl⟩

/-- A piece that is no test sends both signals the same way. -/
theorem SameCourse.pass (h : s.SameCourse t) (hp : p.behaviour.isTest = false)
    (hpass : s.pass p = some (s', way)) : ∃ t', t.pass p = some (t', way) ∧ s'.SameCourse t' := by
  unfold Signal.pass at hpass ⊢
  cases hb : p.behaviour with
  | stop => rw [hb] at hpass; cases hpass
  | test c => rw [hb] at hp; cases hp
  | testNot c => rw [hb] at hp; cases hp
  | forward =>
    rw [hb] at hpass
    cases hpass
    exact ⟨t, rfl, h⟩
  | transform op =>
    rw [hb] at hpass
    cases hpass
    exact ⟨_, rfl, h.here, h.counters, h.outcome⟩
  | repeater =>
    rw [hb] at hpass
    cases hpass
    exact ⟨t, by rw [h.outcome], h⟩
  | inverseRepeater =>
    rw [hb] at hpass
    cases hpass
    exact ⟨t, by rw [h.outcome], h⟩
  | countdown start =>
    rw [hb] at hpass
    dsimp only at hpass ⊢
    rw [h.counters]
    split at hpass
    · cases hpass
      exact ⟨t, rfl, h⟩
    · cases hpass
      exact ⟨_, rfl, h.here, rfl, h.outcome⟩

end Signal

/-- Two steps come to the same, up to the words of the signals. -/
inductive Motion.SameCourse : Motion → Motion → Prop
  | halted : SameCourse .halted .halted
  | moved {s t : Signal} : s.SameCourse t → SameCourse (.moved s) (.moved t)
  | broken (e : Break) : SameCourse (.broken e) (.broken e)

namespace Signal

variable {b : Board} {s t s' : Signal} {trail : List Piece}

/-- **One step** of two signals on one course: the same step, and the same course after it. -/
theorem SameCourse.step (h : s.SameCourse t) (hb : b.Testless) :
    (s.step b).SameCourse (t.step b) := by
  unfold Signal.step
  rw [h.here]
  cases hp : b.pieces[s.here]? with
  | none => exact .broken _
  | some p =>
    dsimp only
    cases hpass : s.pass p with
    | none =>
      rw [pass_eq_none_iff.mpr (pass_eq_none_iff.mp hpass)]
      exact .halted
    | some passed =>
      obtain ⟨passed, way⟩ := passed
      obtain ⟨passed', hpass', hsame⟩ := h.pass (hb p (Array.mem_of_getElem? hp)) hpass
      rw [hpass']
      dsimp only
      cases p.next[way]? with
      | none => exact .broken _
      | some target =>
        dsimp only
        split
        · exact .moved ⟨rfl, hsame.counters, hsame.outcome⟩
        · exact .broken _

/-- **A whole run**: what one signal leaves behind on its way, the other does too. -/
theorem Leaves.exists_twin (h : Leaves b s trail s') (hb : b.Testless) (hst : s.SameCourse t) :
    ∃ t', Leaves b t trail t' ∧ s'.SameCourse t' := by
  induction h with
  | start => exact ⟨t, .start, hst⟩
  | @move trail p u s' _ hp hstep ih =>
    obtain ⟨v, hleaves, huv⟩ := ih
    -- The step that moves the one signal moves the other.
    have hsame := huv.step hb
    rw [hstep] at hsame
    generalize hv : v.step b = m at hsame
    cases hsame with
    | @moved _ t' hmoved => exact ⟨t', hleaves.move (huv.here ▸ hp) hv, hmoved⟩

end Signal

/-! ## Section 2 — runners on one course -/

namespace Runner

variable {b : Board} {r r' : Runner} {input input' : String}

/-- Two runners hold signals on one course, or have broken alike. -/
inductive SameCourse (b : Board) : Except Break Runner → Except Break Runner → Prop
  | held {r r' : Runner} {s t : Signal} : s.SameCourse t →
      SameCourse b (.ok (r.holding b s)) (.ok (r'.holding b t))
  | broken (e : Break) : SameCourse b (.error e) (.error e)

/-- **However many steps** two runners make from a reset, they keep to one course. -/
theorem steps_sameCourse (hb : b.Testless) (r r' : Runner) (input input' : String) (n : Nat) :
    SameCourse b ((r.reset b input).steps n) ((r'.reset b input').steps n) := by
  induction n with
  | zero => exact .held (Signal.sameCourse_enter b _ _)
  | succ n ih =>
    generalize hleft : (r.reset b input).steps n = left at ih
    generalize hright : (r'.reset b input').steps n = right at ih
    cases ih with
    | broken e =>
      rw [steps, steps, hleft, hright]
      exact .broken e
    | @held _ _ s t h =>
      rw [steps_succ hleft, steps_succ hright]
      have hmotion := h.step hb
      generalize s.step b = left, t.step b = right at hmotion
      cases hmotion with
      | halted => exact .held h
      | moved hmoved => exact .held hmoved
      | broken e => exact .broken e

/-- What there is to see of a runner but words: where it is, and whether that is the end. -/
theorem SameCourse.map_here {left right : Except Break Runner} (h : SameCourse b left right) :
    left.map (fun t => (t.here?, t.finished)) = right.map fun t => (t.here?, t.finished) := by
  cases h with
  | broken e => rfl
  | @held r r' s t h =>
    have hfinished : s.finished b = t.finished b := by
      unfold Signal.finished
      rw [h.here]
    show Except.ok (some s.here, s.finished b) = Except.ok (some t.here, t.finished b)
    rw [h.here, hfinished]

end Runner

/-! ## Section 3 — results -/

variable {b : Board} {limit limit' : Nat} {input input' text : String}

/-- **The course of a board.** If one input has a result, there are pieces whose transforms make
of every input what the board makes of it. -/
theorem exists_course (hb : b.Testless) (h : b.encode limit input = .ok text) :
    ∃ trail, (∀ p ∈ trail, p ∈ b.pieces) ∧ ∀ input',
      b.encode limit input' = .ok (Text.decodeLossy (wordAfter (Word.ofText input') trail)) := by
  obtain ⟨n, hn, s, hreach, hhalt, _⟩ := Board.encode_eq_ok_iff.mp h
  obtain ⟨trail, hleaves, rfl⟩ := hreach.exists_trail
  refine ⟨trail, hleaves.mem_pieces, fun input' => ?_⟩
  obtain ⟨t, hleaves', hst⟩ := hleaves.exists_twin hb
    (Signal.sameCourse_enter b (Word.ofText input) (Word.ofText input'))
  have hhalt' : t.step b = .halted := by
    have hsame := hst.step hb
    rw [hhalt] at hsame
    generalize t.step b = m at hsame
    cases hsame
    rfl
  refine Board.encode_eq_ok_iff.mpr ⟨trail.length, hn, t, hleaves'.reaches, hhalt', ?_⟩
  rw [Signal.text, hleaves'.remembers.word]

/-- **Different words are made of different words**, under whatever limits. -/
theorem eq_of_encode_eq (hb : b.Testless) (hreversible : Reversible b.pieces.toList)
    (hinput : IsLowerText input) (hinput' : IsLowerText input')
    (h : b.encode limit input = .ok text) (h' : b.encode limit' input' = .ok text) :
    input = input' := by
  obtain ⟨trail, hpieces, hcourse⟩ := exists_course hb h
  have htext := Board.encode_unique h (hcourse input)
  have htext' := Board.encode_unique h' (hcourse input')
  have hlower := (Word.ofText_of_isLowerText hinput).1
  have hlower' := (Word.ofText_of_isLowerText hinput').1
  -- The texts are the same, and so are the words that they spell.
  have hwords := congrArg Word.ofText (htext.symm.trans htext')
  rw [Word.ofText_decodeLossy (isLower_wordAfter hlower trail),
    Word.ofText_decodeLossy (isLower_wordAfter hlower' trail)] at hwords
  have htrail : Reversible trail := fun p hp =>
    hreversible p (Array.mem_toList_iff.mpr (hpieces p hp))
  have hsame := eq_of_wordAfter_eq htrail hlower hlower' hwords
  rw [← Word.decodeLossy_ofText hinput, hsame, Word.decodeLossy_ofText hinput']

/-- **What collides is a keyword**, where nothing is lost. -/
theorem keyword_of_collision {l : Layout} {origin : Point} {s t : Session} {i : Nat}
    (hb : b.Testless) (hreversible : Reversible b.pieces.toList)
    (hbuild : l.build origin limit = .ok b) (hkeywords : ∀ k ∈ b.keywords, IsLowerText k)
    (hs : Session.Reachable b s) (hinput : IsLowerText input)
    (h : s.submit input = .ok (.collision i text, t)) : b.keywords[i]? = some input := by
  obtain ⟨output, hencode, hrecord⟩ := Session.submit_eq_ok_iff.mp h
  have hboard : s.board = b := hs.upheld.board
  rw [hboard] at hencode
  obtain ⟨hi, rfl⟩ : b.encoded[i]? = some output ∧ output = text := by
    rcases (s.send input).2.record_cases input output with
      ⟨_, hrec⟩ | ⟨_, _, _, hrec⟩ | ⟨_, _, j, hj, hrec⟩ | ⟨_, _, _, hrec⟩
    all_goals rw [hrec] at hrecord; cases hrecord
    have hfirst := (idxOf?_eq_some_iff_getElem?.mp hj).1
    exact ⟨hboard ▸ hfirst, rfl⟩
  obtain ⟨keyword, hkeyword, hrun⟩ := Layout.exists_keyword hbuild hi
  rw [hkeyword, eq_of_encode_eq hb hreversible hinput
    (hkeywords keyword (List.mem_of_getElem? hkeyword)) hencode hrun]

/-- **Boards without tests.** Whatever two inputs are, runners that are sent them stand on the same
pieces step by step, and come to an output, or break, in the same step. So an input has a result
within a step limit exactly if every other has. If the board has only transforms that can be
undone, no two inputs over `a` … `z` have one output, under whatever step limits; and if the
keywords are over `a` … `z`, an input over `a` … `z` that collides in a session is the keyword
that it collides with. -/
theorem testless_law {b : Board} (hb : b.Testless) :
    (∀ (r r' : Runner) (input input' : String) (n : Nat),
      ((r.reset b input).steps n).map (fun t => (t.here?, t.finished)) =
        ((r'.reset b input').steps n).map fun t => (t.here?, t.finished)) ∧
    (∀ (r : Runner) (input input' : String),
      (∃ text, (r.exec b input).1 = .ok text) ↔ ∃ text, (r.exec b input').1 = .ok text) ∧
    (Reversible b.pieces.toList →
      (∀ (r r' : Runner) (input input' text : String), IsLowerText input → IsLowerText input' →
        (r.exec b input).1 = .ok text → (r'.exec b input').1 = .ok text → input = input') ∧
      ∀ (l : Layout) (origin : Point) (limit : Nat), l.build origin limit = .ok b →
        (∀ keyword ∈ b.keywords, IsLowerText keyword) →
        ∀ (s t : Session) (input output : String) (i : Nat), Session.Reachable b s →
          IsLowerText input → s.submit input = .ok (.collision i output, t) →
            b.keywords[i]? = some input) := by
  refine ⟨fun r r' input input' n => ?_, fun r input input' => ?_, fun hreversible => ⟨?_, ?_⟩⟩
  · exact (Runner.steps_sameCourse hb r r' input input' n).map_here
  · simp only [Runner.exec_fst]
    constructor
    · rintro ⟨text, h⟩
      obtain ⟨_, _, hcourse⟩ := exists_course hb h
      exact ⟨_, hcourse input'⟩
    · rintro ⟨text, h⟩
      obtain ⟨_, _, hcourse⟩ := exists_course hb h
      exact ⟨_, hcourse input⟩
  · intro r r' input input' text hinput hinput' h h'
    exact eq_of_encode_eq hb hreversible hinput hinput' h h'
  · intro l origin limit hbuild hkeywords s t input output i hs hinput h
    exact keyword_of_collision hb hreversible hbuild hkeywords hs hinput h

/-- Round the loop, `abc` and `xyz` go together and come out different, and only the keyword
collides with itself. -/
theorem countdownLoop_steers :
    ∃ b t, countdownLoop.build .zero 100 = .ok b ∧ b.Testless ∧
      ((Runner.fresh.reset b "abc").steps 16).map (fun t => (t.here?, t.finished)) =
        ((Runner.fresh.reset b "xyz").steps 16).map (fun t => (t.here?, t.finished)) ∧
      (∃ text, (Runner.fresh.exec b "xyz").1 = .ok text) ∧
      (Runner.fresh.exec b "xyz").1 ≠ .ok "def" ∧
      ((Session.start b).after "abc").submit "abc" = .ok (.collision 0 "def", t) ∧
      b.keywords[0]? = some "abc" := by
  obtain ⟨b, hbuild, hshape⟩ := exists_ok_of_any
    (show (countdownLoop.build .zero 100).toOption.any (fun b =>
      decide (b.Testless ∧ Reversible b.pieces.toList ∧ b.keywords = ["abc"]) &&
      ((Runner.fresh.exec b "abc").1.toOption.any (· == "def") &&
      (((Session.start b).after "abc").submit "abc").toOption.any
        (·.1 == .collision 0 "def"))) = true by decide +kernel)
  rw [Bool.and_eq_true, decide_eq_true_eq, Bool.and_eq_true] at hshape
  obtain ⟨⟨hb, hreversible, hkeywords⟩, hexec, hsubmit⟩ := hshape
  obtain ⟨text, habc, htext⟩ := exists_ok_of_any hexec
  cases beq_iff_eq.mp htext
  obtain ⟨⟨a, t⟩, ha, hattempt⟩ := exists_ok_of_any hsubmit
  cases beq_iff_eq.mp hattempt
  have hlower : ∀ w ∈ ["abc", "xyz"], IsLowerText w := by
    simp [IsLowerText]
  obtain ⟨hcourse, hresult, hkept⟩ := testless_law hb
  obtain ⟨hinjective, hcollision⟩ := hkept hreversible
  refine ⟨b, t, hbuild, hb, hcourse _ _ _ _ 16, (hresult _ "abc" "xyz").mp ⟨_, habc⟩, fun hxyz => ?_,
    ha, ?_⟩
  · exact absurd (hinjective _ _ "abc" "xyz" _ (hlower _ (by simp)) (hlower _ (by simp)) habc hxyz)
      (by decide)
  · have hwords : ∀ keyword ∈ b.keywords, IsLowerText keyword := by
      rw [hkeywords]
      exact fun w hw => hlower w (List.mem_cons.mpr (Or.inl (List.mem_singleton.mp hw)))
    exact hcollision countdownLoop .zero 100 hbuild hwords _ t "abc" "def" 0 (.after "abc" .start)
      (hlower _ (by simp)) ha

end CipherBoard
