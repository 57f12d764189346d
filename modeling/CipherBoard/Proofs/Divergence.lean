/-
CipherBoard.Proofs.Divergence — runs that never end.

A signal over a board can be in so many configurations and no more: its place, its word, the
outcome of the last test and the counters of the countdowns. What happens next depends on nothing
else, so a signal that has made more moves than there are configurations has been in one of them
twice, and goes round for ever.

* `Board.Configuration`, `Board.configurationCount` — the configurations, and how many they are
  (`card_configuration`).
* `Signal.Bounded` — a signal that is in one of them; `Bounded.step` says that a move keeps it
  there, `Reaches.bounded` that a run does.
* `overLimit_of_repeat` — a state that is reached twice is left behind again and again.
* `Reaches.overLimit` — so a run as long as there are configurations is over every limit.
* `divergence_decided` — what this means for runners, for single steps and for results.
-/
import CipherBoard.Proofs.Alphabet
import CipherBoard.Proofs.Breaks
import CipherBoard.Proofs.Countdown
import Mathlib.Algebra.BigOperators.Fin
import Mathlib.Data.Fintype.BigOperators
import Mathlib.Data.Fintype.Pigeonhole
import Mathlib.Data.FinEnum
import Mathlib.Data.Vector.Basic

namespace CipherBoard

/-! ## Section 1 — configurations -/

/-- The configurations of a signal on the board with a word of so many letters: an outcome, a
place, a word, and a counter for each piece up to the one with which it starts. -/
abbrev Board.Configuration (b : Board) (letters : Nat) : Type :=
  Bool × Fin b.pieces.size × List.Vector UInt8 letters ×
    ((i : Fin b.pieces.size) → Fin (Signal.startCounter b.pieces[i] + 1))

/-- The start numbers of the countdowns of the board. -/
def Board.startNumbers (b : Board) : List Nat :=
  b.pieces.toList.filterMap (·.behaviour.start?)

/-- How many configurations there are: only countdowns have more than one counter. -/
def Board.configurationCount (b : Board) (letters : Nat) : Nat :=
  2 * b.pieces.size * 256 ^ letters * (b.startNumbers.map (· + 1)).prod

theorem card_letter : Fintype.card UInt8 = 256 := by
  have h : Function.Bijective UInt8.toFin :=
    ⟨fun _ _ => UInt8.toFin_inj.mp, fun i => ⟨UInt8.ofFin i, rfl⟩⟩
  rw [Fintype.card_of_bijective h]
  exact Fintype.card_fin 256

/-- A piece that is no countdown adds nothing to the number of counters. -/
theorem prod_startCounter (pieces : List Piece) :
    (pieces.map fun p => Signal.startCounter p + 1).prod =
      ((pieces.filterMap (·.behaviour.start?)).map (· + 1)).prod := by
  induction pieces with
  | nil => rfl
  | cons p rest ih =>
    rw [List.map_cons, List.prod_cons, ih]
    cases hb : p.behaviour with
    | countdown start => simp [Behaviour.start?, Signal.startCounter, hb]
    | _ => simp [Behaviour.start?, Signal.startCounter, hb]

theorem card_configuration (b : Board) (letters : Nat) :
    Fintype.card (b.Configuration letters) = b.configurationCount letters := by
  have hcounters : (∏ i : Fin b.pieces.size, (Signal.startCounter b.pieces[i] + 1)) =
      (b.startNumbers.map (· + 1)).prod := by
    rw [Board.startNumbers, ← prod_startCounter, ← Fin.prod_univ_fun_getElem]
    rfl
  rw [Fintype.card_prod, Fintype.card_prod, Fintype.card_prod, Fintype.card_bool,
    Fintype.card_fin, card_vector, card_letter, Fintype.card_pi]
  simp only [Fintype.card_fin]
  rw [hcounters, Board.configurationCount]
  simp only [Nat.mul_assoc]

/-! ## Section 2 — signals in configurations -/

namespace Signal

variable {b : Board} {w : Word} {p : Piece} {s t u : Signal} {way : Nat}

/-- The signal is on the board, set out with the word and carries one of the same length, and no
counter is above its start. -/
structure Bounded (b : Board) (w : Word) (s : Signal) : Prop where
  here_lt : s.here < b.pieces.size
  input : s.input = w
  length_word : s.word.length = w.length
  size_counters : s.counters.size = b.pieces.size
  counter_le : ∀ (i : Nat) (p : Piece), b.pieces[i]? = some p →
    s.counters.getD i 0 ≤ startCounter p

theorem bounded_enter (hentry : b.entry < b.pieces.size) (w : Word) :
    (enter b w).Bounded b w where
  here_lt := hentry
  input := rfl
  length_word := rfl
  size_counters := Array.size_map
  counter_le i p hp := by
    simp [enter, hp]

/-- A piece leaves the counters alone, or takes one from its own. -/
theorem counters_of_pass (h : s.pass p = some (t, way)) : t.counters = s.counters ∨
    ∃ left, s.counters.getD p.id 0 = left + 1 ∧
      t.counters = s.counters.setIfInBounds p.id left := by
  cases hstart : p.behaviour.start? with
  | none => exact Or.inl (counters_of_plain h hstart)
  | some start =>
    unfold pass at h
    rw [Behaviour.start?_eq_some_iff.mp hstart] at h
    dsimp only at h
    split at h
    · cases h
      exact Or.inl rfl
    · rename_i left hleft
      cases h
      exact Or.inr ⟨left, hleft, rfl⟩

theorem length_word_of_pass (h : s.pass p = some (t, way)) : t.word.length = s.word.length := by
  rw [pass_word h]
  cases p.behaviour.transform? with
  | none => rfl
  | some op => exact op.length_apply s.word

/-- **A move** leads from one configuration to another. -/
theorem Bounded.step (h : s.Bounded b w) (hstep : s.step b = .moved t) : t.Bounded b w := by
  obtain ⟨p, passed, way, target, hp, hpass, _, hlt, rfl⟩ := step_eq_moved_iff.mp hstep
  refine ⟨hlt, (pass_input hpass).trans h.input,
    (length_word_of_pass hpass).trans h.length_word, ?_, ?_⟩
  · show passed.counters.size = b.pieces.size
    rcases counters_of_pass hpass with hsame | ⟨left, _, hless⟩
    · rw [hsame, h.size_counters]
    · rw [hless, Array.size_setIfInBounds, h.size_counters]
  · intro i q hq
    show passed.counters.getD i 0 ≤ startCounter q
    have hbefore := h.counter_le i q hq
    rcases counters_of_pass hpass with hsame | ⟨left, hleft, hless⟩
    · rw [hsame]
      exact hbefore
    · rw [hless]
      by_cases hi : p.id = i
      · subst hi
        have hset : (s.counters.setIfInBounds p.id left).getD p.id 0 ≤ left := by
          rw [Array.getD_eq_getD_getElem?, Array.getElem?_setIfInBounds_self]
          split <;> simp
        omega
      · rwa [Array.getD_eq_getD_getElem?, Array.getElem?_setIfInBounds_ne hi,
          ← Array.getD_eq_getD_getElem?]

/-- **A run** does not leave the configurations. -/
theorem Reaches.bounded {n : Nat} (h : Reaches b (enter b w) n s)
    (hentry : b.entry < b.pieces.size) : s.Bounded b w := by
  induction h with
  | start => exact bounded_enter hentry w
  | move _ hstep ih => exact ih.step hstep

/-- The configuration of a signal. -/
def Bounded.configuration (h : s.Bounded b w) : b.Configuration w.length :=
  (s.outcome, ⟨s.here, h.here_lt⟩, ⟨s.word, h.length_word⟩, fun i =>
    ⟨s.counters.getD i 0, Nat.lt_succ_of_le (h.counter_le i b.pieces[i] (by simp))⟩)

/-- Signals in one configuration are the same. -/
theorem Bounded.eq_of_configuration_eq (hs : s.Bounded b w) (ht : t.Bounded b w)
    (h : hs.configuration = ht.configuration) : s = t := by
  obtain ⟨houtcome, hrest⟩ := Prod.ext_iff.mp h
  obtain ⟨hplace, hrest⟩ := Prod.ext_iff.mp hrest
  obtain ⟨hletters, hcounts⟩ := Prod.ext_iff.mp hrest
  have hhere : s.here = t.here := congrArg Fin.val hplace
  have hword : s.word = t.word := congrArg Subtype.val hletters
  have hcounters : s.counters = t.counters := by
    apply Array.ext (hs.size_counters.trans ht.size_counters.symm)
    intro i hi hi'
    have hcount : s.counters.getD i 0 = t.counters.getD i 0 :=
      congrArg Fin.val (congrFun hcounts ⟨i, hs.size_counters ▸ hi⟩)
    simpa [hi, hi'] using hcount
  have hinput : s.input = t.input := hs.input.trans ht.input.symm
  cases s
  cases t
  rw [mk.injEq]
  exact ⟨hhere, hinput, hword, hcounters, houtcome⟩

/-! ## Section 3 — going round -/

/-- **A state that is reached twice** is reached again and again: whatever the limit, the run goes
beyond it. -/
theorem overLimit_of_repeat {i j : Nat} (hij : i < j) (hi : Reaches b s i u)
    (hj : Reaches b s j u) (limit : Nat) : ∃ t, s.run b limit = .overLimit t := by
  induction limit using Nat.strong_induction_on with
  | _ limit ih =>
    rcases Nat.lt_or_ge limit j with hlt | hge
    · obtain ⟨t, hreach⟩ := hj.exists_earlier hlt
      exact ⟨t, run_eq_overLimit_iff.mpr hreach⟩
    · -- The moves of one round are saved.
      obtain ⟨rest, rfl⟩ := Nat.exists_eq_add_of_le hge
      rw [hj.run, ← hi.run]
      exact ih (i + rest) (by omega)

/-- **A run as long as there are configurations** is over every limit. -/
theorem Reaches.overLimit (h : Reaches b (enter b w) (b.configurationCount w.length) s)
    (hentry : b.entry < b.pieces.size) (limit : Nat) :
    ∃ t, (enter b w).run b limit = .overLimit t := by
  have hstates (n : Fin (b.configurationCount w.length + 1)) :
      ∃ t, Reaches b (enter b w) n t :=
    h.exists_earlier (Nat.le_of_lt_succ n.isLt)
  choose state hstate using hstates
  have hcard : Fintype.card (b.Configuration w.length) <
      Fintype.card (Fin (b.configurationCount w.length + 1)) := by
    rw [card_configuration, Fintype.card_fin]
    exact Nat.lt_succ_self _
  obtain ⟨i, j, hne, hsame⟩ := Fintype.exists_ne_map_eq_of_card_lt
    (fun n => ((hstate n).bounded hentry).configuration) hcard
  have hstates : state i = state j := Bounded.eq_of_configuration_eq _ _ hsame
  have hi := hstate i
  rw [hstates] at hi
  rcases Nat.lt_or_gt_of_ne (Fin.val_ne_of_ne hne) with hlt | hgt
  · exact overLimit_of_repeat hlt hi (hstate j) limit
  · exact overLimit_of_repeat hgt (hstate j) hi limit

end Signal

/-! ## Section 4 — runners -/

/-- The step number `n` of the runner, counted from zero, moves its signal: it is made, and answers
with a position. -/
def Runner.MovesIn (r : Runner) (n : Nat) : Prop :=
  ∃ r' pos r'', r.steps n = .ok r' ∧ r'.step = .ok (some pos, r'')

variable {b : Board} {input : String} {limit : Nat}

theorem Runner.movesIn_iff {r : Runner} {n : Nat} : (r.reset b input).MovesIn n ↔
    ∃ t, Signal.Reaches b (Signal.enter b (Word.ofText input)) (n + 1) t := by
  constructor
  · rintro ⟨r', pos, r'', hsteps, hstep⟩
    obtain ⟨m, s, _, hend, hreach, rfl⟩ := steps_reset_eq_ok hsteps
    obtain ⟨t, hmoved, _, _⟩ := step_holding_eq_some_iff.mp hstep
    rcases hend with rfl | hhalt
    · exact ⟨t, hreach.move hmoved⟩
    · rw [hhalt] at hmoved
      cases hmoved
  · rintro ⟨t, hreach⟩
    cases hreach with
    | @move _ s _ hbefore hmoved =>
      obtain ⟨q, hq⟩ : ∃ q, b.pieces[t.here]? = some q := by
        obtain ⟨_, _, _, _, _, _, _, hlt, rfl⟩ := Signal.step_eq_moved_iff.mp hmoved
        exact ⟨_, Array.getElem?_eq_getElem hlt⟩
      have hpos : b.pieces[t.here]?.map (·.pos) = some q.pos := by
        rw [hq]
        rfl
      exact ⟨r.holding b s, q.pos, r.holding b t, steps_of_reaches hbefore,
        step_holding_eq_some_iff.mpr ⟨t, hmoved, hpos, rfl⟩⟩

/-- **A run over a limit that no shorter run needs** is over every limit. -/
theorem Board.encode_eq_overLimit (hentry : b.entry < b.pieces.size)
    (hlimit : b.configurationCount (Word.ofText input).length ≤ limit)
    (h : b.encode limit input = .error (.overLimit input limit)) (limit' : Nat) :
    b.encode limit' input = .error (.overLimit input limit') := by
  obtain ⟨_, _, s, hrun⟩ := Ending.result_eq_overLimit_iff.mp h
  obtain ⟨t, hreach⟩ := (Signal.run_eq_overLimit_iff.mp hrun).exists_earlier
    (Nat.le_succ_of_le hlimit)
  obtain ⟨u, hover⟩ := hreach.overLimit hentry limit'
  rw [Board.encode, hover]
  rfl

/-- **No result in as many moves as there are configurations** is no result at all. -/
theorem Board.exists_encode_eq_error (hentry : b.entry < b.pieces.size)
    (hlimit : b.configurationCount (Word.ofText input).length ≤ limit) {e : RunError}
    (h : b.encode limit input = .error e) (limit' : Nat) :
    ∃ e', b.encode limit' input = .error e' := by
  cases e with
  | overLimit input' shown =>
    obtain ⟨rfl, rfl, _⟩ := Ending.result_eq_overLimit_iff.mp h
    exact ⟨_, encode_eq_overLimit hentry hlimit h limit'⟩
  | broken x =>
    cases hresult : b.encode limit' input with
    | error e' => exact ⟨e', rfl⟩
    | ok text =>
      -- Under the greater of the limits the run would arrive and break.
      obtain ⟨n, hn, s, hreach, hbroken⟩ := encode_eq_broken_iff.mp h
      have hok := encode_mono (Nat.le_max_right limit limit') hresult
      have herror := encode_eq_broken_iff.mpr
        ⟨n, hn.trans (Nat.le_max_left limit limit'), s, hreach, hbroken⟩
      rw [hok] at herror
      cases herror

/-- **Divergence is decided** by as many steps as there are configurations: twice the number of
pieces, times 256 for each byte of the input, times the number of counters of each countdown. If
so many steps from a reset all answer with a position, every further step does. So if there is no
result within this or any greater limit, there is none under any limit, and a run that is over
such a limit is over every other. -/
theorem divergence_decided {b : Board} (hentry : b.entry < b.pieces.size) (input : String) :
    (∀ r : Runner,
      (∀ n < b.configurationCount (Word.ofText input).length, (r.reset b input).MovesIn n) →
        ∀ n, (r.reset b input).MovesIn n) ∧
    ∀ r r' : Runner, b.configurationCount (Word.ofText input).length ≤ r.limit →
      ((∃ e, (r.exec b input).1 = .error e) → ∃ e, (r'.exec b input).1 = .error e) ∧
      ((r.exec b input).1 = .error (.overLimit input r.limit) →
        (r'.exec b input).1 = .error (.overLimit input r'.limit)) := by
  refine ⟨fun r h n => ?_, fun r r' hlimit => ⟨?_, fun h => ?_⟩⟩
  · obtain ⟨s, hreach⟩ : ∃ s, Signal.Reaches b (Signal.enter b (Word.ofText input))
        (b.configurationCount (Word.ofText input).length) s := by
      generalize b.configurationCount (Word.ofText input).length = count at h
      cases count with
      | zero => exact ⟨_, .start⟩
      | succ count => exact Runner.movesIn_iff.mp (h count (Nat.lt_succ_self count))
    obtain ⟨t, hover⟩ := hreach.overLimit hentry n
    exact Runner.movesIn_iff.mpr ⟨t, Signal.run_eq_overLimit_iff.mp hover⟩
  · rintro ⟨e, h⟩
    exact Board.exists_encode_eq_error hentry hlimit h r'.limit
  · exact Board.encode_eq_overLimit hentry hlimit h r'.limit

/-- A loop in which words of even length go round for ever; a countdown on the way counts the first
lap. -/
def evenLoop : Board where
  entry := 0
  pieces := #[.wired 0 .input .forward [1], .wired 1 .transform (.transform .reverse) [2],
    .wired 2 .branch (.countdown 1) [3, 3], .wired 3 .branch (.test .evenLength) [1, 4],
    .wired 4 .output .stop []]
  requiredCount := 0
  keywords := []
  encoded := []
  families := .empty

/-- Twenty steps show that the empty word never gets out, and so does a run under that limit. -/
theorem evenLoop_diverges :
    evenLoop.configurationCount (Word.ofText "").length = 20 ∧
      (∀ n, (Runner.fresh.reset evenLoop "").MovesIn n) ∧
      ((Runner.fresh.withLimit 1000000000).exec evenLoop "").1 =
        .error (.overLimit "" 1000000000) := by
  have hcount : evenLoop.configurationCount (Word.ofText "").length = 20 := by decide +kernel
  have hmoves : ((List.range 20).all fun n =>
      ((Runner.fresh.reset evenLoop "").steps n).toOption.any fun r =>
        r.step.toOption.any (·.1.isSome)) = true := by decide +kernel
  obtain ⟨hsteps, hresults⟩ :=
    divergence_decided (show evenLoop.entry < evenLoop.pieces.size by decide) ""
  have hforever : ∀ n, (Runner.fresh.reset evenLoop "").MovesIn n := by
    refine hsteps .fresh fun n hn => ?_
    rw [hcount] at hn
    obtain ⟨r, hr, hstep⟩ :=
      exists_ok_of_any (List.all_eq_true.mp hmoves n (List.mem_range.mpr hn))
    obtain ⟨⟨pos?, r'⟩, hr', hsome⟩ := exists_ok_of_any hstep
    obtain ⟨pos, rfl⟩ := Option.isSome_iff_exists.mp hsome
    exact ⟨r, pos, r', hr, hr'⟩
  refine ⟨hcount, hforever, ?_⟩
  obtain ⟨t, hreach⟩ := Runner.movesIn_iff.mp (hforever 20)
  have hover : ((Runner.fresh.withLimit 20).exec evenLoop "").1 = .error (.overLimit "" 20) := by
    rw [Runner.exec_eq, show (Runner.fresh.withLimit 20).limit = 20 from rfl,
      Signal.run_eq_overLimit_iff.mpr hreach]
  exact (hresults _ (Runner.fresh.withLimit 1000000000) (Nat.le_of_eq hcount)).2 hover

end CipherBoard
