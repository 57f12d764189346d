/-
CipherBoard.Proofs.Limit — what a step limit decides.

A step limit cuts runs off. It decides whether an input has a result, never which.

* `Board.Carries`, `Board.ArrivesWithin` — no step of an input's run breaks; its run
  stands on an output after so many steps at most. Both speak of a runner that is
  reset and then makes single steps.
* `Closed.carries` — a board on which every piece has its ways, and every way leads to
  a piece, carries every input.
* `exec_eq_ok_iff`, `encode_eq_overLimit_iff` — a result within the limit, and none.
* `encode_mono`, `encode_unique`, `build_mono` — results under different limits.
* `exec_limit_law` — these together, for single runs and for the keywords of a level.
-/
import CipherBoard.Proofs.Board

namespace CipherBoard

variable {b : Board} {input : String} {limit limit' : Nat}

/-! ## Section 1 — runs, step by step -/

/-- However many steps a runner makes on the input, none breaks. -/
def Board.Carries (b : Board) (input : String) : Prop :=
  ∀ n, ∃ r, (Runner.fresh.reset b input).steps n = .ok r

/-- After at most `limit` steps on the input a runner stands on an output. -/
def Board.ArrivesWithin (b : Board) (input : String) (limit : Nat) : Prop :=
  ∃ n ≤ limit, ∃ r, (Runner.fresh.reset b input).steps n = .ok r ∧ r.finished = true

theorem Board.arrivesWithin_iff : b.ArrivesWithin input limit ↔ ∃ n ≤ limit, ∃ s,
    Signal.Reaches b (Signal.enter b (Word.ofText input)) n s ∧ s.step b = .halted := by
  constructor
  · rintro ⟨n, hn, r, hsteps, hfinished⟩
    obtain ⟨m, s, hm, _, hreach, rfl⟩ := Runner.steps_reset_eq_ok hsteps
    exact ⟨m, by omega, s, hreach, Signal.finished_iff.mp hfinished⟩
  · rintro ⟨n, hn, s, hreach, hhalt⟩
    exact ⟨n, hn, _, Runner.steps_of_reaches hreach, Signal.finished_iff.mpr hhalt⟩

/-- A board that lacks no way, and on which no way leads nowhere, carries every input. -/
theorem Board.Closed.carries (h : b.Closed) (hways : ∀ p ∈ b.pieces, p.Complete)
    (input : String) : b.Carries input := by
  refine Runner.exists_steps fun n s hreach e hbroken => ?_
  have hlt := hreach.here_lt h.entry_lt
  rcases Signal.step_eq_broken_iff.mp hbroken with
    ⟨hnone, _⟩ | ⟨p, _, way, hp, hpass, ⟨hnext, _⟩ | ⟨target, hnext, hfar, _⟩⟩
  · rw [Array.getElem?_eq_none_iff] at hnone
    omega
  · have hcomplete : p.behaviour.wayCount ≤ p.next.length :=
      hways p (Array.mem_of_getElem? hp)
    have hway := Signal.way_lt_wayCount hpass
    rw [List.getElem?_eq_none_iff] at hnext
    omega
  · exact hfar (h.next_lt p (Array.mem_of_getElem? hp) target (List.mem_of_getElem? hnext))

/-! ## Section 2 — results of runs -/

theorem Runner.exec_eq (r : Runner) (b : Board) (input : String) :
    r.exec b input =
      match (Signal.enter b (Word.ofText input)).run b r.limit with
      | .reached s => (.ok s.text, r.holding b s)
      | .overLimit s => (.error (.overLimit input r.limit), r.holding b s)
      | .broken s e => (.error (.broken e), r.holding b s) := by
  unfold exec
  cases (Signal.enter b (Word.ofText input)).run b r.limit <;> rfl

/-- **A result, and where it leaves the runner**: an input has a result exactly if single steps
lead to an output within the limit; it is the word there, and the runner stays there. -/
theorem Runner.exec_eq_ok_iff {r r' : Runner} {text : String} :
    r.exec b input = (.ok text, r') ↔ ∃ n ≤ r.limit, (r.reset b input).steps n = .ok r' ∧
      r'.finished = true ∧ Text.decodeLossy r'.word = text := by
  rw [exec_eq]
  constructor
  · intro h
    split at h
    · rename_i s hrun
      cases h
      obtain ⟨n, hn, hreach, hhalt⟩ := Signal.run_eq_reached_iff.mp hrun
      exact ⟨n, hn, steps_of_reaches hreach, Signal.finished_iff.mpr hhalt, rfl⟩
    · cases h
    · cases h
  · rintro ⟨n, hn, hsteps, hfinished, rfl⟩
    obtain ⟨m, s, hm, _, hreach, rfl⟩ := steps_reset_eq_ok hsteps
    have hhalt := Signal.finished_iff.mp hfinished
    rw [Signal.run_eq_reached_iff.mpr ⟨m, by omega, hreach, hhalt⟩]
    rfl

/-- The result does not depend on the run that the runner was in, but on its limit. -/
theorem Runner.exec_fst (r : Runner) (b : Board) (input : String) :
    (r.exec b input).1 = b.encode r.limit input := rfl

theorem Board.encode_eq_ok_iff {text : String} : b.encode limit input = .ok text ↔
    ∃ n ≤ limit, ∃ s, Signal.Reaches b (Signal.enter b (Word.ofText input)) n s ∧
      s.step b = .halted ∧ s.text = text := by
  unfold encode
  rw [Ending.result_eq_ok_iff]
  constructor
  · rintro ⟨s, hrun, rfl⟩
    obtain ⟨n, hn, hreach, hhalt⟩ := Signal.run_eq_reached_iff.mp hrun
    exact ⟨n, hn, s, hreach, hhalt, rfl⟩
  · rintro ⟨n, hn, s, hreach, hhalt, rfl⟩
    exact ⟨s, Signal.run_eq_reached_iff.mpr ⟨n, hn, hreach, hhalt⟩, rfl⟩

theorem Board.exists_encode_iff :
    (∃ text, b.encode limit input = .ok text) ↔ b.ArrivesWithin input limit := by
  simp only [encode_eq_ok_iff, arrivesWithin_iff]
  constructor
  · rintro ⟨_, n, hn, s, hreach, hhalt, _⟩
    exact ⟨n, hn, s, hreach, hhalt⟩
  · rintro ⟨n, hn, s, hreach, hhalt⟩
    exact ⟨_, n, hn, s, hreach, hhalt, rfl⟩

/-- **No result for want of steps**: the run goes on for one step more than the limit, and none
of the states before was an output. -/
theorem Board.encode_eq_overLimit_iff {input' : String} {shown : Nat} :
    b.encode limit input = .error (.overLimit input' shown) ↔
      input' = input ∧ shown = limit ∧ ¬ b.ArrivesWithin input limit ∧
        ∃ r, (Runner.fresh.reset b input).steps (limit + 1) = .ok r := by
  constructor
  · intro h
    have hlate : ¬ b.ArrivesWithin input limit := by
      rw [← exists_encode_iff]
      rintro ⟨text, htext⟩
      rw [h] at htext
      cases htext
    unfold encode at h
    obtain ⟨rfl, rfl, s, hrun⟩ := Ending.result_eq_overLimit_iff.mp h
    exact ⟨rfl, rfl, hlate, _, Runner.steps_of_reaches (Signal.run_eq_overLimit_iff.mp hrun)⟩
  · rintro ⟨rfl, rfl, hlate, r, hsteps⟩
    obtain ⟨n, s, hn, hend, hreach, rfl⟩ := Runner.steps_reset_eq_ok hsteps
    -- A signal that has halted earlier has arrived within the limit.
    have hfar : n = shown + 1 := by
      by_contra hne
      exact hlate (arrivesWithin_iff.mpr
        ⟨n, by omega, s, hreach, hend.resolve_left hne⟩)
    subst hfar
    unfold encode
    rw [Signal.run_eq_overLimit_iff.mpr hreach]
    rfl

/-- An input that is carried and does not arrive in time is over the limit. -/
theorem Board.Carries.encode_eq_overLimit (h : b.Carries input)
    (hlate : ¬ b.ArrivesWithin input limit) :
    b.encode limit input = .error (.overLimit input limit) :=
  encode_eq_overLimit_iff.mpr ⟨rfl, rfl, hlate, h (limit + 1)⟩

/-! ## Section 3 — results under different limits -/

/-- A greater limit keeps a result. -/
theorem Board.encode_mono {text : String} (hle : limit ≤ limit')
    (h : b.encode limit input = .ok text) : b.encode limit' input = .ok text := by
  obtain ⟨n, hn, hrest⟩ := encode_eq_ok_iff.mp h
  exact encode_eq_ok_iff.mpr ⟨n, by omega, hrest⟩

/-- Two limits under which an input has a result give the same. -/
theorem Board.encode_unique {text text' : String} (h : b.encode limit input = .ok text)
    (h' : b.encode limit' input = .ok text') : text = text' := by
  rcases Nat.le_total limit limit' with hle | hle
  · rw [encode_mono hle h] at h'
    exact Except.ok.inj h'
  · rw [encode_mono hle h'] at h
    exact (Except.ok.inj h).symm

variable {l : Layout} {origin : Point}

/-- A greater limit builds the same board. -/
theorem Layout.build_mono (hle : limit ≤ limit') (h : l.build origin limit = .ok b) :
    l.build origin limit' = .ok b := by
  obtain ⟨c, encoded, hc, hencoded, rfl⟩ := Layout.build_eq_ok_iff.mp h
  exact Layout.build_eq_ok_iff.mpr
    ⟨c, encoded, hc, hencoded.imp fun _ _ => Board.encode_mono hle, rfl⟩

theorem Layout.keywords_of_wire (h : l.wire origin = .ok b) : b.keywords = l.keywords := by
  obtain ⟨v, w, _, _, rfl⟩ := Layout.wire_eq_ok_iff.mp h
  rfl

/-- **The keyword that cannot be encoded** is the first that does not arrive in time. -/
theorem Layout.build_eq_unencodable_iff {keyword : String} {cause : RunError} :
    l.build origin limit = .error (.unencodable keyword cause) ↔
      cause = .overLimit keyword limit ∧ ∃ c pre post, l.wire origin = .ok c ∧
        l.keywords = pre ++ keyword :: post ∧ (∀ k ∈ pre, c.ArrivesWithin k limit) ∧
        ¬ c.ArrivesWithin keyword limit ∧
        ∃ r, (Runner.fresh.reset c keyword).steps (limit + 1) = .ok r := by
  cases hc : l.wire origin with
  | error e => simp [Layout.build_eq, hc]
  | ok c =>
    rw [Layout.build_eq_error_iff hc, Board.encodeAll_eq_error_iff, Layout.keywords_of_wire hc]
    simp only [Board.exists_encode_iff]
    constructor
    · rintro ⟨pre, k, post, e, hkeys, hpre, hk, hx⟩
      cases e with
      | broken => cases hx
      | overLimit input shown =>
        cases hx
        obtain ⟨rfl, rfl, hlate, hsteps⟩ := Board.encode_eq_overLimit_iff.mp hk
        exact ⟨rfl, c, pre, post, rfl, hkeys, hpre, hlate, hsteps⟩
    · rintro ⟨rfl, c', pre, post, hc', hkeys, hpre, hlate, hsteps⟩
      cases hc'
      exact ⟨pre, keyword, post, _, hkeys, hpre,
        Board.encode_eq_overLimit_iff.mpr ⟨rfl, rfl, hlate, hsteps⟩, rfl⟩

/-- **The step limit law.** An input has a result exactly if single steps lead to an output
within the limit, and the result is the word there; if no step breaks, the run is over the limit
otherwise. So a greater limit keeps every result and builds the same board, and a board that is
not built for want of steps names the first keyword that does not arrive in time. -/
theorem exec_limit_law :
    (∀ (r r' : Runner) (b : Board) (input text : String),
      r.exec b input = (.ok text, r') ↔ ∃ n ≤ r.limit, (r.reset b input).steps n = .ok r' ∧
        r'.finished = true ∧ Text.decodeLossy r'.word = text) ∧
    (∀ (r : Runner) (b : Board) (input : String), b.Carries input →
      ¬ b.ArrivesWithin input r.limit →
        (r.exec b input).1 = .error (.overLimit input r.limit)) ∧
    (∀ (r r' : Runner) (b : Board) (input text : String), r.limit ≤ r'.limit →
      (r.exec b input).1 = .ok text → (r'.exec b input).1 = .ok text) ∧
    ∀ (l : Layout) (origin : Point) (limit : Nat),
      (∀ limit' b, limit ≤ limit' → l.build origin limit = .ok b →
        l.build origin limit' = .ok b) ∧
      ∀ keyword cause, l.build origin limit = .error (.unencodable keyword cause) ↔
        cause = .overLimit keyword limit ∧ ∃ c pre post, l.wire origin = .ok c ∧
          l.keywords = pre ++ keyword :: post ∧ (∀ k ∈ pre, c.ArrivesWithin k limit) ∧
          ¬ c.ArrivesWithin keyword limit ∧
          ∃ r, (Runner.fresh.reset c keyword).steps (limit + 1) = .ok r := by
  refine ⟨fun _ _ _ _ _ => Runner.exec_eq_ok_iff, fun r b input hcarries hlate => ?_,
    fun r r' b input text hle h => ?_, fun l origin limit => ⟨fun _ _ hle h => ?_, fun _ _ => ?_⟩⟩
  · exact hcarries.encode_eq_overLimit hlate
  · rw [Runner.exec_fst] at h ⊢
    exact Board.encode_mono hle h
  · exact Layout.build_mono hle h
  · exact Layout.build_eq_unencodable_iff

/-- The line to the output is four moves long: three are too few for it, and four are enough. -/
theorem shiftLine_limit :
    ∃ b, shiftLine.build .zero 4 = .ok b ∧ shiftLine.build .zero 100 = .ok b ∧
      ((Runner.fresh.withLimit 4).exec b "abc").1 = .ok "bcd" ∧
      ((Runner.fresh.withLimit 3).exec b "abc").1 = .error (.overLimit "abc" 3) := by
  obtain ⟨b, hb, hshape⟩ := exists_ok_of_any
    (show (shiftLine.build .zero 4).toOption.any (fun b =>
        decide (b.entry < b.pieces.size ∧ ∀ p ∈ b.pieces.toList,
          (∀ j ∈ p.next, j < b.pieces.size) ∧ p.behaviour.wayCount ≤ p.next.length) &&
        (List.range 4).all (fun n => ((Runner.fresh.reset b "abc").steps n).toOption.any
          (!·.finished)) &&
        ((Runner.fresh.withLimit 4 |>.reset b "abc").steps 4).toOption.any (fun r =>
          r.finished && Text.decodeLossy r.word == "bcd")) = true by
      decide +kernel)
  rw [Bool.and_eq_true, Bool.and_eq_true, decide_eq_true_eq, List.all_eq_true] at hshape
  obtain ⟨⟨⟨hentry, hpieces⟩, hunderway⟩, harrives⟩ := hshape
  have hclosed : b.Closed := ⟨hentry, fun p hp => (hpieces p (Array.mem_toList_iff.mpr hp)).1⟩
  have hcarries : b.Carries "abc" :=
    hclosed.carries (fun p hp => (hpieces p (Array.mem_toList_iff.mpr hp)).2) "abc"
  obtain ⟨r, hsteps, hr⟩ := exists_ok_of_any harrives
  rw [Bool.and_eq_true, beq_iff_eq] at hr
  have hlate : ¬ b.ArrivesWithin "abc" 3 := by
    rintro ⟨n, hn, r', hsteps', hfinished⟩
    obtain ⟨r'', hsteps'', hopen⟩ :=
      exists_ok_of_any (hunderway n (List.mem_range.mpr (by omega)))
    cases hsteps'.symm.trans hsteps''
    rw [hfinished] at hopen
    cases hopen
  obtain ⟨hok, hover, _, hbuild⟩ := exec_limit_law
  have hexec := (hok (Runner.fresh.withLimit 4) r b "abc" "bcd").mpr ⟨4, Nat.le_refl 4, hsteps, hr⟩
  exact ⟨b, hb, (hbuild shiftLine .zero 4).1 100 b (by decide) hb, congrArg Prod.fst hexec,
    hover (Runner.fresh.withLimit 3) b "abc" hcarries hlate⟩

end CipherBoard
