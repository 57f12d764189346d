/-
CipherBoard.Proofs.Countdown — the ways out of a countdown.

A countdown sends the signal by its first way as often as its start number says, and by its
second way ever after. Which of the two is due depends on how often the signal has left this
very piece, whatever it did in between.

* `Board.Numbered` — every piece bears the number of its place, so that no two pieces share
  a counter. Wiring and building number the pieces.
* `pass_of_countdown`, `counters_of_ne`, `counters_of_plain` — what a visit does to the
  counters.
* `Signal.Takes` — the signal gets from one state to another, with the exits that it takes.
* `Signal.Counted` — the exits from each countdown and its counter, as its start number has
  them. `Counted.exit` is one exit more, `Takes.counted` any number of them.
* `countdown_law` — the same for a runner that makes single steps, with the step that comes
  next.
-/
import CipherBoard.Proofs.Trail

namespace CipherBoard

/-! ## Section 1 — numbers of pieces -/

/-- Every piece of the board bears the number of its place. -/
def Board.Numbered (b : Board) : Prop :=
  ∀ (i : Nat) (p : Piece), b.pieces[i]? = some p → p.id = i

namespace Layout

variable {l : Layout} {origin : Point} {limit : Nat} {b : Board}

theorem numbered_of_wire (h : l.wire origin = .ok b) : b.Numbered := by
  obtain ⟨v, w, _, _, rfl⟩ := Layout.wire_eq_ok_iff.mp h
  unfold Board.Numbered
  intro i p hp
  rw [Survey.getElem?_pieces] at hp
  obtain ⟨s, _, rfl⟩ := Option.map_eq_some_iff.mp hp
  rfl

theorem numbered_of_build (h : l.build origin limit = .ok b) : b.Numbered := by
  obtain ⟨c, encoded, hc, _, rfl⟩ := Layout.build_eq_ok_iff.mp h
  have hnumbered : c.Numbered := numbered_of_wire hc
  exact hnumbered

end Layout

/-! ## Section 2 — one visit -/

/-- The number that a countdown starts from. -/
def Behaviour.start? : Behaviour → Option Nat
  | .countdown start => some start
  | _ => none

theorem Behaviour.start?_eq_some_iff {be : Behaviour} {start : Nat} :
    be.start? = some start ↔ be = .countdown start := by
  cases be <;> simp [start?]

namespace Signal

variable {b : Board} {p : Piece} {s t u : Signal} {i k start counter way : Nat}

theorem startCounter_of_countdown (h : p.behaviour = .countdown start) :
    startCounter p = start := by
  simp [startCounter, h]

/-- **A visit to a countdown**: the way is the first as long as the counter is not at zero, and
the counter goes down by one then. -/
theorem pass_of_countdown (h : p.behaviour = .countdown start)
    (hcounter : s.counters[p.id]? = some counter) :
    ∃ t, s.pass p = some (t, if 0 < counter then 0 else 1) ∧
      t.counters[p.id]? = some (counter - 1) := by
  obtain ⟨hlt, _⟩ := Array.getElem?_eq_some_iff.mp hcounter
  cases counter with
  | zero => exact ⟨s, by simp [pass, h, hcounter], hcounter⟩
  | succ left =>
    refine ⟨{ s with counters := s.counters.setIfInBounds p.id left }, ?_, ?_⟩
    · simp [pass, h, hcounter]
    · simp [hlt]

/-- A visit leaves the counters of all other pieces alone. -/
theorem counters_of_ne (h : s.pass p = some (t, way)) (hk : k ≠ p.id) :
    t.counters[k]? = s.counters[k]? := by
  unfold pass at h
  split at h
  case h_1 => cases h
  case h_8 =>
    split at h
    · cases h
      rfl
    · cases h
      exact Array.getElem?_setIfInBounds_ne hk.symm
  all_goals cases h; rfl

/-- Only a countdown counts. -/
theorem counters_of_plain (h : s.pass p = some (t, way)) (hplain : p.behaviour.start? = none) :
    t.counters = s.counters := by
  unfold pass at h
  split at h
  case h_1 => cases h
  case h_8 hb => rw [hb] at hplain; cases hplain
  all_goals cases h; rfl

/-- A signal that has moved stands where the way leads, with the counters that the visit left. -/
theorem here_of_pass (hp : b.pieces[s.here]? = some p) (hpass : s.pass p = some (t, way))
    (hstep : s.step b = .moved u) : p.next[way]? = some u.here ∧ u.counters = t.counters := by
  obtain ⟨p', t', way', target, hp', hpass', hnext, _, rfl⟩ := step_eq_moved_iff.mp hstep
  rw [hp] at hp'
  cases hp'
  rw [hpass] at hpass'
  cases hpass'
  exact ⟨hnext, rfl⟩

end Signal

/-! ## Section 3 — whole runs -/

/-- The end of a visit: the place of the piece that the signal left, the number of the way by
which it left, and the place where this led. -/
structure Exit where
  place : Nat
  way : Nat
  target : Nat
  deriving DecidableEq, Repr

/-- The visits to the piece at a place that are over. -/
def visits (i : Nat) (exits : List Exit) : List Exit :=
  exits.filter (·.place = i)

/-- The way that is due at a countdown when so many visits are over. -/
def countdownWay (start done : Nat) : Nat :=
  if done < start then 0 else 1

section

variable {exits : List Exit} {i j way target : Nat}

@[simp] theorem visits_nil : visits i [] = [] := rfl

theorem visits_concat_self :
    visits i (exits ++ [⟨i, way, target⟩]) = visits i exits ++ [⟨i, way, target⟩] := by
  simp [visits]

theorem visits_concat_of_ne (h : i ≠ j) :
    visits j (exits ++ [⟨i, way, target⟩]) = visits j exits := by
  simp [visits, h]

end

namespace Signal

variable {b : Board} {p : Piece} {s t u : Signal} {start way : Nat} {exits : List Exit}

/-- The signal gets from `s` to `t` and takes these exits, in their order. -/
inductive Takes (b : Board) (s : Signal) : List Exit → Signal → Prop
  | start : Takes b s [] s
  | move {exits : List Exit} {p : Piece} {way : Nat} {t passed u : Signal} : Takes b s exits t →
      b.pieces[t.here]? = some p → t.pass p = some (passed, way) → t.step b = .moved u →
      Takes b s (exits ++ [⟨t.here, way, u.here⟩]) u

/-- A run of `n` moves takes `n` exits. -/
theorem Reaches.exists_exits {n : Nat} (h : Reaches b s n t) :
    ∃ exits, Takes b s exits t ∧ exits.length = n := by
  induction h with
  | start => exact ⟨[], .start, rfl⟩
  | @move n t u _ hstep ih =>
    obtain ⟨exits, htakes, hlen⟩ := ih
    obtain ⟨p, _, way, _, hp, hpass, _⟩ := step_eq_moved_iff.mp hstep
    exact ⟨exits ++ [⟨t.here, way, u.here⟩], htakes.move hp hpass hstep, by simp [hlen]⟩

/-- What the exits that a signal has taken say of the countdowns of the board. -/
structure Counted (b : Board) (exits : List Exit) (s : Signal) : Prop where
  /-- The counter is the start number less the visits, as far as it goes. -/
  counter : ∀ (i : Nat) (p : Piece) (start : Nat), b.pieces[i]? = some p →
    p.behaviour = .countdown start →
    s.counters[i]? = some (start - min start (visits i exits).length)
  /-- The first visits end by the first way, as many as the start number says, and all later
  ones by the second. -/
  leaves : ∀ (i : Nat) (p : Piece) (start : Nat), b.pieces[i]? = some p →
    p.behaviour = .countdown start → ∀ (n : Nat) (e : Exit), (visits i exits)[n]? = some e →
    e.way = countdownWay start n ∧ p.next[countdownWay start n]? = some e.target

theorem counted_enter (b : Board) (word : Word) : (enter b word).Counted b [] where
  counter i p start hp hb := by
    have hstart : (enter b word).counters[i]? = some start := by
      simp [enter, hp, startCounter_of_countdown hb]
    simpa using hstart
  leaves i p start hp hb n e he := by
    simp at he

/-- **The visit at hand**: a countdown sends the signal by the way that is due, and its counter
takes this visit into account as well. -/
theorem Counted.pass (h : s.Counted b exits) (hnumbered : b.Numbered)
    (hp : b.pieces[s.here]? = some p) (hb : p.behaviour = .countdown start) :
    ∃ t, s.pass p = some (t, countdownWay start (visits s.here exits).length) ∧
      t.counters[s.here]? = some (start - min start ((visits s.here exits).length + 1)) := by
  have hid : p.id = s.here := hnumbered s.here p hp
  have hcounter := h.counter s.here p start hp hb
  generalize (visits s.here exits).length = done at hcounter ⊢
  rw [← hid] at hcounter
  obtain ⟨t, hpass, hleft⟩ := pass_of_countdown hb hcounter
  have hdue : 0 < start - min start done ↔ done < start := by omega
  have hless : start - min start done - 1 = start - min start (done + 1) := by omega
  refine ⟨t, ?_, ?_⟩
  · rw [hpass, countdownWay]
    simp only [hdue]
  · rw [← hid, hleft, hless]

/-- **What one exit adds**: to the countdown that the signal left, one visit; to all others,
nothing. -/
theorem Counted.exit (h : s.Counted b exits) (hnumbered : b.Numbered)
    (hp : b.pieces[s.here]? = some p) (hpass : s.pass p = some (t, way))
    (hstep : s.step b = .moved u) : u.Counted b (exits ++ [⟨s.here, way, u.here⟩]) := by
  have hid : p.id = s.here := hnumbered s.here p hp
  obtain ⟨hnext, hcounters⟩ := here_of_pass hp hpass hstep
  -- What the piece at hand makes of the signal, should it be a countdown.
  have hdue : ∀ start, p.behaviour = .countdown start →
      way = countdownWay start (visits s.here exits).length ∧
        t.counters[s.here]? = some (start - min start ((visits s.here exits).length + 1)) := by
    intro start hb
    obtain ⟨t', hpass', hcounter⟩ := h.pass hnumbered hp hb
    rw [hpass] at hpass'
    cases hpass'
    exact ⟨rfl, hcounter⟩
  refine ⟨fun i q start hq hb => ?_, fun i q start hq hb n e he => ?_⟩
  · rw [hcounters]
    by_cases hi : s.here = i
    · subst hi
      rw [hp] at hq
      cases hq
      rw [visits_concat_self, (hdue start hb).2, List.length_append, List.length_singleton]
    · rw [visits_concat_of_ne hi, counters_of_ne hpass (fun hsame => hi (hid ▸ hsame.symm))]
      exact h.counter i q start hq hb
  · by_cases hi : s.here = i
    · subst hi
      rw [hp] at hq
      cases hq
      rw [visits_concat_self, List.getElem?_append] at he
      split at he
      · exact h.leaves s.here p start hp hb n e he
      · -- The exit is the one that has just been taken.
        rw [List.getElem?_singleton] at he
        split at he
        · have hn : n = (visits s.here exits).length := by omega
          cases he
          rw [hn, ← (hdue start hb).1]
          exact ⟨rfl, hnext⟩
        · cases he
    · rw [visits_concat_of_ne hi] at he
      exact h.leaves i q start hq hb n e he

/-- **The countdowns of a board are left as their start numbers say**, whatever run brought the
signal where it is. -/
theorem Takes.counted {word : Word} (h : Takes b (enter b word) exits s)
    (hnumbered : b.Numbered) : s.Counted b exits := by
  induction h with
  | start => exact counted_enter b word
  | move _ hp hpass hstep ih => exact ih.exit hnumbered hp hpass hstep

/-- A visit changes no counter but that of the countdown that is visited. -/
theorem counters_of_moved (hnumbered : b.Numbered) (hp : b.pieces[s.here]? = some p)
    (hpass : s.pass p = some (t, way)) (hstep : s.step b = .moved u) {k : Nat}
    (hk : k ≠ s.here ∨ p.behaviour.start? = none) : u.counters[k]? = s.counters[k]? := by
  rw [(here_of_pass hp hpass hstep).2]
  rcases hk with hother | hplain
  · exact counters_of_ne hpass (by rwa [hnumbered s.here p hp])
  · rw [counters_of_plain hpass hplain]

end Signal

/-! ## Section 4 — runners -/

/-- Where a way out of a piece leads, unless it breaks the run. -/
def Piece.follow (b : Board) (p : Piece) (way : Nat) : Except Break Nat :=
  match p.next[way]? with
  | none => .error (.missingWay p.label way)
  | some target => if target < b.pieces.size then .ok target else .error (.offBoard target)

/-- A runner follows the way that the piece sends its signal. -/
theorem Runner.step_of_pass {b : Board} {p : Piece} {s t : Signal} {way : Nat} (r : Runner)
    (hp : b.pieces[s.here]? = some p) (hpass : s.pass p = some (t, way)) :
    (r.holding b s).step.map (·.2.here?) = (p.follow b way).map some := by
  unfold step holding Signal.step Piece.follow
  simp only [hp, hpass]
  cases p.next[way]? with
  | none => rfl
  | some target =>
    by_cases hlt : target < b.pieces.size
    · simp only [if_pos hlt]
      rfl
    · simp only [if_neg hlt]
      rfl

/-- What a runner holds after a reset, with the exits that its signal has taken: one with each
step, unless it stands on an output. -/
theorem Runner.exists_takes {b : Board} {r r' : Runner} {input : String} {n : Nat}
    (h : (r.reset b input).steps n = .ok r') :
    ∃ exits s, r' = r.holding b s ∧
      Signal.Takes b (Signal.enter b (Word.ofText input)) exits s ∧
      (exits.length = n ∨ exits.length < n ∧ r'.finished = true) := by
  obtain ⟨m, s, hm, hend, hreach, rfl⟩ := steps_reset_eq_ok h
  obtain ⟨exits, htakes, rfl⟩ := hreach.exists_exits
  refine ⟨exits, s, rfl, htakes, ?_⟩
  rcases hend with hlen | hhalt
  · exact Or.inl hlen
  · rcases Nat.lt_or_eq_of_le hm with hlt | hlen
    · exact Or.inr ⟨hlt, Signal.finished_iff.mpr hhalt⟩
    · exact Or.inl hlen

/-- **The countdown law.** On a board whose pieces are numbered, as they are on every board that
is wired or built, take any run from a reset, of any length. Each countdown has been left by its
first way on its first visits, as many as its start number says, and by its second way on every
later visit; its counter is the start number less the smaller of that number and its visits. If
the signal stands on a countdown, the next step follows the way that is due. A step changes no
counter but that of a countdown on which the signal stands, and the law holds after it again. -/
theorem countdown_law :
    (∀ (l : Layout) (origin : Point) (b : Board), l.wire origin = .ok b → b.Numbered) ∧
    (∀ (l : Layout) (origin : Point) (limit : Nat) (b : Board),
      l.build origin limit = .ok b → b.Numbered) ∧
    ∀ (b : Board) (r r' : Runner) (input : String) (n : Nat), b.Numbered →
      (r.reset b input).steps n = .ok r' →
      ∃ exits s, r' = r.holding b s ∧
        Signal.Takes b (Signal.enter b (Word.ofText input)) exits s ∧
        (exits.length = n ∨ exits.length < n ∧ r'.finished = true) ∧
        s.Counted b exits ∧
        (∀ p start, b.pieces[s.here]? = some p → p.behaviour = .countdown start →
          r'.step.map (·.2.here?) =
            (p.follow b (countdownWay start (visits s.here exits).length)).map some) ∧
        ∀ pos r'', r'.step = .ok (some pos, r'') → ∃ p way t, b.pieces[s.here]? = some p ∧
          r'' = r.holding b t ∧
          Signal.Takes b (Signal.enter b (Word.ofText input))
            (exits ++ [⟨s.here, way, t.here⟩]) t ∧
          t.Counted b (exits ++ [⟨s.here, way, t.here⟩]) ∧
          ∀ k, k ≠ s.here ∨ p.behaviour.start? = none → t.counters[k]? = s.counters[k]? := by
  refine ⟨fun _ _ _ => Layout.numbered_of_wire, fun _ _ _ _ => Layout.numbered_of_build, ?_⟩
  intro b r r' input n hnumbered hsteps
  obtain ⟨exits, s, rfl, htakes, hlen⟩ := Runner.exists_takes hsteps
  have hcounted := htakes.counted hnumbered
  refine ⟨exits, s, rfl, htakes, hlen, hcounted, ?_, ?_⟩
  · intro p start hp hb
    obtain ⟨t, hpass, _⟩ := hcounted.pass hnumbered hp hb
    exact r.step_of_pass hp hpass
  · intro pos r'' hstep
    obtain ⟨u, hmoved, _, rfl⟩ := Runner.step_holding_eq_some_iff.mp hstep
    obtain ⟨p, t, way, _, hp, hpass, _⟩ := Signal.step_eq_moved_iff.mp hmoved
    exact ⟨p, way, u, hp, rfl, htakes.move hp hpass hmoved,
      hcounted.exit hnumbered hp hpass hmoved,
      fun k hk => Signal.counters_of_moved hnumbered hp hpass hmoved hk⟩

/-- A loop that adds one to every letter and comes to a countdown, which sends the signal round
twice more before it lets it out. -/
def countdownLoop : Layout :=
  .onCells
    [.onCell "elem_input" 0 1, .onCell "pipe" 1 1, .onCell "apply_add" 2 1, .onCell "pipe" 3 1,
     .onCell "elem_countdown2" 4 1 .none (.countdown 2), .onCell "pipe" 5 1,
     .onCell "elem_output" 6 1, .onCell "special_angle_pipe" 4 0 .quarter (.bend true),
     .onCell "pipe" 3 0 .half, .onCell "angle_pipe" 2 0 .none (.bend true)]
    ["abc"]

/-- After two laps the countdown is at zero, and the signal leaves the loop. -/
theorem countdownLoop_laps :
    ∃ b s exits, countdownLoop.build .zero 100 = .ok b ∧
      (Runner.fresh.reset b "abc").steps 16 = .ok (Runner.fresh.holding b s) ∧
      Signal.Takes b (Signal.enter b (Word.ofText "abc")) exits s ∧ s.here = 4 ∧
      2 ≤ (visits 4 exits).length ∧ (∀ e, (visits 4 exits)[1]? = some e → e.target = 7) ∧
      (Runner.fresh.holding b s).step.map (·.2.here?) = .ok (some 5) := by
  obtain ⟨b, hb, hrun⟩ := exists_ok_of_any
    (show (countdownLoop.build .zero 100).toOption.any (fun b =>
      b.pieces.size == 10 && (b.pieces[4]?.any fun p =>
        p.behaviour == .countdown 2 && p.next == [7, 5]) &&
      ((Runner.fresh.reset b "abc").steps 16).toOption.any (fun r => r.here? == some 4 &&
        r.running.any (·.2.counters[4]? == some 0))) = true by decide +kernel)
  rw [Bool.and_eq_true, Bool.and_eq_true, beq_iff_eq, Option.any_eq_true] at hrun
  obtain ⟨⟨hsize, p, hp, hpiece⟩, harrives⟩ := hrun
  rw [Bool.and_eq_true, beq_iff_eq, beq_iff_eq] at hpiece
  obtain ⟨hcountdown, hnext⟩ := hpiece
  obtain ⟨r, hsteps, hr⟩ := exists_ok_of_any harrives
  rw [Bool.and_eq_true, beq_iff_eq] at hr
  obtain ⟨hhere, hempty⟩ := hr
  obtain ⟨_, hnumbered, hlaw⟩ := countdown_law
  obtain ⟨exits, s, rfl, htakes, _, hcounted, hstep, _⟩ :=
    hlaw b Runner.fresh r "abc" 16 (hnumbered _ _ _ b hb) hsteps
  have hat : s.here = 4 := Option.some.inj hhere
  have hzero : s.counters[4]? = some 0 := beq_iff_eq.mp hempty
  have hdone : 2 ≤ (visits 4 exits).length := by
    rw [hcounted.counter 4 p 2 hp hcountdown, Option.some.injEq] at hzero
    omega
  refine ⟨b, s, exits, hb, hsteps, htakes, hat, hdone, fun e he => ?_, ?_⟩
  · have htarget := (hcounted.leaves 4 p 2 hp hcountdown 1 e he).2
    rw [hnext] at htarget
    exact (Option.some.inj htarget).symm
  · have hdue : countdownWay 2 (visits 4 exits).length = 1 := if_neg (by omega)
    rw [hstep p 2 (hat ▸ hp) hcountdown, hat, hdue]
    simp [Piece.follow, hnext, hsize, Except.map]

end CipherBoard
