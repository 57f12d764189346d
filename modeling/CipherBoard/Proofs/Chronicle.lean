/-
CipherBoard.Proofs.Chronicle — what a session knows of its past.

A player submits inputs and asks for predictions. What came of the calls, oldest first,
is the chronicle of the game, and all that the session shows can be read off it.

* `Call`, `Event`, `Session.answer` — a call, what comes of it, and the session after it.
* `successes`, `logLines` — the submissions that had a result, and their lines in the log.
* `Session.Records` — what such a submission changes, field by field; `records_record`
  says that it does.
* `Session.Recounts` — the session says what the chronicle says; `Recounts.submitted`
  adds one submission, and `recounts_playing` is the induction over the calls.
* `session_recounts` — this for every game, with what each call adds (`Session.Adds`).
-/
import CipherBoard.Proofs.Decoding

namespace CipherBoard

/-! ## Section 1 — calls and what comes of them -/

/-- What a player asks of a session. -/
inductive Call where
  | submit (input : String)
  | predict (input : String)

/-- What came of a call. -/
inductive Event where
  | submitted (input : String) (a : Attempt)
  /-- The run of a submission had no result. -/
  | failed (input : String) (e : RunError)
  | predicted (input : String) (shown : Except RunError String)

/-- The submissions that had a result, oldest first. -/
def successes (events : List Event) : List (String × Attempt) :=
  events.filterMap fun e =>
    match e with
    | .submitted input a => some (input, a)
    | _ => none

/-- The lines of a log that is never cut. -/
def logLines (events : List Event) : List String :=
  (successes events).map fun (input, a) => s!"{input} -> {a.output}"

namespace Attempt

/-- Whether the attempt decodes the keyword in place `i`. -/
def decodes (i : Nat) : Attempt → Bool
  | decoded j _ _ => i == j
  | _ => false

/-- Whether the attempt decodes the last keyword. -/
def completes : Attempt → Bool
  | decoded _ _ complete => complete
  | _ => false

/-- Whether the attempt is a collision. -/
def isCollision : Attempt → Bool
  | collision _ _ => true
  | _ => false

/-- Whether the attempt is the secret keyword. -/
def isSecret : Attempt → Bool
  | secret _ => true
  | _ => false

end Attempt

section

variable {events : List Event} {input : String} {a : Attempt} {e : RunError}
  {shown : Except RunError String}

@[simp] theorem successes_nil : successes [] = [] := rfl

@[simp] theorem successes_submitted :
    successes (events ++ [.submitted input a]) = successes events ++ [(input, a)] := by
  simp [successes]

@[simp] theorem successes_failed : successes (events ++ [.failed input e]) = successes events := by
  simp [successes]

@[simp] theorem successes_predicted :
    successes (events ++ [.predicted input shown]) = successes events := by
  simp [successes]

@[simp] theorem logLines_submitted : logLines (events ++ [.submitted input a]) =
    logLines events ++ [s!"{input} -> {a.output}"] := by
  simp [logLines]

end

namespace Session

variable {b : Board} {s t : Session} {input output : String} {a : Attempt}

/-- The answer to a call, and the session after it. -/
def answer (s : Session) : Call → Event × Session
  | .submit input =>
    match s.submit input with
    | .ok (a, t) => (.submitted input a, t)
    | .error e => (.failed input e, (s.send input).2)
  | .predict input => (.predicted input (s.predict input), s)

/-- The calls, one after the other: what came of them, and the session after them. -/
def chronicle (s : Session) (calls : List Call) : List Event × Session :=
  calls.foldl (fun (events, t) c => (events ++ [(t.answer c).1], (t.answer c).2)) ([], s)

@[simp] theorem chronicle_nil (s : Session) : s.chronicle [] = ([], s) := rfl

theorem chronicle_concat (s : Session) (calls : List Call) (c : Call) :
    s.chronicle (calls ++ [c]) =
      ((s.chronicle calls).1 ++ [((s.chronicle calls).2.answer c).1],
        ((s.chronicle calls).2.answer c).2) := by
  simp [chronicle, List.foldl_append]

/-! ## Section 2 — one call -/

/-- What a submission with a result records. It sets the flag of its word, if that is not the
secret keyword; it decodes a place exactly if it sets a flag that was missing, and completes the
game exactly if none is missing any more. -/
structure Records (s : Session) (input : String) (a : Attempt) (t : Session) : Prop where
  decoded : ∀ i : Nat, t.decoded[i]? = some true ↔ s.decoded[i]? = some true ∨
    s.secret ≠ some input ∧ s.board.required.idxOf? input = some i
  decodes : ∀ i : Nat, a.decodes i = true ↔
    s.decoded[i]? = some false ∧ t.decoded[i]? = some true
  completes : a.completes = true ↔ s.complete = false ∧ t.complete = true
  sawCollision : t.sawCollision = (s.sawCollision || a.isCollision)
  secretDecoded : t.secretDecoded = (s.secretDecoded || a.isSecret)
  log : t.log = s.logged input a.output

/-- All that a player can see of the sessions is the same. -/
structure LooksLike (t s : Session) : Prop where
  decoded : t.decoded = s.decoded
  log : t.log = s.log
  sawCollision : t.sawCollision = s.sawCollision
  secretDecoded : t.secretDecoded = s.secretDecoded

/-- What a call adds to a session. A prediction adds nothing, and a submission whose run has no
result nothing that shows. -/
inductive Adds (s : Session) : Call → Event → Session → Prop
  | submitted {input : String} {a : Attempt} {t : Session} :
      s.submit input = .ok (a, t) → s.Records input a t →
      Adds s (.submit input) (.submitted input a) t
  | failed {input : String} {e : RunError} {t : Session} :
      s.submit input = .error e → t.LooksLike s → Adds s (.submit input) (.failed input e) t
  | predicted {input : String} :
      Adds s (.predict input) (.predicted input (s.predict input)) s

/-- No flag is cleared between the sessions. -/
def KeepsFlags (s t : Session) : Prop :=
  ∀ i : Nat, s.decoded[i]? = some true → t.decoded[i]? = some true

theorem Adds.keepsFlags {c : Call} {e : Event} (h : s.Adds c e t) : s.KeepsFlags t := by
  intro i hi
  cases h with
  | submitted _ hrecords => exact (hrecords.decoded i).mpr (Or.inl hi)
  | failed _ hlooks => rwa [hlooks.decoded]
  | predicted => exact hi

theorem complete_iff_forall_getElem? :
    s.complete = true ↔ ∀ i < s.decoded.length, s.decoded[i]? = some true := by
  unfold complete
  rw [List.all_eq_true]
  constructor
  · intro h i hi
    rw [List.getElem?_eq_getElem hi]
    exact congrArg some (h _ (List.getElem_mem hi))
  · intro h flag hflag
    obtain ⟨i, hi, rfl⟩ := List.mem_iff_getElem.mp hflag
    have hat := h i hi
    rw [List.getElem?_eq_getElem hi] at hat
    exact Option.some.inj hat

theorem complete_eq_false_of_getElem? {i : Nat} (h : s.decoded[i]? = some false) :
    s.complete = false := by
  obtain ⟨hlt, _⟩ := List.getElem?_eq_some_iff.mp h
  rw [← Bool.not_eq_true, complete_iff_forall_getElem?]
  intro hall
  rw [hall i hlt] at h
  cases h

/-- **What a result leaves behind**, whatever the input turns out to be. -/
theorem records_record (hlen : s.decoded.length = s.board.required.length)
    (input output : String) :
    s.Records input (s.record input output).1 (s.record input output).2 := by
  have hdecoded := decoded_record hlen input output
  rcases s.record_cases input output with
    ⟨_, h⟩ | ⟨_, i, hi, h⟩ | ⟨_, _, j, _, h⟩ | ⟨_, _, _, h⟩
  case inr.inl =>
    rw [h] at hdecoded ⊢
    obtain ⟨_, hopen⟩ := decodes?_eq_some_iff.mp hi
    obtain ⟨hlt, hflag⟩ := List.getElem?_eq_some_iff.mp hopen
    refine ⟨hdecoded, fun k => ?_, ?_, by simp [Attempt.isCollision], by simp [Attempt.isSecret],
      rfl⟩
    · by_cases hk : k = i
      · subst hk
        simp [Attempt.decodes, hlt, hflag]
      · have hkept : (s.decoded.set i true)[k]? = s.decoded[k]? :=
          List.getElem?_set_ne (Ne.symm hk)
        simp +contextual [Attempt.decodes, hk, hkept]
    · rw [complete_eq_false_of_getElem? hopen]
      exact (and_iff_right rfl).symm
  all_goals
    rw [h] at hdecoded ⊢
    exact ⟨hdecoded, by simp +contextual [Attempt.decodes], by simp [Attempt.completes, complete],
      by simp [Attempt.isCollision], by simp [Attempt.isSecret], rfl⟩

theorem looksLike_send (s : Session) (input : String) : (s.send input).2.LooksLike s :=
  ⟨rfl, rfl, rfl, rfl⟩

theorem after_eq_answer (s : Session) (input : String) :
    s.after input = (s.answer (.submit input)).2 := by
  cases h : s.submit input <;> simp only [after, answer, h]

theorem continues_answer (s : Session) (c : Call) : s.Continues (s.answer c).2 := by
  cases c with
  | submit input =>
    rw [← after_eq_answer]
    exact continues_after s input
  | predict input => exact .refl s

/-- **What one call adds.** -/
theorem adds_answer (hlen : s.decoded.length = s.board.required.length) (c : Call) :
    s.Adds c (s.answer c).1 (s.answer c).2 := by
  cases c with
  | predict input => exact .predicted
  | submit input =>
    cases hsubmit : s.submit input with
    | error e =>
      simp only [answer, hsubmit]
      exact .failed hsubmit (looksLike_send s input)
    | ok result =>
      obtain ⟨a, t⟩ := result
      simp only [answer, hsubmit]
      obtain ⟨output, _, hrecord⟩ := submit_eq_ok_iff.mp hsubmit
      have hrecords := records_record (s := (s.send input).2) hlen input output
      rw [hrecord] at hrecords
      -- What the runner does in between changes nothing that is recorded.
      exact .submitted hsubmit ⟨hrecords.decoded, hrecords.decodes, hrecords.completes,
        hrecords.sawCollision, hrecords.secretDecoded, hrecords.log⟩

/-! ## Section 3 — whole games -/

/-- The session shows what the events say. -/
structure Recounts (b : Board) (secret : Option String) (events : List Event) (s : Session) :
    Prop where
  /-- There is a flag for each required keyword. -/
  length_decoded : s.decoded.length = b.required.length
  /-- A flag is set once the word has been submitted, for the first of its places. -/
  decoded : ∀ i : Nat, s.decoded[i]? = some true ↔ ∃ input a, (input, a) ∈ successes events ∧
    secret ≠ some input ∧ b.required[i]? = some input ∧ ∀ j < i, b.required[j]? ≠ some input
  /-- A place is reported once if its flag is set, and else never. -/
  reported : ∀ i : Nat, (successes events).countP (·.2.decodes i) =
    if s.decoded[i]? = some true then 1 else 0
  /-- The end is reported once if no flag is missing, unless there were none, and else never. -/
  completed : (successes events).countP (·.2.completes) =
    if s.complete = true ∧ b.required ≠ [] then 1 else 0
  sawCollision : s.sawCollision = (successes events).any (·.2.isCollision)
  secretDecoded : s.secretDecoded = (successes events).any (·.2.isSecret)
  /-- The log has the last lines, as many as there is room for. -/
  log : s.log <:+ logLines events
  length_log : s.log.length = min logCapacity (logLines events).length

/-- A condition that comes to hold, and is reported then, has been reported once. -/
theorem count_reports {p q e : Prop} [Decidable p] [Decidable q] [Decidable e]
    (h : e ↔ ¬ p ∧ q) (hkept : p → q) :
    ((if p then 1 else 0) + if e then 1 else 0) = if q then 1 else 0 := by
  by_cases hp : p
  · simp [h, hp, hkept hp]
  · simp [h, hp]

variable {secret : Option String} {events : List Event} {c : Call} {e : Event}

/-- **One submission more.** -/
theorem Recounts.submitted (h : Recounts b secret events s) (hboard : s.board = b)
    (hsecret : s.secret = secret) (hlen : t.decoded.length = s.decoded.length)
    (ht : s.Records input a t) : Recounts b secret (events ++ [.submitted input a]) t := by
  have hkept (i : Nat) (hi : s.decoded[i]? = some true) : t.decoded[i]? = some true :=
    (ht.decoded i).mpr (Or.inl hi)
  constructor
  case length_decoded => exact hlen.trans h.length_decoded
  case decoded =>
    intro i
    rw [ht.decoded, h.decoded, hboard, hsecret, idxOf?_eq_some_iff_getElem?]
    simp only [successes_submitted, List.mem_append, List.mem_singleton, Prod.mk.injEq, or_and_right,
      exists_or]
    simp
  case reported =>
    intro i
    rw [successes_submitted, List.countP_append, List.countP_singleton, h.reported]
    refine count_reports ?_ (hkept i)
    rw [ht.decodes]
    refine and_congr_left fun hi => ?_
    obtain ⟨hlt, _⟩ := List.getElem?_eq_some_iff.mp hi
    simp [List.getElem?_eq_getElem (hlen ▸ hlt)]
  case completed =>
    rw [successes_submitted, List.countP_append, List.countP_singleton, h.completed]
    refine count_reports ?_ (And.imp_left fun hs => ?_)
    · rw [ht.completes]
      constructor
      · intro ⟨hopen, hdone⟩
        refine ⟨fun hs => ?_, hdone, fun hnil => ?_⟩
        · rw [hs.1] at hopen
          cases hopen
        · -- Without required keywords nothing is missing.
          have hempty : s.decoded = [] := by
            rw [← List.length_eq_zero_iff, h.length_decoded, hnil, List.length_nil]
          rw [complete, hempty] at hopen
          cases hopen
      · intro ⟨hs, hdone, hne⟩
        exact ⟨Bool.eq_false_iff.mpr fun hs' => hs ⟨hs', hne⟩, hdone⟩
    · rw [complete_iff_forall_getElem?] at hs ⊢
      exact fun i hi => hkept i (hs i (hlen ▸ hi))
  case sawCollision => simp [ht.sawCollision, h.sawCollision]
  case secretDecoded => simp [ht.secretDecoded, h.secretDecoded]
  case log =>
    obtain ⟨older, holder⟩ := h.log
    rw [ht.log, logLines_submitted, ← holder, List.append_assoc]
    exact (List.drop_suffix _ _).trans (List.suffix_append _ _)
  case length_log =>
    have hs := h.length_log
    rw [ht.log, logLines_submitted]
    simp only [logged, List.length_drop, List.length_append, List.length_singleton]
    omega

/-- An event that is no result adds nothing to what is shown. -/
theorem Recounts.idle {events' : List Event} (h : Recounts b secret events s) (ht : t.LooksLike s)
    (hevents : successes events' = successes events) : Recounts b secret events' t where
  length_decoded := by rw [ht.decoded, h.length_decoded]
  decoded i := by rw [ht.decoded, hevents, h.decoded]
  reported i := by rw [ht.decoded, hevents, h.reported]
  completed := by rw [complete, ht.decoded, hevents, h.completed, complete]
  sawCollision := by rw [ht.sawCollision, hevents, h.sawCollision]
  secretDecoded := by rw [ht.secretDecoded, hevents, h.secretDecoded]
  log := by rw [ht.log, logLines, hevents]; exact h.log
  length_log := by rw [ht.log, logLines, hevents]; exact h.length_log

/-- A new game on the board, with a secret keyword if there is one, under a step limit. -/
def opened (b : Board) (secret : Option String) (limit : Nat) : Session :=
  (secret.elim (start b) (start b).withSecret).withLimit limit

@[simp] theorem board_opened {limit : Nat} : (opened b secret limit).board = b := by
  cases secret <;> rfl

@[simp] theorem secret_opened {limit : Nat} : (opened b secret limit).secret = secret := by
  cases secret <;> rfl

theorem decoded_opened {limit : Nat} :
    (opened b secret limit).decoded = b.required.map fun _ => false := by
  cases secret <;> rfl

theorem getElem?_decoded_opened {limit i : Nat} :
    (opened b secret limit).decoded[i]? ≠ some true := by
  rw [decoded_opened, List.getElem?_map]
  cases b.required[i]? <;> simp

theorem recounts_opened (b : Board) (secret : Option String) (limit : Nat) :
    Recounts b secret [] (opened b secret limit) where
  length_decoded := by simp [decoded_opened]
  decoded i := by simp [getElem?_decoded_opened]
  reported i := by simp [getElem?_decoded_opened]
  completed := by
    cases hrequired : b.required <;> simp [complete, decoded_opened, hrequired]
  sawCollision := by cases secret <;> rfl
  secretDecoded := by cases secret <;> rfl
  log := by cases secret <;> exact List.nil_suffix
  length_log := by cases secret <;> rfl

/-- The events of a game, and the session after it. -/
def playing (b : Board) (secret : Option String) (limit : Nat) (calls : List Call) :
    List Event × Session :=
  (opened b secret limit).chronicle calls

/-- **The session recounts the game**, by induction over the calls. -/
theorem recounts_playing (b : Board) (secret : Option String) (limit : Nat) (calls : List Call) :
    (opened b secret limit).Continues (playing b secret limit calls).2 ∧
      Recounts b secret (playing b secret limit calls).1 (playing b secret limit calls).2 := by
  induction calls using List.reverseRecOn with
  | nil => exact ⟨.refl _, recounts_opened b secret limit⟩
  | append_singleton calls c ih =>
    obtain ⟨hcontinues, hrecounts⟩ := ih
    unfold playing at hcontinues hrecounts ⊢
    rw [chronicle_concat]
    generalize (opened b secret limit).chronicle calls = game at hcontinues hrecounts ⊢
    obtain ⟨events, s⟩ := game
    have hboard : s.board = b := hcontinues.board.trans board_opened
    have hsecret : s.secret = secret := hcontinues.secret.trans secret_opened
    have hnext := continues_answer s c
    have hadds := adds_answer (hrecounts.length_decoded.trans (by rw [hboard])) c
    refine ⟨hcontinues.trans hnext, ?_⟩
    dsimp only at hrecounts ⊢
    generalize s.answer c = answer at hnext hadds ⊢
    obtain ⟨e, t⟩ := answer
    cases hadds with
    | submitted _ hrecords =>
      exact hrecounts.submitted hboard hsecret hnext.length_decoded hrecords
    | failed _ hlooks => exact hrecounts.idle hlooks successes_failed
    | predicted => exact hrecounts.idle ⟨rfl, rfl, rfl, rfl⟩ successes_predicted

theorem adds_playing (b : Board) (secret : Option String) (limit : Nat) (calls : List Call)
    (c : Call) : (playing b secret limit calls).2.Adds c
      ((playing b secret limit calls).2.answer c).1
      ((playing b secret limit calls).2.answer c).2 := by
  obtain ⟨hcontinues, hrecounts⟩ := recounts_playing b secret limit calls
  apply adds_answer
  rw [hcontinues.board, board_opened]
  exact hrecounts.length_decoded

end Session

/-- **A session shows what happened, and nothing else.** After any calls on a new game, the flags,
the log and the two marks are what the events say: a flag is set if its word has been submitted
with a result, was not the secret keyword and stands first in this place; it was reported once, as
was the end of the game if no flag is missing; a collision and the secret are marked if there was
one; and the log has the lines of the last three results. One call more adds an event. A submission
with a result records it, one without shows nowhere, and a prediction changes nothing. No call that
comes later clears a flag. -/
theorem session_recounts (b : Board) (secret : Option String) (limit : Nat) (calls : List Call) :
    Session.Recounts b secret (Session.playing b secret limit calls).1
      (Session.playing b secret limit calls).2 ∧
    (∀ c, ∃ e t, Session.playing b secret limit (calls ++ [c]) =
        ((Session.playing b secret limit calls).1 ++ [e], t) ∧
      (Session.playing b secret limit calls).2.Adds c e t) ∧
    ∀ more, (Session.playing b secret limit calls).2.KeepsFlags
      (Session.playing b secret limit (calls ++ more)).2 := by
  refine ⟨(Session.recounts_playing b secret limit calls).2,
    fun c => ⟨_, _, Session.chronicle_concat _ _ c, Session.adds_playing b secret limit calls c⟩,
    fun more => ?_⟩
  induction more using List.reverseRecOn with
  | nil =>
    rw [List.append_nil]
    exact fun _ hi => hi
  | append_singleton more c ih =>
    intro i hi
    rw [← List.append_assoc, Session.playing, Session.chronicle_concat]
    exact (Session.adds_playing b secret limit (calls ++ more) c).keepsFlags i (ih i hi)

/-- A game with a secret keyword: the word is decoded, and sent once more. -/
theorem shiftLine_recounted :
    ∃ b, shiftLine.build .zero 100 = .ok b ∧
      (successes (Session.playing b (some "xyz") 100
        [.submit "abc", .predict "abc", .submit "abc", .submit "xyz"]).1).countP
          (·.2.decodes 0) = 1 ∧
      (Session.playing b (some "xyz") 100
        [.submit "abc", .predict "abc", .submit "abc", .submit "xyz"]).2.log =
          ["abc -> bcd", "abc -> bcd", "xyz -> yza"] := by
  obtain ⟨b, hb, hgame⟩ := exists_ok_of_any
    (show (shiftLine.build .zero 100).toOption.any (fun b =>
      (Session.playing b (some "xyz") 100 [.submit "abc"]).2.decoded == [true] &&
      (Session.playing b (some "xyz") 100
        [.submit "abc", .predict "abc", .submit "abc", .submit "xyz"]).2.log ==
          ["abc -> bcd", "abc -> bcd", "xyz -> yza"]) = true by decide +kernel)
  rw [Bool.and_eq_true, beq_iff_eq, beq_iff_eq] at hgame
  obtain ⟨hdecoded, hlog⟩ := hgame
  obtain ⟨_, _, hkept⟩ := session_recounts b (some "xyz") 100 [.submit "abc"]
  obtain ⟨hrecounts, _, _⟩ := session_recounts b (some "xyz") 100
    [.submit "abc", .predict "abc", .submit "abc", .submit "xyz"]
  have hflag := hkept [.predict "abc", .submit "abc", .submit "xyz"] 0 (by rw [hdecoded]; rfl)
  refine ⟨b, hb, ?_, hlog⟩
  rw [hrecounts.reported 0]
  exact if_pos hflag

end CipherBoard
