/-
CipherBoard.Proofs.Decoding — what submitting keywords comes to.

* `Session.record_encoded`, `submit_keyword` — a keyword whose run has a result is never
  a miss, whatever was submitted before and under whatever limit.
* `Session.Hits` — a submission decodes the keyword in some place, unless that is decoded
  already; `decoded_after` says that it sets this flag and no other.
* `Session.played` — a session after many submissions; `decoded_played` gives its flags.
* `decoded_eq_firstPlaces` — after a new game, the flags are those of the words that were
  submitted, each in the first of its places.
* `complete_iff_nodup` — so the game is over as soon as all required keywords are
  submitted, unless one of them is required twice; then it never is, and
  `wordTwice_never_complete` is a level of this kind.
-/
import CipherBoard.Level
import CipherBoard.Proofs.History
import Mathlib.Data.Finset.Card

namespace CipherBoard

variable {l : Layout} {origin : Point} {limit limit' : Nat} {b : Board}

/-! ## Section 1 — keywords are not missed -/

/-- The place of a word is the first that holds it. -/
theorem idxOf?_eq_some_iff_getElem? {words : List String} {word : String} {i : Nat} :
    words.idxOf? word = some i ↔ words[i]? = some word ∧ ∀ j < i, words[j]? ≠ some word := by
  rw [List.idxOf?_eq_some_iff, List.getElem?_eq_some_iff]
  constructor
  · rintro ⟨hlt, hat, hbefore⟩
    exact ⟨⟨hlt, hat⟩, fun j hj heq => hbefore j hj (List.getElem?_eq_some_iff.mp heq).2⟩
  · rintro ⟨⟨hlt, hat⟩, hbefore⟩
    exact ⟨hlt, hat, fun j hj heq => hbefore j hj (List.getElem?_eq_some_iff.mpr ⟨_, heq⟩)⟩

/-- An output that some keyword has is no miss, and collides with the first that has it. -/
theorem Session.record_encoded {s : Session} {i : Nat} {output : String} (input : String)
    (h : s.board.encoded[i]? = some output) :
    (∀ text, (s.record input output).1 ≠ .miss text) ∧
      ∀ j text, (s.record input output).1 = .collision j text →
        j ≤ i ∧ s.board.encoded[j]? = some text ∧ ∀ k < j, s.board.encoded[k]? ≠ some text := by
  rcases s.record_cases input output with
    ⟨_, hrec⟩ | ⟨_, _, _, hrec⟩ | ⟨_, _, j, hj, hrec⟩ | ⟨_, _, hnone, _⟩
  · rw [hrec]
    exact ⟨nofun, nofun⟩
  · rw [hrec]
    exact ⟨nofun, nofun⟩
  · rw [hrec]
    refine ⟨nofun, fun _ _ heq => ?_⟩
    cases heq
    obtain ⟨hat, hbefore⟩ := idxOf?_eq_some_iff_getElem?.1 hj
    refine ⟨Nat.le_of_not_lt fun hlt => hbefore i hlt h, hat, hbefore⟩
  · rw [List.idxOf?_eq_none_iff] at hnone
    exact absurd (List.mem_of_getElem? h) hnone

theorem Session.submit_eq_ok_iff {s t : Session} {input : String} {a : Attempt} :
    s.submit input = .ok (a, t) ↔ ∃ output, s.board.encode s.runner.limit input = .ok output ∧
      (s.send input).2.record input output = (a, t) := by
  rw [submit_eq]
  cases s.board.encode s.runner.limit input <;> simp [Except.map]

/-- **No keyword is a miss.** Whatever happened in a session, a keyword whose run has a result
gives the output that the board has for it, and turns out to be the secret, a keyword to decode,
or a collision; the collision is with the first keyword that has this output. -/
theorem submit_keyword {s t : Session} {i : Nat} {keyword : String} {a : Attempt}
    (hb : l.build origin limit = .ok b) (hs : Session.Reachable b s)
    (hk : b.keywords[i]? = some keyword) (ha : s.submit keyword = .ok (a, t)) :
    b.encoded[i]? = some a.output ∧ (∀ output, a ≠ .miss output) ∧
      ∀ j output, a = .collision j output → j ≤ i ∧ b.encoded[j]? = some output ∧
        ∀ k < j, b.encoded[k]? ≠ some output := by
  obtain ⟨output, hrun, hrecord⟩ := Session.submit_eq_ok_iff.1 ha
  obtain ⟨output', hencoded, hrun'⟩ := Layout.exists_encoded hb hk
  have hboard : s.board = b := hs.upheld.board
  -- The limits may differ, but there are two results.
  have hsame : output = output' := Board.encode_unique hrun (hboard ▸ hrun')
  have hout : a.output = output := by
    rw [← Session.output_record (s.send keyword).2 keyword output, hrecord]
  rw [← hsame] at hencoded
  have hsent : (s.send keyword).2.board.encoded[i]? = some output := hboard ▸ hencoded
  have hattempt := Session.record_encoded keyword hsent
  rw [hrecord, show (s.send keyword).2.board = b from hboard] at hattempt
  exact ⟨hout ▸ hencoded, hattempt⟩

theorem shiftLine_collision :
    ∃ b t, shiftLine.build .zero 100 = .ok b ∧
      (((Session.start b).withLimit 50).after "abc").submit "abc" = .ok (.collision 0 "bcd", t) ∧
      b.encoded[0]? = some "bcd" := by
  obtain ⟨b, hb, hrun⟩ := exists_ok_of_any
    (show (shiftLine.build .zero 100).toOption.any (fun b => b.keywords == ["abc"] &&
        ((((Session.start b).withLimit 50).after "abc").submit "abc").toOption.any
          (·.1 == .collision 0 "bcd")) = true by decide +kernel)
  rw [Bool.and_eq_true, beq_iff_eq] at hrun
  obtain ⟨hkeywords, hsubmit⟩ := hrun
  obtain ⟨⟨a, t⟩, ha, hattempt⟩ := exists_ok_of_any hsubmit
  cases beq_iff_eq.mp hattempt
  have hs : Session.Reachable b (((Session.start b).withLimit 50).after "abc") :=
    .after "abc" (.withLimit 50 .start)
  have hk : b.keywords[0]? = some "abc" := by rw [hkeywords]; rfl
  exact ⟨b, t, hb, ha, (submit_keyword hb hs hk ha).1⟩

/-! ## Section 2 — the flags of a session -/

namespace Session

variable {s t : Session} {input : String} {i : Nat}

/-- The input has a result, is not the secret keyword, and stands first in the place `i` of the
required keywords. -/
def Hits (s : Session) (input : String) (i : Nat) : Prop :=
  (∃ output, s.board.encode s.runner.limit input = .ok output) ∧ s.secret ≠ some input ∧
    s.board.required.idxOf? input = some i

theorem Continues.hits_iff (h : s.Continues t) : t.Hits input i ↔ s.Hits input i := by
  unfold Hits
  rw [h.board, h.runner_limit, h.secret]

theorem decodes?_eq_some_iff : s.decodes? input = some i ↔
    s.board.required.idxOf? input = some i ∧ s.decoded[i]? = some false := by
  unfold decodes?
  rw [Option.filter_eq_some_iff, beq_iff_eq]

/-- A place that a submission hits and does not decode is decoded already. -/
theorem decoded_of_decodes?_eq_none (hlen : s.decoded.length = s.board.required.length)
    (h : s.decodes? input = none) (hi : s.board.required.idxOf? input = some i) :
    s.decoded[i]? = some true := by
  obtain ⟨hlt, _⟩ := List.idxOf?_eq_some_iff.mp hi
  obtain ⟨flag, hflag⟩ : ∃ flag, s.decoded[i]? = some flag :=
    ⟨_, List.getElem?_eq_getElem (hlen ▸ hlt)⟩
  cases flag with
  | true => exact hflag
  | false =>
    rw [decodes?_eq_some_iff.2 ⟨hi, hflag⟩] at h
    cases h

/-- Recording an input sets the flag of its place, unless it is the secret keyword, and no
other. -/
theorem decoded_record (hlen : s.decoded.length = s.board.required.length)
    (input output : String) (i : Nat) : (s.record input output).2.decoded[i]? = some true ↔
      s.decoded[i]? = some true ∨
        s.secret ≠ some input ∧ s.board.required.idxOf? input = some i := by
  rcases s.record_cases input output with
    ⟨hsecret, h⟩ | ⟨hsecret, j, hj, h⟩ | ⟨_, hnone, _, _, h⟩ | ⟨_, hnone, _, h⟩
  · rw [h]
    exact (or_iff_left fun ⟨hne, _⟩ => hne hsecret).symm
  · rw [h]
    obtain ⟨hplace, hopen⟩ := decodes?_eq_some_iff.1 hj
    have hlt : j < s.decoded.length := (List.getElem?_eq_some_iff.mp hopen).1
    show (s.decoded.set j true)[i]? = some true ↔ _
    rw [List.getElem?_set, hplace]
    by_cases heq : j = i
    · subst heq
      simp [hlt, hsecret]
    · simp [heq]
  all_goals
    rw [h]
    exact (or_iff_left_of_imp fun ⟨_, hi⟩ => decoded_of_decodes?_eq_none hlen hnone hi).symm

/-- **One submission** sets the flag that it hits, and no other. -/
theorem decoded_after (hlen : s.decoded.length = s.board.required.length) (input : String)
    (i : Nat) : (s.after input).decoded[i]? = some true ↔
      s.decoded[i]? = some true ∨ s.Hits input i := by
  unfold Hits
  rw [after_eq]
  cases s.board.encode s.runner.limit input with
  | error e => simp [send]
  | ok output =>
    have hrecord := decoded_record (s := (s.send input).2) hlen input output i
    simpa [send] using hrecord

/-- The session after submissions, one after the other. -/
def played (s : Session) (inputs : List String) : Session :=
  inputs.foldl after s

theorem continues_played (s : Session) (inputs : List String) : s.Continues (s.played inputs) := by
  induction inputs generalizing s with
  | nil => exact .refl s
  | cons input rest ih => exact (continues_after s input).trans (ih (s.after input))

/-- **Many submissions** set the flags that any of them hits. -/
theorem decoded_played (hlen : s.decoded.length = s.board.required.length)
    (inputs : List String) (i : Nat) : (s.played inputs).decoded[i]? = some true ↔
      s.decoded[i]? = some true ∨ ∃ input ∈ inputs, s.Hits input i := by
  induction inputs generalizing s with
  | nil => simp [played]
  | cons input rest ih =>
    have hafter := continues_after s input
    have hlen' : (s.after input).decoded.length = (s.after input).board.required.length := by
      rw [hafter.length_decoded, hafter.board, hlen]
    show ((s.after input).played rest).decoded[i]? = some true ↔ _
    rw [ih hlen', decoded_after hlen, or_assoc]
    simp only [hafter.hits_iff, List.exists_mem_cons_iff]

end Session

/-! ## Section 3 — the end of a game -/

/-- A flag for each word: whether it is among the inputs, and stands here for the first time. -/
def firstPlaces (words inputs : List String) : List Bool :=
  words.mapIdx fun i word => decide (word ∈ inputs ∧ word ∉ words.take i)

theorem not_mem_take_iff {words : List String} {word : String} {i : Nat} :
    word ∉ words.take i ↔ ∀ j < i, words[j]? ≠ some word := by
  constructor
  · intro h j hj heq
    exact h (List.mem_iff_getElem?.mpr ⟨j, by rw [List.getElem?_take_of_lt hj, heq]⟩)
  · intro h hmem
    obtain ⟨j, hj, heq⟩ := List.mem_take_iff_getElem.mp hmem
    exact h j (by omega) (List.getElem?_eq_some_iff.mpr ⟨_, heq⟩)

theorem getElem?_firstPlaces {words inputs : List String} {i : Nat} :
    (firstPlaces words inputs)[i]? = some true ↔
      ∃ input ∈ inputs, words.idxOf? input = some i := by
  unfold firstPlaces
  simp only [List.getElem?_mapIdx, Option.map_eq_some_iff, decide_eq_true_eq, not_mem_take_iff,
    idxOf?_eq_some_iff_getElem?]
  constructor
  · rintro ⟨word, hword, hmem, hbefore⟩
    exact ⟨word, hmem, hword, hbefore⟩
  · rintro ⟨word, hmem, hword, hbefore⟩
    exact ⟨word, hword, hmem, hbefore⟩

/-- One word more has a flag of its own, and changes no other. -/
theorem firstPlaces_append_singleton (words inputs : List String) (word : String) :
    firstPlaces (words ++ [word]) inputs =
      firstPlaces words inputs ++ [decide (word ∈ inputs ∧ word ∉ words)] := by
  unfold firstPlaces
  rw [List.mapIdx_concat, List.take_left']
  · congr 1
    apply List.ext_getElem (by simp)
    intro i hi _
    have hlt : i < words.length := by simpa using hi
    simp only [List.getElem_mapIdx, List.take_append_of_le_length hlt.le]
  · rfl

/-- As many flags are set as there are different words among the inputs. -/
theorem count_firstPlaces (words inputs : List String) :
    (firstPlaces words inputs).count true = (words.toFinset ∩ inputs.toFinset).card := by
  induction words using List.reverseRecOn with
  | nil => simp [firstPlaces]
  | append_singleton words word ih =>
    rw [firstPlaces_append_singleton, List.count_append, ih, List.toFinset_append,
      Finset.union_inter_distrib_right]
    by_cases hsub : word ∈ inputs
    · by_cases hnew : word ∈ words
      · simp [hsub, hnew]
      · simp [hsub, hnew]
    · simp [hsub]

/-- Flags are known by the places of those that are set. -/
theorem flags_ext {flags flags' : List Bool} (hlen : flags.length = flags'.length)
    (h : ∀ i : Nat, flags[i]? = some true ↔ flags'[i]? = some true) : flags = flags' := by
  apply List.ext_getElem hlen
  intro i hi hi'
  have hat := h i
  rw [List.getElem?_eq_getElem hi, List.getElem?_eq_getElem hi', Option.some.injEq,
    Option.some.injEq] at hat
  exact Bool.eq_iff_iff.mpr hat

/-- The different words among the inputs are as many as the words exactly if no word occurs
twice and none is left out. -/
theorem card_inter_eq_length_iff {words inputs : List String} :
    (words.toFinset ∩ inputs.toFinset).card = words.length ↔
      words.Nodup ∧ ∀ word ∈ words, word ∈ inputs := by
  have hsub : words.toFinset ∩ inputs.toFinset ⊆ words.toFinset := Finset.inter_subset_left
  have hinter := Finset.card_le_card hsub
  have hwords := List.toFinset_card_le words
  constructor
  · intro h
    have hnodup : words.Nodup := Multiset.toFinset_card_eq_card_iff_nodup.mp
      (show words.toFinset.card = words.length by omega)
    have hall : words.toFinset ∩ inputs.toFinset = words.toFinset :=
      Finset.eq_of_subset_of_card_le hsub (by omega)
    exact ⟨hnodup, fun word hword => List.mem_toFinset.mp
      (Finset.inter_eq_left.mp hall (List.mem_toFinset.mpr hword))⟩
  · rintro ⟨hnodup, hall⟩
    have hmem : words.toFinset ⊆ inputs.toFinset := fun word hword =>
      List.mem_toFinset.mpr (hall word (List.mem_toFinset.mp hword))
    rw [Finset.inter_eq_left.mpr hmem, List.toFinset_card_of_nodup hnodup]

namespace Session

theorem complete_iff {s : Session} : s.complete = true ↔ s.decodedCount = s.decoded.length := by
  unfold complete decodedCount
  rw [List.all_eq_true, List.count_eq_length]
  simp only [id_eq, eq_comm]

/-- A new game on the board, under a step limit, after the inputs. -/
def game (b : Board) (limit : Nat) (inputs : List String) : Session :=
  ((start b).withLimit limit).played inputs

/-- In a new game, a keyword of the board hits the first place in which it is required. -/
theorem hits_start_iff (hb : l.build origin limit = .ok b) (hle : limit ≤ limit')
    {input : String} {i : Nat} :
    ((start b).withLimit limit').Hits input i ↔ b.required.idxOf? input = some i := by
  refine ⟨fun h => h.2.2, fun hplace => ⟨?_, nofun, hplace⟩⟩
  obtain ⟨hat, _⟩ := idxOf?_eq_some_iff_getElem?.1 hplace
  have hk : b.keywords[i]? = some input := by
    rw [Board.required, List.getElem?_take] at hat
    split at hat
    · exact hat
    · cases hat
  obtain ⟨output, _, hrun⟩ := Layout.exists_encoded hb hk
  exact ⟨output, Board.encode_mono hle hrun⟩

/-- **The flags of a game**: those of the words submitted, each in the first of its places. -/
theorem decoded_eq_firstPlaces (hb : l.build origin limit = .ok b) (hle : limit ≤ limit')
    (inputs : List String) : (game b limit' inputs).decoded = firstPlaces b.required inputs := by
  have hlen : ((start b).withLimit limit').decoded.length = b.required.length :=
    List.length_map _
  have hnone (i : Nat) : ((start b).withLimit limit').decoded[i]? ≠ some true := by
    show (b.required.map fun _ => false)[i]? ≠ some true
    rw [List.getElem?_map]
    cases b.required[i]? <;> simp
  apply flags_ext
  · rw [game, (continues_played _ inputs).length_decoded, hlen]
    exact List.length_mapIdx.symm
  · intro i
    rw [game, decoded_played hlen, or_iff_right (hnone i), getElem?_firstPlaces]
    simp only [hits_start_iff hb hle]

end Session

/-- **The end of a game.** Under at least the step limit that the board was built with, every
keyword has a result whatever was submitted before. As many required keywords are decoded as
different words among them were submitted, and the game is over once these are all. So it ends
when every required keyword has been submitted, in any order and with any inputs in between,
if no word is required twice; if one is, it never ends. -/
theorem complete_iff_nodup (hb : l.build origin limit = .ok b) (hle : limit ≤ limit')
    (inputs : List String) :
    (∀ keyword ∈ b.keywords, ∃ attempt,
      (Session.game b limit' inputs).submit keyword = .ok attempt) ∧
    (Session.game b limit' inputs).decodedCount =
      (b.required.toFinset ∩ inputs.toFinset).card ∧
    ((Session.game b limit' inputs).complete = true ↔
      (Session.game b limit' inputs).decodedCount = b.required.length) ∧
    ((Session.game b limit' inputs).complete = true ↔
      b.required.Nodup ∧ ∀ keyword ∈ b.required, keyword ∈ inputs) := by
  have hcontinues := Session.continues_played ((Session.start b).withLimit limit') inputs
  have hlen : (Session.game b limit' inputs).decoded.length = b.required.length :=
    hcontinues.length_decoded.trans (List.length_map _)
  have hcount : (Session.game b limit' inputs).decodedCount =
      (b.required.toFinset ∩ inputs.toFinset).card := by
    rw [Session.decodedCount, Session.decoded_eq_firstPlaces hb hle, count_firstPlaces]
  have hcomplete : (Session.game b limit' inputs).complete = true ↔
      (Session.game b limit' inputs).decodedCount = b.required.length := by
    rw [Session.complete_iff, hlen]
  refine ⟨fun keyword hmem => ?_, hcount, hcomplete, ?_⟩
  · obtain ⟨i, hi⟩ := List.mem_iff_getElem?.mp hmem
    obtain ⟨output, _, hrun⟩ := Layout.exists_encoded hb hi
    refine ⟨_, Session.submit_eq_ok_iff.2 ⟨output, ?_, rfl⟩⟩
    rw [Session.game, hcontinues.board, hcontinues.runner_limit]
    exact Board.encode_mono hle hrun
  · rw [hcomplete, hcount, card_inter_eq_length_iff]

/-- The line that moves letters on by one, with two words to decode. -/
def twoWords : Layout :=
  { shiftLine with keywords := ["abc", "xyz"], requiredCount := 2 }

theorem twoWords_complete :
    ∃ b, twoWords.build .zero 100 = .ok b ∧ b.required = ["abc", "xyz"] ∧
      (Session.game b 1000 ["xyz", "q", "abc"]).complete = true := by
  obtain ⟨b, hb, hrequired⟩ := exists_ok_of_any
    (show (twoWords.build .zero 100).toOption.any (fun b => b.required == ["abc", "xyz"]) = true by
      decide +kernel)
  rw [beq_iff_eq] at hrequired
  obtain ⟨_, _, _, hend⟩ :=
    complete_iff_nodup hb (show 100 ≤ 1000 by decide) ["xyz", "q", "abc"]
  refine ⟨b, hb, hrequired, hend.mpr ?_⟩
  rw [hrequired]
  decide

/-- The same line, with one word to decode twice. -/
def wordTwice : Layout :=
  { shiftLine with keywords := ["abc", "abc"], requiredCount := 2 }

/-- **A word that is required twice** is decoded once: the level is read and built, and
submitting the word in both of its places does not end the game. -/
theorem wordTwice_never_complete :
    Level.assemble ⟨96, 96, []⟩ (.settings 2 ["abc", "abc"] :: shiftLine.placements.map .piece) =
        .ok wordTwice ∧
      ∃ b, wordTwice.build .zero 100 = .ok b ∧ b.required = ["abc", "abc"] ∧
        (Session.game b 100 b.required).decodedCount = 1 ∧
        (Session.game b 100 b.required).complete = false := by
  constructor
  · rfl
  · obtain ⟨b, hb, hgame⟩ := exists_ok_of_any
      (show (wordTwice.build .zero 100).toOption.any (fun b => b.required == ["abc", "abc"] &&
          (Session.game b 100 b.required).decodedCount == 1 &&
          (Session.game b 100 b.required).complete == false) = true by
        decide +kernel)
    rw [Bool.and_eq_true, Bool.and_eq_true, beq_iff_eq, beq_iff_eq, beq_iff_eq] at hgame
    obtain ⟨⟨hrequired, hcount⟩, hcomplete⟩ := hgame
    exact ⟨b, hb, hrequired, hcount, hcomplete⟩

end CipherBoard
