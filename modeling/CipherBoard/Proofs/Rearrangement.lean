/-
CipherBoard.Proofs.Rearrangement — what a rearrangement leaves alone.

Five kinds of transforms move letters and change none. A condition that only weighs the letters of
a word, its length or how often it holds each, cannot see such a transform. Neither can the test
of the hash: the hash depends on the order of the letters, but its lowest bit does not. Taking in
a letter is an exclusive or and a multiplication by an odd number, so the hash changes its parity
at the odd letters and nowhere else.

* `Word.isAnagramOf_iff` — comparing lengths and all tallies decides whether two words are
  rearrangements of each other.
* `Word.oddLetters`, `Word.hash_mod_two` — the parity of the hash, by induction over the word.
* `Condition.ignoresOrder`, `Condition.holds_perm` — the conditions that are blind to the order of
  letters; `Condition.exists_seen` says that every other kind has conditions that see it.
* `Transform.rearranges_iff` — the transforms that make rearrangements of all words;
  `Signal.pass_transformed` says that a branch with a blind condition sends a signal the same way
  before and after one of them.
* `Board.Blind`, `Signal.Anagrams` — boards that see no order, and signals that go together there:
  `Anagrams.pass`, `Anagrams.step` and `Runner.exists_anagrams` follow them through a piece, a step
  and a run.
* `hash_parity_law`, `rearrangement_unseen` — these together.
-/
import CipherBoard.Proofs.Steering
import Mathlib.Algebra.Ring.Parity
import Mathlib.Data.Nat.Bitwise

namespace CipherBoard

/-! ## Section 1 — tallies -/

namespace Word

variable {w v : Word}

theorem mem_allBytes (b : UInt8) : b ∈ allBytes := by
  unfold allBytes
  rw [List.mem_map]
  exact ⟨b.toNat, List.mem_range.mpr b.toNat_lt, UInt8.ofNat_toNat⟩

/-- **Equal tallies are rearrangements.** -/
theorem isAnagramOf_iff : w.isAnagramOf v = true ↔ w.Perm v := by
  simp only [isAnagramOf, Bool.and_eq_true, beq_iff_eq, List.all_eq_true]
  constructor
  · intro h
    exact List.perm_iff_count.mpr fun b => h.2 b (mem_allBytes b)
  · intro h
    exact ⟨h.length_eq, fun b _ => h.count_eq b⟩

end Word

/-! ## Section 2 — the parity of the hash -/

/-- Whether the number of a byte is odd. -/
def Letter.isOdd (b : UInt8) : Bool :=
  b.toNat % 2 == 1

namespace Word

variable {w v : Word}

/-- How many bytes of a word are odd. -/
def oddLetters (w : Word) : Nat :=
  w.countP Letter.isOdd

theorem oddLetters_cons (b : UInt8) (w : Word) :
    oddLetters (b :: w) % 2 = (b.toNat + w.oddLetters) % 2 := by
  unfold oddLetters
  by_cases hb : Letter.isOdd b = true
  · have hodd : b.toNat % 2 = 1 := by simpa [Letter.isOdd] using hb
    rw [List.countP_cons_of_pos hb]
    omega
  · have heven : b.toNat % 2 = 0 := by simpa [Letter.isOdd] using hb
    rw [List.countP_cons_of_neg hb]
    omega

theorem oddLetters_perm (h : w.Perm v) : w.oddLetters = v.oddLetters :=
  h.countP_eq Letter.isOdd

/-- Taking in a letter changes the parity of the hash by the parity of the letter: the product is
cut off at an even number, and its second factor is odd. -/
theorem hash_step_mod_two (h : UInt64) (b : UInt8) :
    ((h ^^^ b.toUInt64) * hashPrime).toNat % 2 = (h.toNat + b.toNat) % 2 := by
  have hprime : hashPrime.toNat % 2 = 1 := by decide
  rw [UInt64.toNat_mul, Nat.mod_mod_of_dvd _ (by decide), Nat.mul_mod, hprime, Nat.mul_one,
    Nat.mod_mod, UInt64.toNat_xor, Nat.xor_mod_two_eq, UInt8.toNat_toUInt64]

/-- The same for all letters of a word, from any hash on. -/
theorem foldl_hash_mod_two (h : UInt64) (w : Word) :
    (w.foldl (fun h b => (h ^^^ b.toUInt64) * hashPrime) h).toNat % 2 =
      (h.toNat + w.oddLetters) % 2 := by
  induction w generalizing h with
  | nil => rfl
  | cons b rest ih =>
    have hstep := hash_step_mod_two h b
    have hcons := oddLetters_cons b rest
    rw [List.foldl_cons, ih]
    omega

/-- **The hash is odd for the empty word, and changes its parity at the odd letters.** -/
theorem hash_mod_two (w : Word) : w.hash.toNat % 2 = (1 + w.oddLetters) % 2 := by
  have hbasis : hashBasis.toNat % 2 = 1 := by decide
  have hrun := foldl_hash_mod_two hashBasis w
  unfold hash
  omega

theorem hash_even_iff (w : Word) : w.hash % 2 = 0 ↔ Odd w.oddLetters := by
  have hparity := w.hash_mod_two
  have hmod : (w.hash % 2).toNat = w.hash.toNat % 2 := UInt64.toNat_mod _ _
  rw [← UInt64.toNat_inj, hmod, Nat.odd_iff]
  show w.hash.toNat % 2 = 0 ↔ w.oddLetters % 2 = 1
  omega

end Word

/-! ## Section 3 — conditions -/

namespace Condition

variable {c : Condition} {w v : Word}

/-- Whether a condition is blind to the order of the letters. -/
def ignoresOrder : Condition → Bool
  | anagramOf _ | anyLetterOf _ | evenLength | evenHash | lengthIs _ | shorterThan _
  | longerThan _ | constant _ => true
  | equals _ | occurrences _ _ | includes _ | startsWith _ | endsWith _ | lastAfter _
  | unchanged => false

theorem holds_evenHash_iff (w input : Word) :
    evenHash.holds w input = true ↔ Odd w.oddLetters := by
  simp [holds, Word.hash_even_iff]

/-- **Blind conditions take rearrangements for the same**, whatever the runs began with. -/
theorem holds_perm (hc : c.ignoresOrder = true) (h : w.Perm v) (input input' : Word) :
    c.holds w input = c.holds v input' := by
  cases c with
  | anagramOf word =>
    rw [Bool.eq_iff_iff]
    simp only [holds, Word.isAnagramOf_iff]
    exact ⟨fun hw => h.symm.trans hw, fun hv => h.trans hv⟩
  | anyLetterOf letters => simp [holds, h.mem_iff]
  | evenLength | lengthIs | shorterThan | longerThan => simp [holds, h.length_eq]
  | evenHash => rw [Bool.eq_iff_iff, holds_evenHash_iff, holds_evenHash_iff, Word.oddLetters_perm h]
  | constant => rfl
  | equals | occurrences | includes | startsWith | endsWith | lastAfter | unchanged => cases hc

/-- Of every other kind there is a condition that tells `ab` from `ba`. -/
theorem exists_seen (hc : c.ignoresOrder = false) : ∃ c' : Condition, c'.kindName = c.kindName ∧
    c'.holds (Word.ofText "ab") (Word.ofText "ab") = true ∧
    c'.holds (Word.ofText "ba") (Word.ofText "ab") = false := by
  cases c with
  | equals => exact ⟨equals (Word.ofText "ab"), rfl, by decide, by decide⟩
  | occurrences => exact ⟨occurrences (Word.ofText "ab") 1, rfl, by decide, by decide⟩
  | includes => exact ⟨includes (Word.ofText "ab"), rfl, by decide, by decide⟩
  | startsWith => exact ⟨startsWith (Word.ofText "a"), rfl, by decide, by decide⟩
  | endsWith => exact ⟨endsWith (Word.ofText "b"), rfl, by decide, by decide⟩
  | lastAfter => exact ⟨lastAfter 97, rfl, by decide, by decide⟩
  | unchanged => exact ⟨unchanged, rfl, by decide, by decide⟩
  | anagramOf | anyLetterOf | evenLength | evenHash | lengthIs | shorterThan | longerThan
  | constant => cases hc

end Condition

/-! ## Section 4 — transforms -/

/-- Every letter step changes some letter. -/
theorem LetterStep.exists_changed (step : LetterStep) : ∃ b, step.apply b ≠ b := by
  cases step with
  | rot13 | atbash | next | prev | nextClamped | nextDotted | hardshiftRight =>
    exact ⟨97, by decide⟩  -- `a`
  | prevClamped | prevUndotted => exact ⟨98, by decide⟩  -- `b`
  | hardshiftLeft => exact ⟨122, by decide⟩  -- `z`

/-- Every span takes in a letter of a word of two. -/
theorem Span.mem_map (span : Span) (f : UInt8 → UInt8) (b : UInt8) : f b ∈ span.map f [b, b] := by
  cases span <;> simp [map, Word.mapLast, Word.mapButLast, Word.alternate]

/-- **The transforms that only move letters** are those that say so, and no other. -/
theorem Transform.rearranges_iff {op : Transform} :
    op.rearranges = true ↔ ∀ w, (op.apply w).Perm w := by
  constructor
  · intro h w
    exact perm_apply h w
  · intro h
    cases op with
    | reverse | swapHalves | zigzag | rotateLeft | rotateRight => rfl
    | collapsePairs => exact absurd (h [97, 122]) (by decide)
    | letters step span =>
      obtain ⟨b, hchanged⟩ := step.exists_changed
      have hmem := (h [b, b]).mem_iff.mp (span.mem_map step.apply b)
      simp [hchanged] at hmem

/-- Whether a transform makes rearrangements of rearrangements. -/
def Transform.treatsAlike : Transform → Bool
  | .letters _ span => span == .all
  | .collapsePairs => false
  | _ => true

theorem Transform.perm_of_perm {op : Transform} (hop : op.treatsAlike = true) {w v : Word}
    (h : w.Perm v) : (op.apply w).Perm (op.apply v) := by
  cases op with
  | letters step span =>
    cases span with
    | all => exact h.map step.apply
    | _ => cases hop
  | collapsePairs => cases hop
  | _ => exact (perm_apply rfl w).trans (h.trans (perm_apply rfl v).symm)

/-! ## Section 5 — branches and runs -/

/-- Whether a piece goes by nothing that a rearrangement changes, and leaves rearrangements. -/
def Behaviour.isBlind : Behaviour → Bool
  | .test c | .testNot c => c.ignoresOrder
  | .transform op => op.treatsAlike
  | _ => true

/-- No piece of the board sees the order of the letters. -/
def Board.Blind (b : Board) : Prop :=
  ∀ p ∈ b.pieces, p.behaviour.isBlind = true

instance (b : Board) : Decidable b.Blind :=
  decidable_of_iff (∀ p ∈ b.pieces.toList, p.behaviour.isBlind = true) (by
    simp only [Array.mem_toList_iff, Board.Blind])

namespace Signal

variable {b : Board} {s t s' : Signal} {op : Transform} {p : Piece} {c : Condition} {way : Nat}

/-- The signal after a transform. -/
def transformed (s : Signal) (op : Transform) : Signal :=
  { s with word := op.apply s.word }

/-- **A branch that is blind to the order of letters** does with a signal what it does with it
after a rearrangement: it sends it the same way, with the same outcome. -/
theorem pass_transformed (hop : op.rearranges = true) (hc : c.ignoresOrder = true)
    (hp : p.behaviour = .test c ∨ p.behaviour = .testNot c) (s : Signal) :
    (s.transformed op).pass p = (s.pass p).map fun (t, way) => (t.transformed op, way) := by
  have hsame : c.holds (op.apply s.word) s.input = c.holds s.word s.input :=
    Condition.holds_perm hc (Transform.perm_apply hop s.word) s.input s.input
  rcases hp with htest | htestNot
  · simp [pass, htest, transformed, hsame]
  · simp [pass, htestNot, transformed, hsame]

/-- Two signals on one course carry rearrangements of one word. -/
structure Anagrams (s t : Signal) : Prop extends SameCourse s t where
  word : s.word.Perm t.word

/-- **One piece** that is blind sends both signals the same way. -/
theorem Anagrams.pass (h : s.Anagrams t) (hp : p.behaviour.isBlind = true)
    (hpass : s.pass p = some (s', way)) : ∃ t', t.pass p = some (t', way) ∧ s'.Anagrams t' := by
  cases hb : p.behaviour with
  | test c | testNot c =>
    rw [hb] at hp
    have hsame := Condition.holds_perm hp h.word s.input t.input
    simp only [Signal.pass, hb, hsame] at hpass ⊢
    cases hpass
    exact ⟨_, rfl, ⟨h.here, h.counters, rfl⟩, h.word⟩
  | transform op =>
    rw [hb] at hp
    obtain ⟨t', hpass', hcourse⟩ := h.toSameCourse.pass (by rw [hb]; rfl) hpass
    refine ⟨t', hpass', hcourse, ?_⟩
    rw [pass_word hpass, pass_word hpass', hb]
    exact Transform.perm_of_perm hp h.word
  | _ =>
    obtain ⟨t', hpass', hcourse⟩ := h.toSameCourse.pass (by rw [hb]; rfl) hpass
    refine ⟨t', hpass', hcourse, ?_⟩
    rw [pass_word hpass, pass_word hpass', hb]
    exact h.word

/-- **One step**: where one signal moves, the other moves with it. -/
theorem Anagrams.step (h : s.Anagrams t) (hb : b.Blind) (hstep : s.step b = .moved s') :
    ∃ t', t.step b = .moved t' ∧ s'.Anagrams t' := by
  obtain ⟨p, passed, way, target, hp, hpass, hnext, htarget, rfl⟩ := step_eq_moved_iff.mp hstep
  obtain ⟨passed', hpass', hcourse⟩ := h.pass (hb p (Array.mem_of_getElem? hp)) hpass
  refine ⟨{ passed' with here := target }, ?_, ⟨rfl, hcourse.counters, hcourse.outcome⟩,
    hcourse.word⟩
  exact step_eq_moved_iff.mpr ⟨p, passed', way, target, h.here ▸ hp, hpass', hnext, htarget, rfl⟩

theorem Anagrams.finished_eq (h : s.Anagrams t) : t.finished b = s.finished b := by
  unfold finished
  rw [h.here]

end Signal

/-- **However many steps** a runner makes from a reset, one that was sent a rearrangement of the
input makes them too. -/
theorem Runner.exists_anagrams {b : Board} {r u : Runner} {input input' : String} {n : Nat}
    (r' : Runner) (hb : b.Blind) (hinput : (Word.ofText input).Perm (Word.ofText input'))
    (h : (r.reset b input).steps n = .ok u) :
    ∃ s t, u = r.holding b s ∧ (r'.reset b input').steps n = .ok (r'.holding b t) ∧
      s.Anagrams t := by
  induction n generalizing u with
  | zero =>
    cases h
    exact ⟨_, _, rfl, rfl, Signal.sameCourse_enter b _ _, hinput⟩
  | succ n ih =>
    cases hbefore : (r.reset b input).steps n with
    | error e =>
      rw [steps, hbefore] at h
      cases h
    | ok before =>
      obtain ⟨s, t, rfl, hsteps, hst⟩ := ih hbefore
      rw [steps_succ hbefore] at h
      rw [steps_succ hsteps]
      cases hstep : s.step b with
      | broken e =>
        rw [hstep] at h
        cases h
      | halted =>
        rw [hstep] at h
        cases h
        have hhalt : t.step b = .halted := by
          rw [← Signal.finished_iff, hst.finished_eq, Signal.finished_iff, hstep]
        exact ⟨s, t, rfl, by rw [hhalt], hst⟩
      | moved s' =>
        rw [hstep] at h
        cases h
        obtain ⟨t', hmoved, hst'⟩ := hst.step hb hstep
        exact ⟨s', t', rfl, by rw [hmoved], hst'⟩

/-! ## Section 6 — what a board sees -/

/-- **The hash test is a parity test.** The 64-bit hash of a word is even exactly if an odd number
of its bytes is odd. So the condition that a level writes as `fnv_even` holds exactly of such words,
whatever the run began with. A branch that tests it sends them the first way and all others the
second, and a branch that tests whether it fails does the opposite. -/
theorem hash_parity_law :
    (∀ w : Word, w.hash % 2 = 0 ↔ Odd w.oddLetters) ∧
    (∀ spec : ConditionSpec, spec.kind = "fnv_even" → Condition.ofSpec spec = .ok .evenHash) ∧
    (∀ w input : Word, Condition.evenHash.holds w input = true ↔ Odd w.oddLetters) ∧
    ∀ (p : Piece) (s : Signal),
      (p.behaviour = .test .evenHash →
        (s.pass p).map (·.2) = some (if Odd s.word.oddLetters then 0 else 1)) ∧
      (p.behaviour = .testNot .evenHash →
        (s.pass p).map (·.2) = some (if Odd s.word.oddLetters then 1 else 0)) := by
  refine ⟨Word.hash_even_iff, fun spec hkind => ?_, Condition.holds_evenHash_iff, fun p s => ?_⟩
  · simp [Condition.ofSpec, hkind]
  · have hholds : Condition.evenHash.holds s.word s.input = decide (Odd s.word.oddLetters) := by
      rw [Bool.eq_iff_iff, Condition.holds_evenHash_iff, decide_eq_true_iff]
    constructor
    · intro hp
      simp [Signal.pass, hp, hholds, Signal.wayOf]
    · intro hp
      simp [Signal.pass, hp, hholds, Signal.wayOf, -Nat.not_odd_iff_even]

/-- `ace` has three odd letters, `abc` has two. -/
theorem ace_hash_even :
    (Word.ofText "ace").hash % 2 = 0 ∧ (Word.ofText "abc").hash % 2 ≠ 0 ∧
    Condition.ofSpec ⟨"fnv_even", "", 0⟩ = .ok .evenHash ∧
    Condition.evenHash.holds (Word.ofText "ace") [] = true ∧
    ((Signal.enter shiftOnce (Word.ofText "ace")).pass
      (.wired 1 .branch (.test .evenHash) [2, 3])).map (·.2) = some 0 ∧
    ((Signal.enter shiftOnce (Word.ofText "ace")).pass
      (.wired 1 .branch (.testNot .evenHash) [2, 3])).map (·.2) = some 1 := by
  obtain ⟨heven, hkind, hholds, hbranch⟩ := hash_parity_law
  have hace : Odd (Word.ofText "ace").oddLetters := by decide
  have habc : ¬ Odd (Word.ofText "abc").oddLetters := by decide
  have hcarried : Odd (Signal.enter shiftOnce (Word.ofText "ace")).word.oddLetters := hace
  refine ⟨(heven _).mpr hace, mt (heven _).mp habc, hkind _ rfl, (hholds _ _).mpr hace, ?_, ?_⟩
  · rw [(hbranch _ _).1 rfl, if_pos hcarried]
  · rw [(hbranch _ _).2 rfl, if_pos hcarried]

/-- **Rearrangements go unseen.** The transforms that make of every word a rearrangement of it are
reversing, exchanging halves or the letters of pairs, and rotating to either side, with or without
the first letter. Conditions on an anagram, on letters that occur, on the length, on the parity of
the hash and constant ones hold of a word exactly if they hold of every rearrangement of it,
whatever the runs began with; of every other kind there is a condition that tells two
rearrangements apart. So a branch with a condition of those kinds does with a signal what it does
with it after such a transform: it sends it the same way, with the same outcome. And on a board
with no other conditions, whose transforms are of those kinds or change all letters alike, inputs
that are rearrangements of each other go together, step by step, and stay rearrangements. -/
theorem rearrangement_unseen :
    (∀ op : Transform, op.rearranges = true ↔ ∀ w, (op.apply w).Perm w) ∧
    (∀ c : Condition, c.ignoresOrder = true → ∀ w v input input' : Word, w.Perm v →
      c.holds w input = c.holds v input') ∧
    (∀ c : Condition, c.ignoresOrder = false → ∃ (c' : Condition) (w v input : Word),
      c'.kindName = c.kindName ∧ w.Perm v ∧ c'.holds w input ≠ c'.holds v input) ∧
    (∀ (op : Transform) (c : Condition) (p : Piece),
      op.rearranges = true → c.ignoresOrder = true →
      (p.behaviour = .test c ∨ p.behaviour = .testNot c) →
      ∀ s : Signal, (s.transformed op).pass p =
        (s.pass p).map fun (t, way) => (t.transformed op, way)) ∧
    ∀ (b : Board) (r r' u : Runner) (input input' : String) (n : Nat), b.Blind →
      (Word.ofText input).Perm (Word.ofText input') → (r.reset b input).steps n = .ok u →
      ∃ u', (r'.reset b input').steps n = .ok u' ∧ u'.here? = u.here? ∧
        u'.outcome = u.outcome ∧ u'.finished = u.finished ∧ u.word.Perm u'.word := by
  refine ⟨fun op => Transform.rearranges_iff, fun c hc w v input input' h => ?_, fun c hc => ?_,
    fun op c p hop hc hp s => Signal.pass_transformed hop hc hp s,
    fun b r r' u input input' n hb hinput h => ?_⟩
  · exact Condition.holds_perm hc h input input'
  · obtain ⟨c', hkind, hab, hba⟩ := Condition.exists_seen hc
    refine ⟨c', Word.ofText "ab", Word.ofText "ba", Word.ofText "ab", hkind, by decide, ?_⟩
    rw [hab, hba]
    decide
  · obtain ⟨s, t, rfl, hsteps, hst⟩ := Runner.exists_anagrams r' hb hinput h
    exact ⟨_, hsteps, congrArg some hst.here, hst.outcome, hst.finished_eq, hst.word⟩

/-- A board that reverses words and sends them to one of two outputs by the parity of their
hash. -/
def hashFork : Board where
  entry := 0
  pieces := #[.wired 0 .input .forward [1], .wired 1 .transform (.transform .reverse) [2],
    .wired 2 .branch (.test .evenHash) [3, 4], .wired 3 .output .stop [], .wired 4 .output .stop []]
  requiredCount := 0
  keywords := []
  encoded := []
  families := .empty

/-- `listen` and `silent` have different hashes of the same parity, so that the fork does not see
whether halves were exchanged, and both words go to one output. What a word begins with is seen. -/
theorem listen_unseen :
    (Transform.swapHalves.apply (Word.ofText "listen")).Perm (Word.ofText "listen") ∧
    (Word.ofText "listen").Perm (Word.ofText "silent") ∧
    (Word.ofText "listen").hash ≠ (Word.ofText "silent").hash ∧
    Condition.evenHash.holds (Word.ofText "listen") [] =
      Condition.evenHash.holds (Word.ofText "silent") (Word.ofText "silent") ∧
    (∃ (c : Condition) (w v input : Word), c.kindName = "has_prefix" ∧ w.Perm v ∧
      c.holds w input ≠ c.holds v input) ∧
    (∀ s : Signal, (s.transformed .swapHalves).pass (.wired 2 .branch (.test .evenHash) [3, 4]) =
      (s.pass (.wired 2 .branch (.test .evenHash) [3, 4])).map
        fun (t, way) => (t.transformed .swapHalves, way)) ∧
    ∃ u u', (Runner.fresh.reset hashFork "listen").steps 3 = .ok u ∧ u.here? = some 3 ∧
      (Runner.fresh.reset hashFork "silent").steps 3 = .ok u' ∧ u'.here? = u.here? ∧
      u.word.Perm u'.word := by
  obtain ⟨hperm, hblind, hseen, hbranch, hruns⟩ := rearrangement_unseen
  have hanagram : (Word.ofText "listen").Perm (Word.ofText "silent") := by decide
  have hfork : hashFork.Blind := by decide
  obtain ⟨u, hsteps, hhere⟩ := exists_ok_of_any
    (show ((Runner.fresh.reset hashFork "listen").steps 3).toOption.any
      (·.here? == some 3) = true by decide +kernel)
  obtain ⟨u', hsteps', hhere', _, _, hword⟩ :=
    hruns hashFork .fresh .fresh u "listen" "silent" 3 hfork hanagram hsteps
  exact ⟨(hperm .swapHalves).mp rfl _, hanagram, by decide +kernel,
    hblind .evenHash rfl _ _ _ _ hanagram, hseen (.startsWith []) rfl,
    hbranch .swapHalves .evenHash _ rfl rfl (Or.inl rfl),
    u, u', hsteps, beq_iff_eq.mp hhere, hsteps', hhere', hword⟩

end CipherBoard
