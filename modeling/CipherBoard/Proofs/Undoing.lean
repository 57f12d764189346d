/-
CipherBoard.Proofs.Undoing — transforms that can be undone.

Half of the ciphers lose nothing: a second transform gives the word back. Rearrangements are
undone on every word, letter steps on words over the alphabet, whatever their span.

* `Word.swapHalves_swapHalves`, `zigzag_zigzag`, `rotateRight_rotateLeft`,
  `rotateLeft_rotateRight` — the rearrangements.
* `Span.map_map`, `Span.map_eq_self` — two steps on one span are one step on it, and a step
  that keeps every letter keeps the word.
* `Transform.inverse?` — the transform that undoes another, if there is one;
  `Transform.apply_inverse` says that it does.
* `eq_of_wordAfter_eq` — so nothing is lost on a trail of such transforms.
* `Transform.exists_merged` — a transform without an inverse makes one word of two, so that none
  undoes it.
* `transforms_undone` — these together.
-/
import CipherBoard.Proofs.Alphabet

namespace CipherBoard

/-! ## Section 1 — rearrangements -/

namespace Word

variable {w : Word} {f g : UInt8 → UInt8}

/-- Exchanging halves, in terms of the halves. -/
theorem swapHalves_append {first middle second : Word} (hhalves : first.length = second.length)
    (hmiddle : middle.length ≤ 1) :
    swapHalves (first ++ middle ++ second) = second ++ middle ++ first := by
  have hlength : (first ++ middle ++ second).length = 2 * first.length + middle.length := by
    simp only [List.length_append]
    omega
  have hhalf : (2 * first.length + middle.length) / 2 = first.length := by omega
  have hsecond : first.length + (2 * first.length + middle.length) % 2 =
      (first ++ middle).length := by
    rw [List.length_append]
    omega
  unfold swapHalves
  simp only [hlength, hhalf, hsecond, List.drop_left, List.take_left]
  rw [List.append_assoc first middle second, List.take_left]

/-- Every word has two halves, and a letter between them if its length is odd. -/
theorem exists_halves (w : Word) : ∃ first middle second : Word,
    w = first ++ middle ++ second ∧ first.length = second.length ∧ middle.length ≤ 1 := by
  refine ⟨w.take (w.length / 2), (w.drop (w.length / 2)).take (w.length % 2),
    (w.drop (w.length / 2)).drop (w.length % 2), ?_, ?_, ?_⟩
  · rw [List.append_assoc, List.take_append_drop, List.take_append_drop]
  · simp only [List.length_take, List.length_drop]
    omega
  · simp only [List.length_take, List.length_drop]
    omega

theorem swapHalves_swapHalves (w : Word) : w.swapHalves.swapHalves = w := by
  obtain ⟨first, middle, second, rfl, hhalves, hmiddle⟩ := w.exists_halves
  rw [swapHalves_append hhalves hmiddle, swapHalves_append hhalves.symm hmiddle]

theorem zigzag_zigzag (w : Word) : w.zigzag.zigzag = w := by
  fun_induction zigzag w with
  | case1 b c rest ih => rw [zigzag, ih]
  | case2 w hshort =>
    cases w with
    | nil => rfl
    | cons b rest =>
      cases rest with
      | nil => rfl
      | cons c rest => exact absurd rfl (hshort b c rest)

theorem rotateRight_concat (w : Word) (b : UInt8) : rotateRight (w ++ [b]) = b :: w := by
  simp [rotateRight]

theorem rotateRight_rotateLeft (w : Word) : w.rotateLeft.rotateRight = w := by
  cases w with
  | nil => rfl
  | cons b rest => exact rotateRight_concat rest b

theorem rotateLeft_rotateRight (w : Word) : w.rotateRight.rotateLeft = w := by
  rcases List.eq_nil_or_concat' w with rfl | ⟨start, b, rfl⟩
  · rfl
  · rw [rotateRight_concat, rotateLeft]

theorem onTail_onTail {step back : Word → Word} (h : ∀ v, back (step v) = v) (w : Word) :
    (w.onTail step).onTail back = w := by
  cases w with
  | nil => rfl
  | cons b rest => rw [onTail, onTail, h]

/-! ## Section 2 — letter steps on a span -/

theorem mapLast_concat (w : Word) (b : UInt8) : mapLast f (w ++ [b]) = w ++ [f b] := by
  induction w with
  | nil => rfl
  | cons c rest ih =>
    obtain ⟨d, tail, htail⟩ := List.exists_cons_of_ne_nil (List.concat_ne_nil b rest)
    rw [List.cons_append, htail, mapLast, ← htail, ih, List.cons_append]

theorem mapButLast_concat (w : Word) (b : UInt8) :
    mapButLast f (w ++ [b]) = w.map f ++ [b] := by
  induction w with
  | nil => rfl
  | cons c rest ih =>
    obtain ⟨d, tail, htail⟩ := List.exists_cons_of_ne_nil (List.concat_ne_nil b rest)
    rw [List.cons_append, htail, mapButLast, ← htail, ih, List.map_cons, List.cons_append]

theorem alternate_alternate {f' g' : UInt8 → UInt8} (w : Word) :
    (w.alternate f g).alternate f' g' = w.alternate (f' ∘ f) (g' ∘ g) := by
  induction w generalizing f g f' g' with
  | nil => rfl
  | cons b rest ih => rw [alternate, alternate, alternate, ih, Function.comp_apply]

theorem map_eq_self (h : ∀ b ∈ w, f b = b) : w.map f = w := by
  rw [List.map_congr_left h, List.map_id']

theorem alternate_eq_self (hf : ∀ b ∈ w, f b = b) (hg : ∀ b ∈ w, g b = b) :
    w.alternate f g = w := by
  induction w generalizing f g with
  | nil => rfl
  | cons b rest ih =>
    rw [alternate, hf b List.mem_cons_self,
      ih (fun c hc => hg c (List.mem_cons_of_mem b hc))
        fun c hc => hf c (List.mem_cons_of_mem b hc)]

end Word

namespace Span

variable {f g : UInt8 → UInt8} {w : Word}

/-- Two steps on a span, one after the other, are one step on it. -/
theorem map_map (span : Span) (f g : UInt8 → UInt8) (w : Word) :
    span.map g (span.map f w) = span.map (g ∘ f) w := by
  cases span with
  | all => exact List.map_map
  | first => cases w <;> rfl
  | last =>
    rcases List.eq_nil_or_concat' w with rfl | ⟨start, b, rfl⟩
    · rfl
    · simp only [map, Word.mapLast_concat, Function.comp_apply]
  | butFirst =>
    cases w with
    | nil => rfl
    | cons b rest => exact congrArg (b :: ·) List.map_map
  | butLast =>
    rcases List.eq_nil_or_concat' w with rfl | ⟨start, b, rfl⟩
    · rfl
    · simp only [map, Word.mapButLast_concat, List.map_map]
  | odd => exact w.alternate_alternate
  | even => exact w.alternate_alternate

/-- A step that keeps every letter of a word keeps the word. -/
theorem map_eq_self (span : Span) (h : ∀ b ∈ w, f b = b) : span.map f w = w := by
  cases span with
  | all => exact Word.map_eq_self h
  | first =>
    cases w with
    | nil => rfl
    | cons b rest => rw [map, h b List.mem_cons_self]
  | last =>
    rcases List.eq_nil_or_concat' w with rfl | ⟨start, b, rfl⟩
    · rfl
    · rw [map, Word.mapLast_concat, h b (by simp)]
  | butFirst =>
    cases w with
    | nil => rfl
    | cons b rest =>
      exact congrArg (b :: ·) (Word.map_eq_self fun c hc => h c (List.mem_cons_of_mem b hc))
  | butLast =>
    rcases List.eq_nil_or_concat' w with rfl | ⟨start, b, rfl⟩
    · rfl
    · rw [map, Word.mapButLast_concat, Word.map_eq_self fun c hc => h c (List.mem_append_left _ hc)]
  | odd => exact Word.alternate_eq_self h fun _ _ => rfl
  | even => exact Word.alternate_eq_self (fun _ _ => rfl) h

end Span

/-! ## Section 3 — transforms -/

/-- The letter step that undoes another on the alphabet. -/
def LetterStep.inverse? : LetterStep → Option LetterStep
  | .rot13 => some .rot13
  | .atbash => some .atbash
  | .next => some .prev
  | .prev => some .next
  | .nextClamped | .prevClamped | .nextDotted | .prevUndotted | .hardshiftLeft
  | .hardshiftRight => none

theorem LetterStep.apply_inverse {step back : LetterStep} (h : step.inverse? = some back)
    {b : UInt8} (hb : Letter.isLower b = true) : back.apply (step.apply b) = b := by
  have hall : Letter.alphabet.all (fun c => back.apply (step.apply c) == c) = true := by
    cases step <;> cases h <;> decide
  exact beq_iff_eq.mp (List.all_eq_true.mp hall b (Letter.mem_alphabet hb))

namespace Transform

/-- The transform that undoes another on words over the alphabet. -/
def inverse? : Transform → Option Transform
  | reverse => some reverse
  | swapHalves => some swapHalves
  | zigzag => some zigzag
  | collapsePairs => none
  | rotateLeft keepFirst => some (rotateRight keepFirst)
  | rotateRight keepFirst => some (rotateLeft keepFirst)
  | letters step span => step.inverse?.map fun back => letters back span

variable {op back : Transform} {w v : Word}

/-- **An inverse undoes its transform**; a rearrangement is undone on any word. -/
theorem apply_inverse (h : op.inverse? = some back) (hw : op.rearranges = true ∨ w.IsLower) :
    back.apply (op.apply w) = w := by
  cases op with
  | reverse => cases h; exact List.reverse_reverse w
  | swapHalves => cases h; exact w.swapHalves_swapHalves
  | zigzag => cases h; exact w.zigzag_zigzag
  | collapsePairs => cases h
  | rotateLeft keepFirst =>
    cases h
    cases keepFirst
    · exact w.rotateRight_rotateLeft
    · exact Word.onTail_onTail Word.rotateRight_rotateLeft w
  | rotateRight keepFirst =>
    cases h
    cases keepFirst
    · exact w.rotateLeft_rotateRight
    · exact Word.onTail_onTail Word.rotateLeft_rotateRight w
  | letters step span =>
    obtain ⟨undo, hundo, rfl⟩ := Option.map_eq_some_iff.mp h
    have hlower : w.IsLower := hw.resolve_left Bool.false_ne_true
    rw [apply, apply, Span.map_map]
    exact span.map_eq_self fun b hb => step.apply_inverse hundo (hlower b hb)

/-- A transform with an inverse loses nothing of a word over the alphabet. -/
theorem eq_of_apply_eq (h : op.inverse?.isSome = true) (hw : w.IsLower) (hv : v.IsLower)
    (heq : op.apply w = op.apply v) : w = v := by
  obtain ⟨back, hback⟩ := Option.isSome_iff_exists.mp h
  rw [← apply_inverse hback (Or.inr hw), heq, apply_inverse hback (Or.inr hv)]

end Transform

/-- All transforms among the pieces have an inverse. -/
def Reversible (pieces : List Piece) : Prop :=
  ∀ p ∈ pieces, ∀ op ∈ p.behaviour.transform?, op.inverse?.isSome = true

instance (pieces : List Piece) : Decidable (Reversible pieces) :=
  inferInstanceAs (Decidable (∀ p ∈ pieces, ∀ op ∈ p.behaviour.transform?,
    op.inverse?.isSome = true))

/-- **Nothing is lost on a trail of transforms that have inverses.** -/
theorem eq_of_wordAfter_eq {trail : List Piece} (h : Reversible trail) {w v : Word}
    (hw : w.IsLower) (hv : v.IsLower) (heq : wordAfter w trail = wordAfter v trail) : w = v := by
  have hops : ∀ op ∈ transforms trail, op.inverse?.isSome = true := by
    intro op hop
    obtain ⟨p, hp, hbehaviour⟩ := List.mem_filterMap.mp hop
    exact h p hp op hbehaviour
  unfold wordAfter at heq
  generalize transforms trail = ops at hops heq
  induction ops generalizing w v with
  | nil => exact heq
  | cons op ops ih =>
    have hsame : op.apply w = op.apply v :=
      ih (op.isLower_apply hw) (op.isLower_apply hv)
        (fun op' hop' => hops op' (List.mem_cons_of_mem op hop')) heq
    exact Transform.eq_of_apply_eq (hops op List.mem_cons_self) hw hv hsame

/-! ## Section 4 — transforms that lose something -/

/-- A letter step without an inverse makes one letter of two. -/
theorem LetterStep.exists_merged {step : LetterStep} (h : step.inverse? = none) :
    ∃ b c, Letter.isLower b = true ∧ Letter.isLower c = true ∧ b ≠ c ∧
      step.apply b = step.apply c := by
  cases step with
  | rot13 | atbash | next | prev => cases h
  | nextClamped => exact ⟨121, 122, by decide⟩  -- `y` and `z`
  | prevClamped | nextDotted | prevUndotted => exact ⟨97, 98, by decide⟩  -- `a` and `b`
  | hardshiftLeft | hardshiftRight => exact ⟨109, 110, by decide⟩  -- `m` and `n`

/-- Every span takes in a letter of a word of two, so that what a step does to letters it does to
words. -/
theorem Span.map_merged (span : Span) {f : UInt8 → UInt8} {b c : UInt8} (h : f b = f c) :
    span.map f [b, b] = span.map f [c, b] ∨ span.map f [b, b] = span.map f [b, c] := by
  cases span <;> simp [map, Word.mapLast, Word.mapButLast, Word.alternate, h]

namespace Transform

/-- **A transform without an inverse makes one word of two.** -/
theorem exists_merged {op : Transform} (h : op.inverse? = none) :
    ∃ w v : Word, w.IsLower ∧ v.IsLower ∧ w ≠ v ∧ op.apply w = op.apply v := by
  cases op with
  | reverse | swapHalves | zigzag | rotateLeft | rotateRight => cases h
  | collapsePairs =>
    -- `az` collapses to `by`, which has no pair.
    refine ⟨[97, 122], [98, 121], ?_, ?_, by decide, by decide⟩
    · simp [Letter.isLower_iff]
    · simp [Letter.isLower_iff]
  | letters step span =>
    obtain ⟨b, c, hb, hc, hne, hsame⟩ :=
      LetterStep.exists_merged (Option.map_eq_none_iff.mp h)
    rcases span.map_merged hsame with hfront | hback
    · exact ⟨[b, b], [c, b], by simp [hb], by simp [hb, hc], by simp [hne], hfront⟩
    · exact ⟨[b, b], [b, c], by simp [hb], by simp [hb, hc], by simp [hne], hback⟩

/-- A transform can be undone exactly if it makes different words of different words. -/
theorem exists_undoing_iff (op : Transform) :
    (∃ back : Transform, ∀ w : Word, w.IsLower → back.apply (op.apply w) = w) ↔
      ∀ w v : Word, w.IsLower → v.IsLower → op.apply w = op.apply v → w = v := by
  constructor
  · intro h w v hw hv heq
    obtain ⟨back, hback⟩ := h
    rw [← hback w hw, heq, hback v hv]
  · intro h
    cases hinverse : op.inverse? with
    | some back => exact ⟨back, fun w hw => apply_inverse hinverse (Or.inr hw)⟩
    | none =>
      obtain ⟨w, v, hw, hv, hne, heq⟩ := exists_merged hinverse
      exact absurd (h w v hw hv heq) hne

end Transform

open Transform in
/-- **Which transforms undo each other.** On every word, reversing, exchanging halves and exchanging
the letters of pairs undo themselves, and the rotations to either side undo each other, whether or
not the first letter stays. On words over the alphabet and on every span, so do the letter steps:
half the alphabet on, or read backwards, undoes itself; one letter on and one letter back undo each
other. And these are all: on words over the alphabet, a transform is undone by some transform
exactly if it makes different words of different words. -/
theorem transforms_undone :
    (∀ w : Word,
      reverse.apply (reverse.apply w) = w ∧ swapHalves.apply (swapHalves.apply w) = w ∧
      zigzag.apply (zigzag.apply w) = w ∧
      ∀ keepFirst, (rotateRight keepFirst).apply ((rotateLeft keepFirst).apply w) = w ∧
        (rotateLeft keepFirst).apply ((rotateRight keepFirst).apply w) = w) ∧
    (∀ w : Word, w.IsLower → ∀ span,
      (letters .rot13 span).apply ((letters .rot13 span).apply w) = w ∧
      (letters .atbash span).apply ((letters .atbash span).apply w) = w ∧
      (letters .prev span).apply ((letters .next span).apply w) = w ∧
      (letters .next span).apply ((letters .prev span).apply w) = w) ∧
    ∀ op : Transform,
      (∃ back : Transform, ∀ w : Word, w.IsLower → back.apply (op.apply w) = w) ↔
        ∀ w v : Word, w.IsLower → v.IsLower → op.apply w = op.apply v → w = v := by
  refine ⟨fun w => ?_, fun w hw span => ?_, exists_undoing_iff⟩
  · have hundo : ∀ {op back : Transform}, op.inverse? = some back → op.rearranges = true →
        back.apply (op.apply w) = w := fun h hmoves => apply_inverse h (Or.inl hmoves)
    exact ⟨hundo rfl rfl, hundo rfl rfl, hundo rfl rfl,
      fun keepFirst => ⟨hundo rfl rfl, hundo rfl rfl⟩⟩
  · have hundo : ∀ {op back : Transform}, op.inverse? = some back →
        back.apply (op.apply w) = w := fun h => apply_inverse h (Or.inr hw)
    exact ⟨hundo rfl, hundo rfl, hundo rfl, hundo rfl⟩

open Transform in
/-- `zebra` with its halves exchanged, and with every other letter moved on beyond `z`; clamping
there makes the same of `zebra` and `yebra`. -/
theorem zebra_undone :
    (Word.ofText "zebra").IsLower ∧
    swapHalves.apply (Word.ofText "zebra") = Word.ofText "rabze" ∧
    swapHalves.apply (swapHalves.apply (Word.ofText "zebra")) = Word.ofText "zebra" ∧
    (letters .next .odd).apply (Word.ofText "zebra") = Word.ofText "aecrb" ∧
    (letters .prev .odd).apply ((letters .next .odd).apply (Word.ofText "zebra")) =
      Word.ofText "zebra" ∧
    ¬ ∃ back : Transform, ∀ w : Word, w.IsLower →
      back.apply ((letters .nextClamped .first).apply w) = w := by
  obtain ⟨hmoves, hletters, hundone⟩ := transforms_undone
  have hlower : ∀ s ∈ ["zebra", "yebra"], IsLowerText s := by
    simp [IsLowerText]
  have hzebra := (Word.ofText_of_isLowerText (hlower "zebra" (by simp))).1
  have hyebra := (Word.ofText_of_isLowerText (hlower "yebra" (by simp))).1
  refine ⟨hzebra, by decide, (hmoves _).2.1, by decide, (hletters _ hzebra .odd).2.2.1, ?_⟩
  intro h
  have hsame := (hundone (letters .nextClamped .first)).mp h _ _ hzebra hyebra (by decide)
  exact absurd hsame (by decide)

end CipherBoard
