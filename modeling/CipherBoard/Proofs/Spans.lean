/-
CipherBoard.Proofs.Spans — spans as sets of positions.

The seven spans are read in different ways: one looks at the first letter, one walks to the last,
two go by turns. What they come to is one rule: a letter step on a span changes the letters at the
positions that the span takes in, and no other letter.

* `Span.covers` — the positions that a span takes in.
* `Word.getElem?_mapLast`, `getElem?_mapButLast`, `getElem?_alternate` — the readings that are
  recursive, letter by letter; `Span.getElem?_map` — all seven.
* `Span.complement?` — the span that takes in what another leaves. `Span.map_complement` says that
  two such spans, one after the other, make up the whole word, whichever comes first;
  `Span.complement?_eq_some` says that no other two do.
* `letters_at_positions` — these together.
-/
import CipherBoard.Proofs.Alphabet

namespace CipherBoard

/-! ## Section 1 — positions -/

/-- Whether a span takes in position `i` of a word of `n` letters. Positions count from zero, so the
odd letters stand at even positions. In a word of one letter the first letter is the last, and there
is nothing behind the one or before the other. -/
def Span.covers (n i : Nat) : Span → Bool
  | .all => true
  | .first => i == 0
  | .last => i + 1 == n
  | .butFirst => 1 ≤ i
  | .butLast => i + 2 ≤ n
  | .odd => i % 2 == 0
  | .even => i % 2 == 1

namespace Word

variable {f g : UInt8 → UInt8}

theorem getElem?_mapLast (w : Word) (i : Nat) :
    (w.mapLast f)[i]? = w[i]?.map fun b => if i + 1 = w.length then f b else b := by
  fun_induction mapLast f w generalizing i with
  | case1 => simp
  | case2 b => cases i <;> simp
  | case3 b c rest ih =>
    cases i with
    | zero => simp
    | succ i => simp [ih]

theorem getElem?_mapButLast (w : Word) (i : Nat) :
    (w.mapButLast f)[i]? = w[i]?.map fun b => if i + 2 ≤ w.length then f b else b := by
  fun_induction mapButLast f w generalizing i with
  | case1 => simp
  | case2 b => cases i <;> simp
  | case3 b c rest ih =>
    cases i with
    | zero => simp
    | succ i => simp [ih]

/-- The steps take turns: behind the first letter they have changed places. -/
theorem getElem?_alternate (w : Word) (i : Nat) :
    (w.alternate f g)[i]? = w[i]?.map fun b => if i % 2 = 0 then f b else g b := by
  induction w generalizing f g i with
  | nil => simp [alternate]
  | cons b rest ih =>
    cases i with
    | zero => simp [alternate]
    | succ i =>
      rcases Nat.mod_two_eq_zero_or_one i with hi | hi
      · have hnext : (i + 1) % 2 = 1 := by omega
        simp [alternate, ih, hi, hnext]
      · have hnext : (i + 1) % 2 = 0 := by omega
        simp [alternate, ih, hi, hnext]

end Word

namespace Span

variable {f g : UInt8 → UInt8} {s t : Span}

/-- **A step on a span** changes the letters at the positions of the span. -/
theorem getElem?_map (span : Span) (f : UInt8 → UInt8) (w : Word) (i : Nat) :
    (span.map f w)[i]? = w[i]?.map fun b => if span.covers w.length i then f b else b := by
  cases span with
  | all => simp [map, covers]
  | first =>
    cases w with
    | nil => simp [map]
    | cons b rest => cases i <;> simp [map, covers]
  | last => simp [map, covers, Word.getElem?_mapLast]
  | butFirst =>
    cases w with
    | nil => simp [map]
    | cons b rest => cases i <;> simp [map, covers]
  | butLast => simp [map, covers, Word.getElem?_mapButLast]
  | odd => simp [map, covers, Word.getElem?_alternate]
  | even =>
    rcases Nat.mod_two_eq_zero_or_one i with hi | hi
    · simp [map, covers, Word.getElem?_alternate, hi]
    · simp [map, covers, Word.getElem?_alternate, hi]

theorem map_eq_mapIdx (span : Span) (f : UInt8 → UInt8) (w : Word) :
    span.map f w = w.mapIdx fun i b => if span.covers w.length i then f b else b := by
  refine List.ext_getElem? fun i => ?_
  rw [getElem?_map, List.getElem?_mapIdx]

/-! ## Section 2 — two spans that make up the word -/

/-- The span that takes in what a span leaves, if there is one. -/
def complement? : Span → Option Span
  | all => none
  | first => some butFirst
  | last => some butLast
  | butFirst => some first
  | butLast => some last
  | odd => some even
  | even => some odd

/-- Every position of a word is in one of the two, and in one only. -/
theorem covers_complement (h : s.complement? = some t) {n i : Nat} (hi : i < n) :
    t.covers n i = !s.covers n i := by
  rw [Bool.eq_iff_iff]
  cases s <;> cases h <;> simp [covers] <;> omega

/-- Steps on a span and on what it leaves make up a step on every letter: no letter is changed
twice, and none is left. -/
theorem map_complement (h : s.complement? = some t) (f : UInt8 → UInt8) (w : Word) :
    t.map f (s.map f w) = w.map f := by
  refine List.ext_getElem? fun i => ?_
  rw [getElem?_map, getElem?_map, length_map, List.getElem?_map]
  by_cases hi : i < w.length
  · rw [List.getElem?_eq_getElem hi, covers_complement h hi]
    cases s.covers w.length i <;> simp
  · rw [List.getElem?_eq_none (by omega)]
    rfl

/-- A word of three letters shows which spans make it up: any other two change one of its letters
twice, or leave one. -/
theorem complement?_eq_some
    (h : t.map Letter.next (s.map Letter.next [97, 97, 97]) = [98, 98, 98]) :
    s.complement? = some t := by
  revert h
  cases s <;> cases t <;> decide

end Span

open Transform in
/-- **A letter step changes the letters of its span and keeps the others.** On every word, also on
one of a single letter or none: the letter at a position becomes what the step makes of it if the
span takes the position in, and stays otherwise; the word keeps its length. Two spans, one after the
other, come to the same as the whole word, for every step and on every word, exactly if each takes
in what the other leaves: the first letter and the letters behind it, the last and those before it,
the odd letters and the even ones, in either order. -/
theorem letters_at_positions :
    (∀ (step : LetterStep) (span : Span) (w : Word),
      (letters step span).apply w =
        w.mapIdx (fun i b => if span.covers w.length i then step.apply b else b) ∧
      ((letters step span).apply w).length = w.length) ∧
    ∀ s t : Span, s.complement? = some t ↔ ∀ (step : LetterStep) (w : Word),
      (letters step t).apply ((letters step s).apply w) = (letters step .all).apply w := by
  refine ⟨fun step span w => ⟨span.map_eq_mapIdx step.apply w, ?_⟩, fun s t => ⟨fun h => ?_, ?_⟩⟩
  · exact (letters step span).length_apply w
  · intro step w
    exact Span.map_complement h step.apply w
  · intro h
    exact Span.complement?_eq_some (h .next [97, 97, 97])

/-- One letter is first and last: it is changed with the first letters and with the last, and not
with those behind or before. -/
example : (Transform.letters .next .first).apply [97] = [98] ∧
    (Transform.letters .next .butFirst).apply [97] = [97] ∧
    (Transform.letters .next .last).apply [97] = [98] ∧
    (Transform.letters .next .butLast).apply [97] = [97] := by decide

end CipherBoard
