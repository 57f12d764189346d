/-
CipherBoard.Word — words, and how a step moves or changes the letters of one.

A word is a list of bytes. Three families live here:

* `Span`: which letters of a word a letter step touches (`Span.map`);
* the rearrangements `swapHalves`, `zigzag`, `rotateLeft`, `rotateRight` (reversal is the
  list's own): they move letters and change none;
* `collapsePairs`, the one step that looks at two letters at a time.

All of them keep the length of the word.
-/
import CipherBoard.Letter

namespace CipherBoard

/-- A word: the letters of a signal, as bytes. -/
abbrev Word := List UInt8

/-- The word that a text spells in UTF-8. -/
def Word.ofText (s : String) : Word :=
  s.toList.flatMap String.utf8EncodeChar

/-! ## Spans -/

/-- The letters of a word that a letter step touches. Odd and even count from one. -/
inductive Span where
  | all
  | first
  | last
  | butFirst
  | butLast
  | odd
  | even
  deriving DecidableEq, Repr

namespace Word

/-- Applies `f` to the last letter. -/
def mapLast (f : UInt8 → UInt8) : Word → Word
  | [] => []
  | [b] => [f b]
  | b :: c :: rest => b :: mapLast f (c :: rest)

/-- Applies `f` to every letter but the last. -/
def mapButLast (f : UInt8 → UInt8) : Word → Word
  | [] => []
  | [b] => [b]
  | b :: c :: rest => f b :: mapButLast f (c :: rest)

/-- Applies `f` and `g` in turn, `f` to the first letter. -/
def alternate (f g : UInt8 → UInt8) : Word → Word
  | [] => []
  | b :: rest => f b :: alternate g f rest

end Word

/-- Applies `f` to the letters of a span and keeps the others. -/
def Span.map (f : UInt8 → UInt8) : Span → Word → Word
  | .all, w => w.map f
  | .first, [] => []
  | .first, b :: rest => f b :: rest
  | .last, w => w.mapLast f
  | .butFirst, [] => []
  | .butFirst, b :: rest => b :: rest.map f
  | .butLast, w => w.mapButLast f
  | .odd, w => w.alternate f id
  | .even, w => w.alternate id f

namespace Word

/-! ## Rearrangements -/

/-- Exchanges the first half and the second; the middle letter of an odd length stays. -/
def swapHalves (w : Word) : Word :=
  let half := w.length / 2
  let second := half + w.length % 2
  w.drop second ++ (w.take second).drop half ++ w.take half

/-- Exchanges the letters of each pair, first and second, third and fourth, …; a letter left
over at the end stays. -/
def zigzag : Word → Word
  | b :: c :: rest => c :: b :: zigzag rest
  | w => w

/-- Moves the first letter to the end. -/
def rotateLeft : Word → Word
  | [] => []
  | b :: rest => rest ++ [b]

/-- Moves the last letter to the front. -/
def rotateRight (w : Word) : Word :=
  match w.getLast? with
  | none => w
  | some b => b :: w.dropLast

/-- Applies a step to the letters behind the first, which stays in front. -/
def onTail (step : Word → Word) : Word → Word
  | [] => []
  | b :: rest => b :: step rest

/-! ## Dotted pairs -/

/-- Moves the letters of every dotted pair one step towards each other. The word is read from
the left, and reading goes on behind a pair that was changed. -/
def collapsePairs : Word → Word
  | b :: c :: rest =>
    if Letter.partner? b = some c then Letter.next b :: Letter.prev c :: collapsePairs rest
    else b :: collapsePairs (c :: rest)
  | w => w

end Word

end CipherBoard
