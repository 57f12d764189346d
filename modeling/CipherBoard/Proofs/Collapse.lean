/-
CipherBoard.Proofs.Collapse — dotted pairs collapse all at once.

Collapsing reads a word from the left, changes the pair it finds and goes on behind it, so that
what it sees of a pair could depend on what it has done before. It does not: no letter belongs to
two pairs, and a letter that was changed carries no dot any more and belongs to none.

* `Letter.ne_of_mem_pairs`, `Letter.isDotted_collapsed` — these two facts about the six pairs.
* `Word.OpensPair`, `Word.ClosesPair` — which letters of a word belong to a pair, and
  `Word.collapsedAt`, what then becomes of a letter.
* `Word.getElem?_collapsePairs` — reading from the left comes to the same, by induction along the
  recursion of `collapsePairs`.
* `Word.not_opensPair_collapsePairs` — no pair is left. `Word.collapsePairs_eq_self_iff` says that
  words without pairs are those that collapsing keeps.
* `collapsePairs_parallel` — these together.
-/
import CipherBoard.Proofs.Alphabet

namespace CipherBoard

/-! ## Section 1 — the six pairs -/

namespace Letter

variable {b c d e : UInt8}

theorem partner?_eq_some_iff : partner? b = some c ↔ (b, c) ∈ pairs := by
  constructor
  · intro h
    obtain ⟨before, after, hpairs, _⟩ := List.lookup_eq_some_iff.mp h
    simp [hpairs]
  · intro h
    have hall : pairs.all (fun pair => partner? pair.1 == some pair.2) = true := by decide
    exact beq_iff_eq.mp (List.all_eq_true.mp hall (b, c) h)

/-- What completes a pair opens none. -/
theorem ne_of_mem_pairs (h : (b, c) ∈ pairs) (h' : (d, e) ∈ pairs) : c ≠ d := by
  have hall : pairs.all (fun pair => pairs.all fun other => pair.2 != other.1) = true := by decide
  have hpair := List.all_eq_true.mp hall (b, c) h
  exact bne_iff_ne.mp (List.all_eq_true.mp hpair (d, e) h')

theorem isDotted_of_mem_pairs (h : (b, c) ∈ pairs) : isDotted b = true ∧ isDotted c = true := by
  have hall : pairs.all (fun pair => isDotted pair.1 && isDotted pair.2) = true := by decide
  simpa using List.all_eq_true.mp hall (b, c) h

/-- The letters of a pair that has collapsed carry no dot. -/
theorem isDotted_collapsed (h : (b, c) ∈ pairs) :
    isDotted (next b) = false ∧ isDotted (prev c) = false := by
  have hall : pairs.all (fun pair => !isDotted (next pair.1) && !isDotted (prev pair.2)) = true := by
    decide
  simpa using List.all_eq_true.mp hall (b, c) h

end Letter

/-! ## Section 2 — pairs in a word -/

namespace Word

variable {w : Word} {b c : UInt8} {i : Nat}

/-- The letters at position `i` and behind it are a dotted pair. -/
def OpensPair (w : Word) (i : Nat) : Prop :=
  ∃ pair ∈ Letter.pairs, w[i]? = some pair.1 ∧ w[i + 1]? = some pair.2

/-- The letters before position `i` and at it are a dotted pair. -/
def ClosesPair (w : Word) : Nat → Prop
  | 0 => False
  | i + 1 => w.OpensPair i

instance (w : Word) (i : Nat) : Decidable (w.OpensPair i) :=
  List.decidableBEx _ Letter.pairs

instance (w : Word) : (i : Nat) → Decidable (w.ClosesPair i)
  | 0 => inferInstanceAs (Decidable False)
  | i + 1 => inferInstanceAs (Decidable (w.OpensPair i))

/-- What becomes of a letter at position `i` if all pairs collapse at once. -/
def collapsedAt (w : Word) (i : Nat) (b : UInt8) : UInt8 :=
  if w.OpensPair i then Letter.next b else if w.ClosesPair i then Letter.prev b else b

theorem opensPair_zero_iff : OpensPair (b :: c :: w) 0 ↔ (b, c) ∈ Letter.pairs := by
  constructor
  · intro h
    obtain ⟨pair, hpair, hb, hc⟩ := h
    cases hb
    cases hc
    exact hpair
  · intro h
    exact ⟨(b, c), h, rfl, rfl⟩

/-- **Pairs do not overlap**: the letter that closes one opens none. -/
theorem not_opensPair_and_closesPair (w : Word) (i : Nat) : ¬ (w.OpensPair i ∧ w.ClosesPair i) := by
  intro h
  obtain ⟨⟨pair, hpair, hopens, _⟩, hcloses⟩ := h
  cases i with
  | zero => exact hcloses
  | succ i =>
    obtain ⟨other, hother, _, hmiddle⟩ := hcloses
    have hsame : other.2 = pair.1 := Option.some.inj (hmiddle.symm.trans hopens)
    exact Letter.ne_of_mem_pairs hother hpair hsame

theorem collapsedAt_of_opensPair (h : w.OpensPair i) : w.collapsedAt i b = Letter.next b := by
  simp [collapsedAt, h]

theorem collapsedAt_of_closesPair (h : w.ClosesPair i) : w.collapsedAt i b = Letter.prev b := by
  have hopens : ¬ w.OpensPair i := fun hopens => w.not_opensPair_and_closesPair i ⟨hopens, h⟩
  simp [collapsedAt, hopens, h]

theorem collapsedAt_of_not (hopens : ¬ w.OpensPair i) (hcloses : ¬ w.ClosesPair i) :
    w.collapsedAt i b = b := by
  simp [collapsedAt, hopens, hcloses]

/-- Further back than its second letter, a word has the pairs that it has without the first. -/
theorem collapsedAt_cons_add_two : collapsedAt (b :: w) (i + 2) = w.collapsedAt (i + 1) := rfl

/-- A letter in front that opens no pair makes no difference behind it. -/
theorem collapsedAt_cons_succ (h : ¬ OpensPair (b :: w) 0) :
    collapsedAt (b :: w) (i + 1) = w.collapsedAt i := by
  funext c
  cases i with
  | zero =>
    have hcloses : ¬ ClosesPair (b :: w) 1 := h
    have hstart : ¬ ClosesPair w 0 := id
    have hopens : OpensPair (b :: w) 1 ↔ OpensPair w 0 := Iff.rfl
    simp [collapsedAt, hcloses, hstart, hopens]
  | succ i => rfl

/-! ## Section 3 — collapsing -/

/-- **Reading from the left collapses all pairs at once.** By induction along the reading: behind
a letter that opens no pair, and behind both letters of a pair, the rest of the word stands as if
by itself. -/
theorem getElem?_collapsePairs (w : Word) (i : Nat) :
    w.collapsePairs[i]? = w[i]?.map (w.collapsedAt i) := by
  fun_induction collapsePairs w generalizing i with
  | case1 b c rest hpair ih =>
    have hopens : OpensPair (b :: c :: rest) 0 :=
      opensPair_zero_iff.2 (Letter.partner?_eq_some_iff.1 hpair)
    have hcloses : ClosesPair (b :: c :: rest) 1 := hopens
    have hapart : ¬ OpensPair (c :: rest) 0 := fun h =>
      not_opensPair_and_closesPair (b :: c :: rest) 1 ⟨h, hcloses⟩
    rcases i with _ | _ | i
    · simp [collapsedAt_of_opensPair hopens]
    · simp [collapsedAt_of_closesPair hcloses]
    · simp [ih, collapsedAt_cons_add_two, collapsedAt_cons_succ hapart]
  | case2 b c rest hpair ih =>
    have hopens : ¬ OpensPair (b :: c :: rest) 0 := by
      rw [opensPair_zero_iff, ← Letter.partner?_eq_some_iff]
      exact hpair
    cases i with
    | zero => simp [collapsedAt_of_not hopens id]
    | succ i => simp [ih, collapsedAt_cons_succ hopens]
  | case3 w hshort =>
    rcases w with _ | ⟨b, _ | ⟨c, rest⟩⟩
    · simp
    · have hopens : ¬ OpensPair [b] 0 := by simp [OpensPair]
      cases i <;> simp [collapsedAt_of_not hopens id]
    · exact absurd rfl (hshort b c rest)

/-- What becomes of a letter of a pair carries no dot. -/
theorem isDotted_collapsedAt (hb : w[i]? = some b) (h : w.OpensPair i ∨ w.ClosesPair i) :
    Letter.isDotted (w.collapsedAt i b) = false := by
  rcases h with hopens | hcloses
  · rw [collapsedAt_of_opensPair hopens]
    obtain ⟨pair, hpair, hfirst, _⟩ := hopens
    cases Option.some.inj (hb.symm.trans hfirst)
    exact (Letter.isDotted_collapsed hpair).1
  · rw [collapsedAt_of_closesPair hcloses]
    cases i with
    | zero => exact hcloses.elim
    | succ i =>
      obtain ⟨pair, hpair, _, hsecond⟩ := hcloses
      cases Option.some.inj (hb.symm.trans hsecond)
      exact (Letter.isDotted_collapsed hpair).2

/-- A letter with a dot was there before, and opened no pair. -/
theorem getElem?_of_isDotted (h : w.collapsePairs[i]? = some b) (hb : Letter.isDotted b = true) :
    w[i]? = some b ∧ ¬ w.OpensPair i := by
  rw [getElem?_collapsePairs] at h
  obtain ⟨c, hc, rfl⟩ := Option.map_eq_some_iff.mp h
  have hnone : ¬ (w.OpensPair i ∨ w.ClosesPair i) := by
    intro hpair
    rw [isDotted_collapsedAt hc hpair] at hb
    cases hb
  obtain ⟨hopens, hcloses⟩ := not_or.mp hnone
  rw [collapsedAt_of_not hopens hcloses]
  exact ⟨hc, hopens⟩

/-- **No pair is left.** Both letters of one would carry a dot, so they were there before. -/
theorem not_opensPair_collapsePairs (w : Word) (i : Nat) : ¬ w.collapsePairs.OpensPair i := by
  intro h
  obtain ⟨pair, hpair, hfirst, hsecond⟩ := h
  obtain ⟨hdot, hdot'⟩ := Letter.isDotted_of_mem_pairs hpair
  obtain ⟨hbefore, hopens⟩ := getElem?_of_isDotted hfirst hdot
  obtain ⟨hbehind, _⟩ := getElem?_of_isDotted hsecond hdot'
  exact hopens ⟨pair, hpair, hbefore, hbehind⟩

/-- Collapsing keeps the words that have no pair, and no other. -/
theorem collapsePairs_eq_self_iff : w.collapsePairs = w ↔ ∀ i, ¬ w.OpensPair i := by
  constructor
  · intro h i
    rw [← h]
    exact w.not_opensPair_collapsePairs i
  · intro h
    refine List.ext_getElem? fun i => ?_
    have hcloses : ¬ w.ClosesPair i := by
      cases i with
      | zero => exact id
      | succ i => exact h i
    have hkept : w.collapsedAt i = id := funext fun b => collapsedAt_of_not (h i) hcloses
    rw [getElem?_collapsePairs, hkept, Option.map_id_fun, id]

end Word

/-- **Dotted pairs collapse all at once.** Whatever the bytes of a word are: collapsing makes of the
letter that opens a pair the next one, of the letter that closes a pair the one before, and keeps
every other letter, where the pairs are those of the word as it was. No letter opens a pair and
closes one. The word keeps its length. No pair is left in it, so that collapsing once more changes
nothing; and a word that collapsing keeps has none. -/
theorem collapsePairs_parallel (w : Word) :
    w.collapsePairs = (w.mapIdx fun i b =>
      if w.OpensPair i then Letter.next b else if w.ClosesPair i then Letter.prev b else b) ∧
    (∀ i, ¬ (w.OpensPair i ∧ w.ClosesPair i)) ∧
    w.collapsePairs.length = w.length ∧
    (∀ i, ¬ w.collapsePairs.OpensPair i) ∧
    w.collapsePairs.collapsePairs = w.collapsePairs ∧
    (w.collapsePairs = w ↔ ∀ i, ¬ w.OpensPair i) := by
  have hmap : w.collapsePairs = w.mapIdx w.collapsedAt := by
    refine List.ext_getElem? fun i => ?_
    rw [Word.getElem?_collapsePairs, List.getElem?_mapIdx]
  have hnone := w.not_opensPair_collapsePairs
  exact ⟨hmap, w.not_opensPair_and_closesPair, w.length_collapsePairs, hnone,
    Word.collapsePairs_eq_self_iff.2 hnone, Word.collapsePairs_eq_self_iff⟩

/-- In `acxzaz` the pairs are `cx` and `az`; `a` and `z` around the first are none, before it
collapses or after. -/
example : Word.collapsePairs (Word.ofText "acxzaz") = Word.ofText "adwzby" := by decide

end CipherBoard
