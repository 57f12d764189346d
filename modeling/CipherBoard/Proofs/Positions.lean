/-
CipherBoard.Proofs.Positions — rearrangements as maps of positions.

A rearrangement looks at no letter: where the letter at a position of the new word comes from is
decided by the position and the length of the word alone. Each is written by taking words apart and
putting them together again, so this is read off letter by letter. The same five can be carried out
in the word itself, by exchanging letters two at a time. Every exchange then has to find both its
positions in the word, which the lists of exchanges given here always do.

* `Transform.source` — where a rearrangement takes the letter at a position from;
  `Transform.takesFrom_source` says that it does. `Transform.source_inverse` says that the positions
  of an inverse lead back.
* `Word.exchangeAll?` — exchanges in place, which fail at a position that the word does not have;
  `Word.exists_exchangeAll` follows them one after the other.
* `Transform.exchanges` — the exchanges that make up a rearrangement; `Transform.route_exchanges`
  says that they lead to the positions of `source`.
* `rearranged_by_position` — these together.
-/
import CipherBoard.Proofs.Rearrangement
import Mathlib.Algebra.BigOperators.Group.List.Basic
import Mathlib.Algebra.Group.End
import Mathlib.Logic.Equiv.Basic

namespace CipherBoard

/-! ## Section 1 — words that are taken from positions -/

namespace Word

variable {step : Word → Word} {source : Nat → Nat → Nat} {b : UInt8}

/-- A step takes the letter at position `i` from position `source n i` of a word of `n` letters, and
every such position is one of the word. -/
def TakesFrom (step : Word → Word) (source : Nat → Nat → Nat) : Prop :=
  ∀ w : Word, (step w).length = w.length ∧
    ∀ i, i < w.length → source w.length i < w.length ∧ (step w)[i]? = w[source w.length i]?

/-- A step that takes letters from positions brings in no letter. -/
theorem TakesFrom.mem_of_mem (h : TakesFrom step source) (hb : b ∈ step w) : b ∈ w := by
  obtain ⟨i, hi⟩ := List.mem_iff_getElem?.mp hb
  obtain ⟨hlength, hfrom⟩ := h w
  have hlt : i < w.length := by
    rw [← hlength]
    exact (List.getElem?_eq_some_iff.mp hi).1
  rw [(hfrom i hlt).2] at hi
  exact List.mem_of_getElem? hi

/-- The positions of a step on the letters behind the first: the first letter stays, and the others
are counted from it. -/
def behindFirst (source : Nat → Nat → Nat) (n : Nat) : Nat → Nat
  | 0 => 0
  | i + 1 => source (n - 1) i + 1

theorem TakesFrom.onTail (h : TakesFrom step source) :
    TakesFrom (onTail step) (behindFirst source) := by
  intro w
  cases w with
  | nil => simp [Word.onTail]
  | cons b rest =>
    obtain ⟨hlength, hfrom⟩ := h rest
    refine ⟨by simp [Word.onTail, hlength], fun i hi => ?_⟩
    cases i with
    | zero => simp [Word.onTail, behindFirst]
    | succ i =>
      have hfound := hfrom i (by simpa using hi)
      simp [Word.onTail, behindFirst, hfound]

end Word

/-! ## Section 2 — the rearrangements -/

namespace Transform

open Word (TakesFrom)

/-- The position from which a rearrangement of `n` letters takes the letter at position `i`. The
other transforms move no letter. -/
def source : Transform → Nat → Nat → Nat
  | reverse, n, i => n - 1 - i
  | swapHalves, n, i =>
    if i < n / 2 then i + n / 2 + n % 2
    else if i < n / 2 + n % 2 then i
    else i - n / 2 - n % 2
  | zigzag, n, i => if i % 2 = 1 then i - 1 else if i + 1 < n then i + 1 else i
  | rotateLeft false, n, i => (i + 1) % n
  | rotateRight false, n, i => (i + (n - 1)) % n
  | rotateLeft true, n, i => Word.behindFirst (fun n i => (i + 1) % n) n i
  | rotateRight true, n, i => Word.behindFirst (fun n i => (i + (n - 1)) % n) n i
  | collapsePairs, _, i | letters _ _, _, i => i

theorem takesFrom_reverse : TakesFrom List.reverse (source reverse) := by
  intro w
  refine ⟨List.length_reverse, fun i hi => ⟨?_, List.getElem?_reverse hi⟩⟩
  simp only [source]
  omega

theorem takesFrom_swapHalves : TakesFrom Word.swapHalves (source swapHalves) := by
  intro w
  refine ⟨w.perm_swapHalves.length_eq, fun i hi => ⟨?_, ?_⟩⟩
  · simp only [source]
    split_ifs <;> omega
  · obtain ⟨first, middle, second, rfl, hhalves, hmiddle⟩ := w.exists_halves
    rw [Word.swapHalves_append hhalves hmiddle]
    -- Both words have parts of the same lengths: a position lies in the same part of either.
    simp only [source, List.length_append, List.getElem?_append] at hi ⊢
    grind

theorem takesFrom_zigzag : TakesFrom Word.zigzag (source zigzag) := by
  intro w
  refine ⟨w.perm_zigzag.length_eq, fun i hi => ⟨?_, ?_⟩⟩
  · simp only [source]
    split_ifs <;> omega
  · fun_induction Word.zigzag w generalizing i with
    | case1 b c rest ih =>
      rcases i with _ | _ | i
      · simp [source]
      · simp [source]
      · -- Behind a pair, both sides count from it.
        have hback : source zigzag (rest.length + 2) (i + 2) = source zigzag rest.length i + 2 := by
          simp only [source]
          split_ifs <;> omega
        simpa [hback] using ih i (by simpa using hi)
    | case2 w hshort =>
      rcases w with _ | ⟨b, _ | ⟨c, rest⟩⟩
      · cases hi
      · cases i <;> simp [source] at hi ⊢
      · exact absurd rfl (hshort b c rest)

theorem takesFrom_rotateLeft : TakesFrom Word.rotateLeft (source (rotateLeft false)) := by
  intro w
  refine ⟨w.perm_rotateLeft.length_eq, fun i hi => ⟨Nat.mod_lt _ (by omega), ?_⟩⟩
  cases w with
  | nil => cases hi
  | cons b rest =>
    rw [List.length_cons] at hi
    by_cases hlast : i = rest.length
    · simp [Word.rotateLeft, source, hlast]
    · have hbehind : (i + 1) % (rest.length + 1) = i + 1 := Nat.mod_eq_of_lt (by omega)
      have hfront : i < rest.length := by omega
      simp [Word.rotateLeft, source, hbehind, List.getElem?_append_left hfront]

theorem takesFrom_rotateRight : TakesFrom Word.rotateRight (source (rotateRight false)) := by
  intro w
  refine ⟨w.perm_rotateRight.length_eq, fun i hi => ⟨Nat.mod_lt _ (by omega), ?_⟩⟩
  rcases List.eq_nil_or_concat' w with rfl | ⟨start, b, rfl⟩
  · cases hi
  · rw [List.length_append, List.length_singleton] at hi
    cases i with
    | zero => simp [Word.rotateRight_concat, source]
    | succ i =>
      have hbefore : (i + 1 + start.length) % (start.length + 1) = i := by
        rw [Nat.add_right_comm, Nat.add_assoc, Nat.add_mod_right, Nat.mod_eq_of_lt (by omega)]
      have hfront : i < start.length := by omega
      simp [Word.rotateRight_concat, source, hbefore, List.getElem?_append_left hfront]

variable {op back : Transform} {n i : Nat}

/-- **A rearrangement takes its letters from the positions of `source`.** -/
theorem takesFrom_source (h : op.rearranges = true) : TakesFrom op.apply op.source := by
  cases op with
  | reverse => exact takesFrom_reverse
  | swapHalves => exact takesFrom_swapHalves
  | zigzag => exact takesFrom_zigzag
  | rotateLeft keepFirst =>
    cases keepFirst
    · exact takesFrom_rotateLeft
    · exact takesFrom_rotateLeft.onTail
  | rotateRight keepFirst =>
    cases keepFirst
    · exact takesFrom_rotateRight
    · exact takesFrom_rotateRight.onTail
  | collapsePairs | letters => cases h

theorem source_lt (h : op.rearranges = true) (hi : i < n) : op.source n i < n := by
  have hword := (takesFrom_source h (List.replicate n 0)).2 i
  rw [List.length_replicate] at hword
  exact (hword hi).1

/-- **No other transform goes by positions**: each brings a letter into some word that was not
there. -/
theorem rearranges_of_takesFrom {source : Nat → Nat → Nat} (h : TakesFrom op.apply source) :
    op.rearranges = true := by
  cases op with
  | reverse | swapHalves | zigzag | rotateLeft | rotateRight => rfl
  | collapsePairs =>
    -- `az` collapses to `by`.
    have hmem : (98 : UInt8) ∈ ([97, 122] : Word) := h.mem_of_mem (by decide)
    exact absurd hmem (by decide)
  | letters step span =>
    obtain ⟨b, hchanged⟩ := step.exists_changed
    have hmem := h.mem_of_mem (span.mem_map step.apply b)
    simp [hchanged] at hmem

theorem behindFirst_behindFirst {ahead behind : Nat → Nat → Nat}
    (h : ∀ n i, i < n → behind n (ahead n i) = i) (hi : i < n) :
    Word.behindFirst behind n (Word.behindFirst ahead n i) = i := by
  cases i with
  | zero => rfl
  | succ i => simp [Word.behindFirst, h (n - 1) i (by omega)]

theorem source_rotateLeft_rotateRight (n i : Nat) (hi : i < n) :
    (rotateRight false).source n ((rotateLeft false).source n i) = i := by
  simp only [source]
  rw [Nat.mod_add_mod, Nat.add_assoc, Nat.add_sub_cancel' (by omega), Nat.add_mod_right,
    Nat.mod_eq_of_lt hi]

theorem source_rotateRight_rotateLeft (n i : Nat) (hi : i < n) :
    (rotateLeft false).source n ((rotateRight false).source n i) = i := by
  simp only [source]
  rw [Nat.mod_add_mod, Nat.add_assoc, Nat.sub_add_cancel (by omega), Nat.add_mod_right,
    Nat.mod_eq_of_lt hi]

/-- The positions of an inverse lead back. -/
theorem source_inverse (h : op.inverse? = some back) (hi : i < n) :
    back.source n (op.source n i) = i := by
  cases op with
  | reverse =>
    cases h
    simp only [source]
    omega
  | swapHalves | zigzag =>
    cases h
    simp only [source]
    split_ifs <;> omega
  | rotateLeft keepFirst =>
    cases h
    cases keepFirst
    · exact source_rotateLeft_rotateRight n i hi
    · exact behindFirst_behindFirst source_rotateLeft_rotateRight hi
  | rotateRight keepFirst =>
    cases h
    cases keepFirst
    · exact source_rotateRight_rotateLeft n i hi
    · exact behindFirst_behindFirst source_rotateRight_rotateLeft hi
  | collapsePairs => cases h
  | letters step span =>
    obtain ⟨undo, _, rfl⟩ := Option.map_eq_some_iff.mp h
    rfl

end Transform

/-! ## Section 3 — exchanges in place -/

namespace Word

variable {w : Word} {pairs : List (Nat × Nat)} {p : Nat × Nat} {i j : Nat}

/-- The word with the letters at two positions exchanged, if it has both positions. -/
def exchange? (w : Word) (p : Nat × Nat) : Option Word :=
  match w[p.1]?, w[p.2]? with
  | some b, some c => some ((w.set p.1 c).set p.2 b)
  | _, _ => none

/-- The word after exchanges, one after the other, if none of them fails. -/
def exchangeAll? (w : Word) : List (Nat × Nat) → Option Word
  | [] => some w
  | p :: rest => (w.exchange? p).bind fun v => v.exchangeAll? rest

/-- The position from which exchanges, one after the other, take the letter at a position. -/
def route (pairs : List (Nat × Nat)) : Equiv.Perm Nat :=
  (pairs.map fun p => Equiv.swap p.1 p.2).prod

theorem route_cons : route (p :: pairs) i = Equiv.swap p.1 p.2 (route pairs i) := by
  simp [route]

/-- Exchanges in reverse order lead back. -/
theorem route_reverse : route pairs.reverse = (route pairs)⁻¹ := by
  have hself : (Inv.inv ∘ fun p : Nat × Nat => Equiv.swap p.1 p.2) =
      fun p => Equiv.swap p.1 p.2 := funext fun p => Equiv.swap_inv p.1 p.2
  unfold route
  rw [List.prod_inv_reverse, List.map_map, hself, List.map_reverse]

/-- **One exchange** at positions of the word. -/
theorem exists_exchange (h₁ : p.1 < w.length) (h₂ : p.2 < w.length) :
    ∃ v, w.exchange? p = some v ∧ v.length = w.length ∧
      ∀ i : Nat, v[i]? = w[Equiv.swap p.1 p.2 i]? := by
  refine ⟨(w.set p.1 w[p.2]).set p.2 w[p.1], by simp [exchange?, h₁, h₂], by simp, fun i => ?_⟩
  rw [Equiv.swap_apply_def]
  grind

/-- **Exchanges, one after the other**, at positions of the word. -/
theorem exists_exchangeAll (h : ∀ p ∈ pairs, p.1 < w.length ∧ p.2 < w.length) :
    ∃ v, w.exchangeAll? pairs = some v ∧ v.length = w.length ∧
      ∀ i : Nat, v[i]? = w[route pairs i]? := by
  induction pairs generalizing w with
  | nil => exact ⟨w, rfl, rfl, fun i => rfl⟩
  | cons p rest ih =>
    obtain ⟨h₁, h₂⟩ := h p List.mem_cons_self
    obtain ⟨v, hv, hlength, hfrom⟩ := exists_exchange h₁ h₂
    obtain ⟨u, hu, hlength', hfrom'⟩ := ih fun q hq => by
      rw [hlength]
      exact h q (List.mem_cons_of_mem p hq)
    refine ⟨u, by simp [exchangeAll?, hv, hu], hlength'.trans hlength, fun i => ?_⟩
    rw [hfrom', hfrom, route_cons]

/-- Two exchanges have no position in common. -/
def Apart (p q : Nat × Nat) : Prop :=
  p.1 ≠ q.1 ∧ p.1 ≠ q.2 ∧ p.2 ≠ q.1 ∧ p.2 ≠ q.2

theorem route_of_forall_ne (h : ∀ p ∈ pairs, i ≠ p.1 ∧ i ≠ p.2) : route pairs i = i := by
  induction pairs with
  | nil => rfl
  | cons p rest ih =>
    obtain ⟨h₁, h₂⟩ := h p List.mem_cons_self
    rw [route_cons, ih fun q hq => h q (List.mem_cons_of_mem p hq)]
    exact Equiv.swap_apply_of_ne_of_ne h₁ h₂

/-- Exchanges that have no position in common exchange each pair of positions. -/
theorem route_of_mem (hapart : pairs.Pairwise Apart) (h : (i, j) ∈ pairs) :
    route pairs i = j ∧ route pairs j = i := by
  induction pairs with
  | nil => cases h
  | cons p rest ih =>
    obtain ⟨hfirst, hrest⟩ := List.pairwise_cons.mp hapart
    rw [route_cons, route_cons]
    rcases List.mem_cons.mp h with rfl | hmem
    · have hkeep : route rest i = i := route_of_forall_ne fun q hq =>
        ⟨(hfirst q hq).1, (hfirst q hq).2.1⟩
      have hkeep' : route rest j = j := route_of_forall_ne fun q hq =>
        ⟨(hfirst q hq).2.2.1, (hfirst q hq).2.2.2⟩
      simp [hkeep, hkeep']
    · obtain ⟨hi, hj⟩ := ih hrest hmem
      obtain ⟨h₁, h₂, h₃, h₄⟩ := hfirst _ hmem
      rw [hi, hj]
      exact ⟨Equiv.swap_apply_of_ne_of_ne h₂.symm h₄.symm,
        Equiv.swap_apply_of_ne_of_ne h₁.symm h₃.symm⟩

/-- Exchanges that are given by a formula and have no position in common, read off position by
position: it is the one or the other of some pair, or stays. -/
theorem route_map_range {f : Nat → Nat × Nat} {m : Nat}
    (hapart : ∀ k l, k < l → l < m → Apart (f k) (f l))
    (h : (∃ k < m, f k = (i, j)) ∨ (∃ k < m, f k = (j, i)) ∨
      (i = j ∧ ∀ k < m, i ≠ (f k).1 ∧ i ≠ (f k).2)) :
    route ((List.range m).map f) i = j := by
  have hpairwise : ((List.range m).map f).Pairwise Apart := by
    rw [List.pairwise_map]
    refine List.pairwise_lt_range.imp_of_mem ?_
    intro k l _ hl hlt
    exact hapart k l hlt (List.mem_range.mp hl)
  have hmem : ∀ {p : Nat × Nat}, (∃ k < m, f k = p) → p ∈ (List.range m).map f := by
    intro p hp
    simpa using hp
  rcases h with hpair | hpair | ⟨rfl, hne⟩
  · exact (route_of_mem hpairwise (hmem hpair)).1
  · exact (route_of_mem hpairwise (hmem hpair)).2
  · refine route_of_forall_ne ?_
    intro p hp
    obtain ⟨k, hk, rfl⟩ := List.mem_map.mp hp
    exact hne k (List.mem_range.mp hk)

/-- The exchanges of neighbours that carry the letter at position `start` over `count` others. -/
def carry (start count : Nat) : List (Nat × Nat) :=
  (List.range' start count).map fun i => (i, i + 1)

/-- The letters in between move up, and the letter that is carried comes last. -/
theorem route_carry (start count i : Nat) : route (carry start count) i =
    if i < start ∨ start + count < i then i else if i = start + count then start else i + 1 := by
  -- The first exchange carries the letter on to where the others take it up.
  induction count generalizing start with
  | zero =>
    simp only [carry, List.range'_zero, List.map_nil, route, List.prod_nil, Equiv.Perm.one_apply]
    split_ifs <;> omega
  | succ count ih =>
    have hcons : carry start (count + 1) = (start, start + 1) :: carry (start + 1) count := by
      simp [carry, List.range'_succ]
    rw [hcons, route_cons, ih, Equiv.swap_apply_def]
    split_ifs <;> omega

end Word

/-! ## Section 4 — rearrangements in place -/

namespace Transform

open Word (route carry Apart)

variable {op : Transform} {n i : Nat}

/-- Exchanges that make up a rearrangement of `n` letters. Letters change places with the letters
opposite, with those of the other half, or with their neighbours; a rotation carries one letter
from end to end. -/
def exchanges : Transform → Nat → List (Nat × Nat)
  | reverse, n => (List.range (n / 2)).map fun i => (i, n - 1 - i)
  | swapHalves, n => (List.range (n / 2)).map fun i => (i, n / 2 + n % 2 + i)
  | zigzag, n => (List.range (n / 2)).map fun i => (2 * i, 2 * i + 1)
  | rotateLeft keepFirst, n => carry keepFirst.toNat (n - 1 - keepFirst.toNat)
  | rotateRight keepFirst, n => (carry keepFirst.toNat (n - 1 - keepFirst.toNat)).reverse
  | collapsePairs, _ | letters _ _, _ => []

/-- Every exchange finds both its positions in the word. -/
theorem lt_of_mem_exchanges {p : Nat × Nat} (h : p ∈ op.exchanges n) : p.1 < n ∧ p.2 < n := by
  cases op with
  | reverse | swapHalves | zigzag =>
    simp only [exchanges, List.mem_map, List.mem_range] at h
    obtain ⟨k, hk, rfl⟩ := h
    dsimp only
    omega
  | rotateLeft keepFirst | rotateRight keepFirst =>
    simp only [exchanges, List.mem_reverse, carry, List.mem_map, List.mem_range'_1] at h
    obtain ⟨k, hk, rfl⟩ := h
    dsimp only
    omega
  | collapsePairs | letters => cases h

theorem route_reverse_exchanges (hi : i < n) :
    route (reverse.exchanges n) i = reverse.source n i := by
  refine Word.route_map_range (fun k l hkl hl => by unfold Apart; omega) ?_
  simp only [source, Prod.mk.injEq]
  by_cases hfirst : i < n / 2
  · exact Or.inl ⟨i, hfirst, rfl, rfl⟩
  · by_cases hsecond : n - 1 - i < n / 2
    · exact Or.inr (Or.inl ⟨n - 1 - i, hsecond, rfl, by omega⟩)
    · exact Or.inr (Or.inr ⟨by omega, fun k hk => by omega⟩)

theorem route_swapHalves_exchanges (hi : i < n) :
    route (swapHalves.exchanges n) i = swapHalves.source n i := by
  refine Word.route_map_range (fun k l hkl hl => by unfold Apart; omega) ?_
  simp only [source, Prod.mk.injEq]
  split_ifs with hfirst hmiddle
  · exact Or.inl ⟨i, hfirst, rfl, by omega⟩
  · exact Or.inr (Or.inr ⟨rfl, fun k hk => by omega⟩)
  · exact Or.inr (Or.inl ⟨i - n / 2 - n % 2, by omega, rfl, by omega⟩)

theorem route_zigzag_exchanges (hi : i < n) :
    route (zigzag.exchanges n) i = zigzag.source n i := by
  refine Word.route_map_range (fun k l hkl hl => by unfold Apart; omega) ?_
  simp only [source, Prod.mk.injEq]
  split_ifs with hsecond hfirst
  · exact Or.inr (Or.inl ⟨i / 2, by omega, by omega, by omega⟩)
  · exact Or.inl ⟨i / 2, by omega, by omega, by omega⟩
  · exact Or.inr (Or.inr ⟨rfl, fun k hk => by omega⟩)

/-- The position behind one of a word, around the end. -/
theorem add_one_mod_of_lt (hi : i < n) : (i + 1) % n = if i + 1 = n then 0 else i + 1 := by
  split_ifs with hlast
  · rw [hlast, Nat.mod_self]
  · exact Nat.mod_eq_of_lt (by omega)

theorem route_rotateLeft_exchanges {keepFirst : Bool} (hi : i < n) :
    route ((rotateLeft keepFirst).exchanges n) i = (rotateLeft keepFirst).source n i := by
  simp only [exchanges, Word.route_carry]
  cases keepFirst with
  | false =>
    simp only [source, Bool.toNat_false, add_one_mod_of_lt hi]
    split_ifs <;> omega
  | true =>
    cases i with
    | zero => simp [source, Word.behindFirst]
    | succ i =>
      have hbehind : i < n - 1 := by omega
      simp only [source, Word.behindFirst, Bool.toNat_true, add_one_mod_of_lt hbehind]
      split_ifs <;> omega

/-- **The exchanges of a rearrangement lead to its positions.** -/
theorem route_exchanges (h : op.rearranges = true) (hi : i < n) :
    route (op.exchanges n) i = op.source n i := by
  cases op with
  | reverse => exact route_reverse_exchanges hi
  | swapHalves => exact route_swapHalves_exchanges hi
  | zigzag => exact route_zigzag_exchanges hi
  | rotateLeft keepFirst => exact route_rotateLeft_exchanges hi
  | rotateRight keepFirst =>
    -- The exchanges of the other rotation in reverse order.
    have hreverse : (rotateRight keepFirst).exchanges n =
        ((rotateLeft keepFirst).exchanges n).reverse := rfl
    rw [hreverse, Word.route_reverse, Equiv.Perm.inv_eq_iff_eq,
      route_rotateLeft_exchanges (source_lt h hi)]
    exact (source_inverse rfl hi).symm
  | collapsePairs | letters => cases h

/-- **A rearrangement in place**: no exchange fails, and they come to the rearrangement. -/
theorem exchangeAll_exchanges (h : op.rearranges = true) (w : Word) :
    w.exchangeAll? (op.exchanges w.length) = some (op.apply w) := by
  obtain ⟨v, hv, hlength, hplace⟩ :=
    Word.exists_exchangeAll (w := w) fun p hp => lt_of_mem_exchanges hp
  obtain ⟨hlength', hfrom⟩ := takesFrom_source h w
  have hsame : v = op.apply w := by
    refine List.ext_getElem? fun i => ?_
    by_cases hi : i < w.length
    · rw [hplace, route_exchanges h hi, (hfrom i hi).2]
    · rw [List.getElem?_eq_none (by omega), List.getElem?_eq_none (by omega)]
  rw [hv, hsame]

end Transform

open Transform in
/-- **Rearrangements go by positions alone.** The transforms that take the letter at every position
from a position which depends on the length of the word only are the rearrangements. Those positions
are the ones of `source`, for words of every length, odd and even: the mirrored position; the same
place in the other half, but for a letter in the middle; the neighbour in a pair, but for a letter
left over; the next position around the word or the one before, all letters counted or those behind
the first. All of them are positions of the word, and those of an inverse lead back. And exchanging
letters two at a time in the word itself, at the positions of `exchanges`, never meets a position
outside the word and ends with the same word. -/
theorem rearranged_by_position :
    (∀ op : Transform, op.rearranges = true ↔ ∃ source, Word.TakesFrom op.apply source) ∧
    ∀ op : Transform, op.rearranges = true →
      Word.TakesFrom op.apply op.source ∧
      (∀ back, op.inverse? = some back → ∀ n i, i < n → back.source n (op.source n i) = i) ∧
      ∀ w : Word, (∀ p ∈ op.exchanges w.length, p.1 < w.length ∧ p.2 < w.length) ∧
        w.exchangeAll? (op.exchanges w.length) = some (op.apply w) := by
  refine ⟨fun op => ⟨fun h => ⟨op.source, takesFrom_source h⟩, fun h => ?_⟩, fun op h => ?_⟩
  · obtain ⟨source, hsource⟩ := h
    exact rearranges_of_takesFrom hsource
  · refine ⟨takesFrom_source h, fun back hback n i hi => source_inverse hback hi, fun w => ?_⟩
    exact ⟨fun p hp => lt_of_mem_exchanges hp, exchangeAll_exchanges h w⟩

open Transform in
/-- `zebra` has a letter in the middle, which stays when the halves change places. When all letters
but the first move up, the last comes second. -/
theorem zebra_rearranged :
    (List.range 5).map (swapHalves.source 5) = [3, 4, 2, 0, 1] ∧
    (swapHalves.apply (Word.ofText "zebra"))[4]? = (Word.ofText "zebra")[1]? ∧
    (Word.ofText "zebra").exchangeAll? [(0, 3), (1, 4)] = some (Word.ofText "rabze") ∧
    (List.range 5).map ((rotateRight true).source 5) = [0, 4, 1, 2, 3] ∧
    (∀ i, i < 5 → (rotateLeft true).source 5 ((rotateRight true).source 5 i) = i) ∧
    (Word.ofText "zebra").exchangeAll? [(3, 4), (2, 3), (1, 2)] = some (Word.ofText "zaebr") := by
  obtain ⟨_, hmoves⟩ := rearranged_by_position
  obtain ⟨hhalves, _, hexchanges⟩ := hmoves .swapHalves rfl
  obtain ⟨_, hback, hcarry⟩ := hmoves (.rotateRight true) rfl
  have hzebra : (Word.ofText "zebra").length = 5 := by decide
  have hrabze : swapHalves.apply (Word.ofText "zebra") = Word.ofText "rabze" := by decide
  have hzaebr : (rotateRight true).apply (Word.ofText "zebra") = Word.ofText "zaebr" := by decide
  refine ⟨by decide, ?_, ?_, by decide, fun i hi => hback _ rfl 5 i hi, ?_⟩
  · exact ((hhalves _).2 4 (by rw [hzebra]; omega)).2
  · have hplace := (hexchanges (Word.ofText "zebra")).2
    rwa [hrabze] at hplace
  · have hplace := (hcarry (Word.ofText "zebra")).2
    rwa [hzaebr] at hplace

end CipherBoard
