/-
CipherBoard.Proofs.Counters — the anagram test with counters of 32 bits.

A tally is a number of any size. A table of counters says the same only as long as no counter is
full, and then comparing tables is comparing tallies. Words of fewer than 2^32 letters are always
counted; a word that holds one byte 2^32 times is not.

* `Counters`, `Counters.increase?` — a table of 32-bit counters, and counting one letter, which
  fails where the counter is full.
* `Counters.add?_eq_some_iff` — counting a word, by induction over its letters: the counters grow by
  its tallies. `Word.exists_counters?_iff` says which words can be counted.
* `Word.countsAlike?` — the anagram test by tables; `countsAlike?_eq_none_iff` says when it
  overflows, and `countsAlike?_eq_some` that it is otherwise the test by tallies.
* `anagrams_counted` — these together, with what anagrams keep.
-/
import CipherBoard.Proofs.Rearrangement

namespace CipherBoard

/-! ## Section 1 — tables of counters -/

/-- A counter of 32 bits for each byte. -/
abbrev Counters : Type := Vector UInt32 256

namespace Counters

variable {t u : Counters} {b : UInt8} {w : Word}

/-- The counter of a byte. -/
def count (t : Counters) (b : UInt8) : UInt32 :=
  getElem t b.toNat b.toNat_lt

/-- All counters stand at zero. -/
def zero : Counters :=
  Vector.replicate 256 0

/-- Counts a byte once more, unless its counter would overflow. -/
def increase? (t : Counters) (b : UInt8) : Option Counters :=
  if t.count b + 1 = 0 then none else some (t.set b.toNat (t.count b + 1) b.toNat_lt)

/-- Counts the letters of a word, unless a counter overflows. -/
def add? (t : Counters) : Word → Option Counters
  | [] => some t
  | b :: rest => (t.increase? b).bind fun u => u.add? rest

@[simp] theorem count_zero (b : UInt8) : zero.count b = 0 := by
  simp [count, zero]

theorem count_set (t : Counters) (b c : UInt8) (n : UInt32) :
    count (t.set b.toNat n b.toNat_lt) c = if b = c then n else t.count c := by
  have hsame : b.toNat = c.toNat ↔ b = c := UInt8.toNat_inj
  simp [count, Vector.getElem_set, hsame]

/-- Tables with the same counters are the same. -/
theorem ext_count (h : ∀ b, t.count b = u.count b) : t = u := by
  refine Vector.ext fun i hi => ?_
  have hbyte : (UInt8.ofNat i).toNat = i := UInt8.toNat_ofNat_of_lt hi
  have hcount := h (UInt8.ofNat i)
  simpa [count, hbyte] using hcount

/-- A full counter is the largest number of 32 bits. -/
theorem add_one_eq_zero_iff (n : UInt32) : n + 1 = 0 ↔ n.toNat + 1 = 2 ^ 32 := by
  have hlt := n.toNat_lt
  rw [← UInt32.toNat_inj, UInt32.toNat_add]
  show (n.toNat + 1) % 2 ^ 32 = 0 ↔ n.toNat + 1 = 2 ^ 32
  omega

theorem increase?_eq_none_iff : t.increase? b = none ↔ (t.count b).toNat + 1 = 2 ^ 32 := by
  rw [← add_one_eq_zero_iff]
  unfold increase?
  split <;> simp_all

/-- Counting a byte makes its counter one larger and leaves the others. -/
theorem count_of_increase? (h : t.increase? b = some u) (c : UInt8) :
    (u.count c).toNat = (t.count c).toNat + if b = c then 1 else 0 := by
  unfold increase? at h
  split at h
  · cases h
  · rename_i hfull
    cases h
    have hlt := (t.count b).toNat_lt
    rw [add_one_eq_zero_iff] at hfull
    rw [count_set]
    split
    · rename_i hsame
      subst hsame
      rw [UInt32.toNat_add]
      show ((t.count b).toNat + 1) % 2 ^ 32 = (t.count b).toNat + 1
      omega
    · rfl

/-- **Counting a word** adds its tallies to the counters, and gives a table exactly if there is one
with those counters. -/
theorem add?_eq_some_iff :
    t.add? w = some u ↔ ∀ b, (u.count b).toNat = (t.count b).toNat + w.count b := by
  induction w generalizing t with
  | nil =>
    simp only [add?, Option.some.injEq, List.count_nil, Nat.add_zero]
    constructor
    · intro h b
      rw [h]
    · intro h
      exact ext_count fun b => UInt32.toNat_inj.mp (h b).symm
  | cons c rest ih =>
    rw [add?]
    cases hc : t.increase? c with
    | none =>
      rw [increase?_eq_none_iff] at hc
      simp only [Option.bind_none, reduceCtorEq, false_iff]
      intro h
      have hlt := (u.count c).toNat_lt
      have hcount := h c
      rw [List.count_cons_self] at hcount
      omega
    | some s =>
      rw [Option.bind_some, ih]
      refine forall_congr' fun b => ?_
      rw [count_of_increase? hc, List.count_cons, Nat.add_right_comm, Nat.add_assoc]
      simp only [beq_iff_eq]

end Counters

/-! ## Section 2 — words that can be counted -/

namespace Word

variable {w v : Word}

/-- The counters of a word, unless one overflows. -/
def counters? (w : Word) : Option Counters :=
  Counters.zero.add? w

theorem counters?_eq_some_iff {t : Counters} :
    w.counters? = some t ↔ ∀ b, (t.count b).toNat = w.count b := by
  simp [counters?, Counters.add?_eq_some_iff]

/-- **A word can be counted** exactly if it holds no byte 2^32 times or more. -/
theorem exists_counters?_iff : (∃ t, w.counters? = some t) ↔ ∀ b, w.count b < 2 ^ 32 := by
  simp only [counters?_eq_some_iff]
  constructor
  · intro h b
    obtain ⟨t, ht⟩ := h
    rw [← ht b]
    exact (t.count b).toNat_lt
  · intro h
    refine ⟨Vector.ofFn fun i => UInt32.ofNat (w.count (UInt8.ofNat i)), fun b => ?_⟩
    have hbyte : UInt8.ofNat b.toNat = b := UInt8.ofNat_toNat
    simp only [Counters.count, Vector.getElem_ofFn, hbyte]
    rw [UInt32.toNat_ofNat']
    exact Nat.mod_eq_of_lt (h b)

theorem counters?_eq_none_iff : w.counters? = none ↔ ∃ b, 2 ^ 32 ≤ w.count b := by
  rw [Option.eq_none_iff_forall_ne_some, ← not_exists, exists_counters?_iff]
  simp only [not_forall, Nat.not_lt]

/-- Compares the lengths of two words, and the tables of their counters if the lengths are the same.
There is no answer if a counter overflows. -/
def countsAlike? (w v : Word) : Option Bool :=
  if w.length ≠ v.length then some false
  else w.counters?.bind fun t => v.counters?.map fun u => t == u

/-- Words have one table exactly if they are rearrangements of each other. -/
theorem counters_eq_iff {t t' : Counters} (h : w.counters? = some t) (h' : v.counters? = some t') :
    t = t' ↔ w.Perm v := by
  rw [counters?_eq_some_iff] at h h'
  rw [List.perm_iff_count]
  constructor
  · intro heq b
    rw [← h b, ← h' b, heq]
  · intro hcount
    exact Counters.ext_count fun b => UInt32.toNat_inj.mp (by rw [h b, h' b, hcount b])

/-- Where no counter overflows, comparing tables is comparing tallies. -/
theorem countsAlike?_eq_some (hw : ∀ b, w.count b < 2 ^ 32) (hv : ∀ b, v.count b < 2 ^ 32) :
    w.countsAlike? v = some (w.isAnagramOf v) := by
  obtain ⟨t, ht⟩ := exists_counters?_iff.mpr hw
  obtain ⟨t', ht'⟩ := exists_counters?_iff.mpr hv
  unfold countsAlike?
  split
  · rename_i hlength
    have hnot : ¬ w.Perm v := fun h => hlength h.length_eq
    rw [← isAnagramOf_iff, Bool.not_eq_true] at hnot
    rw [hnot]
  · rw [ht, ht', Option.bind_some, Option.map_some, Option.some.injEq, Bool.eq_iff_iff, beq_iff_eq,
      counters_eq_iff ht ht', isAnagramOf_iff]

/-- **Where the test by tables overflows**: on words of one length, where a byte occurs too often. -/
theorem countsAlike?_eq_none_iff : w.countsAlike? v = none ↔
    w.length = v.length ∧ ∃ b, 2 ^ 32 ≤ w.count b ∨ 2 ^ 32 ≤ v.count b := by
  rw [exists_or, ← counters?_eq_none_iff, ← counters?_eq_none_iff]
  unfold countsAlike?
  by_cases hlength : w.length = v.length
  · rw [if_neg (not_not.mpr hlength)]
    cases w.counters? <;> cases v.counters? <;> simp [hlength]
  · simp [hlength]

/-! ## Section 3 — what anagrams keep -/

theorem isAnagramOf_equivalence : Equivalence fun w v : Word => w.isAnagramOf v = true := by
  refine ⟨fun w => ?_, ?_, ?_⟩
  · exact isAnagramOf_iff.mpr (.refl w)
  · intro w v h
    exact isAnagramOf_iff.mpr (isAnagramOf_iff.mp h).symm
  · intro w v u h h'
    exact isAnagramOf_iff.mpr ((isAnagramOf_iff.mp h).trans (isAnagramOf_iff.mp h'))

theorem isAnagramOf_append {w' v' : Word} (h : w.isAnagramOf v = true)
    (h' : w'.isAnagramOf v' = true) : (w ++ w').isAnagramOf (v ++ v') = true :=
  isAnagramOf_iff.mpr ((isAnagramOf_iff.mp h).append (isAnagramOf_iff.mp h'))

/-- The same letters before two words make no difference, and neither do the same letters behind. -/
theorem isAnagramOf_append_left (u w v : Word) :
    (u ++ w).isAnagramOf (u ++ v) = w.isAnagramOf v := by
  rw [Bool.eq_iff_iff, isAnagramOf_iff, isAnagramOf_iff]
  exact List.perm_append_left_iff u

theorem isAnagramOf_append_right (u w v : Word) :
    (w ++ u).isAnagramOf (v ++ u) = w.isAnagramOf v := by
  rw [Bool.eq_iff_iff, isAnagramOf_iff, isAnagramOf_iff]
  exact List.perm_append_right_iff u

end Word

/-- **Counting decides what is an anagram.** In a word of fewer than 2^32 letters no 32-bit counter
overflows, and the counters are the tallies. On two such words, comparing tables gives the same
answer as comparing tallies, and the answer is whether one word is a rearrangement of the other; so
does the condition of a branch. On longer words the test by tables overflows exactly if the two have
one length and one of them holds some byte 2^32 times. Being an anagram is an equivalence. Words
that are put together from anagrams are anagrams, and the same letters before two words or behind
them make no difference. -/
theorem anagrams_counted :
    (∀ w : Word, w.length < 2 ^ 32 →
      ∃ t, w.counters? = some t ∧ ∀ b, (t.count b).toNat = w.count b) ∧
    (∀ w v : Word, w.length < 2 ^ 32 → v.length < 2 ^ 32 →
      w.countsAlike? v = some (w.isAnagramOf v) ∧ (w.isAnagramOf v = true ↔ w.Perm v) ∧
      ∀ input, (Condition.anagramOf v).holds w input = true ↔ w.Perm v) ∧
    (∀ w v : Word, w.countsAlike? v = none ↔
      w.length = v.length ∧ ∃ b, 2 ^ 32 ≤ w.count b ∨ 2 ^ 32 ≤ v.count b) ∧
    (Equivalence fun w v : Word => w.isAnagramOf v = true) ∧
    (∀ w v w' v' : Word, w.isAnagramOf v = true → w'.isAnagramOf v' = true →
      (w ++ w').isAnagramOf (v ++ v') = true) ∧
    ∀ u w v : Word, (u ++ w).isAnagramOf (u ++ v) = w.isAnagramOf v ∧
      (w ++ u).isAnagramOf (v ++ u) = w.isAnagramOf v := by
  have hcount : ∀ {w : Word}, w.length < 2 ^ 32 → ∀ b, w.count b < 2 ^ 32 :=
    fun hw b => Nat.lt_of_le_of_lt List.count_le_length hw
  refine ⟨fun w hw => ?_, fun w v hw hv => ?_, fun w v => Word.countsAlike?_eq_none_iff,
    Word.isAnagramOf_equivalence, fun w v w' v' h h' => Word.isAnagramOf_append h h',
    fun u w v => ⟨u.isAnagramOf_append_left w v, u.isAnagramOf_append_right w v⟩⟩
  · obtain ⟨t, ht⟩ := Word.exists_counters?_iff.mpr (hcount hw)
    exact ⟨t, ht, Word.counters?_eq_some_iff.mp ht⟩
  · exact ⟨Word.countsAlike?_eq_some (hcount hw) (hcount hv), Word.isAnagramOf_iff,
      fun input => Word.isAnagramOf_iff⟩

/-- `listen` and `silent` have the same counters, with a single `s`. A word of 2^32 equal letters has
none, not even to be compared with itself. -/
theorem listen_counted :
    (∃ t, (Word.ofText "listen").counters? = some t ∧ (t.count 115).toNat = 1) ∧
    (Word.ofText "listen").countsAlike? (Word.ofText "silent") = some true ∧
    (Word.ofText "listen" ++ Word.ofText "er").isAnagramOf
      (Word.ofText "silent" ++ Word.ofText "re") = true ∧
    Word.countsAlike? (List.replicate (2 ^ 32) 97) (List.replicate (2 ^ 32) 97) = none := by
  obtain ⟨hcounters, hshort, hlong, _, happend, _⟩ := anagrams_counted
  have hlisten : (Word.ofText "listen").isAnagramOf (Word.ofText "silent") = true :=
    Word.isAnagramOf_iff.mpr (by decide)
  have her : (Word.ofText "er").isAnagramOf (Word.ofText "re") = true :=
    Word.isAnagramOf_iff.mpr (by decide)
  obtain ⟨t, ht, htallies⟩ := hcounters (Word.ofText "listen") (by decide)
  obtain ⟨hcounted, _⟩ := hshort (Word.ofText "listen") (Word.ofText "silent") (by decide)
    (by decide)
  refine ⟨⟨t, ht, ?_⟩, by rw [hcounted, hlisten], happend _ _ _ _ hlisten her,
    (hlong _ _).mpr ⟨rfl, 97, ?_⟩⟩
  · rw [htallies 115]
    decide
  · rw [List.count_replicate_self]
    exact Or.inl (Nat.le_refl _)

end CipherBoard
