/-
CipherBoard.Proofs.Occurrence — no way of counting without overlaps finds more.

Counting takes an occurrence as soon as one starts and goes on behind it. A part that overlaps
itself, like `aba` in `ababa`, occurs more often than it is counted, and which of its occurrences
are counted is settled by the first. The count is nevertheless the greatest possible: the
occurrence that starts first also ends first, so any other choice can be exchanged for it.

* `OccursAt` — the part stands in the list at a position.
* `Scans` — the scan in the words of positions: the first occurrence, then the first behind it,
  until there is none. `scans_countFrom` says that counting is such a scan, by induction over
  the list, and `Scans.unique` that there is one only.
* `Packs` — a set of positions at which the part stands without overlaps. `Scans.card_le` is the
  exchange, by induction over the scan; `Scans.exists_packs` says that the scan finds such a set.
* `countOccurrences_optimal` — both together, with what `occursIn` decides.
-/
import CipherBoard.Occurrence
import CipherBoard.Word
import Mathlib.Data.Finset.Card
import Mathlib.Order.Bounds.Basic

namespace CipherBoard

variable {α : Type} {part whole : List α}

/-! ## Section 1 — occurrences -/

/-- The items of `part` stand in the list from position `i` on. -/
def OccursAt (part whole : List α) (i : Nat) : Prop :=
  ∃ before after, whole = before ++ part ++ after ∧ before.length = i

theorem OccursAt.add_le {i : Nat} (h : OccursAt part whole i) :
    i + part.length ≤ whole.length := by
  obtain ⟨before, after, rfl, rfl⟩ := h
  simp

/-- A part that is not empty stands where the rest of the list begins with it. -/
theorem occursAt_iff_prefix (hpart : part ≠ []) {i : Nat} :
    OccursAt part whole i ↔ part <+: whole.drop i := by
  refine ⟨fun h => ?_, fun h => ?_⟩
  · obtain ⟨before, after, rfl, rfl⟩ := h
    simp
  · obtain ⟨after, hafter⟩ := h
    have hi : i ≤ whole.length := by
      by_contra hlt
      rw [List.drop_eq_nil_of_le (by omega)] at hafter
      exact hpart (List.append_eq_nil_iff.mp hafter).1
    refine ⟨whole.take i, after, ?_, by simp [hi]⟩
    rw [List.append_assoc, hafter, List.take_append_drop]

theorem occursIn_iff [BEq α] [LawfulBEq α] : occursIn part whole = true ↔ part <:+: whole := by
  induction whole with
  | nil => simp [occursIn]
  | cons x rest ih => simp [occursIn, ih, List.infix_cons_iff]

/-- What stands in the list stands somewhere. -/
theorem isInfix_iff_exists_occursAt : part <:+: whole ↔ ∃ i, OccursAt part whole i := by
  refine ⟨fun h => ?_, fun h => ?_⟩
  · obtain ⟨before, after, h⟩ := h
    exact ⟨before.length, before, after, h.symm, rfl⟩
  · obtain ⟨_, before, after, h, _⟩ := h
    exact ⟨before, after, h.symm⟩

/-! ## Section 2 — the scan -/

/-- Scanning from a position on takes the first occurrence that there is and goes on behind it,
and ends where there is none. The second number is how many it has taken. -/
inductive Scans (part whole : List α) : Nat → Nat → Prop
  | done {start : Nat} (h : ∀ i, start ≤ i → ¬ OccursAt part whole i) : Scans part whole start 0
  | take {start i n : Nat} (hi : IsLeast {i | start ≤ i ∧ OccursAt part whole i} i)
    (h : Scans part whole (i + part.length) n) : Scans part whole start (n + 1)

namespace Scans

variable {start n m : Nat}

/-- A scan has one outcome. -/
theorem unique (hn : Scans part whole start n) (hm : Scans part whole start m) : n = m := by
  induction hn generalizing m with
  | done hnone =>
    cases hm with
    | done => rfl
    | take hi _ => exact absurd hi.1.2 (hnone _ hi.1.1)
  | take hi _ ih =>
    cases hm with
    | done hnone => exact absurd hi.1.2 (hnone _ hi.1.1)
    | take hj hrest =>
      cases hi.unique hj
      rw [ih hrest]

/-- Where the part does not stand, a scan may as well start one position later. -/
theorem of_succ (hno : ¬ OccursAt part whole start) (h : Scans part whole (start + 1) n) :
    Scans part whole start n := by
  have hsucc : ∀ i, start ≤ i → OccursAt part whole i → start + 1 ≤ i := by
    intro i hi hoccurs
    have hne : i ≠ start := fun heq => hno (heq ▸ hoccurs)
    omega
  cases h with
  | done hnone => exact .done fun i hi hoccurs => hnone i (hsucc i hi hoccurs) hoccurs
  | take hi hrest =>
    refine .take ⟨⟨Nat.le_of_succ_le hi.1.1, hi.1.2⟩, fun j hj => ?_⟩ hrest
    exact hi.2 ⟨hsucc j hj.1 hj.2, hj.2⟩

/-- A scan takes something exactly if there is something to take. -/
theorem one_le_iff (h : Scans part whole start n) :
    1 ≤ n ↔ ∃ i, start ≤ i ∧ OccursAt part whole i := by
  cases h with
  | done hnone => simpa using hnone
  | take hi _ => simpa using ⟨_, hi.1⟩

end Scans

/-- **Counting is scanning.** What is left to read begins at position `k` of the list, and the
scan at the first item that is not skipped; by induction over what is left. -/
theorem scans_countFrom [BEq α] [LawfulBEq α] (hpart : part ≠ []) {rest : List α} (k skip : Nat)
    (hrest : whole.drop k = rest) : Scans part whole (k + skip) (countFrom part skip rest) := by
  have hlen : 0 < part.length := List.length_pos_iff.mpr hpart
  induction rest generalizing k skip with
  | nil =>
    refine .done fun i hi hoccurs => ?_
    have hend : whole.length ≤ k := List.drop_eq_nil_iff.mp hrest
    have hle := hoccurs.add_le
    omega
  | cons x rest ih =>
    have hnext : whole.drop (k + 1) = rest := by
      rw [← List.tail_drop, hrest, List.tail_cons]
    have hhere : part.isPrefixOf (x :: rest) = true ↔ OccursAt part whole k := by
      rw [List.isPrefixOf_iff_prefix, occursAt_iff_prefix hpart, hrest]
    cases skip with
    | succ skip =>
      have htail := ih (k + 1) skip hnext
      rwa [Nat.succ_add_eq_add_succ] at htail
    | zero =>
      rw [countFrom]
      split
      · rename_i hprefix
        -- The part stands here: the scan goes on with the first item behind it.
        have htail := ih (k + 1) (part.length - 1) hnext
        rw [show k + 1 + (part.length - 1) = k + part.length by omega] at htail
        exact .take ⟨⟨Nat.le_refl k, hhere.mp hprefix⟩, fun j hj => hj.1⟩ htail
      · rename_i hprefix
        exact .of_succ (fun hoccurs => hprefix (hhere.mpr hoccurs)) (ih (k + 1) 0 hnext)

theorem scans_countOccurrences [BEq α] [LawfulBEq α] (hpart : part ≠ []) :
    Scans part whole 0 (countOccurrences part whole) := by
  unfold countOccurrences
  rw [if_neg (by simpa using hpart)]
  exact scans_countFrom hpart 0 0 rfl

/-! ## Section 3 — sets of occurrences without overlaps -/

/-- Positions at which the part stands, such that none begins before an earlier one has ended. -/
structure Packs (part whole : List α) (positions : Finset Nat) : Prop where
  occurs : ∀ i ∈ positions, OccursAt part whole i
  apart : ∀ i ∈ positions, ∀ j ∈ positions, i < j → i + part.length ≤ j

theorem Packs.subset {s t : Finset Nat} (h : Packs part whole t) (hst : s ⊆ t) :
    Packs part whole s :=
  ⟨fun i hi => h.occurs i (hst hi), fun i hi j hj => h.apart i (hst hi) j (hst hj)⟩

/-- One more position, before all the others. -/
theorem Packs.insert {s : Finset Nat} {i : Nat} (h : Packs part whole s)
    (hi : OccursAt part whole i) (hbehind : ∀ j ∈ s, i + part.length ≤ j) :
    Packs part whole (insert i s) := by
  refine ⟨fun a ha => ?_, fun a ha b hb hab => ?_⟩
  · obtain rfl | hmem := Finset.mem_insert.mp ha
    · exact hi
    · exact h.occurs a hmem
  · obtain rfl | hamem := Finset.mem_insert.mp ha
    · exact hbehind b (Finset.mem_of_mem_insert_of_ne hb hab.ne')
    · obtain rfl | hbmem := Finset.mem_insert.mp hb
      · have hle := hbehind a hamem
        omega
      · exact h.apart a hamem b hbmem hab

namespace Scans

variable {start n : Nat}

/-- **The exchange.** Of positions without overlaps, at most one comes before the end of the
first occurrence. So a scan that takes that occurrence falls behind by none. -/
theorem card_le (h : Scans part whole start n) {s : Finset Nat} (hs : Packs part whole s)
    (hstart : ∀ i ∈ s, start ≤ i) : s.card ≤ n := by
  induction h generalizing s with
  | done hnone =>
    have hempty : s = ∅ := by
      refine Finset.eq_empty_of_forall_notMem fun i hi => ?_
      exact hnone i (hstart i hi) (hs.occurs i hi)
    simp [hempty]
  | @take start i n hi _ ih =>
    have hfirst : ∀ a ∈ s, i ≤ a := fun a ha => hi.2 ⟨hstart a ha, hs.occurs a ha⟩
    have hfew : (s.filter (· < i + part.length)).card ≤ 1 := by
      rw [Finset.card_le_one]
      intro a ha b hb
      rw [Finset.mem_filter] at ha hb
      have hia := hfirst a ha.1
      have hib := hfirst b hb.1
      have hab := hs.apart a ha.1 b hb.1
      have hba := hs.apart b hb.1 a ha.1
      omega
    have hbehind : (s.filter (¬ · < i + part.length)).card ≤ n := by
      refine ih (hs.subset (Finset.filter_subset _ _)) fun j hj => ?_
      simpa using (Finset.mem_filter.mp hj).2
    have hsplit := Finset.card_filter_add_card_filter_not (s := s) (· < i + part.length)
    omega

/-- The occurrences that a scan takes do not overlap. -/
theorem exists_packs (hpart : part ≠ []) (h : Scans part whole start n) :
    ∃ s, Packs part whole s ∧ (∀ i ∈ s, start ≤ i) ∧ s.card = n := by
  induction h with
  | done _ => exact ⟨∅, ⟨by simp, by simp⟩, by simp, rfl⟩
  | @take start i n hi _ ih =>
    obtain ⟨s, hs, hbehind, hcard⟩ := ih
    have hlen : 0 < part.length := List.length_pos_iff.mpr hpart
    have hnew : i ∉ s := fun hmem => by
      have hle := hbehind i hmem
      omega
    refine ⟨insert i s, hs.insert hi.1.2 hbehind, fun j hj => ?_, ?_⟩
    · have hle : i ≤ j := by
        obtain heq | hmem := Finset.mem_insert.mp hj
        · exact heq.ge
        · exact (Nat.le_add_right i _).trans (hbehind j hmem)
      exact hi.1.1.trans hle
    · rw [Finset.card_insert_of_notMem hnew, hcard]

end Scans

/-! ## Section 4 — the count -/

/-- **What counting occurrences comes to.** The empty word occurs before every letter and at the
end. Of any other, the scan from the left has an end, with the count as its outcome and no other;
the count is the greatest number of positions at which the word stands without overlaps; and it is
at least one exactly if the word occurs. And a word occurs in another exactly if that is
something, then the word, then something. -/
theorem countOccurrences_optimal (part whole : Word) :
    countOccurrences [] whole = whole.length + 1 ∧
    (part ≠ [] →
      (∀ n, Scans part whole 0 n ↔ n = countOccurrences part whole) ∧
      IsGreatest {n | ∃ positions, Packs part whole positions ∧ positions.card = n}
        (countOccurrences part whole) ∧
      (occursIn part whole = true ↔ 1 ≤ countOccurrences part whole)) ∧
    (occursIn part whole = true ↔ ∃ before after, whole = before ++ part ++ after) := by
  refine ⟨rfl, fun hpart => ?_, ?_⟩
  · have hscan : Scans part whole 0 (countOccurrences part whole) := scans_countOccurrences hpart
    refine ⟨fun n => ⟨fun h => h.unique hscan, fun h => h ▸ hscan⟩, ⟨?_, ?_⟩, ?_⟩
    · obtain ⟨s, hs, _, hcard⟩ := hscan.exists_packs hpart
      exact ⟨s, hs, hcard⟩
    · intro n hn
      obtain ⟨s, hs, rfl⟩ := hn
      exact hscan.card_le hs fun i _ => Nat.zero_le i
    · rw [occursIn_iff, isInfix_iff_exists_occursAt, hscan.one_le_iff]
      simp
  · rw [occursIn_iff]
    exact ⟨fun ⟨before, after, h⟩ => ⟨before, after, h.symm⟩,
      fun ⟨before, after, h⟩ => ⟨before, after, h.symm⟩⟩

/-- `aba` stands in `abababa` at three places, of which no more than two do not overlap. -/
theorem countOccurrences_overlapping :
    Word.ofText "aba" ≠ [] ∧
    IsGreatest {n | ∃ positions,
      Packs (Word.ofText "aba") (Word.ofText "abababa") positions ∧ positions.card = n} 2 ∧
    occursIn (Word.ofText "aba") (Word.ofText "abababa") = true := by
  have hpart : Word.ofText "aba" ≠ [] := by decide
  have hcount : countOccurrences (Word.ofText "aba") (Word.ofText "abababa") = 2 := by decide
  obtain ⟨_, hword, _⟩ := countOccurrences_optimal (Word.ofText "aba") (Word.ofText "abababa")
  obtain ⟨_, hgreatest, hoccurs⟩ := hword hpart
  rw [hcount] at hgreatest hoccurs
  exact ⟨hpart, hgreatest, hoccurs.mpr (by decide)⟩

end CipherBoard
