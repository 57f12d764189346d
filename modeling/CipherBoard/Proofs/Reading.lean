/-
CipherBoard.Proofs.Reading — what comes of reading JSON.

Nothing is said here about which bytes are read as which value; only about all values that can
come of reading.

* `Json.Ordered` — in every object of a value the members are in the order of their names, and no
  name occurs twice.
* `insertMember_ordered` — adding a member keeps the order.
* `Reader.Yields` — whatever a reader takes off the front of some bytes has a property; one lemma
  for each reader, up to `value_yields`, by induction on the depth that is left.
* `ordered_of_read` — so every document that is read is ordered.
-/
import CipherBoard.Json.Reader

namespace CipherBoard.Json

/-! ## Section 1 — ordered values -/

/-- In every object of the value the members are in the order of their names. -/
inductive Ordered : Json → Prop
  | null : Ordered .null
  | bool (b : Bool) : Ordered (.bool b)
  | number (n : Number) : Ordered (.number n)
  | string (s : String) : Ordered (.string s)
  | array {items : List Json} : (∀ v ∈ items, Ordered v) → Ordered (.array items)
  | object {members : List (String × Json)} : members.Pairwise (fun a b => a.1 < b.1) →
      (∀ m ∈ members, Ordered m.2) → Ordered (.object members)

section
variable {name : String} {value : Json} {members : List (String × Json)}

theorem mem_insertMember {m : String × Json} (h : m ∈ insertMember name value members) :
    m = (name, value) ∨ m ∈ members := by
  induction members with
  | nil => exact Or.inl (List.mem_singleton.mp h)
  | cons first rest ih =>
    obtain ⟨n, v⟩ := first
    rw [insertMember] at h
    split at h
    · exact List.mem_cons.mp h
    · split at h
      · exact (List.mem_cons.mp h).imp_right (List.mem_cons_of_mem _)
      · rcases List.mem_cons.mp h with rfl | hrest
        · exact Or.inr List.mem_cons_self
        · exact (ih hrest).imp_right (List.mem_cons_of_mem _)

/-- **Adding a member keeps the order.** -/
theorem insertMember_ordered (h : members.Pairwise fun a b => a.1 < b.1) :
    (insertMember name value members).Pairwise fun a b => a.1 < b.1 := by
  induction members with
  | nil => exact List.pairwise_singleton _ _
  | cons first rest ih =>
    obtain ⟨n, v⟩ := first
    obtain ⟨hfirst, hrest⟩ := List.pairwise_cons.mp h
    rw [insertMember]
    split
    case isTrue hlt =>
      refine List.pairwise_cons.mpr ⟨fun m hm => ?_, h⟩
      rcases List.mem_cons.mp hm with rfl | hm
      · exact hlt
      · exact String.lt_trans hlt (hfirst m hm)
    case isFalse hge =>
      split
      case isTrue heq =>
        subst heq
        exact List.pairwise_cons.mpr ⟨hfirst, hrest⟩
      case isFalse hne =>
        refine List.pairwise_cons.mpr ⟨fun m hm => ?_, ih hrest⟩
        rcases mem_insertMember hm with rfl | hm
        · refine Decidable.byContradiction fun hnot => ?_
          exact hne (String.le_antisymm (String.not_lt.mp hnot) (String.not_lt.mp hge))
        · exact hfirst m hm

end

/-! ## Section 2 — what readers yield -/

namespace Reader

open Text (Taken)

variable {α : Type}

/-- Whatever the reader takes off the front has a property. -/
def Yields (r : Reader α) (P : α → Prop) : Prop :=
  ∀ s t, r s = .ok t → P t.value

theorem exists_of_map {ε β : Type} {x : Except ε α} {f : α → β} {b : β} (h : x.map f = .ok b) :
    ∃ a, x = .ok a ∧ f a = b := by
  cases x with
  | error e => cases h
  | ok a =>
    cases h
    exact ⟨a, rfl, rfl⟩

theorem word_yields (v : Json) (letters : List UInt8) : Yields (word v letters) (· = v) := by
  intro s t h
  fun_induction word v letters s with
  | case2 =>
    cases h
    rfl
  | case4 _ _ _ _ ih =>
    obtain ⟨r, hr, rfl⟩ := exists_of_map h
    exact ih r hr
  | case1 | case3 | case5 | case6 => cases h

theorem unsigned_yields (negative : Bool) :
    Yields (unsigned negative) fun v => ∃ n, v = .number n := by
  intro s t h
  unfold unsigned at h
  split at h
  · cases h
  · split at h
    · cases h
    · dsimp only at h
      split at h
      · cases h
      · split at h
        · cases h
        · cases h
          exact ⟨_, rfl⟩

variable {item : Reader Json} {P : Json → Prop}

theorem moreItems_yields (hitem : item.Yields P) {seen : List Json} (hseen : ∀ v ∈ seen, P v) :
    Yields (moreItems item seen) fun vs => ∀ v ∈ vs, P v := by
  intro s t h
  fun_induction moreItems item seen s with
  | case2 =>
    cases h
    exact fun v hv => hseen v (List.mem_reverse.mp hv)
  | case6 _ _ _ _ _ _ _ r hr _ _ _ _ ih =>
    obtain ⟨more, hmore, rfl⟩ := exists_of_map h
    refine ih (List.forall_mem_cons.mpr ⟨hitem _ r hr, hseen⟩) more hmore
  | case1 | case3 | case4 | case5 | case7 => cases h

theorem items_yields (hitem : item.Yields P) : Yields (items item) fun vs => ∀ v ∈ vs, P v := by
  intro s t h
  unfold items at h
  split at h
  · cases h
  · split at h
    · cases h
      exact List.forall_mem_nil _
    · split at h
      · cases h
      · rename_i r hr
        obtain ⟨more, hmore, rfl⟩ := exists_of_map h
        exact moreItems_yields hitem (List.forall_mem_singleton.mpr (hitem _ r hr)) _ more hmore

theorem member_yields (hitem : item.Yields P) : Yields (member item) fun m => P m.2 := by
  intro s t h
  unfold member at h
  split at h
  · cases h
  · dsimp only at h
    split at h
    · split at h
      · cases h
      · split at h
        · cases h
        · split at h
          · obtain ⟨r, hr, rfl⟩ := exists_of_map h
            exact hitem _ r hr
          · cases h
    · cases h

theorem moreMembers_yields (hitem : item.Yields P) {seen : List (String × Json)}
    (hseen : seen.Pairwise fun a b => a.1 < b.1) (hvalues : ∀ m ∈ seen, P m.2) :
    Yields (moreMembers item seen) fun ms =>
      ms.Pairwise (fun a b => a.1 < b.1) ∧ ∀ m ∈ ms, P m.2 := by
  intro s t h
  fun_induction moreMembers item seen s with
  | case2 =>
    cases h
    exact ⟨hseen, hvalues⟩
  | case4 _ _ _ r hr _ _ _ _ ih =>
    obtain ⟨more, hmore, rfl⟩ := exists_of_map h
    refine ih (insertMember_ordered hseen) (fun m hm => ?_) more hmore
    rcases mem_insertMember hm with rfl | hm
    · exact member_yields hitem _ r hr
    · exact hvalues m hm
  | case1 | case3 | case5 => cases h

theorem members_yields (hitem : item.Yields P) : Yields (members item) fun ms =>
    ms.Pairwise (fun a b => a.1 < b.1) ∧ ∀ m ∈ ms, P m.2 := by
  intro s t h
  unfold members at h
  split at h
  · cases h
  · split at h
    · cases h
      exact ⟨.nil, List.forall_mem_nil _⟩
    · split at h
      · cases h
      · rename_i r hr
        obtain ⟨more, hmore, rfl⟩ := exists_of_map h
        exact moreMembers_yields hitem (List.pairwise_singleton _ _)
          (List.forall_mem_singleton.mpr (member_yields hitem _ r hr)) _ more hmore

/-- A value is ordered if the values in it are. -/
theorem value_yields_of {depth : Nat}
    (ih : ∀ inner, depth = inner + 1 → Yields (value inner) Ordered) :
    Yields (value depth) Ordered := by
  intro s t h
  unfold value at h
  split at h
  · cases h
  · dsimp only at h
    split at h
    · obtain ⟨r, hr, rfl⟩ := exists_of_map h
      exact word_yields _ _ _ r hr ▸ .null
    split at h
    · obtain ⟨r, hr, rfl⟩ := exists_of_map h
      exact word_yields _ _ _ r hr ▸ .bool true
    split at h
    · obtain ⟨r, hr, rfl⟩ := exists_of_map h
      exact word_yields _ _ _ r hr ▸ .bool false
    split at h
    · obtain ⟨r, hr, rfl⟩ := exists_of_map h
      obtain ⟨n, hn⟩ := unsigned_yields _ _ r hr
      exact hn ▸ .number n
    split at h
    · obtain ⟨r, hr, rfl⟩ := exists_of_map h
      obtain ⟨n, hn⟩ := unsigned_yields _ _ r hr
      exact hn ▸ .number n
    split at h
    · obtain ⟨r, hr, rfl⟩ := exists_of_map h
      exact .string r.value
    split at h
    · cases h
    · rename_i inner
      split at h
      · obtain ⟨r, hr, rfl⟩ := exists_of_map h
        exact .array (items_yields (ih inner rfl) _ r hr)
      split at h
      · obtain ⟨r, hr, rfl⟩ := exists_of_map h
        obtain ⟨hsorted, hvalues⟩ := members_yields (ih inner rfl) _ r hr
        exact .object hsorted hvalues
      · cases h

theorem value_yields (depth : Nat) : Yields (value depth) Ordered := by
  induction depth with
  | zero => exact value_yields_of fun _ h => by cases h
  | succ depth ih => exact value_yields_of fun _ h => by cases h; exact ih

end Reader

/-- **Every document that is read is ordered.** -/
theorem ordered_of_read {bytes : List UInt8} {v : Json} (h : read bytes = .ok v) : v.Ordered := by
  unfold read at h
  split at h
  · cases h
  · rename_i r hr
    split at h
    · cases h
      exact Reader.value_yields _ _ r hr
    · cases h

end CipherBoard.Json
