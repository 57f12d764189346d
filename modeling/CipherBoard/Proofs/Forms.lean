/-
CipherBoard.Proofs.Forms — which values a form reads, and which a shape accepts.

Shapes and forms describe the same documents, each in its own way. Both are turned here into
statements about the members of a value, so that they can be laid side by side.

* `Decoder.Reads` — a decoder gets something out of a value; one lemma for each decoder.
* `Form.Fits` — what a field asks of the members of an object: `reads_object_iff` says that an
  object is read exactly if they fit every field.
* `Shape.violations_record`, `violations_listOf`, … — what it means that nothing in a value
  differs from a shape.
-/
import CipherBoard.Json.Decode
import CipherBoard.Json.Shape
import CipherBoard.Proofs.Reading
import Mathlib.Data.List.Nodup
import Mathlib.Data.List.Pairwise

namespace CipherBoard.Json

/-! ## Section 1 — decoders -/

/-- The decoder gets something out of the value. -/
def Decoder.Reads {α : Type} (d : Decoder α) (v : Json) : Prop :=
  ∃ a, d v = .ok a

/-- The value is a whole number of 32 bits without a sign, and written as one. -/
def IsUint32 (v : Json) : Prop :=
  ∃ n : Int, v = .number (.whole n) ∧ 0 ≤ n ∧ n ≤ 0xffffffff

namespace Decoder

variable {α β : Type} {d : Decoder α} {v : Json}

@[simp] theorem reads_uint32 : uint32.Reads v ↔ v.IsUint32 := by
  unfold Reads IsUint32 uint32
  split
  · split <;> simp_all
  · rename_i hother
    simp only [reduceCtorEq, exists_false, false_iff]
    rintro ⟨n, rfl, _⟩
    exact hother n rfl

@[simp] theorem reads_float : float.Reads v ↔ ∃ n, v = .number n := by
  cases v <;> simp [Reads, float]

@[simp] theorem reads_text : text.Reads v ↔ ∃ s, v = .string s := by
  cases v <;> simp [Reads, text]

@[simp] theorem exists_map_iff {f : α → β} : (∃ b, (d v).map f = .ok b) ↔ d.Reads v := by
  unfold Reads
  cases d v <;> simp [Except.map]

theorem exists_mapM_iff {items : List Json} :
    (∃ l, items.mapM d = .ok l) ↔ ∀ i ∈ items, d.Reads i := by
  induction items with
  | nil => simp [pure, Except.pure]
  | cons i rest ih =>
    rw [List.forall_mem_cons, ← ih, List.mapM_cons]
    unfold Reads
    cases d i with
    | error e => simp [bind, Except.bind]
    | ok a => cases List.mapM d rest <;> simp [bind, Except.bind, pure, Except.pure]

@[simp] theorem reads_list : (list d).Reads v ↔
    ∃ items, v = .array items ∧ ∀ i ∈ items, d.Reads i := by
  cases v with
  | array items => simpa [Reads, list] using exists_mapM_iff
  | _ => simp [Reads, list]

end Decoder

/-! ## Section 2 — members -/

section
variable {members : List (String × Json)} {name : String} {v : Json}

theorem mem_of_lookup {β : Type} {entries : List (String × β)} {b : β}
    (h : entries.lookup name = some b) : (name, b) ∈ entries := by
  obtain ⟨pre, post, rfl, _⟩ := List.lookup_eq_some_iff.mp h
  exact List.mem_append_right _ List.mem_cons_self

/-- In an ordered object the member of a name is the only one. -/
theorem lookup_eq_some_iff_mem (h : members.Pairwise fun a b => a.1 < b.1) :
    members.lookup name = some v ↔ (name, v) ∈ members := by
  refine ⟨mem_of_lookup, fun hmem => ?_⟩
  obtain ⟨pre, post, rfl⟩ := List.append_of_mem hmem
  refine List.lookup_eq_some_iff.mpr ⟨pre, post, rfl, fun m hm => ?_⟩
  have hlt := (List.pairwise_append.mp h).2.2 m hm (name, v) List.mem_cons_self
  rw [bne_iff_ne]
  rintro rfl
  exact String.lt_irrefl _ hlt

end

/-! ## Section 3 — forms -/

/-- The names of a field. -/
def Field.names (f : Field) : List String :=
  f.name :: f.otherName.toList

namespace Form

variable {α : Type} {form : Form α} {members : List (String × Json)}

/-- The field gets something out of the value. -/
def ReadsField (form : Form α) (name : String) (v : Json) : Prop :=
  ∃ r, form.fill name v form.blank = .ok r

/-- Whether a field can be filled in does not depend on the fields before it. -/
def Steady (form : Form α) : Prop :=
  ∀ f ∈ form.fields, ∀ v r, (∃ r', form.fill f.name v r = .ok r') ↔ form.ReadsField f.name v

/-- No name is that of two fields. -/
def Distinct (form : Form α) : Prop :=
  (form.fields.flatMap Field.names).Nodup

instance (form : Form α) : Decidable form.Distinct :=
  inferInstanceAs (Decidable (List.Nodup _))

/-- What a field asks of the members of an object. -/
structure Fits (form : Form α) (members : List (String × Json)) (f : Field) : Prop where
  /-- What is there can be read. -/
  readable : ∀ name ∈ f.names, ∀ v, members.lookup name = some v → form.ReadsField f.name v
  /-- It is there under one name only. -/
  once : ∀ other, f.otherName = some other → (members.lookup f.name).isSome →
    members.lookup other = none
  /-- It is there if it has to be. -/
  there : f.optional = false → ∃ name ∈ f.names, (members.lookup name).isSome

/-- The fields that the members of an object stand for, with their values. -/
def known (form : Form α) (members : List (String × Json)) : List (String × Json) :=
  members.filterMap fun m => (form.field? m.1).map fun f => (f.name, m.2)

theorem mem_fields_of_field? {name : String} {f : Field} (h : form.field? name = some f) :
    f ∈ form.fields :=
  List.mem_of_find?_eq_some h

theorem known_cons_none {name : String} {v : Json} (h : form.field? name = none) :
    form.known ((name, v) :: members) = form.known members := by
  simp [known, h]

theorem known_cons_some {name : String} {v : Json} {f : Field} (h : form.field? name = some f) :
    form.known ((name, v) :: members) = (f.name, v) :: form.known members := by
  simp [known, h]

/-- The members of an object are filled in if each can be read and none stands for a field that
was filled in before. -/
theorem exists_fillMembers_iff (hsteady : form.Steady) {seen : List String} {record : α} :
    (∃ r, form.fillMembers seen record members = .ok r) ↔
      (∀ p ∈ form.known members, form.ReadsField p.1 p.2) ∧
        (∀ p ∈ form.known members, p.1 ∉ seen) ∧ ((form.known members).map Prod.fst).Nodup := by
  induction members generalizing seen record with
  | nil => simp [fillMembers, known]
  | cons m rest ih =>
    obtain ⟨name, v⟩ := m
    rw [fillMembers]
    cases hf : form.field? name with
    | none => rw [known_cons_none hf, ih]
    | some f =>
      rw [known_cons_some hf]
      dsimp only
      by_cases hseen : f.name ∈ seen
      · simp [hseen]
      · have hreads := hsteady f (mem_fields_of_field? hf) v record
        cases hfill : form.fill f.name v record with
        | error e =>
          simp only [hfill, reduceCtorEq, exists_false, false_iff] at hreads
          simp [hseen, hreads]
        | ok r =>
          simp only [hfill, Except.ok.injEq, exists_eq', true_iff] at hreads
          have hnew : seen.contains f.name = false := by simpa using hseen
          rw [hnew, if_neg Bool.false_ne_true, ih, List.forall_mem_cons, List.forall_mem_cons,
            List.map_cons, List.nodup_cons]
          simp only [List.mem_cons, not_or, List.mem_map, not_exists, not_and]
          constructor
          · rintro ⟨hall, hfresh, hnodup⟩
            exact ⟨⟨hreads, hall⟩, ⟨hseen, fun p hp => (hfresh p hp).2⟩,
              fun p hp => (hfresh p hp).1, hnodup⟩
          · rintro ⟨⟨_, hall⟩, ⟨_, hfresh⟩, hother, hnodup⟩
            exact ⟨hall, fun p hp => ⟨hother p hp, hfresh p hp⟩, hnodup⟩

/-- The fields that were filled in are those that the members stand for. -/
theorem seen_of_fillMembers {seen seen' : List String} {record r : α}
    (h : form.fillMembers seen record members = .ok (seen', r)) :
    seen' = ((form.known members).map Prod.fst).reverse ++ seen := by
  induction members generalizing seen record with
  | nil =>
    cases h
    rfl
  | cons m rest ih =>
    obtain ⟨name, v⟩ := m
    rw [fillMembers] at h
    cases hf : form.field? name with
    | none =>
      rw [hf] at h
      rw [known_cons_none hf]
      exact ih h
    | some f =>
      rw [hf] at h
      dsimp only at h
      split at h
      · cases h
      · split at h
        · cases h
        · rw [known_cons_some hf, ih h]
          simp

theorem firstMissing?_eq_none_iff {seen : List String} : form.firstMissing? seen = none ↔
    ∀ f ∈ form.fields, f.optional = false → f.name ∈ seen := by
  simp [firstMissing?]

/-- **When an object is read**, in the order in which its members are taken. -/
theorem reads_object_iff_known (hsteady : form.Steady) :
    Decoder.Reads form.decode (.object members) ↔
      (∀ p ∈ form.known members, form.ReadsField p.1 p.2) ∧
        ((form.known members).map Prod.fst).Nodup ∧
        ∀ f ∈ form.fields, f.optional = false → f.name ∈ (form.known members).map Prod.fst := by
  have hfills := @exists_fillMembers_iff _ form members hsteady [] form.blank
  unfold Decoder.Reads decode
  dsimp only
  cases hfill : form.fillMembers [] form.blank members with
  | error e =>
    simp only [hfill, reduceCtorEq, exists_false, List.not_mem_nil, not_false_iff, implies_true,
      true_and, false_iff] at hfills
    simp only [reduceCtorEq, exists_false, false_iff]
    exact fun ⟨hall, hnodup, _⟩ => hfills ⟨hall, hnodup⟩
  | ok filled =>
    obtain ⟨seen, r⟩ := filled
    simp only [hfill, Except.ok.injEq, exists_eq', List.not_mem_nil, not_false_iff, implies_true,
      true_and, true_iff] at hfills
    have hseen := seen_of_fillMembers hfill
    rw [List.append_nil] at hseen
    have hmissing := @firstMissing?_eq_none_iff _ form seen
    rw [hseen] at hmissing ⊢
    simp only [List.mem_reverse] at hmissing
    rw [← hmissing]
    dsimp only
    cases form.firstMissing? ((form.known members).map Prod.fst).reverse with
    | none => exact iff_of_true ⟨r, rfl⟩ ⟨hfills.1, hfills.2, rfl⟩
    | some name => exact iff_of_false (fun ⟨_, h⟩ => by cases h) fun ⟨_, _, h⟩ => by cases h

theorem eq_of_mem_names {fields : List Field} (h : (fields.flatMap Field.names).Nodup)
    {f g : Field} (hf : f ∈ fields) (hg : g ∈ fields) {name : String} (hfname : name ∈ f.names)
    (hgname : name ∈ g.names) : f = g := by
  induction fields with
  | nil => cases hf
  | cons first rest ih =>
    rw [List.flatMap_cons, List.nodup_append] at h
    obtain ⟨_, hrest, hapart⟩ := h
    rcases List.mem_cons.mp hf with heq | hfrest <;> rcases List.mem_cons.mp hg with heq' | hgrest
    · rw [heq, heq']
    · subst heq
      exact absurd rfl (hapart name hfname name (List.mem_flatMap.mpr ⟨g, hgrest, hgname⟩))
    · subst heq'
      exact absurd rfl (hapart name hgname name (List.mem_flatMap.mpr ⟨f, hfrest, hfname⟩))
    · exact ih hrest hfrest hgrest

/-- In a form without a name of two fields, each name leads to its field. -/
theorem field?_eq_some_iff (hdistinct : form.Distinct) {name : String} {f : Field} :
    form.field? name = some f ↔ f ∈ form.fields ∧ name ∈ f.names := by
  have hmatch : ∀ g : Field, (g.name = name || g.otherName = some name) = true ↔
      name ∈ g.names := by
    intro g
    rw [Bool.or_eq_true, decide_eq_true_eq, decide_eq_true_eq, Field.names, List.mem_cons,
      Option.mem_toList]
    exact or_congr eq_comm Iff.rfl
  constructor
  · intro h
    have hname := List.find?_some h
    exact ⟨List.mem_of_find?_eq_some h, (hmatch f).mp hname⟩
  · rintro ⟨hf, hname⟩
    cases hfound : form.field? name with
    | none => exact absurd ((hmatch f).mpr hname) (List.find?_eq_none.mp hfound f hf)
    | some g =>
      have hgname := List.find?_some hfound
      rw [eq_of_mem_names hdistinct hf (List.mem_of_find?_eq_some hfound) hname
        ((hmatch g).mp hgname)]

/-- The members stand for different fields. -/
def Apart (form : Form α) (a b : String × Json) : Prop :=
  ∀ f g, form.field? a.1 = some f → form.field? b.1 = some g → f.name ≠ g.name

instance (form : Form α) : Std.Symm form.Apart where
  symm _ _ h f g hf hg := (h g f hg hf).symm

theorem nodup_known_iff :
    ((form.known members).map Prod.fst).Nodup ↔ members.Pairwise form.Apart := by
  unfold known
  rw [List.map_filterMap, List.Nodup, List.pairwise_filterMap]
  refine ⟨fun h => h.imp ?_, fun h => h.imp ?_⟩
  · intro a b hab f g hf hg
    exact hab f.name (by simp [hf]) g.name (by simp [hg])
  · intro a b hab x hx y hy
    obtain ⟨f, hf, rfl⟩ : ∃ f, form.field? a.1 = some f ∧ f.name = x := by simpa using hx
    obtain ⟨g, hg, rfl⟩ : ∃ g, form.field? b.1 = some g ∧ g.name = y := by simpa using hy
    exact hab f g hf hg

theorem mem_known_iff (hdistinct : form.Distinct)
    (hmembers : members.Pairwise fun a b => a.1 < b.1) {p : String × Json} :
    p ∈ form.known members ↔ ∃ f ∈ form.fields, f.name = p.1 ∧
      ∃ name ∈ f.names, members.lookup name = some p.2 := by
  simp only [known, List.mem_filterMap, Option.map_eq_some_iff, field?_eq_some_iff hdistinct,
    lookup_eq_some_iff_mem hmembers]
  constructor
  · rintro ⟨⟨name, v⟩, hm, f, ⟨hf, hname⟩, rfl⟩
    exact ⟨f, hf, rfl, name, hname, hm⟩
  · obtain ⟨_, v⟩ := p
    rintro ⟨f, hf, rfl, name, hname, hm⟩
    exact ⟨(name, v), hm, f, ⟨hf, hname⟩, rfl⟩

/-- If a field is not there under both names, the names under which it is there are one. -/
theorem eq_of_once {f : Field} (honce : ∀ other, f.otherName = some other →
      (members.lookup f.name).isSome → members.lookup other = none)
    {name name' : String} (hname : name ∈ f.names) (hname' : name' ∈ f.names)
    (hsome : (members.lookup name).isSome) (hsome' : (members.lookup name').isSome) :
    name = name' := by
  have hnot : ∀ other ∈ f.otherName.toList, (members.lookup f.name).isSome →
      ¬ (members.lookup other).isSome := by
    intro other hother hfirst
    simp [honce other (Option.mem_toList.mp hother) hfirst]
  rcases List.mem_cons.mp hname with rfl | hother <;>
    rcases List.mem_cons.mp hname' with rfl | hother'
  · rfl
  · exact absurd hsome' (hnot name' hother' hsome)
  · exact absurd hsome (hnot name hother hsome')
  · exact Option.some.inj
      ((Option.mem_toList.mp hother).symm.trans (Option.mem_toList.mp hother'))

/-- Two members stand for one field only if that has two names. -/
theorem pairwise_apart_iff (hdistinct : form.Distinct)
    (hmembers : members.Pairwise fun a b => a.1 < b.1) :
    members.Pairwise form.Apart ↔ ∀ f ∈ form.fields, ∀ other, f.otherName = some other →
      (members.lookup f.name).isSome → members.lookup other = none := by
  constructor
  · intro hapart f hf other hother hsome
    obtain ⟨v, hv⟩ := Option.isSome_iff_exists.mp hsome
    rw [Option.eq_none_iff_forall_not_mem]
    intro w hw
    have hnames := (List.nodup_flatMap.mp hdistinct).1 f hf
    have hne : ((f.name, v) : String × Json) ≠ (other, w) := by
      intro heq
      simp [Field.names, hother, (Prod.mk.inj heq).1] at hnames
    refine hapart.forall (mem_of_lookup hv) (mem_of_lookup hw) hne f f ?_ ?_ rfl
    · exact (field?_eq_some_iff hdistinct).mpr ⟨hf, by simp [Field.names]⟩
    · exact (field?_eq_some_iff hdistinct).mpr ⟨hf, by simp [Field.names, hother]⟩
  · intro honce
    refine hmembers.imp_of_mem fun {a b} ha hb hlt f g hf hg heq => ?_
    rw [field?_eq_some_iff hdistinct] at hf hg
    have hfirst : f.name ∈ f.names := List.mem_cons_self
    obtain rfl := eq_of_mem_names hdistinct hf.1 hg.1 hfirst (heq ▸ List.mem_cons_self)
    have hlookup : ∀ m ∈ members, (members.lookup m.1).isSome := fun m hm => by
      rw [(lookup_eq_some_iff_mem hmembers).mpr hm]
      rfl
    have hsame := eq_of_once (honce f hf.1) hf.2 hg.2 (hlookup a ha) (hlookup b hb)
    exact String.lt_irrefl _ (hsame ▸ hlt)

/-- **When an object is read**: when its members fit every field. -/
theorem reads_object_iff (hsteady : form.Steady) (hdistinct : form.Distinct)
    (hmembers : members.Pairwise fun a b => a.1 < b.1) :
    Decoder.Reads form.decode (.object members) ↔ ∀ f ∈ form.fields, form.Fits members f := by
  rw [reads_object_iff_known hsteady, nodup_known_iff, pairwise_apart_iff hdistinct hmembers]
  have hknown := fun p => @mem_known_iff _ form members hdistinct hmembers p
  constructor
  · rintro ⟨hreads, honce, hthere⟩ f hf
    refine ⟨fun name hname v hv => ?_, honce f hf, fun hneeded => ?_⟩
    · exact hreads (f.name, v) ((hknown _).mpr ⟨f, hf, rfl, name, hname, hv⟩)
    · obtain ⟨p, hp, hpname⟩ := List.mem_map.mp (hthere f hf hneeded)
      obtain ⟨g, hg, hgname, name, hname, hv⟩ := (hknown p).mp hp
      have hfg : f = g := eq_of_mem_names hdistinct hf hg List.mem_cons_self
        (by rw [← hpname, ← hgname]; exact List.mem_cons_self)
      exact ⟨name, hfg ▸ hname, by rw [hv]; rfl⟩
  · intro hfits
    refine ⟨fun p hp => ?_, fun f hf => (hfits f hf).once, fun f hf hneeded => ?_⟩
    · obtain ⟨f, hf, hname, name, hmem, hv⟩ := (hknown p).mp hp
      rw [← hname]
      exact (hfits f hf).readable name hmem p.2 hv
    · obtain ⟨name, hname, hsome⟩ := (hfits f hf).there hneeded
      obtain ⟨v, hv⟩ := Option.isSome_iff_exists.mp hsome
      exact List.mem_map.mpr ⟨(f.name, v), (hknown _).mpr ⟨f, hf, rfl, name, hname, hv⟩, rfl⟩

end Form

/-! ## Section 4 — shapes

A shape and a value of its type have one equation each, which holds by definition. The lemmas below
open the shape that they are about through it; a value of another type is always a complaint. -/

namespace Shape

variable {v : Json} {item first : Shape} {least : Nat}

theorem number_number {above : Option Int} {n : Number} :
    (number above).violations (.number n) = exclusiveMinimum above n := rfl

theorem integer_number {low high : Option Int} {n : Number} :
    (integer low high).violations (.number n) = maximum high n ++ minimum low n ++
      (if n.isIntegral then [] else [notOfType (.number n) "integer"]) := rfl

theorem listOf_array {items : List Json} :
    (listOf least item).violations (.array items) =
      items.flatMap item.violations ++ tooFew least items := rfl

theorem listFrom_array {items : List Json} :
    (listFrom least first).violations (.array items) =
      tooFew least items ++ (items.take 1).flatMap first.violations := rfl

theorem record_object {required oneOf : List String} {fields : List (String × Shape)}
    {members : List (String × Json)} :
    (record required oneOf fields).violations (.object members) =
      noneOf oneOf members ++ fieldViolations fields members ++ missing required members := rfl

theorem fieldViolations_cons {name : String} {shape : Shape} {rest : List (String × Shape)}
    {members : List (String × Json)} :
    fieldViolations ((name, shape) :: rest) members =
      (match members.lookup name with
        | some w => shape.violations w
        | none => []) ++ fieldViolations rest members := rfl

theorem violations_text : text.violations v = [] ↔ ∃ s, v = .string s := by
  cases v with
  | string s => exact iff_of_true rfl ⟨s, rfl⟩
  | _ => exact iff_of_false (List.cons_ne_nil _ _) (by simp)

theorem exclusiveMinimum_eq_nil_iff {above : Option Int} {n : Number} :
    exclusiveMinimum above n = [] ↔ ∀ bound, above = some bound → isBeyond n bound = true := by
  cases above <;> simp [exclusiveMinimum]

theorem violations_number {above : Option Int} : (number above).violations v = [] ↔
    ∃ n, v = .number n ∧ ∀ bound, above = some bound → isBeyond n bound = true := by
  cases v with
  | number n =>
    rw [number_number, exclusiveMinimum_eq_nil_iff]
    simp
  | _ => exact iff_of_false (List.cons_ne_nil _ _) (by simp)

theorem minimum_eq_nil_iff {low : Option Int} {n : Number} : minimum low n = [] ↔
    ∀ bound, low = some bound → isBelow n bound = false := by
  cases low <;> simp [minimum]

theorem maximum_eq_nil_iff {high : Option Int} {n : Number} : maximum high n = [] ↔
    ∀ bound, high = some bound → isBeyond n bound = false := by
  cases high <;> simp [maximum]

/-- A number without a fraction between the bounds. -/
theorem violations_integer {low high : Option Int} : (integer low high).violations v = [] ↔
    ∃ n, v = .number n ∧ n.isIntegral = true ∧
      (∀ bound, low = some bound → isBelow n bound = false) ∧
      ∀ bound, high = some bound → isBeyond n bound = false := by
  cases v with
  | number n =>
    rw [integer_number, List.append_eq_nil_iff, List.append_eq_nil_iff, minimum_eq_nil_iff,
      maximum_eq_nil_iff]
    constructor
    · rintro ⟨⟨hhigh, hlow⟩, hwhole⟩
      exact ⟨n, rfl, by simpa using hwhole, hlow, hhigh⟩
    · rintro ⟨_, ⟨⟩, hwhole, hlow, hhigh⟩
      exact ⟨⟨hhigh, hlow⟩, if_pos hwhole⟩
  | _ => exact iff_of_false (List.cons_ne_nil _ _) (by simp)

/-- With a bound below, what is left is how the number is written and that it is not too great. -/
theorem isUint32_iff {low : Int} {high : Option Int} (hlow : 0 ≤ low)
    (h : (integer (some low) high).violations v = []) :
    v.IsUint32 ↔ ∃ n : Int, v = .number (.whole n) ∧ n ≤ 0xffffffff := by
  obtain ⟨n, rfl, _, hleast, _⟩ := violations_integer.1 h
  constructor
  · rintro ⟨k, hk, _, hgreatest⟩
    exact ⟨k, hk, hgreatest⟩
  · rintro ⟨k, hk, hgreatest⟩
    cases hk
    have hnot : low ≤ k := by simpa [isBelow] using hleast low rfl
    exact ⟨k, rfl, Int.le_trans hlow hnot, hgreatest⟩

/-- Between the bounds of 32 bits, what is left is how the number is written. -/
theorem isUint32_iff_whole {v : Json}
    (h : (integer (some 0) (some 0xffffffff)).violations v = []) :
    v.IsUint32 ↔ ∃ n : Int, v = .number (.whole n) := by
  obtain ⟨n, rfl, _, _, hgreatest⟩ := violations_integer.1 h
  rw [isUint32_iff (Int.le_refl 0) h]
  refine exists_congr fun k => and_iff_left_of_imp fun hk => ?_
  cases hk
  simpa [isBeyond] using hgreatest 0xffffffff rfl

theorem tooFew_eq_nil_iff {items : List Json} : tooFew least items = [] ↔ least ≤ items.length := by
  simp [tooFew]

theorem violations_listOf : (listOf least item).violations v = [] ↔
    ∃ items, v = .array items ∧ least ≤ items.length ∧ ∀ i ∈ items, item.violations i = [] := by
  cases v with
  | array items =>
    rw [listOf_array, List.append_eq_nil_iff, tooFew_eq_nil_iff, List.flatMap_eq_nil_iff, and_comm]
    simp
  | _ => exact iff_of_false (List.cons_ne_nil _ _) (by simp)

theorem violations_listFrom : (listFrom least first).violations v = [] ↔
    ∃ items, v = .array items ∧ least ≤ items.length ∧
      ∀ i ∈ items.take 1, first.violations i = [] := by
  cases v with
  | array items =>
    rw [listFrom_array, List.append_eq_nil_iff, tooFew_eq_nil_iff, List.flatMap_eq_nil_iff]
    simp
  | _ => exact iff_of_false (List.cons_ne_nil _ _) (by simp)

theorem missing_eq_nil_iff {required : List String} {members : List (String × Json)} :
    missing required members = [] ↔ ∀ name ∈ required, (members.lookup name).isSome := by
  simp [missing, Option.isSome_iff_ne_none]

theorem noneOf_eq_nil_iff {oneOf : List String} {members : List (String × Json)} :
    noneOf oneOf members = [] ↔
      (oneOf ≠ [] → ∃ name ∈ oneOf, (members.lookup name).isSome) := by
  rw [noneOf, ite_eq_left_iff]
  simp only [Bool.or_eq_true, List.isEmpty_iff, List.any_eq_true, imp_false, not_not,
    List.cons_ne_nil]
  exact or_iff_not_imp_left

theorem fieldViolations_eq_nil_iff {fields : List (String × Shape)}
    {members : List (String × Json)} : fieldViolations fields members = [] ↔
      ∀ p ∈ fields, ∀ w, members.lookup p.1 = some w → p.2.violations w = [] := by
  induction fields with
  | nil => exact iff_of_true rfl fun p hp => absurd hp List.not_mem_nil
  | cons p rest ih =>
    obtain ⟨name, shape⟩ := p
    rw [fieldViolations_cons, List.append_eq_nil_iff, ih, List.forall_mem_cons]
    cases members.lookup name <;> simp

/-- An object with the required members, one of the others, and members of their shapes. -/
theorem violations_record {required oneOf : List String} {fields : List (String × Shape)} :
    (record required oneOf fields).violations v = [] ↔ ∃ members, v = .object members ∧
      (∀ name ∈ required, (members.lookup name).isSome) ∧
      (oneOf ≠ [] → ∃ name ∈ oneOf, (members.lookup name).isSome) ∧
      ∀ p ∈ fields, ∀ w, members.lookup p.1 = some w → p.2.violations w = [] := by
  cases v with
  | object members =>
    rw [record_object, List.append_eq_nil_iff, List.append_eq_nil_iff, fieldViolations_eq_nil_iff,
      missing_eq_nil_iff, noneOf_eq_nil_iff]
    constructor
    · rintro ⟨⟨honeOf, hfields⟩, hrequired⟩
      exact ⟨members, rfl, hrequired, honeOf, hfields⟩
    · rintro ⟨_, ⟨⟩, hrequired, honeOf, hfields⟩
      exact ⟨⟨honeOf, hfields⟩, hrequired⟩
  | _ => exact iff_of_false (List.cons_ne_nil _ _) (by simp)

end Shape

/-! ## Section 5 — a form beside a shape -/

section
variable {α : Type} {form : Form α} {v : Json} {required oneOf : List String}
  {fields : List (String × Shape)}

/-- A member of an object of a shape has the shape of its name. -/
theorem Shape.violations_member (hshape : (record required oneOf fields).violations v = [])
    {name : String} {shape : Shape} (hname : fields.lookup name = some shape) {w : Json}
    (hw : v.member? name = some w) : shape.violations w = [] := by
  obtain ⟨members, rfl, _, _, hfields⟩ := violations_record.1 hshape
  exact hfields (name, shape) (mem_of_lookup hname) w hw

/-- What the form needs, the shape requires. -/
def Form.AsksNoMore (form : Form α) (required oneOf : List String) : Prop :=
  ∀ f ∈ form.fields, f.optional = false →
    (∃ name ∈ f.names, name ∈ required) ∨ oneOf ≠ [] ∧ ∀ name ∈ oneOf, name ∈ f.names

instance (form : Form α) : Decidable (form.AsksNoMore required oneOf) :=
  inferInstanceAs (Decidable (∀ f ∈ form.fields, _))

/-- What is left to ask of an object once it has a shape that requires what the form needs. -/
theorem Form.reads_iff_of_shape (hsteady : form.Steady) (hdistinct : form.Distinct)
    (hasks : form.AsksNoMore required oneOf) (hordered : v.Ordered)
    (hshape : (Shape.record required oneOf fields).violations v = []) :
    Decoder.Reads form.decode v ↔ ∀ f ∈ form.fields,
      (∀ name ∈ f.names, ∀ w, v.member? name = some w → form.ReadsField f.name w) ∧
        ∀ other, f.otherName = some other → (v.member? f.name).isSome →
          v.member? other = none := by
  obtain ⟨members, rfl, hrequired, honeOf, _⟩ := Shape.violations_record.1 hshape
  obtain ⟨hmembers, _⟩ : members.Pairwise (fun a b => a.1 < b.1) ∧ _ := by
    cases hordered with | object hmembers hvalues => exact ⟨hmembers, hvalues⟩
  rw [reads_object_iff hsteady hdistinct hmembers]
  refine forall₂_congr fun f hf => ⟨fun h => ⟨h.readable, h.once⟩, fun h => ⟨h.1, h.2, ?_⟩⟩
  intro hneeded
  rcases hasks f hf hneeded with ⟨name, hname, hreq⟩ | ⟨hone, hnames⟩
  · exact ⟨name, hname, hrequired name hreq⟩
  · obtain ⟨name, hname, hsome⟩ := honeOf hone
    exact ⟨name, hnames name hname, hsome⟩

end

end CipherBoard.Json
