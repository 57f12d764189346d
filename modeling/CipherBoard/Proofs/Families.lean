/-
CipherBoard.Proofs.Families — the families of a board are the union of those of its class names.

Seven rules are tried on a class name, and more than one of them may fit: the name
`apply_polygraphic_atbash` speaks of two families, and `apply_sub_undotted` speaks of one and ends
like another. Only the first rule that fits counts. It looks at one name alone, so what a list of
names comes to is a union, in which neither the order of the names nor their number matters.

* `Family.Fits` — what the rule of a family asks of a name, said of the text; `Family.tried` is the
  order of the rules, and `Family.Owns` says that a rule is the first that fits.
  `Family.ofClass?_eq_some_iff` is that the classifier finds exactly this family.
* `Families.has_record` — one name adds the family that owns it, and nothing else.
  `Families.has_foldl_record` is the same of a list of names, by induction over the list.
* `Layout.families_of_build` — the families of a board, read off the placements.
* `families_united` — these together, with what they mean for two boards; `sameNames_united` is
  about two lines of the same names, in other orders and numbers.
-/
import CipherBoard.Proofs.Board
import CipherBoard.Proofs.Occurrence

namespace CipherBoard

/-! ## Section 1 — parts of a name -/

/-- The name has the part somewhere in it. -/
def Speaks (name part : String) : Prop :=
  ∃ before after : String, name = before ++ part ++ after

/-- The name ends with the part. -/
def EndsIn (name part : String) : Prop :=
  ∃ start : String, name = start ++ part

theorem nameHas_iff {name part : String} : nameHas name part = true ↔ Speaks name part := by
  unfold nameHas Speaks
  rw [occursIn_iff]
  constructor
  · rintro ⟨before, after, h⟩
    refine ⟨.ofList before, .ofList after, String.toList_inj.mp ?_⟩
    simp only [String.toList_append, String.toList_ofList, h]
  · rintro ⟨before, after, rfl⟩
    exact ⟨before.toList, after.toList, by simp only [String.toList_append]⟩

theorem nameEnds_iff {name part : String} : nameEnds name part = true ↔ EndsIn name part := by
  unfold nameEnds EndsIn
  rw [List.isSuffixOf_iff_suffix]
  constructor
  · rintro ⟨start, h⟩
    refine ⟨.ofList start, String.toList_inj.mp ?_⟩
    rw [String.toList_append, String.toList_ofList, h]
  · rintro ⟨start, rfl⟩
    exact ⟨start.toList, by rw [String.toList_append]⟩

instance (name part : String) : Decidable (Speaks name part) :=
  decidable_of_iff _ nameHas_iff

instance (name part : String) : Decidable (EndsIn name part) :=
  decidable_of_iff _ nameEnds_iff

/-! ## Section 2 — the rules -/

/-- Looking for the first item with a property, item by item. -/
theorem find?_cons_decide {α : Type} (p : α → Prop) [DecidablePred p] (x : α) (rest : List α) :
    (x :: rest).find? (fun y => decide (p y)) =
      if p x then some x else rest.find? fun y => decide (p y) := by
  rw [List.find?_cons]
  split <;> simp_all

namespace Family

/-- How the names of transforms end that act on some letters only. -/
def conditionalEndings : List String :=
  ["_dotted", "_undotted", "_even", "_odd"]

/-- What the rule of a family asks of a class name. -/
def Fits (name : String) : Family → Prop
  | conditional => ∃ ending ∈ conditionalEndings, EndsIn name ending
  | polygraphic => Speaks name "polygraphic"
  | atbash => Speaks name "atbash"
  | rot13 => Speaks name "rot13"
  | increment => Speaks name "add" ∨ Speaks name "sub"
  | shift => Speaks name "rotate" ∨ Speaks name "reverse"
  | negation => Speaks name "ifnot" ∨ Speaks name "inv_repeater"

instance (name : String) : (f : Family) → Decidable (f.Fits name)
  | conditional => inferInstanceAs (Decidable (∃ ending ∈ conditionalEndings, EndsIn name ending))
  | polygraphic => inferInstanceAs (Decidable (Speaks name "polygraphic"))
  | atbash => inferInstanceAs (Decidable (Speaks name "atbash"))
  | rot13 => inferInstanceAs (Decidable (Speaks name "rot13"))
  | increment => inferInstanceAs (Decidable (Speaks name "add" ∨ Speaks name "sub"))
  | shift => inferInstanceAs (Decidable (Speaks name "rotate" ∨ Speaks name "reverse"))
  | negation => inferInstanceAs (Decidable (Speaks name "ifnot" ∨ Speaks name "inv_repeater"))

/-- The families in the order in which their rules are tried. -/
def tried : List Family :=
  [conditional, polygraphic, atbash, rot13, increment, shift, negation]

/-- A name belongs to a family if its rule fits, and none that is tried before it. -/
def Owns (f : Family) (name : String) : Prop :=
  f.Fits name ∧ ∃ before after, tried = before ++ f :: after ∧ ∀ g ∈ before, ¬ g.Fits name

/-- The classifier goes through the rules in their order. -/
theorem ofClass?_eq_find? (name : String) :
    ofClass? name = tried.find? fun f => decide (f.Fits name) := by
  have hends : ["_dotted", "_undotted", "_even", "_odd"].any (nameEnds name) = true ↔
      conditional.Fits name := by
    simp only [List.any_eq_true, nameEnds_iff, Fits, conditionalEndings]
  have heither (part part' : String) : (nameHas name part || nameHas name part') = true ↔
      Speaks name part ∨ Speaks name part' := by
    rw [Bool.or_eq_true, nameHas_iff, nameHas_iff]
  unfold tried
  simp only [find?_cons_decide, List.find?_nil]
  -- Both sides now ask the same seven questions in turn.
  exact if_congr hends rfl <| if_congr nameHas_iff rfl <| if_congr nameHas_iff rfl <|
    if_congr nameHas_iff rfl <| if_congr (heither _ _) rfl <| if_congr (heither _ _) rfl <|
    if_congr (heither _ _) rfl rfl

/-- **The classifier finds the family that owns a name**, if there is one. -/
theorem ofClass?_eq_some_iff {name : String} {f : Family} :
    ofClass? name = some f ↔ f.Owns name := by
  rw [ofClass?_eq_find?, List.find?_eq_some_iff_append]
  simp only [decide_eq_true_eq, Bool.not_eq_true', decide_eq_false_iff_not, Owns]

/-- Two rules fit this name; it belongs to the family that is tried first. -/
example : Family.polygraphic.Fits "apply_polygraphic_atbash" ∧
    Family.atbash.Fits "apply_polygraphic_atbash" ∧
    Family.ofClass? "apply_polygraphic_atbash" = some .polygraphic := by decide +kernel

/-- No name belongs to two families. -/
theorem Owns.unique {name : String} {f g : Family} (hf : f.Owns name) (hg : g.Owns name) :
    f = g := by
  rw [← ofClass?_eq_some_iff] at hf hg
  exact Option.some.inj (hf.symm.trans hg)

/-- The endings are tried first, so whatever else the name speaks of makes no difference. -/
theorem owns_iff_of_endsIn {name ending : String} (hmem : ending ∈ conditionalEndings)
    (h : EndsIn name ending) {f : Family} : f.Owns name ↔ f = conditional := by
  have hfirst : conditional.Owns name :=
    ⟨⟨ending, hmem, h⟩, [], _, rfl, fun g hg => absurd hg List.not_mem_nil⟩
  constructor
  · intro hf
    exact hf.unique hfirst
  · rintro rfl
    exact hfirst

end Family

/-! ## Section 3 — recording -/

namespace Families

variable {s t : Families} {f : Family} {name : String}

/-- Sets that hold the same families are the same. -/
theorem ext_has (h : ∀ f, s.has f = t.has f) : s = t := by
  cases s
  cases t
  rw [mk.injEq]
  exact ⟨h .atbash, h .rot13, h .increment, h .shift, h .negation, h .conditional, h .polygraphic⟩

theorem has_empty (f : Family) : empty.has f = false := by
  cases f <;> rfl

theorem has_insert {g : Family} : (s.insert f).has g = true ↔ s.has g = true ∨ g = f := by
  cases f <;> cases g <;> simp [insert, has]

/-- **Recording a name** adds the family that owns it, and nothing else. -/
theorem has_record : (s.record name).has f = true ↔ s.has f = true ∨ f.Owns name := by
  rw [← Family.ofClass?_eq_some_iff]
  unfold record
  cases Family.ofClass? name with
  | none => simp
  | some g => rw [has_insert, Option.some.injEq, eq_comm (a := f)]

/-- What a name recorded alone sets. -/
theorem has_record_empty : (empty.record name).has f = true ↔ f.Owns name := by
  rw [has_record, has_empty, or_iff_right Bool.false_ne_true]

theorem record_record (s : Families) (name : String) :
    (s.record name).record name = s.record name := by
  refine ext_has fun f => Bool.eq_iff_iff.mpr ?_
  rw [has_record, has_record, or_assoc, or_self]

/-- A name with one of the four endings adds the conditional family, whatever it speaks of. -/
theorem record_of_endsIn {ending : String} (hmem : ending ∈ Family.conditionalEndings)
    (h : EndsIn name ending) (s : Families) : s.record name = s.insert .conditional := by
  refine ext_has fun f => Bool.eq_iff_iff.mpr ?_
  rw [has_record, has_insert, Family.owns_iff_of_endsIn hmem h]

/-- Recording a name leaves all families but one as they were. -/
theorem exists_has_record_eq (s : Families) (name : String) :
    ∃ f, ∀ g, g ≠ f → (s.record name).has g = s.has g := by
  by_cases howned : ∃ f : Family, f.Owns name
  · obtain ⟨f, hf⟩ := howned
    refine ⟨f, fun g hne => Bool.eq_iff_iff.mpr ?_⟩
    rw [has_record, or_iff_left fun hg => hne (hg.unique hf)]
  · refine ⟨.conditional, fun g _ => Bool.eq_iff_iff.mpr ?_⟩
    rw [has_record, or_iff_left fun hg => howned ⟨g, hg⟩]

/-- **Recording a list of names** adds the families that own one of them. -/
theorem has_foldl_record {names : List String} :
    (names.foldl record s).has f = true ↔ s.has f = true ∨ ∃ n ∈ names, f.Owns n := by
  -- The set that the rest is recorded into holds the first name's family already.
  induction names generalizing s with
  | nil => simp
  | cons n rest ih =>
    rw [List.foldl_cons, ih, has_record, or_assoc]
    simp only [List.mem_cons, exists_eq_or_imp]

theorem has_ofClasses {names : List String} :
    (ofClasses names).has f = true ↔ ∃ n ∈ names, f.Owns n := by
  rw [ofClasses, has_foldl_record, has_empty, or_iff_right Bool.false_ne_true]

/-- Lists with the same names have the same families, whatever their order and how often a name
occurs. -/
theorem ofClasses_congr {names names' : List String} (h : ∀ n, n ∈ names ↔ n ∈ names') :
    ofClasses names = ofClasses names' := by
  refine ext_has fun f => Bool.eq_iff_iff.mpr ?_
  rw [has_ofClasses, has_ofClasses]
  simp only [h]

end Families

/-! ## Section 4 — boards -/

/-- The class names of the pieces of a layout. -/
def Layout.classNames (l : Layout) : List String :=
  l.placements.map (·.className)

/-- A survey keeps the names of the placements. -/
theorem Layout.map_className_of_survey {l : Layout} {origin : Point} {v : Survey}
    (h : l.survey origin = .ok v) : v.sites.map (·.className) = l.classNames := by
  obtain ⟨f, _, hlies, _⟩ := Layout.survey_eq_ok_iff.mp h
  rw [Layout.classNames, eq_comm, ← List.forall₂_eq_eq_eq, List.forall₂_map_left_iff,
    List.forall₂_map_right_iff]
  exact hlies.imp fun _ _ hs => hs.className.symm

/-- The families of a board are those of the names in its layout. -/
theorem Layout.families_of_build {l : Layout} {origin : Point} {limit : Nat} {b : Board}
    (h : l.build origin limit = .ok b) : b.families = Families.ofClasses l.classNames := by
  obtain ⟨c, encoded, hc, _, rfl⟩ := Layout.build_eq_ok_iff.mp h
  obtain ⟨v, w, hv, _, rfl⟩ := Layout.wire_eq_ok_iff.mp hc
  rw [← Layout.map_className_of_survey hv]
  rfl

/-- **The families of names are a union.** A list of names has the families that its names have
alone, and a name alone has the family that owns it: the one whose rule is the first that fits.
Hence the families of a board are those of its pieces, and two boards with the same class names
have the same families, whatever the order of the pieces and how often a name occurs. Recording a
name again changes nothing; recording a name takes no family away, and adds one at most. A name with
one of the four endings adds the conditional family only, whatever it speaks of before the ending. -/
theorem families_united :
    (∀ (names : List String) (f : Family), (Families.ofClasses names).has f = true ↔
      ∃ n ∈ names, (Families.empty.record n).has f = true) ∧
    (∀ (name : String) (f : Family), (Families.empty.record name).has f = true ↔ f.Owns name) ∧
    (∀ (l : Layout) (origin : Point) (limit : Nat) (b : Board), l.build origin limit = .ok b →
      (∀ f, b.families.has f = true ↔
        ∃ p ∈ l.placements, (Families.empty.record p.className).has f = true) ∧
      ∀ (l' : Layout) (origin' : Point) (limit' : Nat) (b' : Board),
        l'.build origin' limit' = .ok b' → (∀ n, n ∈ l'.classNames ↔ n ∈ l.classNames) →
        b'.families = b.families) ∧
    (∀ (s : Families) (name : String), (s.record name).record name = s.record name ∧
      (∀ f, s.has f = true → (s.record name).has f = true) ∧
      ∃ f, ∀ g, g ≠ f → (s.record name).has g = s.has g) ∧
    ∀ ending ∈ ["_dotted", "_undotted", "_even", "_odd"], ∀ (s : Families) (start : String),
      (∀ f, (s.record (start ++ ending)).has f = true ↔ s.has f = true ∨ f = .conditional) ∧
      (Families.empty.record (start ++ ending)).tags = ["has_cond_transform"] := by
  refine ⟨fun names f => ?_, fun name f => Families.has_record_empty,
    fun l origin limit b hb => ⟨fun f => ?_, fun l' origin' limit' b' hb' hnames => ?_⟩,
    fun s name => ⟨s.record_record name, fun f hf => Families.has_record.mpr (Or.inl hf),
      s.exists_has_record_eq name⟩, fun ending hmem s start => ?_⟩
  · simp only [Families.has_ofClasses, Families.has_record_empty]
  · rw [Layout.families_of_build hb, Families.has_ofClasses, Layout.classNames]
    simp only [List.mem_map, exists_exists_and_eq_and, Families.has_record_empty]
  · rw [Layout.families_of_build hb, Layout.families_of_build hb',
      Families.ofClasses_congr hnames]
  · have hends : EndsIn (start ++ ending) ending := ⟨start, rfl⟩
    rw [Families.record_of_endsIn hmem hends s, Families.record_of_endsIn hmem hends Families.empty]
    exact ⟨fun f => Families.has_insert, rfl⟩

/-- A line with three names that belong to a family. A later rule fits two of them as well: one
speaks of the reversed alphabet, too, and one of letters moved back. -/
def mixedLine : Layout :=
  .onCells
    [.onCell "elem_input" 0 0, .onCell "pipe" 1 0, .onCell "apply_polygraphic_atbash" 2 0,
     .onCell "pipe" 3 0, .onCell "apply_sub_undotted" 4 0, .onCell "pipe" 5 0,
     .onCell "pipe_rot13" 6 0, .onCell "pipe" 7 0, .onCell "elem_output" 8 0]
    ["abc"]

/-- The same names in another order, one of them twice. -/
def turnedLine : Layout :=
  .onCells
    [.onCell "elem_output" 10 3, .onCell "pipe" 9 3, .onCell "apply_sub_undotted" 8 3,
     .onCell "pipe" 7 3, .onCell "apply_polygraphic_atbash" 6 3, .onCell "pipe" 5 3,
     .onCell "pipe_rot13" 4 3, .onCell "pipe" 3 3, .onCell "apply_sub_undotted" 2 3,
     .onCell "pipe" 1 3, .onCell "elem_input" 0 3]
    []

theorem turnedLine_classNames (n : String) :
    n ∈ turnedLine.classNames ↔ n ∈ mixedLine.classNames := by
  have hsub : turnedLine.classNames ⊆ mixedLine.classNames ∧
      mixedLine.classNames ⊆ turnedLine.classNames := by decide +kernel
  exact ⟨fun h => hsub.1 h, fun h => hsub.2 h⟩

/-- Two lines of the same names have the same three families. That one name speaks of the reversed
alphabet, and another of letters moved back, does not count: an earlier rule fits each of them. -/
theorem sameNames_united :
    ∃ b b', mixedLine.build .zero 100 = .ok b ∧ turnedLine.build .zero 0 = .ok b' ∧
      b'.families = b.families ∧
      b.families.tags = ["has_rot13", "has_cond_transform", "has_polygraphic"] ∧
      (b.families.record "pipe_ifnot").has .polygraphic = true ∧
      (Families.empty.record ("apply_sub" ++ "_undotted")).tags = ["has_cond_transform"] := by
  obtain ⟨_, _, hboards, hrecord, hendings⟩ := families_united
  obtain ⟨b, hb, hshape⟩ := exists_ok_of_any
    (show (mixedLine.build .zero 100).toOption.any (fun b =>
      b.families.tags == ["has_rot13", "has_cond_transform", "has_polygraphic"] &&
        b.families.has .polygraphic) = true by decide +kernel)
  obtain ⟨b', hb', _⟩ := exists_ok_of_any
    (show (turnedLine.build .zero 0).toOption.any (fun _ => true) = true by decide +kernel)
  rw [Bool.and_eq_true, beq_iff_eq] at hshape
  obtain ⟨htags, hpolygraphic⟩ := hshape
  exact ⟨b, b', hb, hb',
    (hboards mixedLine .zero 100 b hb).2 turnedLine .zero 0 b' hb' turnedLine_classNames, htags,
    (hrecord b.families "pipe_ifnot").2.1 .polygraphic hpolygraphic,
    (hendings "_undotted" (by decide) Families.empty "apply_sub").2⟩

end CipherBoard
