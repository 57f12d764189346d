/-
CipherBoard.Proofs.Conditions — the conditions that a level writes are those that its board tests.

A condition is written under the name of its kind, read into something that can be evaluated, and
named again in reports. Reading and naming are two tables of their own, and between them a piece
passes through the survey and the wiring.

* `Condition.kinds`, `ConditionSpec.Readable` — the kinds that a level can write, and what else a
  condition needs; `exists_ofSpec_iff` says that these are the conditions that can be read, and
  `kindName_of_ofSpec` that what is read has the kind that was written.
* `Behaviour.condition?` — the condition that a behaviour tests; `Site.Lies.condition?_of_isTest`
  follows it from a placement to its site.
* `writes_of_lies` — the kinds that sites test are those that their placements write, by induction
  over the placements.
* `conditions_kept` — what this means for building.
-/
import CipherBoard.Proofs.Provisions

namespace CipherBoard

/-! ## Section 1 — reading and naming -/

/-- Only the empty text spells the empty word. -/
theorem Word.ofText_eq_nil_iff {text : String} : Word.ofText text = [] ↔ text = "" := by
  rw [Word.ofText, List.flatMap_eq_nil_iff]
  refine ⟨fun h => ?_, fun h => ?_⟩
  · by_contra hne
    obtain ⟨c, rest, hcs⟩ := List.exists_cons_of_ne_nil (mt String.toList_eq_nil_iff.mp hne)
    have hnil := h c (by rw [hcs]; exact List.mem_cons_self)
    have hlength := congrArg List.length hnil
    rw [String.length_utf8EncodeChar, List.length_nil] at hlength
    exact absurd hlength (Nat.ne_of_gt c.utf8Size_pos)
  · subst h
    simp

/-- The kinds of conditions that a level can write. -/
def Condition.kinds : List String :=
  ["anagram", "eq", "substr_count", "contains_letter", "contains_substr", "has_prefix",
   "has_suffix", "last_gt", "len_even", "fnv_even", "len_eq", "len_lt", "len_gt", "unchanged",
   "fixed_cond"]

/-- A condition of a known kind. The kind that compares with a letter needs one. -/
structure ConditionSpec.Readable (spec : ConditionSpec) : Prop where
  known : spec.kind ∈ Condition.kinds
  letter : spec.kind = "last_gt" → spec.text ≠ ""

namespace Condition

variable {spec : ConditionSpec} {c : Condition}

theorem ofSpec_unknown (h : spec.kind ∉ kinds) : ofSpec spec = .error (.unknownKind spec.kind) := by
  simp only [kinds, List.mem_cons, List.not_mem_nil, or_false, not_or] at h
  simp [ofSpec, h]

theorem ofSpec_lastAfter (h : spec.kind = "last_gt") : ofSpec spec =
    match Word.ofText spec.text with
    | [] => .error (.emptyText "last_gt")
    | letter :: _ => .ok (.lastAfter letter) := by
  obtain ⟨kind, text, number⟩ := spec
  subst h
  rfl

/-- Of every other kind, all conditions can be read. -/
theorem ofSpec_other (hkind : spec.kind ∈ kinds) (hne : spec.kind ≠ "last_gt") :
    ∃ c, ofSpec spec = .ok c ∧ c.kindName = spec.kind := by
  obtain ⟨kind, text, number⟩ := spec
  simp only [kinds, List.mem_cons, List.not_mem_nil, or_false] at hkind hne
  rcases hkind with rfl | rfl | rfl | rfl | rfl | rfl | rfl | rfl | rfl | rfl | rfl | rfl | rfl |
    rfl | rfl
  pick_goal 8
  · exact absurd rfl hne
  all_goals exact ⟨_, rfl, rfl⟩

/-- A condition is read under the name of its kind, or cannot be read. -/
theorem ofSpec_cases (spec : ConditionSpec) :
    (spec.Readable ∧ ∃ c, ofSpec spec = .ok c ∧ c.kindName = spec.kind) ∨
      ¬ spec.Readable ∧ ∃ e, ofSpec spec = .error e := by
  by_cases hkind : spec.kind ∈ kinds
  · by_cases hlast : spec.kind = "last_gt"
    · have hread := ofSpec_lastAfter hlast
      cases hword : Word.ofText spec.text with
      | nil =>
        rw [hword] at hread
        exact Or.inr ⟨fun h => h.letter hlast (Word.ofText_eq_nil_iff.mp hword), _, hread⟩
      | cons letter rest =>
        rw [hword] at hread
        refine Or.inl ⟨⟨hkind, fun _ hempty => ?_⟩, _, hread, hlast.symm⟩
        rw [Word.ofText_eq_nil_iff.mpr hempty] at hword
        cases hword
    · exact Or.inl ⟨⟨hkind, fun h => absurd h hlast⟩, ofSpec_other hkind hlast⟩
  · exact Or.inr ⟨fun h => hkind h.known, _, ofSpec_unknown hkind⟩

/-- **The conditions that can be read.** -/
theorem exists_ofSpec_iff : (∃ c, ofSpec spec = .ok c) ↔ spec.Readable := by
  rcases ofSpec_cases spec with ⟨hreadable, c, hc, _⟩ | ⟨hnot, e, he⟩
  · simp [hreadable, hc]
  · simp [hnot, he]

/-- **What is read has the kind that was written.** -/
theorem kindName_of_ofSpec (h : ofSpec spec = .ok c) : c.kindName = spec.kind := by
  rcases ofSpec_cases spec with ⟨_, c', hc, hname⟩ | ⟨_, e, he⟩
  · rw [hc] at h
    cases h
    exact hname
  · rw [he] at h
    cases h

end Condition

/-! ## Section 2 — pieces -/

/-- The condition that a behaviour tests. -/
def Behaviour.condition? : Behaviour → Option Condition
  | .test c | .testNot c => some c
  | _ => none

/-- A piece of one of the classes that test a condition. -/
def Placement.IsTest (p : Placement) : Prop :=
  p.className = "elem_if" ∨ p.className = "elem_ifnot"

instance (p : Placement) : Decidable p.IsTest := by
  unfold Placement.IsTest
  infer_instance

/-- A piece carries a condition of the kind. -/
def Placement.Writes (p : Placement) (kind : String) : Prop :=
  ∃ spec, p.payload = .condition spec ∧ spec.kind = kind

section

variable {f : Frame} {p : Placement} {s : Site} {ps : List Placement} {sites : List Site}

/-- The classes that test a condition have these names and no other. -/
theorem PieceClass.isTest_iff {cls : PieceClass} (h : ofName? p.className = some cls) :
    p.IsTest ↔ cls = .branch .test ∨ cls = .branch .testNot := by
  refine ⟨fun htest => ?_, fun hcls => ?_⟩
  · have hif : ofName? "elem_if" = some (.branch .test) := by decide
    have hifnot : ofName? "elem_ifnot" = some (.branch .testNot) := by decide
    rcases htest with hname | hname
    · rw [hname, hif] at h
      exact Or.inl (Option.some.inj h).symm
    · rw [hname, hifnot] at h
      exact Or.inr (Option.some.inj h).symm
  · rcases hcls with rfl | rfl
    · exact name_of_test (Or.inl rfl) h
    · exact name_of_test (Or.inr rfl) h

/-- A condition is read off what a piece carries. -/
theorem conditionOf_eq_ok_iff {payload : Payload} {c : Condition} :
    conditionOf payload = .ok c ↔
      ∃ spec, payload = .condition spec ∧ Condition.ofSpec spec = .ok c := by
  cases payload with
  | condition spec =>
    unfold conditionOf
    dsimp only
    cases hspec : Condition.ofSpec spec <;> simp [Except.mapError, hspec]
  | none => simp [conditionOf]
  | bend => simp [conditionOf]
  | countdown => simp [conditionOf]

/-- A piece of a class that tests tests the condition that it carries. -/
theorem Behaviour.condition?_of_test {cls : PieceClass} {payload : Payload} {be : Behaviour}
    (hcls : cls = .branch .test ∨ cls = .branch .testNot)
    (h : Behaviour.of cls payload = .ok be) : ∃ spec c, payload = .condition spec ∧
      Condition.ofSpec spec = .ok c ∧ be.condition? = some c := by
  have hcondition : ∃ c, conditionOf payload = .ok c ∧ be.condition? = some c := by
    rcases hcls with rfl | rfl <;> unfold Behaviour.of at h <;> dsimp only at h <;>
      cases hc : conditionOf payload <;> rw [hc] at h <;> cases h
    · exact ⟨_, rfl, rfl⟩
    · exact ⟨_, rfl, rfl⟩
  obtain ⟨c, hc, hbe⟩ := hcondition
  obtain ⟨spec, hspec, hread⟩ := conditionOf_eq_ok_iff.mp hc
  exact ⟨spec, c, hspec, hread, hbe⟩

/-- A piece of any other class tests nothing. -/
theorem Behaviour.condition?_of_other {cls : PieceClass} {payload : Payload} {be : Behaviour}
    (hcls : ¬ (cls = .branch .test ∨ cls = .branch .testNot))
    (h : Behaviour.of cls payload = .ok be) : be.condition? = none := by
  unfold Behaviour.of at h
  split at h
  case h_3 => exact absurd (Or.inl rfl) hcls
  case h_4 => exact absurd (Or.inr rfl) hcls
  case h_7 => split at h <;> cases h; rfl
  all_goals cases h; rfl

/-- A test on a board carries a condition that can be read, and its site tests that one. -/
theorem Site.Lies.condition?_of_isTest (h : s.Lies f p) (htest : p.IsTest) :
    ∃ spec c, p.payload = .condition spec ∧ Condition.ofSpec spec = .ok c ∧
      s.behaviour.condition? = some c := by
  have hcls := (PieceClass.isTest_iff (h.className ▸ h.cls)).mp htest
  rw [← h.payload]
  exact Behaviour.condition?_of_test hcls h.behaviour

theorem Site.Lies.condition?_of_not_isTest (h : s.Lies f p) (htest : ¬ p.IsTest) :
    s.behaviour.condition? = none :=
  Behaviour.condition?_of_other (mt (PieceClass.isTest_iff (h.className ▸ h.cls)).mpr htest)
    h.behaviour

/-! ## Section 3 — boards -/

/-- The kinds that sites test are those that their placements write. -/
theorem writes_of_lies (h : List.Forall₂ (Site.Lies f) ps sites) :
    List.Forall₂ Placement.Writes (ps.filter (·.IsTest))
      (sites.filterMap fun s => s.behaviour.condition?.map Condition.kindName) := by
  induction h with
  | nil => exact .nil
  | @cons p s _ _ hs _ ih =>
    by_cases htest : p.IsTest
    · obtain ⟨spec, c, hspec, hread, hc⟩ := hs.condition?_of_isTest htest
      rw [List.filter_cons_of_pos (by simpa using htest),
        List.filterMap_cons_some (by rw [hc, Option.map_some])]
      exact .cons ⟨spec, hspec, (Condition.kindName_of_ofSpec hread).symm⟩ ih
    · have hc := hs.condition?_of_not_isTest htest
      rwa [List.filter_cons_of_neg (by simpa using htest),
        List.filterMap_cons_none (by rw [hc, Option.map_none])]

end

/-- The pieces of a board do what its sites do. -/
theorem Survey.map_behaviour (v : Survey) (w : Ways) (l : Layout) :
    (v.board w l).pieces.toList.map Piece.behaviour = v.sites.map Site.behaviour := by
  refine List.ext_getElem? fun i => ?_
  rw [List.getElem?_map, Array.getElem?_toList, Survey.getElem?_pieces, List.getElem?_map,
    Option.map_map]
  rfl

theorem Board.conditionKinds_eq (b : Board) : b.conditionKinds =
    (b.pieces.toList.map Piece.behaviour).filterMap
      (·.condition?.map Condition.kindName) := by
  rw [List.filterMap_map]
  refine List.filterMap_congr fun p _ => ?_
  cases h : p.behaviour <;> simp [Behaviour.condition?, h]

namespace Layout

variable {l : Layout} {origin : Point} {limit : Nat} {b : Board}

/-- **The kinds of a board** are those that the tests of its layout write, in their order. -/
theorem writes_of_build (h : l.build origin limit = .ok b) :
    List.Forall₂ Placement.Writes (l.placements.filter (·.IsTest)) b.conditionKinds := by
  obtain ⟨c, encoded, hc, _, rfl⟩ := build_eq_ok_iff.mp h
  obtain ⟨v, w, hv, _, rfl⟩ := wire_eq_ok_iff.mp hc
  obtain ⟨f, _, hlies, _⟩ := survey_eq_ok_iff.mp hv
  have hkinds := (v.board w l).conditionKinds_eq
  rw [Survey.map_behaviour, List.filterMap_map] at hkinds
  exact hkinds ▸ writes_of_lies hlies

/-- A test whose condition cannot be read keeps a layout from being surveyed, and so from being
built. -/
theorem exists_error_of_isTest {p : Placement} (hp : p ∈ l.placements) (htest : p.IsTest)
    (hnot : ¬ ∃ spec, p.payload = .condition spec ∧ spec.Readable) :
    ∃ e, l.build origin limit = .error (.layout e) := by
  cases hv : l.survey origin with
  | ok v =>
    obtain ⟨f, _, hlies, _⟩ := survey_eq_ok_iff.mp hv
    obtain ⟨s, _, hs⟩ := exists_mem_of_forall₂ hlies hp
    obtain ⟨spec, c, hspec, hread, _⟩ := hs.condition?_of_isTest htest
    exact absurd ⟨spec, hspec, Condition.exists_ofSpec_iff.mp ⟨c, hread⟩⟩ hnot
  | error e =>
    refine ⟨e, ?_⟩
    unfold build wire
    rw [hv]

end Layout

/-- **Authored conditions survive building.** A condition can be read exactly if its kind is one of
the fifteen known ones and, where it compares with a letter, its text is not empty; and then what
is read has the kind that was written. So the kinds of a board that is built are those that the
tests of its layout write, one for each, in their order; and a layout with a test whose condition
cannot be read, be it missing or of an unknown kind, is not built. -/
theorem conditions_kept :
    (∀ spec : ConditionSpec,
      ((∃ c, Condition.ofSpec spec = .ok c) ↔
        spec.kind ∈ Condition.kinds ∧ (spec.kind = "last_gt" → spec.text ≠ "")) ∧
      ∀ c, Condition.ofSpec spec = .ok c → c.kindName = spec.kind) ∧
    ∀ (l : Layout) (origin : Point) (limit : Nat),
      (∀ b, l.build origin limit = .ok b →
        List.Forall₂ Placement.Writes (l.placements.filter (·.IsTest)) b.conditionKinds) ∧
      ∀ p ∈ l.placements, p.IsTest →
        (¬ ∃ spec, p.payload = .condition spec ∧ spec.Readable) →
        ∃ e, l.build origin limit = .error (.layout e) := by
  refine ⟨fun spec => ⟨?_, fun c hc => Condition.kindName_of_ofSpec hc⟩,
    fun l origin limit => ⟨fun b hb => Layout.writes_of_build hb,
      fun p hp htest hnot => Layout.exists_error_of_isTest hp htest hnot⟩⟩
  rw [Condition.exists_ofSpec_iff]
  exact ⟨fun h => ⟨h.known, h.letter⟩, fun h => ⟨h.1, h.2⟩⟩

/-- A test of the given kind for the letter `m`. -/
def testOn (kind : String) : Placement :=
  .onCell "elem_ifnot" 2 2 .none (.condition ⟨kind, "m", 0⟩)

/-- A fork with such a test, and an output on either side of it. -/
def forkOn (kind : String) : Layout :=
  .onCells
    [.onCell "elem_input" 0 2, .onCell "pipe" 1 2, testOn kind,
     .onCell "special_pipe" 2 1 .threeQuarters, .onCell "elem_output" 2 0,
     .onCell "pipe" 2 3 .quarter, .onCell "elem_output" 2 4]
    ["abc"]

theorem forkOn_kinds :
    (∃ b, (forkOn "last_gt").build .zero 100 = .ok b ∧ b.conditionKinds = ["last_gt"]) ∧
      testOn "last_ge" ∈ (forkOn "last_ge").placements ∧ (testOn "last_ge").IsTest ∧
      (¬ ∃ spec, (testOn "last_ge").payload = .condition spec ∧ spec.Readable) ∧
      ∃ e, (forkOn "last_ge").build .zero 100 = .error (.layout e) := by
  obtain ⟨_, hbuilds⟩ := conditions_kept
  have htest : ∀ kind, (testOn kind).IsTest := fun _ => Or.inr rfl
  have hmem : ∀ kind, testOn kind ∈ (forkOn kind).placements := fun kind => by
    simp [forkOn, Layout.onCells]
  have hunknown : ¬ ∃ spec, (testOn "last_ge").payload = .condition spec ∧ spec.Readable := by
    intro h
    obtain ⟨spec, hspec, hreadable⟩ := h
    cases hspec
    exact absurd hreadable.known (by decide)
  refine ⟨?_, hmem _, htest _, hunknown,
    (hbuilds (forkOn "last_ge") .zero 100).2 _ (hmem _) (htest _) hunknown⟩
  obtain ⟨b, hb, _⟩ := exists_ok_of_any
    (show ((forkOn "last_gt").build .zero 100).toOption.any (fun _ => true) = true by
      decide +kernel)
  have hkinds := (hbuilds (forkOn "last_gt") .zero 100).1 b hb
  have htests : (forkOn "last_gt").placements.filter (·.IsTest) = [testOn "last_gt"] := by
    simp [forkOn, testOn, Layout.onCells, Placement.onCell, Placement.IsTest]
  rw [htests] at hkinds
  obtain ⟨kind, _, hwrites, hnil, hlist⟩ := List.forall₂_cons_left_iff.mp hkinds
  obtain ⟨spec, hspec, rfl⟩ := hwrites
  cases hspec
  cases List.forall₂_nil_left_iff.mp hnil
  exact ⟨b, hb, hlist⟩

end CipherBoard
