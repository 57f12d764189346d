/-
CipherBoard.Proofs.Acceptance — which maps are levels.

Reading a map goes over its objects with early ends and with sums that are looked at after the
last of them. What it comes to is said here object by object and about the list as a whole:

* `Level.classOf?` — the class of an object, by its number without the bits for flipping.
* `Level.Fitting`, `Level.Describes` — what an object has to be like to stand for a piece, and
  the placement that it stands for.
* `Level.Reads`, `entries_eq_ok_iff` — reading the objects in order is reading each by itself,
  with at most one that holds the settings; by induction over the objects.
* `Level.Acceptable`, `Level.Lists` — the objects of a level, and the layout that they give;
  `Level.AcceptableBut` leaves open what the settings say.
* `accepts_iff` — a map is a level exactly if its objects are acceptable, and its layout lists them.
-/
import CipherBoard.Level
import CipherBoard.Proofs.Board

namespace CipherBoard

/-! ## Section 1 — objects -/

namespace MapObject

variable (o : MapObject)

/-- The text of a property, if it is a text. -/
def text? (name : String) : Option String :=
  (o.property? name).bind Json.text?

/-- The whole number of a property, if it is one of 64 bits. -/
def int? (name : String) : Option Int :=
  (o.property? name).bind Json.int64?

theorem textProperty_eq (name default : String) :
    o.textProperty name default = (o.text? name).getD default := rfl

theorem intProperty_eq (name : String) (default : Int) :
    o.intProperty name default = (o.int? name).getD default := rfl

/-- The number of the tile is what the bits below those for flipping say. -/
theorem tileNumber_eq : o.tileNumber = o.gid &&& 0x1FFFFFFF :=
  (Nat.and_two_pow_sub_one_eq_mod o.gid 29).symm

theorem flippedHorizontally_eq : o.flippedHorizontally = o.gid.testBit 31 := by
  rw [Nat.testBit_eq_decide_div_mod_eq]
  rfl

theorem flippedVertically_eq : o.flippedVertically = o.gid.testBit 30 := by
  rw [Nat.testBit_eq_decide_div_mod_eq]
  rfl

end MapObject

namespace Level

variable {tileset : Tileset} {first : Nat} {o : MapObject}

/-- The class of an object: that of the first tile with its number. -/
def classOf? (tileset : Tileset) (first : Nat) (o : MapObject) : Option String :=
  (tile? tileset first o).map (·.className)

theorem exists_classOf?_iff : (∃ cls, classOf? tileset first o = some cls) ↔
    first ≤ o.gid &&& 0x1FFFFFFF ∧ ∃ t ∈ tileset.tiles, t.id = (o.gid &&& 0x1FFFFFFF) - first := by
  rw [← o.tileNumber_eq, ← Option.isSome_iff_exists]
  unfold classOf? tile? Tileset.tile?
  split
  · rename_i hle
    simp [hle]
  · rename_i hlt
    simp [hlt]

/-! ## Section 2 — pieces -/

/-- What an object of a class has to be like to carry what the class wants: a bend is not
flipped upside down, and a test has a condition. -/
structure Furnished (o : MapObject) (className : String) : Prop where
  upright : className = "angle_pipe" ∨ className = "special_angle_pipe" → o.gid.testBit 30 = false
  tested : className = "elem_if" ∨ className = "elem_ifnot" →
    ∃ kind, o.text? "cond_kind" = some kind ∧ kind ≠ ""

/-- What an object of a class has to be like to stand for a piece. -/
structure Fitting (o : MapObject) (className : String) : Prop extends Furnished o className where
  turned : o.rotation == 0 ∨ o.rotation == 90 ∨ o.rotation == 180 ∨ o.rotation == 270

/-- What an object of a class carries as a piece: a bend, whether it is mirrored; a test, its
condition; a countdown, its digit; anything else, nothing. -/
inductive Carries (o : MapObject) (className : String) : Payload → Prop
  | bend (h : className = "angle_pipe" ∨ className = "special_angle_pipe") :
    Carries o className (.bend (o.gid.testBit 31))
  | condition (h : className = "elem_if" ∨ className = "elem_ifnot") {kind : String}
    (hkind : o.text? "cond_kind" = some kind) :
    Carries o className (.condition
      ⟨kind, (o.text? "string_arg").getD "", (o.int? "int_arg").getD 0⟩)
  | countdown {start : Nat} (h : countdownStart? className = some start) :
    Carries o className (.countdown start)
  | nothing (hbend : ¬ (className = "angle_pipe" ∨ className = "special_angle_pipe"))
    (htest : ¬ (className = "elem_if" ∨ className = "elem_ifnot"))
    (hcount : countdownStart? className = none) : Carries o className .none

/-- The placement that an object of a class stands for. -/
structure Describes (tileset : Tileset) (o : MapObject) (cls : String) (p : Placement) : Prop where
  className : p.className = cls
  pos : p.pos = centre tileset o
  turn : o.rotation == Float.ofNat p.turn.degrees
  payload : Carries o cls p.payload

theorem ofDegrees?_eq_some {x : Float} {t : QuarterTurn}
    (h : QuarterTurn.ofDegrees? x = some t) : x == Float.ofNat t.degrees := by
  unfold QuarterTurn.ofDegrees? at h
  split_ifs at h <;> cases h <;> assumption

theorem exists_ofDegrees?_iff {x : Float} : (∃ t, QuarterTurn.ofDegrees? x = some t) ↔
    x == 0 ∨ x == 90 ∨ x == 180 ∨ x == 270 := by
  unfold QuarterTurn.ofDegrees?
  split_ifs <;> simp_all

/-- A text that is not empty is the text of the property. -/
theorem text?_of_textProperty {name : String} (h : ¬ (o.textProperty name "").isEmpty = true) :
    o.text? name = some (o.textProperty name "") ∧ o.textProperty name "" ≠ "" := by
  rw [o.textProperty_eq] at h ⊢
  cases ht : o.text? name with
  | none => simp [ht] at h
  | some text => simpa [ht] using h

/-- An object carries what its class wants, or nothing as it is not furnished for that. -/
theorem payload_cases (o : MapObject) (object : Label) :
    (Furnished o object.className ∧
      ∃ pl, payload o object = .ok pl ∧ Carries o object.className pl) ∨
    ¬ Furnished o object.className ∧ ∃ e, payload o object = .error e := by
  unfold payload
  dsimp only
  split_ifs with hbend hflip htest hempty
  · rw [o.flippedVertically_eq] at hflip
    refine Or.inr ⟨fun h => ?_, _, rfl⟩
    rw [h.upright hbend] at hflip
    cases hflip
  · rw [o.flippedVertically_eq, Bool.not_eq_true] at hflip
    refine Or.inl ⟨⟨fun _ => hflip, fun htest => ?_⟩, _, rfl, ?_⟩
    · rcases hbend with h | h <;> rw [h] at htest <;> simp at htest
    · rw [o.flippedHorizontally_eq]
      exact .bend hbend
  · refine Or.inr ⟨fun h => ?_, _, rfl⟩
    obtain ⟨kind, hkind, hne⟩ := h.tested htest
    rw [o.textProperty_eq, hkind] at hempty
    exact hne (by simpa using hempty)
  · obtain ⟨hkind, hne⟩ := text?_of_textProperty hempty
    exact Or.inl ⟨⟨fun h => absurd h hbend, fun _ => ⟨_, hkind, hne⟩⟩, _, rfl,
      .condition htest hkind⟩
  · refine Or.inl ⟨⟨fun h => absurd h hbend, fun h => absurd h htest⟩, ?_⟩
    cases hcount : countdownStart? object.className with
    | some start => exact ⟨_, rfl, .countdown hcount⟩
    | none => exact ⟨_, rfl, .nothing hbend htest hcount⟩

/-- **Which objects stand for a piece.** -/
theorem exists_placement_iff {object : Label} :
    (∃ p, placement o object = .ok p) ↔ Fitting o object.className := by
  unfold placement
  cases hturn : QuarterTurn.ofDegrees? o.rotation with
  | none =>
    simp only [reduceCtorEq, exists_false, false_iff]
    intro h
    obtain ⟨t, ht⟩ := exists_ofDegrees?_iff.2 h.turned
    rw [hturn] at ht
    cases ht
  | some turn =>
    have hturned := exists_ofDegrees?_iff.1 ⟨turn, hturn⟩
    rcases payload_cases o object with ⟨hfurnished, pl, hpl, _⟩ | ⟨hnot, e, he⟩
    · simp only [hpl, Except.map, Except.ok.injEq, exists_eq', true_iff]
      exact ⟨hfurnished, hturned⟩
    · simp only [he, Except.map, reduceCtorEq, exists_false, false_iff]
      exact fun h => hnot h.toFurnished

/-- **Which piece an object stands for.** -/
theorem describes_of_placement {cls : String} {p : Placement}
    (h : placement o ⟨cls, centre tileset o⟩ = .ok p) : Describes tileset o cls p := by
  unfold placement at h
  split at h
  · cases h
  · rename_i turn hturn
    rcases payload_cases o ⟨cls, centre tileset o⟩ with ⟨_, pl, hpl, hcarries⟩ | ⟨_, e, he⟩
    · rw [hpl] at h
      cases h
      exact ⟨rfl, rfl, ofDegrees?_eq_some hturn, hcarries⟩
    · rw [he] at h
      cases h

/-! ## Section 3 — entries -/

/-- The note that a hint holds. -/
def hintOf (o : MapObject) : Hint := ⟨o.textProperty "text" "", o.pos⟩

/-- What an object reads as, whatever the others are. -/
inductive Reads (tileset : Tileset) (first : Nat) (o : MapObject) : Entry → Prop
  | settings (hclass : classOf? tileset first o = some settingsClass)
    (hblank : isEmptyText (o.textProperty "keywords" "") = false) :
    Reads tileset first o (.settings (o.intProperty "num_keywords" 0)
      (keywordsOf (o.textProperty "keywords" "")))
  | hint (hclass : classOf? tileset first o = some hintClass) :
    Reads tileset first o (.hint (hintOf o))
  | piece {cls : String} {p : Placement} (hclass : classOf? tileset first o = some cls)
    (hsettings : cls ≠ settingsClass) (hhint : cls ≠ hintClass)
    (hp : placement o ⟨cls, centre tileset o⟩ = .ok p) : Reads tileset first o (.piece p)

theorem entry_of_reads {settled : Bool} {e : Entry} (h : Reads tileset first o e)
    (hone : settled = true → e.isSettings = false) : entry tileset first settled o = .ok e := by
  cases h with
  | settings hclass hblank =>
    obtain ⟨tile, htile, hname⟩ := Option.map_eq_some_iff.mp hclass
    have hfirst : settled = false := by simpa [Entry.isSettings] using hone
    simp [entry, htile, hname, hfirst, hblank]
  | hint hclass =>
    obtain ⟨tile, htile, hname⟩ := Option.map_eq_some_iff.mp hclass
    have hne : hintClass ≠ settingsClass := by decide
    simp [entry, htile, hname, hne, hintOf]
  | piece hclass hsettings hhint hp =>
    obtain ⟨tile, htile, rfl⟩ := Option.map_eq_some_iff.mp hclass
    simp [entry, htile, hsettings, hhint, hp, Except.map]

theorem reads_of_entry {settled : Bool} {e : Entry} (h : entry tileset first settled o = .ok e) :
    Reads tileset first o e ∧ (settled = true → e.isSettings = false) := by
  unfold entry at h
  split at h
  · cases h
  · rename_i tile htile
    have hcls : classOf? tileset first o = some tile.className := by
      unfold classOf?
      rw [htile, Option.map_some]
    dsimp only at h
    split_ifs at h with hsettings hsettled hblank hhint
    · cases h
      exact ⟨.settings (hsettings ▸ hcls) (by simpa using hblank), fun h => absurd h hsettled⟩
    · cases h
      exact ⟨.hint (hhint ▸ hcls), fun _ => rfl⟩
    · cases hp : placement o ⟨tile.className, centre tileset o⟩ <;> rw [hp] at h <;> cases h
      exact ⟨.piece hcls hsettings hhint hp, fun _ => rfl⟩

theorem countP_isSettings_cons {settled : Bool} {e : Entry} {es : List Entry} :
    (e :: es).countP Entry.isSettings + settled.toNat ≤ 1 ↔
      (settled = true → e.isSettings = false) ∧
        es.countP Entry.isSettings + (settled || e.isSettings).toNat ≤ 1 := by
  rw [List.countP_cons]
  cases settled <;> cases e.isSettings <;> simp

/-- **Reading the objects in order**: each reads as it does by itself, and settings are read at
most once. -/
theorem entries_eq_ok_iff {objects : List MapObject} {settled : Bool} {es : List Entry} :
    entries tileset first settled objects = .ok es ↔
      List.Forall₂ (Reads tileset first) objects es ∧
        es.countP Entry.isSettings + settled.toNat ≤ 1 := by
  induction objects generalizing settled es with
  | nil =>
    have hle := settled.toNat_le
    simp only [entries, Except.ok.injEq, List.forall₂_nil_left_iff]
    constructor
    · rintro rfl
      exact ⟨rfl, by simpa using hle⟩
    · rintro ⟨rfl, _⟩
      rfl
  | cons o rest ih =>
    rw [entries]
    constructor
    · intro h
      split at h
      · cases h
      · rename_i e hentry
        obtain ⟨hreads, hone⟩ := reads_of_entry hentry
        cases htail : entries tileset first (settled || e.isSettings) rest <;>
          rw [htail] at h <;> cases h
        obtain ⟨hrest, hcount⟩ := ih.mp htail
        exact ⟨.cons hreads hrest, countP_isSettings_cons.2 ⟨hone, hcount⟩⟩
    · rintro ⟨hreads, hcount⟩
      obtain ⟨e, tail, he, htail, rfl⟩ := List.forall₂_cons_left_iff.mp hreads
      obtain ⟨hone, hrest⟩ := countP_isSettings_cons.1 hcount
      rw [entry_of_reads he hone]
      dsimp only
      rw [ih.mpr ⟨htail, hrest⟩]
      rfl

/-! ## Section 4 — what the entries come to -/

section

variable {objects : List MapObject} {es : List Entry}

@[simp] theorem pieces_settings {count : Int} {keywords : List String} :
    pieces (.settings count keywords :: es) = pieces es := rfl

@[simp] theorem pieces_hint {h : Hint} : pieces (.hint h :: es) = pieces es := rfl

@[simp] theorem pieces_piece {p : Placement} : pieces (.piece p :: es) = p :: pieces es := rfl

@[simp] theorem hints_settings {count : Int} {keywords : List String} :
    hints (.settings count keywords :: es) = hints es := rfl

@[simp] theorem hints_hint {h : Hint} : hints (.hint h :: es) = h :: hints es := rfl

@[simp] theorem hints_piece {p : Placement} : hints (.piece p :: es) = hints es := rfl

/-- Whether an object has a class. -/
def hasClass (tileset : Tileset) (first : Nat) (cls : String) (o : MapObject) : Bool :=
  classOf? tileset first o == some cls

/-- Whether an object stands for a piece: all do but the settings and the hints. -/
def isPiece (tileset : Tileset) (first : Nat) (o : MapObject) : Bool :=
  !hasClass tileset first settingsClass o && !hasClass tileset first hintClass o

theorem Reads.hasClass_settings {e : Entry} (h : Reads tileset first o e) :
    hasClass tileset first settingsClass o = e.isSettings := by
  cases h <;> simp_all [hasClass, Entry.isSettings, settingsClass, hintClass]

/-- The objects that hold settings, and what they read as. -/
theorem settings_reads (h : List.Forall₂ (Reads tileset first) objects es) :
    List.Forall₂ (Reads tileset first) (objects.filter (hasClass tileset first settingsClass))
      (es.filter Entry.isSettings) := by
  refine List.rel_filter (fun o e he => ?_) h
  dsimp only
  rw [he.hasClass_settings]

theorem hints_reads (h : List.Forall₂ (Reads tileset first) objects es) :
    hints es = (objects.filter (hasClass tileset first hintClass)).map hintOf := by
  induction h with
  | nil => rfl
  | cons he _ ih =>
    cases he with
    | settings hclass => simp [hasClass, hclass, settingsClass, hintClass, ih]
    | hint hclass => simp [hasClass, hclass, ih]
    | piece hclass _ hhint => simp [hasClass, hclass, hhint, ih]

/-- The objects that stand for pieces, and the placements that they stand for. -/
theorem pieces_reads (h : List.Forall₂ (Reads tileset first) objects es) :
    List.Forall₂ (fun o p => ∃ cls, classOf? tileset first o = some cls ∧
      placement o ⟨cls, centre tileset o⟩ = .ok p)
      (objects.filter (isPiece tileset first)) (pieces es) := by
  induction h with
  | nil => exact .nil
  | cons he _ ih =>
    cases he with
    | settings hclass =>
      rwa [List.filter_cons_of_neg (by simp [isPiece, hasClass, hclass]), pieces_settings]
    | hint hclass =>
      rwa [List.filter_cons_of_neg (by simp [isPiece, hasClass, hclass]), pieces_hint]
    | piece hclass hsettings hhint hp =>
      rw [List.filter_cons_of_pos (by simp [isPiece, hasClass, hclass, hsettings, hhint]),
        pieces_piece]
      exact .cons ⟨_, hclass, hp⟩ ih

theorem countP_inputs (h : List.Forall₂ (Reads tileset first) objects es) :
    (pieces es).countP (·.className = inputClass) =
      objects.countP (hasClass tileset first inputClass) := by
  induction h with
  | nil => rfl
  | cons he _ ih =>
    cases he with
    | settings hclass => simpa [hasClass, hclass, settingsClass, inputClass] using ih
    | hint hclass => simpa [hasClass, hclass, hintClass, inputClass] using ih
    | piece hclass _ _ hp =>
      have hname := (describes_of_placement hp).className
      simp [hasClass, hclass, List.countP_cons, hname, ih]

theorem settings?_eq_some_iff {count : Int} {keywords : List String} :
    settings? es = some (count, keywords) ↔
      (es.filter Entry.isSettings).head? = some (.settings count keywords) := by
  induction es with
  | nil => simp [settings?]
  | cons e rest ih =>
    unfold settings? at ih ⊢
    cases e <;> simp_all [Entry.isSettings]

/-- The only settings of a list of entries. -/
theorem filter_isSettings_iff {count : Int} {keywords : List String} :
    es.filter Entry.isSettings = [.settings count keywords] ↔
      es.countP Entry.isSettings ≤ 1 ∧ settings? es = some (count, keywords) := by
  rw [settings?_eq_some_iff, List.countP_eq_length_filter]
  cases es.filter Entry.isSettings with
  | nil => simp
  | cons e rest => simp [and_comm]

theorem assemble_eq_ok_iff {l : Layout} : assemble tileset es = .ok l ↔
    (pieces es).countP (·.className = inputClass) = 1 ∧ ∃ count keywords,
      settings? es = some (count, keywords) ∧ (∀ w ∈ keywords, isKeyword w = true) ∧
      1 ≤ count ∧ count ≤ keywords.length ∧ l =
        { tileWidth := tileset.tileWidth, tileHeight := tileset.tileHeight,
          placements := pieces es, requiredCount := count.toNat, keywords,
          hints := hints es } := by
  unfold assemble
  dsimp only
  constructor
  · intro h
    split at h
    · cases h
    · rename_i hinput
      split at h
      · cases h
      · rename_i count keywords hsettings
        split at h
        · cases h
        · rename_i hwords
          split at h
          · rename_i hcount
            cases h
            refine ⟨not_not.mp hinput, count, keywords, hsettings, ?_, hcount.1, hcount.2, rfl⟩
            simpa using hwords
          · cases h
  · rintro ⟨hinput, count, keywords, hsettings, hwords, hone, hle, rfl⟩
    have hfind : keywords.find? (!isKeyword ·) = none := by simpa using hwords
    rw [if_neg (not_not.mpr hinput), hsettings]
    dsimp only
    rw [hfind]
    dsimp only
    rw [if_pos ⟨hone, hle⟩]

end

/-! ## Section 5 — levels -/

/-- An object settles the keywords of a level and how many of them have to be decoded: its text is
not blank, its lines are words over `a` … `z` once the blanks around them are gone, and the
number is at least one and at most that of the lines. -/
structure Settles (o : MapObject) (count : Nat) (keywords : List String) : Prop where
  text : ∃ text, o.text? "keywords" = some text ∧ Text.trim text.toList ≠ [] ∧
    keywords = (Text.lines (Text.trim text.toList)).map fun line => String.ofList (Text.trim line)
  word : ∀ w ∈ keywords, w ≠ "" ∧ ∀ c ∈ w.toList, 'a' ≤ c ∧ c ≤ 'z'
  number : o.int? "num_keywords" = some (count : Int)
  one_le : 1 ≤ count
  le : count ≤ keywords.length

theorem isKeyword_iff {word : String} :
    isKeyword word = true ↔ word ≠ "" ∧ ∀ c ∈ word.toList, 'a' ≤ c ∧ c ≤ 'z' := by
  simp [isKeyword]

/-- The objects of a level. Every one shows a tile of the tileset; one of them holds the settings,
one is the input; and all but the settings and the hints can stand for a piece. -/
structure Acceptable (tileset : Tileset) (first : Nat) (objects : List MapObject) : Prop where
  tile : ∀ o ∈ objects, first ≤ o.gid &&& 0x1FFFFFFF ∧
    ∃ t ∈ tileset.tiles, t.id = (o.gid &&& 0x1FFFFFFF) - first
  settings : ∃ o count keywords,
    objects.filter (hasClass tileset first settingsClass) = [o] ∧ Settles o count keywords
  input : objects.countP (hasClass tileset first inputClass) = 1
  piece : ∀ o ∈ objects, ∀ cls, classOf? tileset first o = some cls → cls ≠ settingsClass →
    cls ≠ hintClass → Fitting o cls

/-- The objects of a level whose settings are `o`, whatever these say. -/
structure AcceptableBut (tileset : Tileset) (first : Nat) (objects : List MapObject)
    (o : MapObject) : Prop where
  tile : ∀ o ∈ objects, first ≤ o.gid &&& 0x1FFFFFFF ∧
    ∃ t ∈ tileset.tiles, t.id = (o.gid &&& 0x1FFFFFFF) - first
  settings : objects.filter (hasClass tileset first settingsClass) = [o]
  input : objects.countP (hasClass tileset first inputClass) = 1
  piece : ∀ o ∈ objects, ∀ cls, classOf? tileset first o = some cls → cls ≠ settingsClass →
    cls ≠ hintClass → Fitting o cls

/-- The layout of the objects of a level. -/
structure Lists (tileset : Tileset) (first : Nat) (objects : List MapObject) (l : Layout) :
    Prop where
  tileWidth : l.tileWidth = tileset.tileWidth
  tileHeight : l.tileHeight = tileset.tileHeight
  settings : ∃ o, objects.filter (hasClass tileset first settingsClass) = [o] ∧
    Settles o l.requiredCount l.keywords
  hints : l.hints = (objects.filter (hasClass tileset first hintClass)).map hintOf
  placements : List.Forall₂ (fun o p => ∃ cls, classOf? tileset first o = some cls ∧
    Describes tileset o cls p) (objects.filter (isPiece tileset first)) l.placements

theorem settles_iff {count : Nat} {keywords : List String} : Settles o count keywords ↔
    isEmptyText (o.textProperty "keywords" "") = false ∧
      keywords = keywordsOf (o.textProperty "keywords" "") ∧
      (∀ w ∈ keywords, isKeyword w = true) ∧ o.intProperty "num_keywords" 0 = count ∧
      1 ≤ count ∧ count ≤ keywords.length := by
  simp only [isKeyword_iff, o.textProperty_eq, o.intProperty_eq]
  constructor
  · rintro ⟨⟨text, htext, hblank, hkeywords⟩, hword, hnumber, hone, hle⟩
    rw [htext, hnumber]
    exact ⟨by simpa [isEmptyText] using hblank, hkeywords, hword, rfl, hone, hle⟩
  · rintro ⟨hblank, hkeywords, hword, hnumber, hone, hle⟩
    refine ⟨?_, hword, ?_, hone, hle⟩
    · cases htext : o.text? "keywords" with
      | none => rw [htext] at hblank; cases hblank
      | some text =>
        rw [htext] at hblank hkeywords
        exact ⟨text, rfl, by simpa [isEmptyText] using hblank, hkeywords⟩
    · cases hint : o.int? "num_keywords" with
      | none =>
        -- Without a number there are none to decode, but there has to be one.
        rw [hint] at hnumber
        have hzero : (0 : Int) = count := hnumber
        omega
      | some n =>
        rw [hint] at hnumber
        exact congrArg some hnumber

/-- What a map comes to, where each object of its first layer reads as something. -/
theorem layout_eq_assemble {map : TileMap} {layer : Layer} {es : List Entry}
    (hfirst : map.firstNumbers.head? = some first) (hlayer : map.layers.head? = some layer)
    (hreads : List.Forall₂ (Reads tileset first) layer.objects es)
    (hcount : es.countP Entry.isSettings ≤ 1) : layout tileset map = assemble tileset es := by
  obtain ⟨_, hfirst⟩ := List.head?_eq_some_iff.mp hfirst
  obtain ⟨_, hlayer⟩ := List.head?_eq_some_iff.mp hlayer
  have hentries : entries tileset first false layer.objects = .ok es :=
    entries_eq_ok_iff.2 ⟨hreads, hcount⟩
  unfold layout
  rw [hfirst, hlayer]
  dsimp only
  rw [hentries]

theorem layout_eq_ok_iff {map : TileMap} {l : Layout} : layout tileset map = .ok l ↔
    ∃ first layer, map.firstNumbers.head? = some first ∧ map.layers.head? = some layer ∧
      ∃ es, List.Forall₂ (Reads tileset first) layer.objects es ∧
        es.countP Entry.isSettings ≤ 1 ∧ assemble tileset es = .ok l := by
  constructor
  · intro h
    unfold layout at h
    split at h
    · rename_i first _ layer _ hfirst hlayer
      split at h
      · cases h
      · rename_i es hes
        obtain ⟨hreads, hcount⟩ := entries_eq_ok_iff.1 hes
        exact ⟨first, layer, by rw [hfirst]; rfl, by rw [hlayer]; rfl, es, hreads, hcount, h⟩
    · cases h
  · rintro ⟨first, layer, hfirst, hlayer, es, hreads, hcount, h⟩
    rw [layout_eq_assemble hfirst hlayer hreads hcount, h]

section

variable {objects : List MapObject} {es : List Entry} {l : Layout}

theorem Reads.exists_class {e : Entry} (h : Reads tileset first o e) :
    ∃ cls, classOf? tileset first o = some cls := by
  cases h with
  | settings hclass => exact ⟨_, hclass⟩
  | hint hclass => exact ⟨_, hclass⟩
  | piece hclass => exact ⟨_, hclass⟩

theorem Reads.fitting {e : Entry} {cls : String} (h : Reads tileset first o e)
    (hcls : classOf? tileset first o = some cls) (hsettings : cls ≠ settingsClass)
    (hhint : cls ≠ hintClass) : Fitting o cls := by
  cases h with
  | settings hclass =>
    rw [hcls] at hclass
    exact absurd (Option.some.inj hclass) hsettings
  | hint hclass =>
    rw [hcls] at hclass
    exact absurd (Option.some.inj hclass) hhint
  | piece hclass _ _ hp =>
    rw [hcls] at hclass
    cases hclass
    exact exists_placement_iff.1 ⟨_, hp⟩

/-- **What is read is acceptable, and the layout lists it.** -/
theorem acceptable_of_reads (h : List.Forall₂ (Reads tileset first) objects es)
    (hcount : es.countP Entry.isSettings ≤ 1) (hl : assemble tileset es = .ok l) :
    Acceptable tileset first objects ∧ Lists tileset first objects l := by
  obtain ⟨hinput, count, keywords, hsettings, hwords, hone, hle, rfl⟩ :=
    assemble_eq_ok_iff.1 hl
  have hreads := settings_reads h
  rw [filter_isSettings_iff.2 ⟨hcount, hsettings⟩] at hreads
  obtain ⟨o, _, ho, hnil, honly⟩ := List.forall₂_cons_right_iff.mp hreads
  rw [List.forall₂_nil_right_iff.mp hnil] at honly
  have hsettles : Settles o count.toNat keywords := by
    cases ho with
    | settings _ hblank =>
      exact settles_iff.2 ⟨hblank, rfl, hwords, by omega, by omega, by omega⟩
  refine ⟨⟨?_, ⟨o, _, _, honly, hsettles⟩, (countP_inputs h).symm.trans hinput, ?_⟩,
    rfl, rfl, ⟨o, honly, hsettles⟩, hints_reads h, ?_⟩
  · intro o ho
    obtain ⟨e, _, he⟩ := exists_mem_of_forall₂ h ho
    exact exists_classOf?_iff.1 he.exists_class
  · intro o ho cls hcls hnosettings hnohint
    obtain ⟨e, _, he⟩ := exists_mem_of_forall₂ h ho
    exact he.fitting hcls hnosettings hnohint
  · exact (pieces_reads h).imp fun o p ⟨cls, hcls, hp⟩ => ⟨cls, hcls, describes_of_placement hp⟩

section

variable (h : AcceptableBut tileset first objects o)
  (hblank : isEmptyText (o.textProperty "keywords" "") = false)
include h hblank

/-- Where the keywords are not blank, each of the objects reads as something. -/
theorem AcceptableBut.exists_reads {a : MapObject} (ha : a ∈ objects) :
    ∃ e, Reads tileset first a e := by
  obtain ⟨cls, hcls⟩ := exists_classOf?_iff.2 (h.tile a ha)
  by_cases hsettings : cls = settingsClass
  · subst hsettings
    have hmem : a ∈ objects.filter (hasClass tileset first settingsClass) :=
      List.mem_filter.mpr ⟨ha, by simp [hasClass, hcls]⟩
    rw [h.settings] at hmem
    rw [← List.mem_singleton.mp hmem] at hblank
    exact ⟨_, .settings hcls hblank⟩
  · by_cases hhint : cls = hintClass
    · subst hhint
      exact ⟨_, .hint hcls⟩
    · have hfitting : Fitting a (⟨cls, centre tileset a⟩ : Label).className :=
        h.piece a ha cls hcls hsettings hhint
      obtain ⟨p, hp⟩ := exists_placement_iff.2 hfitting
      exact ⟨_, .piece hcls hsettings hhint hp⟩

/-- Where the keywords are not blank, the one object that holds the settings reads as the one
entry that does. -/
theorem AcceptableBut.exists_entries :
    ∃ es, List.Forall₂ (Reads tileset first) objects es ∧
      es.countP Entry.isSettings ≤ 1 ∧ (pieces es).countP (·.className = inputClass) = 1 ∧
      settings? es = some (o.intProperty "num_keywords" 0,
        keywordsOf (o.textProperty "keywords" "")) := by
  obtain ⟨es, hreads⟩ := exists_forall₂ fun a ha => h.exists_reads hblank ha
  have honce := settings_reads hreads
  rw [h.settings] at honce
  obtain ⟨e, _, he, hnil, hfilter⟩ := List.forall₂_cons_left_iff.mp honce
  rw [List.forall₂_nil_left_iff.mp hnil] at hfilter
  have hmem : e ∈ es.filter Entry.isSettings := by
    rw [hfilter]
    exact List.mem_singleton_self e
  have hsettings : e = .settings (o.intProperty "num_keywords" 0)
      (keywordsOf (o.textProperty "keywords" "")) := by
    have hkind := (List.mem_filter.mp hmem).2
    cases he with
    | settings => rfl
    | hint => cases hkind
    | piece => cases hkind
  rw [hsettings] at hfilter
  obtain ⟨hcount, hfound⟩ := filter_isSettings_iff.1 hfilter
  exact ⟨es, hreads, hcount, (countP_inputs hreads).trans h.input, hfound⟩

end

/-- **Settings that settle the keywords complete the objects to those of a level**, and the level
has these keywords. -/
theorem AcceptableBut.exists_layout (h : AcceptableBut tileset first objects o) {count : Nat}
    {keywords : List String} (hsettles : Settles o count keywords) :
    ∃ es l, List.Forall₂ (Reads tileset first) objects es ∧ es.countP Entry.isSettings ≤ 1 ∧
      assemble tileset es = .ok l ∧ l.keywords = keywords ∧ l.requiredCount = count := by
  obtain ⟨hblank, rfl, hwords, hnumber, hone, hle⟩ := settles_iff.1 hsettles
  obtain ⟨es, hreads, hcount, hinput, hfound⟩ := h.exists_entries hblank
  rw [hnumber] at hfound
  exact ⟨es, _, hreads, hcount, assemble_eq_ok_iff.2
    ⟨hinput, count, _, hfound, hwords, by omega, by omega, rfl⟩, rfl, rfl⟩

/-- **What is acceptable can be read.** -/
theorem Acceptable.exists_layout (h : Acceptable tileset first objects) :
    ∃ es l, List.Forall₂ (Reads tileset first) objects es ∧ es.countP Entry.isSettings ≤ 1 ∧
      assemble tileset es = .ok l := by
  obtain ⟨o, count, keywords, honly, hsettles⟩ := h.settings
  have hbut : AcceptableBut tileset first objects o := ⟨h.tile, honly, h.input, h.piece⟩
  obtain ⟨es, l, hreads, hcount, hassemble, _⟩ := hbut.exists_layout hsettles
  exact ⟨es, l, hreads, hcount, hassemble⟩

end

/-- **Which maps are levels, and what they list.** A map is a level exactly if it refers to a
tileset, has a layer, and the objects of its first layer are acceptable. The layout has a
placement for every object that stands for a piece, in their order. -/
theorem accepts_iff (tileset : Tileset) (map : TileMap) :
    ((∃ l, layout tileset map = .ok l) ↔
      ∃ first layer, map.firstNumbers.head? = some first ∧ map.layers.head? = some layer ∧
        Acceptable tileset first layer.objects) ∧
    ∀ l, layout tileset map = .ok l →
      ∃ first layer, map.firstNumbers.head? = some first ∧ map.layers.head? = some layer ∧
        Lists tileset first layer.objects l := by
  constructor
  · constructor
    · rintro ⟨l, hl⟩
      obtain ⟨first, layer, hfirst, hlayer, es, hreads, hcount, hassemble⟩ :=
        layout_eq_ok_iff.1 hl
      exact ⟨first, layer, hfirst, hlayer, (acceptable_of_reads hreads hcount hassemble).1⟩
    · rintro ⟨first, layer, hfirst, hlayer, hacceptable⟩
      obtain ⟨es, l, hreads, hcount, hassemble⟩ := hacceptable.exists_layout
      exact ⟨l, layout_eq_ok_iff.2
        ⟨first, layer, hfirst, hlayer, es, hreads, hcount, hassemble⟩⟩
  · intro l hl
    obtain ⟨first, layer, hfirst, hlayer, es, hreads, hcount, hassemble⟩ :=
      layout_eq_ok_iff.1 hl
    exact ⟨first, layer, hfirst, hlayer, (acceptable_of_reads hreads hcount hassemble).2⟩

/-- Tiles for an input, an output and the settings. -/
def fewTiles : Tileset :=
  ⟨96, 96, [⟨0, "elem_input"⟩, ⟨1, "elem_output"⟩, ⟨2, "settings"⟩]⟩

/-- An input with an output beside it, and settings with one keyword. -/
def fewObjects : List MapObject :=
  [⟨3, ⟨0, 768⟩, 0, [⟨"keywords", "string", .string " abc\n"⟩,
     ⟨"num_keywords", "int", .number (.whole 1)⟩]⟩,
   ⟨1, ⟨0, 96⟩, 0, []⟩, ⟨2, ⟨96, 96⟩, 270, []⟩]

theorem fewObjects_accepted :
    ∃ l, layout fewTiles ⟨[1], [⟨fewObjects⟩]⟩ = .ok l ∧ Acceptable fewTiles 1 fewObjects ∧
      Lists fewTiles 1 fewObjects l := by
  obtain ⟨l, hl, _⟩ := exists_ok_of_any
    (show (layout fewTiles ⟨[1], [⟨fewObjects⟩]⟩).toOption.any (fun _ => true) = true by
      decide +kernel)
  obtain ⟨hiff, hlists⟩ := accepts_iff fewTiles ⟨[1], [⟨fewObjects⟩]⟩
  obtain ⟨_, _, hfirst, hlayer, hacceptable⟩ := hiff.mp ⟨l, hl⟩
  cases hfirst
  cases hlayer
  obtain ⟨_, _, hfirst, hlayer, hl'⟩ := hlists l hl
  cases hfirst
  cases hlayer
  exact ⟨l, hl, hacceptable, hl'⟩

end Level

end CipherBoard
