/-
CipherBoard.Proofs.Documents — documents of the right shape, and the records they stand for.

The shape of a document is checked before its record is read, so that what is wrong is said in
words about the document. How far does the check go? For every level of the two kinds of
document, from the properties and tiles up, a value of its shape is read up to what its shape
does not see.

* `Tile.Sound`, `MapObject.Sound` — the number of a tile must not be beyond 32 bits nor written with
  a point, and the class of a tile has to be given under one name.
* `Tileset.Sound`, `TileMap.Sound` — so for every tile and every reference, and for the objects of
  the first layer; the shape does not look at the other layers at all.
* `Tileset.reads_iff`, `TileMap.reads_iff` — these are all the gaps.
* `DocumentKind.Accounts` — how a document is reported; `documents_accounted` says it of both kinds
  and of every document, and `unsound_let_through` shows each gap.
-/
import CipherBoard.Proofs.Board
import CipherBoard.Proofs.Forms
import CipherBoard.TileMap
import CipherBoard.Tileset

namespace CipherBoard

open Json

/-! ## Section 1 — parts of ordered values -/

namespace Json

variable {v w i : Json} {name : String}

/-- The items of the array that is a member of a value. -/
def itemsOf (name : String) (v : Json) : List Json :=
  match v.member? name with
  | some (.array items) => items
  | _ => []

/-- What holds of the items of an array that is a member. -/
theorem forall_itemsOf_iff {P : Json → Prop}
    (hlist : ∀ w, v.member? name = some w → ∃ items, w = .array items) :
    (∀ w, v.member? name = some w → ∃ items, w = .array items ∧ ∀ i ∈ items, P i) ↔
      ∀ i ∈ v.itemsOf name, P i := by
  unfold itemsOf
  cases hmember : v.member? name with
  | none => simp
  | some w =>
    obtain ⟨items, rfl⟩ := hlist w hmember
    simp

theorem exists_of_mem_itemsOf (h : i ∈ v.itemsOf name) :
    ∃ items, v.member? name = some (.array items) ∧ i ∈ items := by
  unfold itemsOf at h
  split at h
  · rename_i items hmember
    exact ⟨items, hmember, h⟩
  · cases h

theorem Ordered.itemsOf (hordered : v.Ordered) (h : i ∈ v.itemsOf name) : i.Ordered := by
  obtain ⟨items, hmember, hi⟩ := exists_of_mem_itemsOf h
  cases hordered with
  | object _ hvalues =>
    cases hvalues _ (mem_of_lookup hmember) with
    | array hitems => exact hitems i hi
  | _ => cases hmember

namespace Shape

variable {required oneOf : List String} {fields : List (String × Shape)} {item : Shape}
  {least : Nat} {above : Option Int}

theorem text_member (name : String) (hshape : (record required oneOf fields).violations v = [])
    (hname : fields.lookup name = some text) :
    ∀ w, v.member? name = some w → ∃ s, w = .string s :=
  fun _ hw => violations_text.mp (violations_member hshape hname hw)

theorem number_member (name : String) (hshape : (record required oneOf fields).violations v = [])
    (hname : fields.lookup name = some (number above)) :
    ∀ w, v.member? name = some w → ∃ n, w = .number n := by
  intro w hw
  obtain ⟨n, hn, _⟩ := violations_number.mp (violations_member hshape hname hw)
  exact ⟨n, hn⟩

theorem array_member (name : String) (hshape : (record required oneOf fields).violations v = [])
    (hname : fields.lookup name = some (listOf least item)) :
    ∀ w, v.member? name = some w → ∃ items, w = .array items := by
  intro w hw
  obtain ⟨items, hitems, _⟩ := violations_listOf.mp (violations_member hshape hname hw)
  exact ⟨items, hitems⟩

/-- The items of a list of a shape have the shape of its items. -/
theorem violations_itemsOf (name : String)
    (hshape : (record required oneOf fields).violations v = [])
    (hname : fields.lookup name = some (listOf least item)) :
    ∀ i ∈ v.itemsOf name, item.violations i = [] := by
  intro i h
  obtain ⟨items, hmember, hi⟩ := exists_of_mem_itemsOf h
  obtain ⟨_, ⟨⟩, _, hitems⟩ := violations_listOf.mp (violations_member hshape hname hmember)
  exact hitems i hi

theorem arrayFrom_member (name : String)
    (hshape : (record required oneOf fields).violations v = [])
    (hname : fields.lookup name = some (listFrom least item)) :
    ∀ w, v.member? name = some w → ∃ items, w = .array items := by
  intro w hw
  obtain ⟨items, hitems, _⟩ := violations_listFrom.mp (violations_member hshape hname hw)
  exact ⟨items, hitems⟩

/-- The first item of a list of which only that has a shape. -/
theorem violations_firstItem (name : String)
    (hshape : (record required oneOf fields).violations v = [])
    (hname : fields.lookup name = some (listFrom least item)) :
    ∀ i ∈ (v.itemsOf name).take 1, item.violations i = [] := by
  intro i h
  obtain ⟨items, hmember, _⟩ := exists_of_mem_itemsOf (List.mem_of_mem_take h)
  obtain ⟨_, ⟨⟩, _, hfirst⟩ := violations_listFrom.mp (violations_member hshape hname hmember)
  rw [itemsOf, hmember] at h
  exact hfirst i h

end Shape

end Json

/-! ## Section 2 — shapes by name

The shape of a document holds those of its parts. -/

/-- What a tile has to look like. -/
def Tile.shape : Shape :=
  .record ["id"] ["type", "class"]
    [("class", .text), ("id", .integer (some 0) none), ("type", .text)]

/-- What a property has to look like. -/
def Property.shape : Shape :=
  .record ["name", "value"] [] [("name", .text), ("type", .text)]

/-- What the first layer has to look like. -/
def Layer.shape : Shape :=
  .record ["objects"] [] [("objects", .listOf 0 MapObject.shape)]

/-- What a reference to a tileset has to look like. -/
def firstNumberShape : Shape :=
  .record ["firstgid"] [] [("firstgid", .integer (some 1) none), ("source", .text)]

/-! ## Section 3 — what a shape does not see -/

/-- The number is written as a whole one and not beyond 32 bits. -/
def IsSmallWhole (v : Json) : Prop :=
  ∃ n : Int, v = .number (.whole n) ∧ n ≤ 0xffffffff

/-- The number of a tile is small and whole, and it has its class under one name. -/
structure Tile.Sound (tile : Json) : Prop where
  id : ∀ v, tile.member? "id" = some v → IsSmallWhole v
  oneClass : (tile.member? "class").isSome → tile.member? "type" = none

/-- Every tile of the tileset is sound. -/
def Tileset.Sound (v : Json) : Prop :=
  ∀ tile ∈ v.itemsOf "tiles", Tile.Sound tile

/-- The tile number of an object is written as a whole one. -/
def MapObject.Sound (o : Json) : Prop :=
  ∀ v, o.member? "gid" = some v → ∃ n : Int, v = .number (.whole n)

/-- The numbers of the references are small and whole, the objects of the first layer are sound,
and the other layers can be read. -/
structure TileMap.Sound (v : Json) : Prop where
  references : ∀ r ∈ v.itemsOf "tilesets", ∀ n, r.member? "firstgid" = some n → IsSmallWhole n
  objects : ∀ layer ∈ (v.itemsOf "layers").take 1, ∀ o ∈ layer.itemsOf "objects",
    MapObject.Sound o
  layers : ∀ layer ∈ (v.itemsOf "layers").drop 1, Layer.form.decode.Reads layer

/-! ## Section 4 — forms beside their shapes -/

theorem Tile.form_steady : Tile.form.Steady := by
  simp [Form.Steady, Form.ReadsField, Tile.form]

theorem Tileset.form_steady : Tileset.form.Steady := by
  simp [Form.Steady, Form.ReadsField, Tileset.form]

theorem Property.form_steady : Property.form.Steady := by
  simp [Form.Steady, Form.ReadsField, Property.form]

theorem MapObject.form_steady : MapObject.form.Steady := by
  simp [Form.Steady, Form.ReadsField, MapObject.form]

theorem Layer.form_steady : Layer.form.Steady := by
  simp [Form.Steady, Form.ReadsField, Layer.form]

theorem firstNumberForm_steady : firstNumberForm.Steady := by
  simp [Form.Steady, Form.ReadsField, firstNumberForm]

theorem TileMap.form_steady : TileMap.form.Steady := by
  simp [Form.Steady, Form.ReadsField, TileMap.form]

variable {v : Json}

/-- A tile of its shape is read if it is sound. -/
theorem Tile.reads_iff (hordered : v.Ordered) (hshape : Tile.shape.violations v = []) :
    Decoder.Reads Tile.form.decode v ↔ Tile.Sound v := by
  have hform : Decoder.Reads Tile.form.decode v ↔
      (∀ w, v.member? "id" = some w → w.IsUint32) ∧
        ((∀ w, v.member? "class" = some w → ∃ s, w = .string s) ∧
          ∀ w, v.member? "type" = some w → ∃ s, w = .string s) ∧
        ((v.member? "class").isSome → v.member? "type" = none) := by
    rw [Form.reads_iff_of_shape form_steady (by decide) (by decide) hordered hshape]
    simp [Tile.form, Field.names, Form.ReadsField]
  have hclass := Shape.text_member "class" hshape rfl
  have htype := Shape.text_member "type" hshape rfl
  have hid : (∀ w, v.member? "id" = some w → w.IsUint32) ↔
      ∀ w, v.member? "id" = some w → IsSmallWhole w :=
    forall₂_congr fun w hw =>
      Shape.isUint32_iff (Int.le_refl 0) (Shape.violations_member hshape rfl hw)
  rw [hform, hid]
  exact ⟨fun h => ⟨h.1, h.2.2⟩, fun h => ⟨h.id, ⟨hclass, htype⟩, h.oneClass⟩⟩

/-- A tileset of its shape is read if its tiles are sound. -/
theorem Tileset.reads_iff (hordered : v.Ordered) (hshape : Tileset.shape.violations v = []) :
    Decoder.Reads Tileset.form.decode v ↔ Tileset.Sound v := by
  have hwidth := Shape.number_member "tilewidth" hshape rfl
  have hheight := Shape.number_member "tileheight" hshape rfl
  have hlist := Shape.array_member "tiles" hshape rfl
  have htiles := Shape.violations_itemsOf "tiles" hshape rfl
  have hform : Decoder.Reads Tileset.form.decode v ↔
      (∀ w, v.member? "tilewidth" = some w → ∃ n, w = .number n) ∧
        (∀ w, v.member? "tileheight" = some w → ∃ n, w = .number n) ∧
        ∀ tile ∈ v.itemsOf "tiles", Decoder.Reads Tile.form.decode tile := by
    rw [Form.reads_iff_of_shape form_steady (by decide) (by decide) hordered hshape,
      ← forall_itemsOf_iff hlist]
    simp [Tileset.form, Field.names, Form.ReadsField]
  have hall : (∀ tile ∈ v.itemsOf "tiles", Decoder.Reads Tile.form.decode tile) ↔
      Tileset.Sound v :=
    forall₂_congr fun tile htile => Tile.reads_iff (hordered.itemsOf htile) (htiles tile htile)
  rw [hform, hall]
  exact ⟨fun h => h.2.2, fun h => ⟨hwidth, hheight, h⟩⟩

/-- A property of its shape is read. -/
theorem Property.reads_of_shape (hordered : v.Ordered)
    (hshape : Property.shape.violations v = []) : Decoder.Reads Property.form.decode v := by
  have hname := Shape.text_member "name" hshape rfl
  have htype := Shape.text_member "type" hshape rfl
  rw [Form.reads_iff_of_shape form_steady (by decide) (by decide) hordered hshape]
  simpa [Property.form, Field.names, Form.ReadsField] using ⟨hname, htype⟩

/-- An object of its shape is read if it is sound. -/
theorem MapObject.reads_iff (hordered : v.Ordered) (hshape : MapObject.shape.violations v = []) :
    Decoder.Reads MapObject.form.decode v ↔ MapObject.Sound v := by
  have hx := Shape.number_member "x" hshape rfl
  have hy := Shape.number_member "y" hshape rfl
  have hrotation := Shape.number_member "rotation" hshape rfl
  have hlist := Shape.array_member "properties" hshape rfl
  have hproperties := Shape.violations_itemsOf "properties" hshape rfl
  have hform : Decoder.Reads MapObject.form.decode v ↔
      (∀ w, v.member? "gid" = some w → w.IsUint32) ∧
        (∀ w, v.member? "x" = some w → ∃ n, w = .number n) ∧
        (∀ w, v.member? "y" = some w → ∃ n, w = .number n) ∧
        (∀ w, v.member? "rotation" = some w → ∃ n, w = .number n) ∧
        ∀ p ∈ v.itemsOf "properties", Decoder.Reads Property.form.decode p := by
    rw [Form.reads_iff_of_shape form_steady (by decide) (by decide) hordered hshape,
      ← forall_itemsOf_iff hlist]
    simp [MapObject.form, Field.names, Form.ReadsField]
  have hgid : (∀ w, v.member? "gid" = some w → w.IsUint32) ↔ MapObject.Sound v :=
    forall₂_congr fun w hw => Shape.isUint32_iff_whole (Shape.violations_member hshape rfl hw)
  have hall : ∀ p ∈ v.itemsOf "properties", Decoder.Reads Property.form.decode p :=
    fun p hp => Property.reads_of_shape (hordered.itemsOf hp) (hproperties p hp)
  rw [hform, hgid]
  exact ⟨fun h => h.1, fun h => ⟨h, hx, hy, hrotation, hall⟩⟩

/-- A layer of the first one's shape is read if its objects are sound. -/
theorem Layer.reads_iff (hordered : v.Ordered) (hshape : Layer.shape.violations v = []) :
    Decoder.Reads Layer.form.decode v ↔ ∀ o ∈ v.itemsOf "objects", MapObject.Sound o := by
  have hlist := Shape.array_member "objects" hshape rfl
  have hobjects := Shape.violations_itemsOf "objects" hshape rfl
  have hform : Decoder.Reads Layer.form.decode v ↔
      ∀ o ∈ v.itemsOf "objects", Decoder.Reads MapObject.form.decode o := by
    rw [Form.reads_iff_of_shape form_steady (by decide) (by decide) hordered hshape,
      ← forall_itemsOf_iff hlist]
    simp [Layer.form, Field.names, Form.ReadsField]
  rw [hform]
  exact forall₂_congr fun o ho =>
    MapObject.reads_iff (hordered.itemsOf ho) (hobjects o ho)

/-- A reference of its shape is read if its number is small and whole. -/
theorem firstNumber_reads_iff (hordered : v.Ordered)
    (hshape : firstNumberShape.violations v = []) :
    Decoder.Reads firstNumberForm.decode v ↔
      ∀ n, v.member? "firstgid" = some n → IsSmallWhole n := by
  have hform : Decoder.Reads firstNumberForm.decode v ↔
      ∀ n, v.member? "firstgid" = some n → n.IsUint32 := by
    rw [Form.reads_iff_of_shape firstNumberForm_steady (by decide) (by decide) hordered hshape]
    simp [firstNumberForm, Field.names, Form.ReadsField, ← Decoder.reads_uint32, Decoder.Reads]
  rw [hform]
  exact forall₂_congr fun n hn =>
    Shape.isUint32_iff Int.one_nonneg (Shape.violations_member hshape rfl hn)

/-- A map of its shape is read if it is sound. -/
theorem TileMap.reads_iff (hordered : v.Ordered) (hshape : TileMap.shape.violations v = []) :
    Decoder.Reads TileMap.form.decode v ↔ TileMap.Sound v := by
  have hlist := Shape.array_member "tilesets" hshape rfl
  have hreferences := Shape.violations_itemsOf "tilesets" hshape rfl
  have hlayers := Shape.arrayFrom_member "layers" hshape rfl
  have hfirst := Shape.violations_firstItem "layers" hshape rfl
  have hform : Decoder.Reads TileMap.form.decode v ↔
      (∀ r ∈ v.itemsOf "tilesets", Decoder.Reads firstNumberForm.decode r) ∧
        ∀ layer ∈ v.itemsOf "layers", Decoder.Reads Layer.form.decode layer := by
    rw [Form.reads_iff_of_shape form_steady (by decide) (by decide) hordered hshape,
      ← forall_itemsOf_iff hlist, ← forall_itemsOf_iff hlayers]
    simp [TileMap.form, Field.names, Form.ReadsField]
  have hallReferences : (∀ r ∈ v.itemsOf "tilesets", Decoder.Reads firstNumberForm.decode r) ↔
      ∀ r ∈ v.itemsOf "tilesets", ∀ n, r.member? "firstgid" = some n → IsSmallWhole n :=
    forall₂_congr fun r hr => firstNumber_reads_iff (hordered.itemsOf hr) (hreferences r hr)
  have hallObjects : (∀ layer ∈ (v.itemsOf "layers").take 1,
        Decoder.Reads Layer.form.decode layer) ↔
      ∀ layer ∈ (v.itemsOf "layers").take 1, ∀ o ∈ layer.itemsOf "objects", MapObject.Sound o :=
    forall₂_congr fun layer hlayer =>
      Layer.reads_iff (hordered.itemsOf (List.mem_of_mem_take hlayer)) (hfirst layer hlayer)
  -- The first layer has a shape; of the others it is only known whether they are read.
  rw [hform, hallReferences, ← List.take_append_drop 1 (v.itemsOf "layers"),
    List.forall_mem_append, hallObjects]
  exact ⟨fun h => ⟨h.1, h.2.1, h.2.2⟩, fun h => ⟨h.references, h.objects, h.layers⟩⟩

/-! ## Section 5 — documents -/

namespace DocumentKind

variable {α : Type} {kind : DocumentKind α} {sound : Json → Prop} {bytes : List UInt8}

theorem ofJson_of_violations_ne (h : kind.shape.violations v ≠ []) :
    kind.ofJson v = .error (.misshapen kind.name (kind.shape.violations v)) := by
  unfold ofJson
  split
  · exact absurd ‹_› h
  · rfl

theorem ofJson_of_violations_eq (h : kind.shape.violations v = []) :
    kind.ofJson v = (kind.decode v).mapError (.undecodable kind.name) := by
  rw [ofJson, h]

/-- A value stands for a record if it has the shape and can be read. -/
theorem exists_ofJson_iff : (∃ a, kind.ofJson v = .ok a) ↔
    kind.shape.violations v = [] ∧ kind.decode.Reads v := by
  unfold Decoder.Reads
  by_cases hshape : kind.shape.violations v = []
  · rw [ofJson_of_violations_eq hshape]
    cases kind.decode v <;> simp [hshape, Except.mapError]
  · simp [ofJson_of_violations_ne hshape, hshape]

/-- A value is undecodable if it has the shape and cannot be read. -/
theorem exists_undecodable_iff : (∃ e, kind.ofJson v = .error (.undecodable kind.name e)) ↔
    kind.shape.violations v = [] ∧ ¬ kind.decode.Reads v := by
  unfold Decoder.Reads
  by_cases hshape : kind.shape.violations v = []
  · rw [ofJson_of_violations_eq hshape]
    cases kind.decode v <;> simp [hshape, Except.mapError]
  · simp [ofJson_of_violations_ne hshape, hshape]

/-- How a document that was read as a value is reported. -/
structure Accounts (kind : DocumentKind α) (sound : Json → Prop) (bytes : List UInt8)
    (v : Json) : Prop where
  /-- One of the wrong shape is reported with everything that is wrong with it. -/
  misshapen : kind.shape.violations v ≠ [] →
    kind.ofBytes bytes = .error (.misshapen kind.name (kind.shape.violations v))
  /-- One of the right shape stands for a record if it is sound. -/
  exists_iff : (∃ a, kind.ofBytes bytes = .ok a) ↔ kind.shape.violations v = [] ∧ sound v
  /-- One of the right shape is undecodable if it is not sound, and no other one is. -/
  undecodable_iff : (∃ e, kind.ofBytes bytes = .error (.undecodable kind.name e)) ↔
    kind.shape.violations v = [] ∧ ¬ sound v

theorem accounts_of_reads_iff (hread : Json.read bytes = .ok v)
    (hreads : kind.shape.violations v = [] → (kind.decode.Reads v ↔ sound v)) :
    kind.Accounts sound bytes v := by
  have hbytes : kind.ofBytes bytes = kind.ofJson v := by rw [ofBytes, hread]
  refine ⟨fun hne => ?_, ?_, ?_⟩
  · rw [hbytes, ofJson_of_violations_ne hne]
  · rw [hbytes, exists_ofJson_iff]
    exact and_congr_right hreads
  · rw [hbytes, exists_undecodable_iff]
    exact and_congr_right fun hshape => not_congr (hreads hshape)

/-- The document has the right shape and does not stand for a record. -/
def LetsThrough (kind : DocumentKind α) (bytes : List UInt8) : Prop :=
  ∃ v e, Json.read bytes = .ok v ∧ kind.shape.violations v = [] ∧
    kind.ofBytes bytes = .error (.undecodable kind.name e)

/-- Whether a value of the right shape cannot be read. -/
def isOverlooked (kind : DocumentKind α) (v : Json) : Bool :=
  (kind.shape.violations v).isEmpty && failsWith (fun _ => true) (kind.decode v)

theorem letsThrough_iff :
    (Json.read bytes).toOption.any kind.isOverlooked = true ↔ kind.LetsThrough bytes := by
  unfold LetsThrough ofBytes
  cases Json.read bytes with
  | error e => simp [Except.toOption]
  | ok v =>
    by_cases hshape : kind.shape.violations v = []
    · cases hdecode : kind.decode v <;>
        simp [Except.toOption, isOverlooked, hshape, hdecode, failsWith,
          ofJson_of_violations_eq hshape, Except.mapError]
    · simp [Except.toOption, isOverlooked, hshape]

instance : Decidable (kind.LetsThrough bytes) :=
  decidable_of_iff _ letsThrough_iff

end DocumentKind

/-- **How documents are reported**, whatever is in them. One of the wrong shape is reported for its
shape, with everything that is wrong with it. One of the right shape stands for a tileset or a map,
unless a number is beyond 32 bits or written with a point, a tile has its class under both names,
or a layer behind the first cannot be read. -/
theorem documents_accounted {bytes : List UInt8} (h : Json.read bytes = .ok v) :
    Tileset.document.Accounts Tileset.Sound bytes v ∧
      TileMap.document.Accounts TileMap.Sound bytes v :=
  ⟨DocumentKind.accounts_of_reads_iff h (Tileset.reads_iff (ordered_of_read h)),
    DocumentKind.accounts_of_reads_iff h (TileMap.reads_iff (ordered_of_read h))⟩

/-- A tileset of one tile, with the text of that tile. -/
def oneTileDocument (tile : String) : List UInt8 :=
  ["\x7b\"tilewidth\":96,\"tileheight\":96,\"tiles\":[\x7b", tile, "\x7d]\x7d"].flatMap Word.ofText

/-- A map with one object, with the text of its reference, of that object, and of a second layer. -/
def oneObjectDocument (reference object layer : String) : List UInt8 :=
  ["\x7b\"tilesets\":[\x7b", reference, "\x7d],\"layers\":[\x7b\"objects\":[\x7b", object,
    "\x7d]\x7d,\x7b", layer, "\x7d]\x7d"].flatMap Word.ofText

/-- A tileset of one pipe. -/
def onePipeDocument : List UInt8 :=
  oneTileDocument "\"id\":0,\"class\":\"pipe\""

/-- The tileset of one pipe is sound, and as a map it has the wrong shape. -/
theorem onePipe_accounted : ∃ v, Json.read onePipeDocument = .ok v ∧ Tileset.Sound v ∧
    TileMap.document.ofBytes onePipeDocument =
      .error (.misshapen "map" (TileMap.shape.violations v)) := by
  obtain ⟨v, hv, hmap⟩ := exists_ok_of_any (e := Json.read onePipeDocument)
    (p := fun v => !(TileMap.shape.violations v).isEmpty) (by decide +kernel)
  obtain ⟨t, ht, _⟩ := exists_ok_of_any (e := Tileset.document.ofBytes onePipeDocument)
    (p := fun _ => true) (by decide +kernel)
  obtain ⟨htileset, hother⟩ := documents_accounted hv
  refine ⟨v, hv, (htileset.exists_iff.mp ⟨t, ht⟩).2, hother.misshapen fun hnone => ?_⟩
  rw [show TileMap.shape.violations v = [] from hnone] at hmap
  cases hmap

/-- What the shapes let through: numbers beyond 32 bits and with a point, a class under two names,
and a second layer with an object without a tile. -/
theorem unsound_let_through :
    (∀ tile ∈ ["\"id\":4294967296,\"class\":\"pipe\"", "\"id\":1.0,\"class\":\"pipe\"",
        "\"id\":0,\"class\":\"pipe\",\"type\":\"pipe\""],
      Tileset.document.LetsThrough (oneTileDocument tile)) ∧
    ∀ texts ∈ [("\"firstgid\":4294967296", "\"gid\":1,\"x\":0,\"y\":96", ""),
        ("\"firstgid\":1.0", "\"gid\":1,\"x\":0,\"y\":96", ""),
        ("\"firstgid\":1", "\"gid\":1.0,\"x\":0,\"y\":96", ""),
        ("\"firstgid\":1", "\"gid\":1,\"x\":0,\"y\":96", "\"objects\":[\x7b\x7d]")],
      TileMap.document.LetsThrough (oneObjectDocument texts.1 texts.2.1 texts.2.2) := by
  decide +kernel

end CipherBoard
