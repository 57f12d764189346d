/-
CipherBoard.TileMap — the maps on which levels are drawn.

A map refers to tilesets and has layers of objects. An object shows a tile, named by a number in
which the three highest bits say how the tile is flipped (`MapObject.tileNumber` is what is left
without them), and carries properties; where two properties have one name, the first counts.
-/
import CipherBoard.Document
import CipherBoard.Place

namespace CipherBoard

/-- A property of an object: its name, the name of its type, and a value of any kind. -/
structure Property where
  name : String
  type : String
  value : Json
  deriving Repr

/-- An object of a map. `pos` is its lower left corner before it is turned. -/
structure MapObject where
  gid : Nat
  pos : Point
  rotation : Float
  properties : List Property
  deriving Repr

/-- A layer of a map. -/
structure Layer where
  objects : List MapObject
  deriving Repr

/-- A map: the first tile number of each of its tilesets, and its layers. -/
structure TileMap where
  firstNumbers : List Nat
  layers : List Layer
  deriving Repr

namespace MapObject

/-- The bit that says that a tile is flipped from left to right. -/
def horizontalFlip : Nat := 0x80000000

/-- The bit that says that a tile is flipped upside down. -/
def verticalFlip : Nat := 0x40000000

/-- The bit that says that a tile is flipped along its diagonal. -/
def diagonalFlip : Nat := 0x20000000

/-- The number of the tile, without the bits for flipping. -/
def tileNumber (o : MapObject) : Nat :=
  o.gid % diagonalFlip

/-- Whether the tile is flipped from left to right. -/
def flippedHorizontally (o : MapObject) : Bool :=
  o.gid / horizontalFlip % 2 == 1

/-- Whether the tile is flipped upside down. -/
def flippedVertically (o : MapObject) : Bool :=
  o.gid / verticalFlip % 2 == 1

/-- Whether the tile is flipped along its diagonal. -/
def flippedDiagonally (o : MapObject) : Bool :=
  o.gid / diagonalFlip % 2 == 1

/-- The value of a property. -/
def property? (o : MapObject) (name : String) : Option Json :=
  (o.properties.find? (·.name = name)).map (·.value)

/-- The text of a property, or `default` if it is missing or no text. -/
def textProperty (o : MapObject) (name default : String) : String :=
  ((o.property? name).bind Json.text?).getD default

/-- The whole number of a property, or `default` if it is missing or no whole number of 64 bits. -/
def intProperty (o : MapObject) (name : String) (default : Int) : Int :=
  ((o.property? name).bind Json.int64?).getD default

end MapObject

open Json

/-- A property in a document. -/
def Property.form : Form Property where
  title := "struct Property"
  fields := [⟨"name", none, false⟩, ⟨"type", none, true⟩, ⟨"value", none, false⟩]
  blank := ⟨"", "", .null⟩
  fill
    | "name", v, p => (Decoder.text v).map fun name => { p with name }
    | "type", v, p => (Decoder.text v).map fun type => { p with type }
    | "value", v, p => .ok { p with value := v }
    | _, _, p => .ok p

/-- An object in a document. -/
def MapObject.form : Form MapObject where
  title := "struct TiledObject"
  fields := [⟨"gid", none, false⟩, ⟨"x", none, false⟩, ⟨"y", none, false⟩,
    ⟨"rotation", none, true⟩, ⟨"properties", none, true⟩]
  blank := ⟨0, .zero, 0, []⟩
  fill
    | "gid", v, o => (Decoder.uint32 v).map fun gid => { o with gid }
    | "x", v, o => (Decoder.float v).map fun x => { o with pos := { o.pos with x } }
    | "y", v, o => (Decoder.float v).map fun y => { o with pos := { o.pos with y } }
    | "rotation", v, o => (Decoder.float v).map fun rotation => { o with rotation }
    | "properties", v, o =>
      (Decoder.list Property.form.decode v).map fun properties => { o with properties }
    | _, _, o => .ok o

/-- A layer in a document. -/
def Layer.form : Form Layer where
  title := "struct Layer"
  fields := [⟨"objects", none, true⟩]
  blank := ⟨[]⟩
  fill
    | "objects", v, _ => (Decoder.list MapObject.form.decode v).map fun objects => { objects }
    | _, _, l => .ok l

/-- A reference to a tileset in a document: the number of its first tile. -/
def firstNumberForm : Form Nat where
  title := "struct TilesetRef"
  fields := [⟨"firstgid", none, false⟩]
  blank := 0
  fill
    | "firstgid", v, _ => Decoder.uint32 v
    | _, _, n => .ok n

/-- A map in a document. -/
def TileMap.form : Form TileMap where
  title := "struct TiledMap"
  fields := [⟨"tilesets", none, false⟩, ⟨"layers", none, false⟩]
  blank := ⟨[], []⟩
  fill
    | "tilesets", v, m =>
      (Decoder.list firstNumberForm.decode v).map fun firstNumbers => { m with firstNumbers }
    | "layers", v, m => (Decoder.list Layer.form.decode v).map fun layers => { m with layers }
    | _, _, m => .ok m

/-- What an object has to look like. -/
def MapObject.shape : Shape :=
  .record ["gid", "x", "y"] []
    [("gid", .integer (some 0) (some 4294967295)),
     ("properties", .listOf 0 (.record ["name", "value"] []
       [("name", .text), ("type", .text)])),
     ("rotation", .number none), ("x", .number none), ("y", .number none)]

/-- What a map has to look like. Of its layers only the first is looked at. -/
def TileMap.shape : Shape :=
  .record ["tilesets", "layers"] []
    [("layers", .listFrom 1 (.record ["objects"] [] [("objects", .listOf 0 MapObject.shape)])),
     ("tilesets", .listOf 1 (.record ["firstgid"] []
       [("firstgid", .integer (some 1) none), ("source", .text)]))]

/-- Map documents. -/
def TileMap.document : DocumentKind TileMap :=
  ⟨"map", TileMap.shape, TileMap.form.decode⟩

end CipherBoard
