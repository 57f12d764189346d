/-
CipherBoard.Tileset — the tiles from which levels are laid.

A tileset gives the size of a tile and the class of each tile by its number. Where two tiles
have one number, the first counts.
-/
import CipherBoard.Document

namespace CipherBoard

/-- A tile: its number and its class. -/
structure Tile where
  id : Nat
  className : String
  deriving DecidableEq, Repr

/-- A tileset. -/
structure Tileset where
  tileWidth : Float
  tileHeight : Float
  tiles : List Tile
  deriving Repr

/-- The tile of a number. -/
def Tileset.tile? (t : Tileset) (id : Nat) : Option Tile :=
  t.tiles.find? (·.id = id)

open Json

/-- A tile in a document. The class goes by two names. -/
def Tile.form : Form Tile where
  title := "struct Tile"
  fields := [⟨"id", none, false⟩, ⟨"class", some "type", false⟩]
  blank := ⟨0, ""⟩
  fill
    | "id", v, t => (Decoder.uint32 v).map fun id => { t with id }
    | "class", v, t => (Decoder.text v).map fun className => { t with className }
    | _, _, t => .ok t

/-- A tileset in a document. -/
def Tileset.form : Form Tileset where
  title := "struct Tileset"
  fields :=
    [⟨"tilewidth", none, false⟩, ⟨"tileheight", none, false⟩, ⟨"tiles", none, false⟩]
  blank := ⟨0, 0, []⟩
  fill
    | "tilewidth", v, t => (Decoder.float v).map fun tileWidth => { t with tileWidth }
    | "tileheight", v, t => (Decoder.float v).map fun tileHeight => { t with tileHeight }
    | "tiles", v, t => (Decoder.list Tile.form.decode v).map fun tiles => { t with tiles }
    | _, _, t => .ok t

/-- What a tileset has to look like. -/
def Tileset.shape : Shape :=
  .record ["tilewidth", "tileheight", "tiles"] []
    [("tileheight", .number (some 0)),
     ("tiles", .listOf 0 (.record ["id"] ["type", "class"]
       [("class", .text), ("id", .integer (some 0) none), ("type", .text)])),
     ("tilewidth", .number (some 0))]

/-- Tileset documents. -/
def Tileset.document : DocumentKind Tileset :=
  ⟨"tileset", Tileset.shape, Tileset.form.decode⟩

end CipherBoard
