/-
CipherBoard.Level — levels as they are drawn.

A level is a map over a tileset. Its first layer is read object by object: the class of an
object's tile says whether it holds the settings, a hint or a piece (`Entry`). What is wrong
with an object is reported in the order of the objects; what is wrong with the level as a whole,
after that.

`Level.layout` reads a map, `Level.layoutOfBytes` a document, and `Level.board` builds the board
of a document.
-/
import CipherBoard.Build
import CipherBoard.Text.Blank
import CipherBoard.TileMap
import CipherBoard.Tileset

namespace CipherBoard

/-- Why a map is no level. -/
inductive LevelError where
  | document (e : DocumentError)
  | nothingToRead
  | unknownTile (tileNumber : Nat) (pos : Point)
  | unsupportedRotation (object : Label) (degrees : Float)
  | duplicateSettings (object : Label)
  | missingSettings
  | emptyKeywords (object : Label)
  | keywordCount (found : Int) (available : Nat)
  | invalidKeyword (keyword : String)
  | verticalFlip (object : Label)
  | missingCondition (object : Label)
  | inputCount (found : Nat)
  deriving Repr

namespace LevelError

/-- The error in words. -/
def message : LevelError → String
  | document e => e.message
  | nothingToRead => "map has no tileset reference or object layer"
  | unknownTile tileNumber pos => s!"{pos.text}: gid {tileNumber} does not name a tileset tile"
  | unsupportedRotation object degrees =>
    s!"{object.text}: unsupported rotation {Decimal.positional degrees}"
  | duplicateSettings object => s!"{object.text}: found more than one settings element"
  | missingSettings => "level has no settings element"
  | emptyKeywords object => s!"{object.text}: settings.keywords property is empty"
  | keywordCount found available =>
    s!"settings.num_keywords must be within 1..={available}, found {found}"
  | invalidKeyword keyword => s!"keyword '{keyword}' must consist of lowercase a-z letters only"
  | verticalFlip object => s!"{object.text}: vertical flipping is obsolete"
  | missingCondition object => s!"{object.text}: elem_if cond property is empty"
  | inputCount found => inputCountMessage found

/-- The errors behind the error, outermost first. -/
def causes : LevelError → List String
  | document e => e.causes
  | _ => []

end LevelError

/-- Why a document does not become a board. -/
inductive PlayError where
  | level (e : LevelError)
  | build (e : BuildError)
  deriving Repr

namespace PlayError

/-- The error in words. -/
def message : PlayError → String
  | level e => e.message
  | build e => e.message

/-- The errors behind the error, outermost first. -/
def causes : PlayError → List String
  | level e => e.causes
  | build e => e.causes

end PlayError

namespace Level

/-! ## Objects -/

/-- The way from the lower left corner of an unturned tile to that of the turned one. -/
def pivot (tileset : Tileset) (rotation : Float) : Point :=
  let degrees := Decimal.wholePart rotation
  if degrees = 90 then ⟨0, tileset.tileHeight⟩
  else if degrees = 180 then ⟨-tileset.tileWidth, tileset.tileHeight⟩
  else if degrees = 270 then ⟨-tileset.tileWidth, 0⟩
  else .zero

/-- The centre of an object's tile. -/
def centre (tileset : Tileset) (o : MapObject) : Point :=
  (⟨o.pos.x + tileset.tileWidth / 2, o.pos.y - tileset.tileHeight / 2⟩ : Point) +
    pivot tileset o.rotation

/-- The words of a keyword text: its lines, all without the blanks around them. -/
def keywordsOf (text : String) : List String :=
  (Text.lines (Text.trim text.toList)).map fun line => String.ofList (Text.trim line)

/-- Whether a keyword text holds nothing but blanks. -/
def isEmptyText (text : String) : Bool :=
  (Text.trim text.toList).isEmpty

/-- Whether a keyword is a word over `a` … `z`. -/
def isKeyword (word : String) : Bool :=
  !word.isEmpty && word.toList.all fun c => 'a' ≤ c && c ≤ 'z'

/-- What an object of the given class carries as a piece. -/
def payload (o : MapObject) (object : Label) : Except LevelError Payload :=
  let className := object.className
  if className = "angle_pipe" ∨ className = "special_angle_pipe" then
    if o.flippedVertically then .error (.verticalFlip object)
    else .ok (.bend o.flippedHorizontally)
  else if className = "elem_if" ∨ className = "elem_ifnot" then
    let kind := o.textProperty "cond_kind" ""
    if kind.isEmpty then .error (.missingCondition object)
    else
      .ok (.condition
        { kind, text := o.textProperty "string_arg" "", number := o.intProperty "int_arg" 0 })
  else
    match countdownStart? className with
    | some start => .ok (.countdown start)
    | none => .ok .none

/-- An object as a piece. -/
def placement (o : MapObject) (object : Label) : Except LevelError Placement :=
  match QuarterTurn.ofDegrees? o.rotation with
  | none => .error (.unsupportedRotation object o.rotation)
  | some turn =>
    (payload o object).map fun payload =>
      { className := object.className, pos := object.pos, turn, payload }

/-- What an object of a level is. -/
inductive Entry where
  | settings (requiredCount : Int) (keywords : List String)
  | hint (h : Hint)
  | piece (p : Placement)
  deriving Repr

/-- The class of the settings object. -/
def settingsClass : String := "settings"

/-- The class of a hint. -/
def hintClass : String := "hint"

/-- The class of the piece at which signals enter. -/
def inputClass : String := "elem_input"

/-- The tile that an object shows, in a map that counts the tiles of its tileset from
`firstNumber`. -/
def tile? (tileset : Tileset) (firstNumber : Nat) (o : MapObject) : Option Tile :=
  if firstNumber ≤ o.tileNumber then tileset.tile? (o.tileNumber - firstNumber) else none

/-- Reads an object. `settled` says that an earlier one held the settings. -/
def entry (tileset : Tileset) (firstNumber : Nat) (settled : Bool) (o : MapObject) :
    Except LevelError Entry :=
  match tile? tileset firstNumber o with
  | none => .error (.unknownTile o.tileNumber o.pos)
  | some tile =>
    let object : Label := ⟨tile.className, centre tileset o⟩
    if tile.className = settingsClass then
      let text := o.textProperty "keywords" ""
      if settled then .error (.duplicateSettings object)
      else if isEmptyText text then .error (.emptyKeywords object)
      else .ok (.settings (o.intProperty "num_keywords" 0) (keywordsOf text))
    else if tile.className = hintClass then .ok (.hint ⟨o.textProperty "text" "", o.pos⟩)
    else (placement o object).map .piece

/-- Whether an entry holds the settings. -/
def Entry.isSettings : Entry → Bool
  | .settings _ _ => true
  | _ => false

/-- Reads objects in order, up to the first with a fault. -/
def entries (tileset : Tileset) (firstNumber : Nat) (settled : Bool) :
    List MapObject → Except LevelError (List Entry)
  | [] => .ok []
  | o :: rest =>
    match entry tileset firstNumber settled o with
    | .error e => .error e
    | .ok e => (entries tileset firstNumber (settled || e.isSettings) rest).map (e :: ·)

/-! ## Levels -/

/-- The pieces among entries. -/
def pieces (es : List Entry) : List Placement :=
  es.filterMap fun e =>
    match e with
    | .piece p => some p
    | _ => none

/-- The hints among entries. -/
def hints (es : List Entry) : List Hint :=
  es.filterMap fun e =>
    match e with
    | .hint h => some h
    | _ => none

/-- The settings among entries. -/
def settings? (es : List Entry) : Option (Int × List String) :=
  es.findSome? fun e =>
    match e with
    | .settings requiredCount keywords => some (requiredCount, keywords)
    | _ => none

/-- Puts entries together to a layout. -/
def assemble (tileset : Tileset) (es : List Entry) : Except LevelError Layout :=
  let placements := pieces es
  let inputs := placements.countP (·.className = inputClass)
  if inputs ≠ 1 then .error (.inputCount inputs)
  else
    match settings? es with
    | none => .error .missingSettings
    | some (requiredCount, keywords) =>
      match keywords.find? (!isKeyword ·) with
      | some bad => .error (.invalidKeyword bad)
      | none =>
        if 1 ≤ requiredCount ∧ requiredCount ≤ keywords.length then
          .ok
            { tileWidth := tileset.tileWidth, tileHeight := tileset.tileHeight, placements,
              requiredCount := requiredCount.toNat, keywords, hints := hints es }
        else .error (.keywordCount requiredCount keywords.length)

/-- Reads the first layer of a map, over the tileset to which the map refers first. -/
def layout (tileset : Tileset) (map : TileMap) : Except LevelError Layout :=
  match map.firstNumbers, map.layers with
  | firstNumber :: _, layer :: _ =>
    match entries tileset firstNumber false layer.objects with
    | .error e => .error e
    | .ok es => assemble tileset es
  | _, _ => .error .nothingToRead

/-- Reads a level document. -/
def layoutOfBytes (tileset : Tileset) (bytes : List UInt8) : Except LevelError Layout :=
  match TileMap.document.ofBytes bytes with
  | .error e => .error (.document e)
  | .ok map => layout tileset map

/-- Reads a level document and builds its board, with the upper left corner at the origin. -/
def board (tileset : Tileset) (bytes : List UInt8) (limit : Nat) : Except PlayError Board :=
  match layoutOfBytes tileset bytes with
  | .error e => .error (.level e)
  | .ok l => (l.build .zero limit).mapError .build

end Level

end CipherBoard
