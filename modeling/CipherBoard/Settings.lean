/-
CipherBoard.Settings — the settings of the command line.

Settings are three entries of a TOML document, each of which may be missing; everything else in
the document is skipped, but the document has to be well-formed as a whole. A document that is
read can still hold settings that make no sense (`Settings.complaint?`).
-/
import CipherBoard.Signal
import CipherBoard.Toml.Reader

namespace CipherBoard

/-- The settings: the tileset of the levels, the directory of custom levels, and the step limit
of every run. -/
structure Settings where
  tileset : Option String := none
  customLevels : Option String := none
  limit : Nat := defaultLimit
  deriving DecidableEq, Repr

/-- Why a document holds no settings. -/
inductive SettingsError where
  /-- The bytes are no text. -/
  | notText
  /-- The text is no TOML, or an entry has a value of the wrong type. -/
  | malformed
  /-- The settings make no sense. -/
  | senseless (complaint : String)
  deriving DecidableEq, Repr

namespace Settings

/-- The greatest step limit that can be set. -/
def greatestLimit : Nat := 0xffffffffffffffff

/-- The value of an entry that holds a text, if there is one: the outer none is a value of
another type. -/
def textEntry (name : String) (entries : List (String × Toml.Node)) : Option (Option String) :=
  match entries.lookup name with
  | none => some none
  | some (.value (.string s)) => some (some s)
  | some _ => none

/-- The value of the entry that holds the step limit. -/
def limitEntry (name : String) (entries : List (String × Toml.Node)) : Option Nat :=
  match entries.lookup name with
  | none => some defaultLimit
  | some (.value (.integer n)) =>
    if 0 ≤ n ∧ n ≤ greatestLimit then some n.toNat else none
  | some _ => none

/-- The settings in a document. -/
def ofNode? : Toml.Node → Option Settings
  | .table _ entries => do
    let tileset ← textEntry "tileset" entries
    let customLevels ← textEntry "custom_levels_dir" entries
    let limit ← limitEntry "max_steps" entries
    some { tileset, customLevels, limit }
  | _ => none

/-- What makes no sense about settings, if anything does. -/
def complaint? (s : Settings) : Option String :=
  if s.limit = 0 then some "max_steps must be > 0"
  else if s.tileset = some "" then some "tileset must be a non-empty path"
  else none

/-- Reads a document of settings. -/
def ofBytes (bytes : List UInt8) : Except SettingsError Settings :=
  match Text.decode? bytes with
  | none => .error .notText
  | some text =>
    match (Toml.read text).bind ofNode? with
    | none => .error .malformed
    | some settings =>
      match settings.complaint? with
      | some complaint => .error (.senseless complaint)
      | none => .ok settings

end Settings

end CipherBoard
