/-
CipherBoard.CommandLine.Setup — the settings of a run, and the files they name.

Paths in a file of settings are seen from the directory of that file; paths among the arguments
are taken as they are, and count before those of the settings.
-/
import CipherBoard.CommandLine.Report

namespace CipherBoard.CommandLine

/-- Settings, and the directory from which their paths are seen. -/
structure Setup where
  settings : Settings
  base : String
  deriving Repr

variable {m : Type → Type} [Monad m]

namespace Setup

/-- Reads the settings in a file. Without that file everything is as if it were empty. -/
def load (files : FileAccess m) (config : String) : m (Except CommandError Setup) := do
  let base := PathName.parent config
  if ← files.isPresent config then
    match ← files.read config with
    | .error e => return .error (.unreadableConfig config e)
    | .ok bytes =>
      match Settings.ofBytes bytes with
      | .error e => return .error (.unusableConfig config e)
      | .ok settings => return .ok { settings, base }
  else return .ok { settings := {}, base }

/-- A path that was given, or else the one of the settings as seen from their directory. -/
def choose (s : Setup) (given configured : Option String) : Option String :=
  given.or (configured.map (PathName.join s.base))

/-- The path of the tileset. -/
def tilesetPath (s : Setup) (given : Option String) : Except CommandError String :=
  match s.choose given s.settings.tileset with
  | some path => .ok path
  | none => .error .noTileset

/-- The directory of levels. -/
def directory (s : Setup) (given : Option String) : Except CommandError String :=
  match s.choose given s.settings.customLevels with
  | some path => .ok path
  | none => .error .noDirectory

/-- Reads the tileset. -/
def tileset (s : Setup) (files : FileAccess m) (given : Option String) :
    m (Except CommandError Tileset) := do
  match s.tilesetPath given with
  | .error e => return .error e
  | .ok path => return (← files.tileset path).mapError (.file "decode")

/-- Builds the board of a level. -/
def board (s : Setup) (files : FileAccess m) (given : Option String) (file : String) :
    m (Except CommandError Board) := do
  match ← s.tileset files given with
  | .error e => return .error e
  | .ok tileset =>
    return (← files.board tileset s.settings.limit file).mapError (.file "build")

end Setup

end CipherBoard.CommandLine
