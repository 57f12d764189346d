/-
CipherBoard.Catalogue — level files, and the levels of a directory.

A catalogue says of every level file directly in a directory whether it can be played, and if
not, why. Level files are known by their extensions; other files and directories are passed
over. A directory that does not exist has no levels.

A level whose board breaks on one of its own keywords is no level that is merely rejected: it ends
the catalogue (`FileError.break?`).
-/
import CipherBoard.Disk
import CipherBoard.Level
import CipherBoard.PathName

namespace CipherBoard

/-- What went wrong with a file. -/
inductive FileError where
  /-- A request to the file system was refused: what was asked for, and of which path. -/
  | refused (request path : String) (e : SystemError)
  | tileset (path : String) (e : DocumentError)
  /-- A level that cannot be played. -/
  | level (path : String) (e : PlayError)
  deriving Repr

namespace FileError

/-- The error in words, and the errors behind it, outermost first. -/
def chain : FileError → List String
  | refused request path e => [s!"{request} {path}", e.message]
  | tileset path e => s!"decode tileset {path}" :: e.message :: e.causes
  | level _ e => e.message :: e.causes

/-- The chain of an error, where one of a level says first what was being done with it. -/
def chainDuring (action : String) : FileError → List String
  | level path e => s!"{action} {path}" :: (level path e).chain
  | e => e.chain

/-- What broke, if the error is that a board broke on a keyword. -/
def break? : FileError → Option Break
  | level _ (.build (.broken b)) => some b
  | _ => none

end FileError

/-- Errors one behind the other in one line. -/
def chained (chain : List String) : String :=
  ": ".intercalate chain

/-- The playable levels of a directory, and the others with what is wrong with them. -/
structure Catalogue where
  accepted : List String := []
  rejected : List (String × FileError) := []
  deriving Repr

namespace Catalogue

/-- The extensions of level files. -/
def levelExtensions : List String := ["json", "tmj"]

/-- Whether a name is that of a level file. -/
def isLevelName (name : String) : Bool :=
  (PathName.extension? name).any (levelExtensions.contains ·)

/-- Puts a playable level in front. -/
def accept (c : Catalogue) (path : String) : Catalogue :=
  { c with accepted := path :: c.accepted }

/-- Puts a level that cannot be played in front. -/
def reject (c : Catalogue) (path : String) (e : FileError) : Catalogue :=
  { c with rejected := (path, e) :: c.rejected }

end Catalogue

variable {m : Type → Type} [Monad m]

namespace FileAccess

/-- Reads a tileset. -/
def tileset (files : FileAccess m) (path : String) : m (Except FileError Tileset) := do
  match ← files.read path with
  | .error e => return .error (.refused "read tileset" path e)
  | .ok bytes => return (Tileset.document.ofBytes bytes).mapError (.tileset path)

/-- Reads the bytes of a level. -/
def level (files : FileAccess m) (path : String) : m (Except FileError (List UInt8)) := do
  return (← files.read path).mapError (.refused "read level" path)

/-- Builds the board of a level. -/
def board (files : FileAccess m) (tileset : Tileset) (limit : Nat) (path : String) :
    m (Except FileError Board) := do
  match ← files.level path with
  | .error e => return .error e
  | .ok bytes => return (Level.board tileset bytes limit).mapError (.level path)

/-- The level files directly in a directory, in the order of their names. -/
def levelFiles (files : FileAccess m) (directory : String) :
    m (Except FileError (List String)) := do
  match ← files.list directory with
  | .error e => return .error (.refused "read directory" directory e)
  | .ok names =>
    let paths := (names.filter Catalogue.isLevelName).map (PathName.join directory)
    let found ← paths.filterM files.isFile
    return .ok (found.mergeSort fun a b => decide (a ≤ b))

/-- The catalogue of level files in order. -/
def catalogueOf (files : FileAccess m) (tileset : Tileset) (limit : Nat) :
    List String → m (Except FileError Catalogue)
  | [] => return .ok {}
  | path :: rest => do
    match ← files.board tileset limit path with
    | .ok _ => return (← files.catalogueOf tileset limit rest).map (·.accept path)
    | .error e =>
      if e.break?.isSome then return .error e
      else return (← files.catalogueOf tileset limit rest).map (·.reject path e)

/-- The catalogue of a directory. -/
def catalogue (files : FileAccess m) (tileset : Tileset) (limit : Nat) (directory : String) :
    m (Except FileError Catalogue) := do
  if ← files.isPresent directory then
    match ← files.levelFiles directory with
    | .error e => return .error e
    | .ok paths => files.catalogueOf tileset limit paths
  else return .ok {}

end FileAccess

end CipherBoard
