/-
CipherBoard.Main — the program `mapcheck`.

Everything that the program decides is decided in `CommandLine.execute`; this module gives it the
files of the machine and writes what it reports.
-/
import CipherBoard.CommandLine.Commands

namespace CipherBoard.Machine

/-- The refusal with a number, which may come with a minus. The words are the machine's where the
library has none of its own. -/
def numbered (code : UInt32) (text : String) : SystemError :=
  let number := min code.toNat (0x100000000 - code.toNat)
  (SystemError.known.find? fun e => e.code = some number).getD ⟨text, some number⟩

/-- The words and the number of the machine's refusal. -/
def systemError : IO.Error → SystemError
  | .noFileOrDirectory _ code text => numbered code text
  | .inappropriateType _ code text => numbered code text
  | .invalidArgument _ code text => numbered code text
  | .permissionDenied _ code text => numbered code text
  | .resourceExhausted _ code text => numbered code text
  | .noSuchThing _ code text => numbered code text
  | .hardwareFault code text => numbered code text
  | .otherError code text => numbered code text
  | e => ⟨toString e, none⟩

/-- What comes of a request to the machine. -/
def requested {α : Type} (request : IO α) : IO (Except SystemError α) := do
  match ← request.toBaseIO with
  | .ok result => return .ok result
  | .error e => return .error (systemError e)

/-- The files of the machine. -/
def files : FileAccess IO where
  read path := do
    let full := (← IO.currentDir) / path
    match SystemError.ofPath? path with
    | some e => return .error e
    | none =>
      if ← full.isDir then return .error .isDirectory
      else requested do return (← IO.FS.readBinFile full).toList
  list path := do
    let full := (← IO.currentDir) / path
    match SystemError.ofPath? path with
    | some e => return .error e
    | none => requested do return (← full.readDir).toList.map (·.fileName)
  isPresent path := do
    let full := (← IO.currentDir) / path
    return (SystemError.ofPath? path).isNone && (← full.pathExists)
  isFile path := do
    let full := (← IO.currentDir) / path
    return (SystemError.ofPath? path).isNone && (← full.pathExists) && !(← full.isDir)

end CipherBoard.Machine

/-- Does what the arguments ask for. -/
def main (arguments : List String) : IO UInt32 := do
  let report ← CipherBoard.CommandLine.execute CipherBoard.Machine.files arguments
  IO.print report.stdout
  IO.eprint report.stderr
  return UInt32.ofNat report.code
