/-
CipherBoard.CommandLine.Report — what a command leaves behind.

A report is an exit code and the lines written to the two outputs. The exit code is zero exactly
when nothing was wrong (`Report.accepted`, `Report.rejected`); a line of arguments that is refused
and a run that breaks have codes of their own.
-/
import CipherBoard.Catalogue
import CipherBoard.CommandLine.Arguments
import CipherBoard.Settings

namespace CipherBoard.CommandLine

/-! ## Errors -/

/-- Why a command gives up. -/
inductive CommandError where
  /-- The file of settings cannot be read. -/
  | unreadableConfig (path : String) (e : SystemError)
  /-- The file of settings holds none. -/
  | unusableConfig (path : String) (e : SettingsError)
  | noTileset
  | noDirectory
  /-- Something is wrong with a file; `action` is what was being done. -/
  | file (action : String) (e : FileError)
  | run (e : RunError)
  deriving Repr

namespace CommandError

/-- The error in words, and the errors behind it, outermost first. -/
def chain : CommandError → List String
  | unreadableConfig path e => [s!"read {path}", e.message]
  | unusableConfig path .notText => [s!"read {path}", "stream did not contain valid UTF-8"]
  | unusableConfig path .malformed => [s!"parse {path}", "no table of settings"]
  | unusableConfig path (.senseless complaint) => [s!"validate {path}", complaint]
  | noTileset => ["no tileset given (pass --tileset or set `tileset` in the config)"]
  | noDirectory => ["no directory given (pass one or set `custom_levels_dir` in the config)"]
  | file action e => e.chainDuring action
  | run e => [e.message]

/-- What broke, if the error is that a board broke. -/
def break? : CommandError → Option Break
  | file _ e => e.break?
  | run (.broken b) => some b
  | _ => none

end CommandError

/-! ## Reports -/

/-- What a command leaves behind: its exit code, and the lines of the two outputs. -/
structure Report where
  code : Nat
  out : List String
  err : List String
  deriving DecidableEq, Repr

namespace Report

/-- The exit code of a command that found nothing wrong. -/
def accepted : Nat := 0

/-- The exit code of a command that found something wrong. -/
def rejected : Nat := 1

/-- The exit code for arguments that are refused. -/
def refused : Nat := 2

/-- The exit code of a command that broke off. -/
def brokenOff : Nat := 101

/-- A command that wrote some lines and found nothing wrong. -/
def good (out : List String) : Report where
  code := accepted
  out := out
  err := []

/-- A command that broke off. -/
def broken (b : Break) : Report where
  code := brokenOff
  out := []
  err := [b.message]

/-- A command that gave up. -/
def failed (e : CommandError) : Report :=
  match e.break? with
  | some b => broken b
  | none => { code := rejected, out := [], err := [chained e.chain] }

/-- The report behind lines that were written before. -/
def behind (r : Report) (out err : List String) : Report where
  code := r.code
  out := out ++ r.out
  err := err ++ r.err

/-- Lines as a file holds them. -/
def text (lines : List String) : String :=
  String.join (lines.map (· ++ "\n"))

/-- What the command wrote to its output. -/
def stdout (r : Report) : String :=
  text r.out

/-- What the command wrote to its output for errors. -/
def stderr (r : Report) : String :=
  text r.err

end Report

end CipherBoard.CommandLine
