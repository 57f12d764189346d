/-
CipherBoard.CommandLine.Commands — the commands of the program.

* `check` builds the boards of files and names each file that has none.
* `scan` makes the catalogue of a directory.
* `run` sends an input over the board of a file, and shows every move if asked to.
* `keywords` shows what a board makes of its keywords, as text or as JSON.

`execute` does what a line of arguments asks for.
-/
import CipherBoard.CommandLine.Setup
import CipherBoard.Json.Printer
import CipherBoard.Text.Quoted

namespace CipherBoard.CommandLine

variable {m : Type → Type} [Monad m]

/-! ## Checking files -/

/-- The line that says what is wrong with a file. -/
def complaint (file : String) (e : FileError) : String :=
  s!"{Text.quoted file}: {chained e.chain}"

/-- What is wrong with files: a line for each bad one, up to the first whose board breaks. -/
def complaints (files : FileAccess m) (tileset : Tileset) (limit : Nat) :
    List String → m (List String × Option Break)
  | [] => return ([], none)
  | file :: rest => do
    match ← files.board tileset limit file with
    | .ok _ => complaints files tileset limit rest
    | .error e =>
      match e.break? with
      | some b => return ([], some b)
      | none =>
        let (lines, broken) ← complaints files tileset limit rest
        return (complaint file e :: lines, broken)

/-- The report on so many files. -/
def checkReport (count : Nat) : List String × Option Break → Report
  | (lines, some b) => (Report.broken b).behind [] lines
  | ([], none) => .good [s!"[OK] all files are good (checked {count} files)"]
  | (lines, none) => { code := Report.rejected, out := [], err := lines }

/-- Builds the boards of files. -/
def check (files : FileAccess m) (setup : Setup) (given : Option String) (paths : List String) :
    m Report := do
  match ← setup.tileset files given with
  | .error e => return .failed e
  | .ok tileset =>
    return checkReport paths.length (← complaints files tileset setup.settings.limit paths)

/-! ## Scanning a directory -/

/-- The line for a level that cannot be played. -/
def rejectedLine (path : String) (e : FileError) : String :=
  let chain := e.chainDuring "validate"
  s!"scan: rejected {path}: {chained chain}"

/-- The report on a catalogue. -/
def scanReport (directory : String) (c : Catalogue) : Report where
  code := if c.rejected.isEmpty then Report.accepted else Report.rejected
  out :=
    c.accepted.map (fun path => s!"scan: ok {path}") ++
      [s!"scan: dir={directory} accepted={c.accepted.length} rejected={c.rejected.length}"]
  err := c.rejected.map fun (path, e) => rejectedLine path e

/-- Makes the catalogue of a directory. -/
def scan (files : FileAccess m) (setup : Setup) (given directory : Option String) :
    m Report := do
  match setup.directory directory with
  | .error e => return .failed e
  | .ok directory =>
    match ← setup.tileset files given with
    | .error e => return .failed e
    | .ok tileset =>
      match ← files.catalogue tileset setup.settings.limit directory with
      | .error e => return .failed (.file "validate" e)
      | .ok c => return scanReport directory c

/-! ## Running a board -/

/-- The line for a move: its number, the piece that the signal moved to, and the word it carries
there. -/
def moveLine (b : Board) (number : Nat) (s : Signal) : String :=
  match b.pieces[s.here]? with
  | some p => s!"step {number}: {p.pos.text} {p.className} [{s.text}]"
  | none => s!"step {number}: [{s.text}]"

/-- The report on the result of a run. -/
def resultReport : Except RunError String → Report
  | .ok text => .good [text]
  | .error e => .failed (.run e)

/-- The report on a run that shows its result only. -/
def plainReport (b : Board) (limit : Nat) (input : String) : Report :=
  resultReport (b.encode limit input)

/-- The report on a run that shows its moves, numbered from one. -/
def tracedReport (b : Board) (limit : Nat) (input : String) : Report :=
  let (seen, ending) := (Signal.enter b (Word.ofText input)).trace b #[] limit
  (resultReport (ending.result input limit)).behind
    (seen.toList.mapIdx fun i s => moveLine b (i + 1) s) []

/-- Sends an input over the board of a file. -/
def run (files : FileAccess m) (setup : Setup) (given : Option String) (file input : String)
    (trace : Bool) : m Report := do
  match ← setup.board files given file with
  | .error e => return .failed e
  | .ok b =>
    let limit := setup.settings.limit
    return if trace then tracedReport b limit input else plainReport b limit input

/-! ## Showing keywords -/

/-- A keyword with what the board makes of it, and whether it has to be decoded. -/
structure KeywordEntry where
  keyword : String
  encoded : String
  required : Bool
  deriving DecidableEq, Repr

/-- The entries for the keywords of a board. -/
def keywordEntries (b : Board) : List KeywordEntry :=
  (b.keywords.zip b.encoded).mapIdx fun i (keyword, encoded) =>
    { keyword, encoded, required := i < b.requiredCount }

/-- What a keyword is for. -/
def KeywordEntry.label (e : KeywordEntry) : String :=
  if e.required then "required" else "decoy"

/-- The line for a keyword. -/
def KeywordEntry.line (e : KeywordEntry) : String :=
  s!"{e.label}: {e.keyword} -> {e.encoded}"

/-- Texts with commas between them. -/
def listed (texts : List String) : String :=
  ", ".intercalate texts

/-- The line for the conditions of a board, if it has any. -/
def conditionLines (b : Board) : List String :=
  if b.conditionKinds.isEmpty then [] else [s!"conditions: {listed b.conditionKinds}"]

/-- The line for the tags of a board, in alphabetical order. -/
def tagLine (b : Board) : String :=
  let tags := b.families.tags.mergeSort fun a b => decide (a ≤ b)
  if b.families.any then s!"tags: {listed tags}" else "tags: none"

/-- The keywords, conditions and tags of a board as lines. -/
def keywordLines (b : Board) : List String :=
  (keywordEntries b).map KeywordEntry.line ++ conditionLines b ++ [tagLine b]

/-- An entry as JSON. -/
def KeywordEntry.json (e : KeywordEntry) : Json :=
  .object
    [("keyword", .string e.keyword), ("encoded", .string e.encoded),
     ("required", .bool e.required)]

/-- The keywords, conditions and tags of a board as JSON. -/
def keywordJson (b : Board) : Json :=
  .object
    [("keywords", .array ((keywordEntries b).map KeywordEntry.json)),
     ("conditions", .array (b.conditionKinds.map .string)),
     ("tags", .object (Family.all.map fun f => (f.tag, .bool (b.families.has f))))]

/-- Shows what a board makes of its keywords. -/
def keywords (files : FileAccess m) (setup : Setup) (given : Option String) (file : String)
    (json : Bool) : m Report := do
  match ← setup.board files given file with
  | .error e => return .failed e
  | .ok b => return .good (if json then [(keywordJson b).pretty] else keywordLines b)

/-! ## The program -/

/-- The name and version of the program. -/
def versionLine : String := "mapcheck 0.1.0"

/-- How the program is used. -/
def helpLines : List String :=
  ["Validate and inspect puzzle level files",
   "",
   "mapcheck [--config FILE] COMMAND",
   "  check [--tileset FILE] FILE...",
   "  scan [--tileset FILE] [DIRECTORY]",
   "  run [--tileset FILE] [--trace] FILE INPUT",
   "  keywords [--tileset FILE] [--json] FILE",
   "mapcheck --version"]

/-- What the program answers if no command is to be done. -/
def stopReport : Stop → Report
  | .help => .good helpLines
  | .version => .good [versionLine]
  | .refused e => { code := Report.refused, out := [], err := [s!"error: {e.message}"] }

/-- Does a command. -/
def perform (files : FileAccess m) (setup : Setup) : Command → m Report
  | .check tileset paths => check files setup tileset paths
  | .scan tileset directory => scan files setup tileset directory
  | .run tileset file input trace => run files setup tileset file input trace
  | .keywords tileset file json => keywords files setup tileset file json

/-- Does what a line of arguments asks for. -/
def execute (files : FileAccess m) (arguments : List String) : m Report := do
  match parse arguments with
  | .error stop => return stopReport stop
  | .ok invocation =>
    match ← Setup.load files invocation.config with
    | .error e => return .failed e
    | .ok setup => perform files setup invocation.command

end CipherBoard.CommandLine
