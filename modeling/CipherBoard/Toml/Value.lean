/-
CipherBoard.Toml.Value — TOML values, and tables that are being filled.

A document fills a tree of tables (`Node`) line by line. How a table came about decides what may
still be added to it: a table that has a heading of its own is complete outside it, one that
came about through a dotted name can only be added to by dotted names, and one that is only a
part of a heading can still be given a heading. No name is given a value twice.
-/
namespace CipherBoard.Toml

/-- A TOML value. Of a floating number, a date or a time only the text is kept, and of a table
within a line only that it is one. -/
inductive Value where
  | string (s : String)
  | integer (n : Int)
  | floating (text : String)
  | boolean (b : Bool)
  | moment (text : String)
  | array (items : List Value)
  | inline
  deriving Repr

/-- How a table came about. -/
inductive Origin where
  /-- A heading of its own; the document itself. -/
  | heading
  /-- A part of a heading. -/
  | passing
  /-- A dotted name. -/
  | dotted
  deriving DecidableEq, Repr

/-- What a name stands for in a document: a value, a table, or a list of tables, the latest one
first. -/
inductive Node where
  | value (v : Value)
  | table (origin : Origin) (entries : List (String × Node))
  | tables (items : List Node)
  deriving Repr

namespace Node

/-- A table without entries. -/
def emptyTable (origin : Origin) : Node :=
  .table origin []

/-- The entries with that of one name replaced, or added at the end. -/
def setEntry (name : String) (node : Node) : List (String × Node) → List (String × Node)
  | [] => [(name, node)]
  | (n, v) :: rest => if n = name then (n, node) :: rest else (n, v) :: setEntry name node rest

/-- Changes the table at the end of a path of names. Tables that are missing on the way are made,
of a list of tables the latest is entered, and nothing else can be entered. A dotted name does
not enter a table that has a heading of its own. -/
def changeAt (dotted : Bool) (change : Node → Option Node) : List String → Node → Option Node
  | [], node => change node
  | name :: path, .table origin entries =>
    let entered : Option Node :=
      match entries.lookup name with
      | none => changeAt dotted change path (emptyTable (if dotted then .dotted else .passing))
      | some (.table childOrigin children) =>
        if dotted ∧ childOrigin = .heading then none
        else changeAt dotted change path (.table childOrigin children)
      | some (.tables (latest :: earlier)) =>
        (changeAt dotted change path latest).map fun node => .tables (node :: earlier)
      | some (.tables []) => none
      | some (.value _) => none
    entered.map fun node => .table origin (setEntry name node entries)
  | _ :: _, _ => none

/-- Gives a value to a name in a table. `viaPath` says that a dotted name led here, which must
then be a table of dotted names, and otherwise must not. -/
def addValue (viaPath : Bool) (name : String) (v : Value) : Node → Option Node
  | .table origin entries =>
    if viaPath = (origin = .dotted) ∧ (entries.lookup name).isNone then
      some (.table origin (entries ++ [(name, .value v)]))
    else none
  | _ => none

/-- Gives a value to a name, with a path in front of it if it is dotted. -/
def define (path : List String) (name : String) (v : Value) (node : Node) : Option Node :=
  changeAt true (addValue (!path.isEmpty) name v) path node

/-- Opens a table under a heading. -/
def openTable (name : String) : Node → Option Node
  | .table origin entries =>
    match entries.lookup name with
    | none => some (.table origin (entries ++ [(name, emptyTable .heading)]))
    | some (.table .passing children) =>
      some (.table origin (setEntry name (.table .heading children) entries))
    | some _ => none
  | _ => none

/-- Opens one more table of a list of tables. -/
def openItem (name : String) : Node → Option Node
  | .table origin entries =>
    match entries.lookup name with
    | none => some (.table origin (entries ++ [(name, .tables [emptyTable .heading])]))
    | some (.tables items) =>
      some (.table origin (setEntry name (.tables (emptyTable .heading :: items)) entries))
    | some _ => none
  | _ => none

end Node

end CipherBoard.Toml
