/-
CipherBoard.Disk — files, and what programs need of them.

`FileAccess m` is all that the library asks of a file system, as actions in `m`. A `Disk` is a
file system that is a plain value; `Disk.access` answers from it. What a program does with files
can so be studied on disks, while the program itself is given the files of a machine.

Some paths lead nowhere whatever files there are (`SystemError.ofPath?`). A name that is too long
is only noticed once it is looked up in a directory.
-/
import CipherBoard.PathName

namespace CipherBoard

/-- Why a request for a file is refused: the reason in words, and the number that the system has
for it. What is refused before the system is asked has no number. -/
structure SystemError where
  text : String
  code : Option Nat
  deriving DecidableEq, Repr

namespace SystemError

/-- There is nothing of that name. -/
def notFound : SystemError := ⟨"No such file or directory", some 2⟩

/-- A file was used as a directory. -/
def notDirectory : SystemError := ⟨"Not a directory", some 20⟩

/-- A directory was used as a file. -/
def isDirectory : SystemError := ⟨"Is a directory", some 21⟩

/-- A name, or the whole path, is too long. -/
def nameTooLong : SystemError := ⟨"File name too long", some 36⟩

/-- A file is kept from being read. -/
def denied : SystemError := ⟨"Permission denied", some 13⟩

/-- The refusals that have a number. -/
def known : List SystemError :=
  [notFound, denied, notDirectory, isDirectory, nameTooLong]

/-- The character that ends a path stands within it. -/
def endWithin : SystemError := ⟨"file name contained an unexpected NUL byte", none⟩

/-- The error in words. -/
def message (e : SystemError) : String :=
  match e.code with
  | some code => s!"{e.text} (os error {code})"
  | none => e.text

/-- The number of bytes at which a path is too long. -/
def pathLimit : Nat := 4096

/-- The greatest number of bytes of a name. -/
def longestName : Nat := 255

/-- Why a path leads nowhere, if that can be seen from the path alone. -/
def ofPath? (path : String) : Option SystemError :=
  if path.isEmpty then some notFound
  else if path.toList.contains '\x00' then some endWithin
  else if pathLimit ≤ path.utf8ByteSize then some nameTooLong
  else none

end SystemError

/-- What the library asks of a file system. A listing holds names, in any order. -/
structure FileAccess (m : Type → Type) where
  read : String → m (Except SystemError (List UInt8))
  list : String → m (Except SystemError (List String))
  isPresent : String → m Bool
  isFile : String → m Bool

/-- What a path of a disk leads to. -/
inductive DiskItem where
  | file (bytes : List UInt8)
  | directory
  deriving DecidableEq, Repr

/-- Files and directories by the names that lead to them from the root; of two entries for one path
the first counts. The directories on the way to an entry need no entry of their own. Paths that do
not start at the root start in the directory `home`. -/
structure Disk where
  entries : List (List String × DiskItem)
  home : List String := []
  deriving Repr

namespace Disk

/-- What the names lead to. -/
def item? (d : Disk) (names : List String) : Option DiskItem :=
  match d.entries.lookup names with
  | some item => some item
  | none =>
    if names.isEmpty || d.entries.any fun (path, _) => names.isPrefixOf path then some .directory
    else none

/-- Follows names from a directory. -/
def walk (d : Disk) (here : List String) : List String → Except SystemError (List String)
  | [] => .ok here
  | name :: rest =>
    match d.item? here with
    | none => .error .notFound
    | some (.file _) => .error .notDirectory
    | some .directory =>
      if name = "" ∨ name = "." then d.walk here rest
      else if name = ".." then d.walk here.dropLast rest
      else if SystemError.longestName < name.utf8ByteSize then .error .nameTooLong
      else d.walk (here ++ [name]) rest

/-- What a path leads to, and by which names. -/
def find (d : Disk) (path : String) : Except SystemError (List String × DiskItem) :=
  match SystemError.ofPath? path with
  | some e => .error e
  | none =>
    let start := if PathName.isAbsolute path then [] else d.home
    match d.walk start (path.splitOn "/") with
    | .error e => .error e
    | .ok names =>
      match d.item? names with
      | none => .error .notFound
      | some item => .ok (names, item)

/-- The bytes of a file. -/
def read (d : Disk) (path : String) : Except SystemError (List UInt8) :=
  match d.find path with
  | .error e => .error e
  | .ok (_, .directory) => .error .isDirectory
  | .ok (_, .file bytes) => .ok bytes

/-- The names in a directory, each once. -/
def list (d : Disk) (path : String) : Except SystemError (List String) :=
  match d.find path with
  | .error e => .error e
  | .ok (_, .file _) => .error .notDirectory
  | .ok (names, .directory) =>
    .ok (d.entries.filterMap fun (entry, _) =>
      if names.isPrefixOf entry then entry[names.length]? else none).eraseDups

/-- Whether a path leads to a file. -/
def isFile (d : Disk) (path : String) : Bool :=
  match d.find path with
  | .ok (_, .file _) => true
  | _ => false

/-- Whether a path leads anywhere. -/
def isPresent (d : Disk) (path : String) : Bool :=
  (d.find path).isOk

/-- The disk as a file system. -/
def access (d : Disk) : FileAccess Id where
  read path := d.read path
  list path := d.list path
  isPresent path := d.isPresent path
  isFile path := d.isFile path

end Disk

end CipherBoard
