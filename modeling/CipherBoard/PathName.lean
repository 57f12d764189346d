/-
CipherBoard.PathName — names of files and directories as text.

A path is a text in which slashes separate names. These functions work on the text alone: no
file need exist, and a path that is taken apart keeps its spelling.
-/
namespace CipherBoard.PathName

/-- Whether a path starts at the root. -/
def isAbsolute (path : String) : Bool :=
  path.toList.head? == some '/'

/-- The path that `path` names as seen from `base`. -/
def join (base path : String) : String :=
  if isAbsolute path || base.isEmpty then path
  else if base.toList.getLast? == some '/' then base ++ path
  else base ++ "/" ++ path

/-- The letters of a path, last one first, without slashes and idle points at the end. -/
def dropIdle : List Char → List Char
  | '/' :: rest => dropIdle rest
  | '.' :: '/' :: rest => dropIdle rest
  | cs => cs

/-- The path of the directory that holds what a path names: empty if the path is a single
name. -/
def parent (path : String) : String :=
  let trimmed := dropIdle path.toList.reverse
  let above := dropIdle (trimmed.dropWhile (· != '/'))
  if above.isEmpty && isAbsolute path && !trimmed.isEmpty then "/"
  else String.ofList above.reverse

/-- What follows the last point of a name. A point that is the first character does not count. -/
def extension? (name : String) : Option String :=
  let backwards := name.toList.reverse
  let ending := backwards.takeWhile (· != '.')
  match backwards.drop ending.length with
  | '.' :: _ :: _ => if name = ".." then none else some (String.ofList ending.reverse)
  | _ => none

end CipherBoard.PathName
