/-
CipherBoard.Families — which families of ciphers a board exercises.

Each class name belongs to at most one family, found by the first rule that fits it
(`Family.ofClass?`). A board's families are the union of those of its pieces, so neither the
order of the pieces nor their number matters.
-/
import CipherBoard.PieceClass

namespace CipherBoard

/-- A family of ciphers. -/
inductive Family where
  | atbash
  | rot13
  | increment
  | shift
  | negation
  | conditional
  | polygraphic
  deriving DecidableEq, Repr

namespace Family

/-- Every family, in the order in which reports list them. -/
def all : List Family :=
  [atbash, rot13, increment, shift, negation, conditional, polygraphic]

/-- The name of the family in reports. -/
def tag : Family → String
  | atbash => "has_atbash"
  | rot13 => "has_rot13"
  | increment => "has_inc_dec"
  | shift => "has_shift"
  | negation => "has_negation"
  | conditional => "has_cond_transform"
  | polygraphic => "has_polygraphic"

/-- The family of a class name: the first rule that fits. -/
def ofClass? (name : String) : Option Family :=
  if ["_dotted", "_undotted", "_even", "_odd"].any (nameEnds name) then some conditional
  else if nameHas name "polygraphic" then some polygraphic
  else if nameHas name "atbash" then some atbash
  else if nameHas name "rot13" then some rot13
  else if nameHas name "add" || nameHas name "sub" then some increment
  else if nameHas name "rotate" || nameHas name "reverse" then some shift
  else if nameHas name "ifnot" || nameHas name "inv_repeater" then some negation
  else none

end Family

/-- A set of families, one flag for each. -/
structure Families where
  atbash : Bool := false
  rot13 : Bool := false
  increment : Bool := false
  shift : Bool := false
  negation : Bool := false
  conditional : Bool := false
  polygraphic : Bool := false
  deriving DecidableEq, Repr

namespace Families

/-- No family. -/
def empty : Families := {}

/-- Whether the set holds a family. -/
def has (s : Families) : Family → Bool
  | .atbash => s.atbash
  | .rot13 => s.rot13
  | .increment => s.increment
  | .shift => s.shift
  | .negation => s.negation
  | .conditional => s.conditional
  | .polygraphic => s.polygraphic

/-- The set with one family more. -/
def insert (s : Families) : Family → Families
  | .atbash => { s with atbash := true }
  | .rot13 => { s with rot13 := true }
  | .increment => { s with increment := true }
  | .shift => { s with shift := true }
  | .negation => { s with negation := true }
  | .conditional => { s with conditional := true }
  | .polygraphic => { s with polygraphic := true }

/-- The set with the family of one class name added, if it has one. -/
def record (s : Families) (className : String) : Families :=
  match Family.ofClass? className with
  | some family => s.insert family
  | none => s

/-- The families of a list of class names. -/
def ofClasses (classNames : List String) : Families :=
  classNames.foldl record empty

/-- Whether the set holds any family. -/
def any (s : Families) : Bool :=
  s != empty

/-- The tags of the set's families, in the order of reports. -/
def tags (s : Families) : List String :=
  (Family.all.filter s.has).map Family.tag

end Families

end CipherBoard
