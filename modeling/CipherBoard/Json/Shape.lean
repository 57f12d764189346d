/-
CipherBoard.Json.Shape — what a document has to look like.

A shape describes the values of one place of a document. `Shape.violations` lists everything in
a value that differs from its shape, as complaints in words; a value fits when there is none. A
value of another type than its shape is one complaint and is not looked into.
-/
import CipherBoard.Json.Printer

namespace CipherBoard.Json

/-- What a value has to look like. -/
inductive Shape where
  | any
  | text
  /-- A number, above a bound if there is one. -/
  | number (above : Option Int)
  /-- A number without a fraction between two bounds. -/
  | integer (least greatest : Option Int)
  /-- An array of at least so many items, all of one shape. -/
  | listOf (least : Nat) (item : Shape)
  /-- An array of at least so many items of which only the first has a shape. -/
  | listFrom (least : Nat) (first : Shape)
  /-- An object that has certain members, one of certain others if there are any of those, and
  members of a shape where it has them. -/
  | record (required oneOf : List String) (fields : List (String × Shape))

namespace Shape

/-- Whether a number is less than a bound. -/
def isBelow (n : Number) (bound : Int) : Bool :=
  match n with
  | .whole n => n < bound
  | .floating x => x < Float.ofInt bound

/-- Whether a number is greater than a bound. -/
def isBeyond (n : Number) (bound : Int) : Bool :=
  match n with
  | .whole n => bound < n
  | .floating x => Float.ofInt bound < x

/-- A complaint when a number is below the least value. -/
def minimum (least : Option Int) (n : Number) : List String :=
  match least with
  | some bound =>
    if isBelow n bound then [s!"{n.text} is less than the minimum of {bound}"] else []
  | none => []

/-- A complaint when a number is beyond the greatest value. -/
def maximum (greatest : Option Int) (n : Number) : List String :=
  match greatest with
  | some bound =>
    if isBeyond n bound then [s!"{n.text} is greater than the maximum of {bound}"] else []
  | none => []

/-- A complaint when a number is not above a bound. -/
def exclusiveMinimum (above : Option Int) (n : Number) : List String :=
  match above with
  | some bound =>
    if isBeyond n bound then []
    else [s!"{n.text} is less than or equal to the minimum of {bound}"]
  | none => []

/-- The complaint that a value is of another type. -/
def notOfType (v : Json) (type : String) : String :=
  v.compact ++ " is not of type " ++ quote type

/-- A complaint when a list has too few items. -/
def tooFew (least : Nat) (items : List Json) : List String :=
  if least ≤ items.length then []
  else [s!"{(Json.array items).compact} has less than {least} item"]

/-- A complaint for each required member that is not there. -/
def missing (required : List String) (members : List (String × Json)) : List String :=
  (required.filter fun name => (members.lookup name).isNone).map fun name =>
    quote name ++ " is a required property"

/-- A complaint when none of the alternative members is there. -/
def noneOf (oneOf : List String) (members : List (String × Json)) : List String :=
  if oneOf.isEmpty || oneOf.any fun name => (members.lookup name).isSome then []
  else [(Json.object members).compact ++
    " is not valid under any of the schemas listed in the 'anyOf' keyword"]

mutual

/-- Everything in a value that differs from the shape. -/
def violations : Shape → Json → List String
  | any, _ => []
  | text, .string _ => []
  | text, v => [notOfType v "string"]
  | number above, .number n => exclusiveMinimum above n
  | number _, v => [notOfType v "number"]
  | integer least greatest, .number n =>
    maximum greatest n ++ minimum least n ++
      (if n.isIntegral then [] else [notOfType (.number n) "integer"])
  | integer _ _, v => [notOfType v "integer"]
  | listOf least item, .array items =>
    items.flatMap (violations item) ++ tooFew least items
  | listFrom least first, .array items =>
    tooFew least items ++ (items.take 1).flatMap (violations first)
  | listOf _ _, v | listFrom _ _, v => [notOfType v "array"]
  | record required oneOf fields, .object members =>
    noneOf oneOf members ++ fieldViolations fields members ++ missing required members
  | record _ _ _, v => [notOfType v "object"]

/-- Everything in the members of an object that differs from the shapes of their names. -/
def fieldViolations : List (String × Shape) → List (String × Json) → List String
  | [], _ => []
  | (name, shape) :: rest, members =>
    (match members.lookup name with
      | some v => violations shape v
      | none => []) ++ fieldViolations rest members

end

end Shape

end CipherBoard.Json
