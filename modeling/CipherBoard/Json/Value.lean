/-
CipherBoard.Json.Value — JSON values.

A number is whole or floating: whole when its text is that of an integer between −2⁶³ and
2⁶⁴ − 1 and not `-0`, floating otherwise. The two are different values even where they are
equal as numbers.

The members of an object that was read are in the order of their names and no name occurs
twice; `insertMember` keeps it so.
-/
import CipherBoard.Decimal.Binary

namespace CipherBoard

/-- A JSON number. -/
inductive Json.Number where
  | whole (n : Int)
  | floating (x : Float)
  deriving Repr

/-- A JSON value. -/
inductive Json where
  | null
  | bool (b : Bool)
  | number (n : Json.Number)
  | string (s : String)
  | array (items : List Json)
  | object (members : List (String × Json))
  deriving Repr, Inhabited

namespace Json

/-- Adds a member at the place of its name; a member of that name is replaced. -/
def insertMember (name : String) (value : Json) : List (String × Json) → List (String × Json)
  | [] => [(name, value)]
  | (n, v) :: rest =>
    if name < n then (name, value) :: (n, v) :: rest
    else if name = n then (name, value) :: rest
    else (n, v) :: insertMember name value rest

/-- The whole number `n`. -/
def ofNat (n : Nat) : Json := .number (.whole n)

/-- The value as a text, if it is one. -/
def text? : Json → Option String
  | string s => some s
  | _ => none

/-- The value as a whole number of 64 bits with a sign, if it is one. -/
def int64? : Json → Option Int
  | number (.whole n) => if n < 0x8000000000000000 then some n else none
  | _ => none

/-- The member of a name. -/
def member? (name : String) : Json → Option Json
  | object members => members.lookup name
  | _ => none

namespace Number

/-- The number as a floating one. -/
def toFloat : Number → Float
  | whole n => Float.ofInt n
  | floating x => x

/-- Whether the number has no fraction. -/
def isIntegral : Number → Bool
  | whole _ => true
  | floating x => Decimal.isIntegral x

end Number

end Json

end CipherBoard
