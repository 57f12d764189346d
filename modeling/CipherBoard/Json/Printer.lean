/-
CipherBoard.Json.Printer — JSON values as text.

`compact` writes a value without blanks, `pretty` with one member or item a line. A floating
number always shows that it is one: it has a point or an exponent (`numberStyle`).
-/
import CipherBoard.Decimal.Text
import CipherBoard.Json.Value

namespace CipherBoard.Json

/-! ## Numbers -/

/-- When a floating number is written with an exponent: `least` and `greatest` are the exponents
of the leading digit between which it is written out. -/
structure NumberStyle where
  least : Int
  greatest : Int
  tie : Decimal.Tie

/-- Numbers between 10⁻⁵ and 10¹⁶ are written out. -/
def numberStyle : NumberStyle := ⟨-5, 15, .toEven⟩

/-- Digits with a point behind the first, if there are more, and an exponent with its sign. -/
def withExponent (digits : String) (exponent : Int) : String :=
  let behind := String.ofList (digits.toList.drop 1)
  String.ofList (digits.toList.take 1) ++ (if behind.isEmpty then "" else "." ++ behind) ++ "e" ++
    (if exponent < 0 then "-" else "+") ++ toString exponent.natAbs

/-- The text of a floating number. -/
def floatText (style : NumberStyle) (x : Float) : String :=
  match Decimal.Binary.ofFloat x with
  | .notANumber | .infinite _ => "null"
  | .finite negative significand exponent =>
    let d := Decimal.shortest style.tie significand exponent
    let digits := toString d.digits
    let leading := d.exponent + (digits.length - 1 : Nat)
    (if negative then "-" else "") ++
      (if significand = 0 then "0.0"
       else if leading < style.least ∨ style.greatest < leading then withExponent digits leading
       else if 0 ≤ d.exponent then d.positional ++ ".0"
       else d.positional)

/-- The text of a number. -/
def Number.text : Number → String
  | .whole n => toString n
  | .floating x => floatText numberStyle x

/-! ## Strings -/

/-- A hexadecimal digit. -/
def hexDigit (n : Nat) : Char :=
  Char.ofNat (if n < 10 then 48 + n else 87 + n)

/-- A character within a string. -/
def escape (c : Char) : List Char :=
  if c = '\"' then ['\\', '\"']
  else if c = '\\' then ['\\', '\\']
  else if c = '\n' then ['\\', 'n']
  else if c = '\r' then ['\\', 'r']
  else if c = '\t' then ['\\', 't']
  else if c = '\x08' then ['\\', 'b']
  else if c = '\x0c' then ['\\', 'f']
  else if c.toNat < 32 then
    ['\\', 'u', '0', '0', hexDigit (c.toNat / 16), hexDigit (c.toNat % 16)]
  else [c]

/-- A string in quotes. -/
def quote (s : String) : String :=
  "\"" ++ String.ofList (s.toList.flatMap escape) ++ "\""

/-! ## Values -/

mutual

/-- A value without blanks. -/
def compact : Json → String
  | .null => "null"
  | .bool b => if b then "true" else "false"
  | .number n => n.text
  | .string s => quote s
  | .array items => "[" ++ ",".intercalate (compactItems items) ++ "]"
  | .object members => "\x7b" ++ ",".intercalate (compactMembers members) ++ "\x7d"

/-- The items of an array. -/
def compactItems : List Json → List String
  | [] => []
  | v :: rest => compact v :: compactItems rest

/-- The members of an object. -/
def compactMembers : List (String × Json) → List String
  | [] => []
  | (name, v) :: rest => (quote name ++ ":" ++ compact v) :: compactMembers rest

end

/-- The blanks at the front of a line that is `depth` deep. -/
def indent (depth : Nat) : String :=
  String.ofList (List.replicate (2 * depth) ' ')

/-- Lines between two brackets, the brackets next to each other if there is none. -/
def block (depth : Nat) (opening closing : String) (lines : List String) : String :=
  if lines.isEmpty then opening ++ closing
  else
    let line (text : String) := indent (depth + 1) ++ text
    opening ++ "\n" ++ ",\n".intercalate (lines.map line) ++ "\n" ++ indent depth ++ closing

mutual

/-- A value with one item or member a line, within a value that is `depth` deep. -/
def prettyFrom (depth : Nat) : Json → String
  | .array items => block depth "[" "]" (prettyItems (depth + 1) items)
  | .object members => block depth "\x7b" "\x7d" (prettyMembers (depth + 1) members)
  | v => compact v

/-- The items of an array. -/
def prettyItems (depth : Nat) : List Json → List String
  | [] => []
  | v :: rest => prettyFrom depth v :: prettyItems depth rest

/-- The members of an object. -/
def prettyMembers (depth : Nat) : List (String × Json) → List String
  | [] => []
  | (name, v) :: rest => (quote name ++ ": " ++ prettyFrom depth v) :: prettyMembers depth rest

end

/-- A value with one item or member a line, two blanks for each level. -/
def pretty (v : Json) : String :=
  prettyFrom 0 v

end CipherBoard.Json
