/-
CipherBoard.Json.Decode — from JSON values to the values of a program.

A `Decoder` reads a value of one type or says what is wrong with it (`DecodeError`). A whole
number is not read from a floating one, even where the two are equal.

A `Form` describes a record. It is filled in from an object, whose members are taken in the
order of their names and of which unknown ones are skipped, or from an array, which lists the
fields in the order of the form. The first problem found is the one that is reported; a field
that is missing is a problem only after everything that is there has been read.
-/
import CipherBoard.Json.Printer
import CipherBoard.Text.Quoted

namespace CipherBoard.Json

/-- What is wrong with a value. -/
inductive DecodeError where
  | wrongType (found : Json) (expected : String)
  | outOfRange (found : Int) (expected : String)
  | missingField (name : String)
  | duplicateField (name : String)
  /-- An array ends where a field has to follow. -/
  | tooShort (length : Nat) (title : String) (fields : Nat)
  | tooLong (length : Nat)
  deriving Repr

namespace DecodeError

/-- A value as messages name it. -/
def describe : Json → String
  | .null => "null"
  | .bool b => s!"boolean `{b}`"
  | .number (.whole n) => s!"integer `{n}`"
  | .number (.floating x) => s!"floating point `{floatText numberStyle x}`"
  | .string s => "string " ++ Text.quoted s
  | .array _ => "sequence"
  | .object _ => "map"

/-- The problem in words. -/
def message : DecodeError → String
  | wrongType found expected => s!"invalid type: {describe found}, expected {expected}"
  | outOfRange found expected => s!"invalid value: integer `{found}`, expected {expected}"
  | missingField name => s!"missing field `{name}`"
  | duplicateField name => s!"duplicate field `{name}`"
  | tooShort length title fields =>
    let noun := if fields = 1 then "element" else "elements"
    s!"invalid length {length}, expected {title} with {fields} {noun}"
  | tooLong length => s!"invalid length {length}, expected fewer elements in array"

end DecodeError

/-- Reads a value of one type. -/
abbrev Decoder (α : Type) : Type :=
  Json → Except DecodeError α

namespace Decoder

/-- A whole number of 32 bits without a sign. -/
def uint32 : Decoder Nat
  | .number (.whole n) =>
    if 0 ≤ n ∧ n ≤ 0xffffffff then .ok n.toNat else .error (.outOfRange n "u32")
  | v => .error (.wrongType v "u32")

/-- A number of any kind, as a floating one. -/
def float : Decoder Float
  | .number n => .ok n.toFloat
  | v => .error (.wrongType v "f64")

/-- A text. -/
def text : Decoder String
  | .string s => .ok s
  | v => .error (.wrongType v "a string")

/-- A list of values of one type. -/
def list {α : Type} (item : Decoder α) : Decoder (List α)
  | .array items => items.mapM item
  | v => .error (.wrongType v "a sequence")

end Decoder

/-! ## Records -/

/-- A field of a form: its names, of which messages use the first, and whether it may be
missing. -/
structure Field where
  name : String
  otherName : Option String := none
  optional : Bool := false

/-- How a record is filled in: its title in messages, its fields in order, the empty record, and
what a value for a field does to it. -/
structure Form (α : Type) where
  title : String
  fields : List Field
  blank : α
  fill : String → Json → α → Except DecodeError α

namespace Form

variable {α : Type}

/-- The field of a name. -/
def field? (form : Form α) (name : String) : Option Field :=
  form.fields.find? fun f => f.name = name || f.otherName = some name

/-- Fills in the members of an object in order. `seen` are the fields filled in so far. -/
def fillMembers (form : Form α) (seen : List String) (record : α) :
    List (String × Json) → Except DecodeError (List String × α)
  | [] => .ok (seen, record)
  | (name, v) :: rest =>
    match form.field? name with
    | none => form.fillMembers seen record rest
    | some f =>
      if seen.contains f.name then .error (.duplicateField f.name)
      else
        match form.fill f.name v record with
        | .error e => .error e
        | .ok record => form.fillMembers (f.name :: seen) record rest

/-- Fills in the items of an array, in the order of the fields that are left. `length` is that of
the whole array. -/
def fillItems (form : Form α) (length : Nat) (record : α) :
    List Field → List Json → Except DecodeError α
  | [], [] => .ok record
  | [], _ :: _ => .error (.tooLong length)
  | f :: fields, [] =>
    if f.optional then form.fillItems length record fields []
    else .error (.tooShort (form.fields.length - (fields.length + 1)) form.title
      form.fields.length)
  | f :: fields, v :: items =>
    match form.fill f.name v record with
    | .error e => .error e
    | .ok record => form.fillItems length record fields items

/-- The first field that must be there and is not. -/
def firstMissing? (form : Form α) (seen : List String) : Option String :=
  (form.fields.find? fun f => !f.optional && !seen.contains f.name).map (·.name)

/-- Reads a record. -/
def decode (form : Form α) : Decoder α
  | .object members =>
    match form.fillMembers [] form.blank members with
    | .error e => .error e
    | .ok (seen, record) =>
      match form.firstMissing? seen with
      | some name => .error (.missingField name)
      | none => .ok record
  | .array items => form.fillItems items.length form.blank form.fields items
  | v => .error (.wrongType v form.title)

end Form

end CipherBoard.Json
