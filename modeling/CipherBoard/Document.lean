/-
CipherBoard.Document — reading a document into the values of a program.

A document is read in three stages: its bytes as JSON, its shape, and the record it stands for.
A document of the wrong shape is reported with everything that is wrong with it; a document of
the right shape can still hold a number that the record has no room for.
-/
import CipherBoard.Json.Decode
import CipherBoard.Json.Reader
import CipherBoard.Json.Shape

namespace CipherBoard

/-- Why a document cannot be used. `document` says which kind of document it is. -/
inductive DocumentError where
  | unreadable (document : String) (cause : Json.ReadError)
  | misshapen (document : String) (complaints : List String)
  | undecodable (document : String) (cause : Json.DecodeError)
  deriving Repr

/-- The error in words. -/
def Json.ReadError.message : Json.ReadError → String
  | unfinished => "the document ends too early"
  | malformed => "the document is malformed"

namespace DocumentError

/-- The error in words. -/
def message : DocumentError → String
  | unreadable document cause => s!"malformed {document} JSON: {cause.message}"
  | misshapen document complaints =>
    s!"{document} does not match its schema: " ++ "; ".intercalate complaints
  | undecodable document cause => s!"malformed {document} JSON: {cause.message}"

/-- The errors behind the error, outermost first. -/
def causes : DocumentError → List String
  | unreadable _ cause => [cause.message]
  | misshapen _ _ => []
  | undecodable _ cause => [cause.message]

end DocumentError

/-- A kind of document: its name in messages, its shape, and how the record is read. -/
structure DocumentKind (α : Type) where
  name : String
  shape : Json.Shape
  decode : Json.Decoder α

namespace DocumentKind

variable {α : Type}

/-- Checks the shape of a value and reads the record. -/
def ofJson (kind : DocumentKind α) (v : Json) : Except DocumentError α :=
  match kind.shape.violations v with
  | [] => (kind.decode v).mapError (.undecodable kind.name)
  | complaints => .error (.misshapen kind.name complaints)

/-- Reads a document. -/
def ofBytes (kind : DocumentKind α) (bytes : List UInt8) : Except DocumentError α :=
  match Json.read bytes with
  | .error e => .error (.unreadable kind.name e)
  | .ok v => kind.ofJson v

end DocumentKind

end CipherBoard
