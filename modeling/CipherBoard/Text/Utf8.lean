/-
CipherBoard.Text.Utf8 — text spelt by bytes.

A byte string is cut into pieces: characters in UTF-8, and between them the maximal pieces that
are no character. Such a piece is the longest run of bytes that could have begun a character, or
a single byte that begins none.

* `pieces` is this cut, one entry per piece, empty for a piece that is no character;
* `decode?` accepts a byte string in which every piece is a character;
* `decodeLossy` always answers and writes U+FFFD for each piece that is no character.
-/
namespace CipherBoard.Text

/-- A character that has begun: the bytes still owed, the range of the next one, and the bits
gathered so far. The range is narrower than 80 … BF after those first bytes whose second byte
could otherwise spell a character twice, a surrogate, or a number beyond U+10FFFF. -/
structure Pending where
  owed : Nat
  low : UInt8
  high : UInt8
  bits : Nat

/-- What a byte means where a character may begin. -/
inductive Lead where
  | char (c : Char)
  | opens (p : Pending)
  | invalid

/-- The role of a byte as the first of a character. -/
def lead (b : UInt8) : Lead :=
  let n := b.toNat
  if n < 0x80 then .char (Char.ofNat n)
  else if n < 0xC2 then .invalid
  else if n < 0xE0 then .opens ⟨1, 0x80, 0xBF, n - 0xC0⟩
  else if n = 0xE0 then .opens ⟨2, 0xA0, 0xBF, 0⟩
  else if n = 0xED then .opens ⟨2, 0x80, 0x9F, 0xD⟩
  else if n < 0xF0 then .opens ⟨2, 0x80, 0xBF, n - 0xE0⟩
  else if n = 0xF0 then .opens ⟨3, 0x90, 0xBF, 0⟩
  else if n < 0xF4 then .opens ⟨3, 0x80, 0xBF, n - 0xF0⟩
  else if n = 0xF4 then .opens ⟨3, 0x80, 0x8F, 4⟩
  else .invalid

/-- The pieces of the bytes from a place where a character has perhaps begun. -/
def piecesFrom : Option Pending → List UInt8 → List (Option Char)
  | none, [] => []
  | some _, [] => [none]
  | none, b :: rest =>
    match lead b with
    | .char c => some c :: piecesFrom none rest
    | .opens p => piecesFrom (some p) rest
    | .invalid => none :: piecesFrom none rest
  | some p, b :: rest =>
    if p.low ≤ b ∧ b ≤ p.high then
      let bits := p.bits * 64 + (b.toNat - 0x80)
      if p.owed ≤ 1 then some (Char.ofNat bits) :: piecesFrom none rest
      else piecesFrom (some ⟨p.owed - 1, 0x80, 0xBF, bits⟩) rest
    else
      none :: match lead b with
        | .char c => some c :: piecesFrom none rest
        | .opens q => piecesFrom (some q) rest
        | .invalid => none :: piecesFrom none rest

/-- The pieces of a byte string. -/
def pieces (bytes : List UInt8) : List (Option Char) :=
  piecesFrom none bytes

/-- The text that the bytes spell, if they spell one. -/
def decode? (bytes : List UInt8) : Option String :=
  ((pieces bytes).mapM id).map String.ofList

/-- The text that the bytes spell, with U+FFFD for each piece that is no character. -/
def decodeLossy (bytes : List UInt8) : String :=
  String.ofList ((pieces bytes).map fun c => c.getD '\uFFFD')

end CipherBoard.Text
