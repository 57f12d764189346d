/-
CipherBoard.Json.Reader — JSON documents as bytes.

A reader takes what it reads off the front of the bytes. A document may be `unfinished`, when
it ends where more has to follow, or `malformed`, when something else stands where it may not.

Objects and arrays may be nested in each other up to a depth (`deepest`). The value reader is
defined by recursion on the depth that is left; what stands between two brackets is read by a
loop that is given the reader of the values.
-/
import CipherBoard.Json.Number
import CipherBoard.Text.Taken
import CipherBoard.Text.Utf8

namespace CipherBoard.Json

open Text (Taken length_lt_cons length_le_cons)

/-- Why a document cannot be read. -/
inductive ReadError where
  | unfinished
  | malformed
  deriving DecidableEq, Repr

/-- Reads something off the front. -/
abbrev Reader (α : Type) : Type :=
  (s : List UInt8) → Except ReadError (Taken α s)

namespace Reader

/-! ## Blanks -/

/-- Space, tab, line feed and carriage return. -/
def isBlank (b : UInt8) : Bool :=
  b == 32 || b == 9 || b == 10 || b == 13

/-- The text behind the blanks at its front. -/
def skipBlanks (s : List UInt8) : List UInt8 :=
  s.dropWhile isBlank

theorem length_skipBlanks_le (s : List UInt8) : (skipBlanks s).length ≤ s.length :=
  (List.dropWhile_suffix isBlank).length_le

theorem length_of_skipBlanks {s rest : List UInt8} {b : UInt8} (h : skipBlanks s = b :: rest) :
    rest.length < s.length := by
  have := length_skipBlanks_le s
  simp only [h, List.length_cons] at this
  omega

/-! ## Words and numbers -/

/-- Reads the rest of a word. -/
def word (value : Json) : List UInt8 → Reader Json
  | [], _ => .error .malformed
  | [w], b :: rest => if b = w then .ok ⟨value, rest, length_lt_cons ..⟩ else .error .malformed
  | w :: v :: ws, b :: rest =>
    if b = w then (word value (v :: ws) rest).map (·.widen (length_le_cons ..))
    else .error .malformed
  | _ :: _, [] => .error .unfinished

/-- Whether a byte is a digit. -/
def isDigit (b : UInt8) : Bool :=
  48 ≤ b && b ≤ 57

/-- The values of the digits at the front. -/
def digitsOf (s : List UInt8) : List Nat :=
  (s.takeWhile isDigit).map fun b => b.toNat - 48

/-- The text behind the digits at its front. -/
def skipDigits (s : List UInt8) : List UInt8 :=
  s.dropWhile isDigit

theorem length_skipDigits_le (s : List UInt8) : (skipDigits s).length ≤ s.length :=
  (List.dropWhile_suffix isDigit).length_le

/-- Reads digits, at least one. -/
def digits : Reader (List Nat) := fun s =>
  match s with
  | [] => .error .unfinished
  | b :: rest =>
    if isDigit b then
      .ok ⟨digitsOf (b :: rest), skipDigits rest, by
        have := length_skipDigits_le rest; simp only [List.length_cons]; omega⟩
    else .error .malformed

/-- Reads the digits ahead of the point: a zero stands alone. -/
def wholeDigits : Reader (List Nat) := fun s =>
  match digits s with
  | .error e => .error e
  | .ok r =>
    match r.value with
    | 0 :: _ :: _ => .error .malformed
    | _ => .ok r

/-- The number that digits spell. -/
def natOfDigits (ds : List Nat) : Nat :=
  ds.foldl (fun n d => n * 10 + d) 0

/-- What follows the digits ahead of the point, if it does: a point and the digits behind it. -/
def fractionPart (s : List UInt8) : Except ReadError (Option (Taken (List Nat) s)) :=
  match s with
  | 46 :: rest => (digits rest).map fun r => some (r.widen (length_le_cons ..))
  | _ => .ok none

/-- Reads the sign and the digits of an exponent. -/
def signedExponent : Reader Int := fun s =>
  match s with
  | 43 :: rest =>
    (digits rest).map fun r => (r.map fun ds => (natOfDigits ds : Int)).widen (length_le_cons ..)
  | 45 :: rest =>
    (digits rest).map fun r => (r.map fun ds => -(natOfDigits ds : Int)).widen (length_le_cons ..)
  | s => (digits s).map fun r => r.map fun ds => (natOfDigits ds : Int)

/-- What follows the digits of a number, if it does: a letter `e` and an exponent. -/
def exponentPart (s : List UInt8) : Except ReadError (Option (Taken Int s)) :=
  match s with
  | b :: rest =>
    if b = 101 ∨ b = 69 then (signedExponent rest).map fun r => some (r.widen (length_le_cons ..))
    else .ok none
  | [] => .ok none

/-- Reads a number without its sign. -/
def unsigned (negative : Bool) : Reader Json := fun s =>
  match wholeDigits s with
  | .error e => .error e
  | .ok whole =>
    match fractionPart whole.rest with
    | .error e => .error e
    | .ok fraction =>
      let behind : List UInt8 := match fraction with
        | none => whole.rest
        | some f => f.rest
      have behind_le : behind.length ≤ whole.rest.length := by
        cases fraction with
        | none => exact Nat.le_refl _
        | some f => exact Nat.le_of_lt f.shorter
      match exponentPart behind with
      | .error e => .error e
      | .ok exponent =>
        let last : List UInt8 := match exponent with
          | none => behind
          | some x => x.rest
        have last_le : last.length ≤ behind.length := by
          cases exponent with
          | none => exact Nat.le_refl _
          | some x => exact Nat.le_of_lt x.shorter
        let text : NumberText :=
          { negative, whole := whole.value, fraction := fraction.map (·.value),
            exponent := exponent.map (·.value) }
        match text.value? with
        | none => .error .malformed
        | some n => .ok ⟨.number n, last, by have := whole.shorter; omega⟩

/-! ## Strings -/

/-- The value of a hexadecimal digit. -/
def hexDigit? (b : UInt8) : Option Nat :=
  if 48 ≤ b ∧ b ≤ 57 then some (b.toNat - 48)
  else if 97 ≤ b ∧ b ≤ 102 then some (b.toNat - 87)
  else if 65 ≤ b ∧ b ≤ 70 then some (b.toNat - 55)
  else none

/-- Reads four hexadecimal digits. -/
def hexUnit : Reader Nat := fun s =>
  match s with
  | a :: b :: c :: d :: rest =>
    match hexDigit? a, hexDigit? b, hexDigit? c, hexDigit? d with
    | some a, some b, some c, some d =>
      .ok ⟨((a * 16 + b) * 16 + c) * 16 + d, rest, by simp only [List.length_cons]; omega⟩
    | _, _, _, _ => .error .malformed
  | _ => .error .unfinished

/-- Reads the second half of a character that is written as two units, and joins it to the
first. -/
def secondUnit (high : Nat) : Reader Char := fun s =>
  match s with
  | [] => .error .unfinished
  | [b] => if b = 92 then .error .unfinished else .error .malformed
  | b :: c :: rest =>
    if b = 92 ∧ c = 117 then
      match hexUnit rest with
      | .error e => .error e
      | .ok low =>
        if 0xDC00 ≤ low.value ∧ low.value ≤ 0xDFFF then
          .ok ⟨Char.ofNat ((high - 0xD800) * 1024 + (low.value - 0xDC00) + 0x10000), low.rest, by
            have := low.shorter; simp only [List.length_cons]; omega⟩
        else .error .malformed
    else .error .malformed

/-- Reads a character that is written in hexadecimal, as one unit or as two. -/
def hexChar : Reader Char := fun s =>
  match hexUnit s with
  | .error e => .error e
  | .ok unit =>
    if 0xDC00 ≤ unit.value ∧ unit.value ≤ 0xDFFF then .error .malformed
    else if 0xD800 ≤ unit.value ∧ unit.value ≤ 0xDBFF then
      (secondUnit unit.value unit.rest).map (·.widen (Nat.le_of_lt unit.shorter))
    else .ok ⟨Char.ofNat unit.value, unit.rest, unit.shorter⟩

/-- The character that a letter behind a backslash stands for. -/
def escaped? (b : UInt8) : Option Char :=
  [(34, '\"'), (92, '\\'), (47, '/'), (98, '\x08'), (102, '\x0c'), (110, '\n'), (114, '\r'),
   (116, '\t')].lookup b

/-- Reads what stands behind a backslash. -/
def escape : Reader Char := fun s =>
  match s with
  | [] => .error .unfinished
  | b :: rest =>
    if b = 117 then (hexChar rest).map (·.widen (length_le_cons ..))
    else
      match escaped? b with
      | some c => .ok ⟨c, rest, length_lt_cons ..⟩
      | none => .error .malformed

/-- Reads a string behind its opening quote. `seen` holds the bytes read so far, the last one
first; they are checked to be text at the closing quote. -/
def string (seen : List UInt8) (s : List UInt8) : Except ReadError (Taken String s) :=
  match s with
  | [] => .error .unfinished
  | b :: rest =>
    if b = 34 then
      match Text.decode? seen.reverse with
      | some text => .ok ⟨text, rest, length_lt_cons ..⟩
      | none => .error .malformed
    else if b = 92 then
      match escape rest with
      | .error e => .error e
      | .ok c =>
        have := c.shorter
        (string ((String.utf8EncodeChar c.value).reverse ++ seen) c.rest).map
          (·.widen (by simp only [List.length_cons]; omega))
    else if b < 32 then .error .malformed
    else (string (b :: seen) rest).map (·.widen (length_le_cons ..))
termination_by s.length

/-! ## Arrays and objects -/

/-- Reads the items behind at least one item, and the closing bracket. -/
def moreItems (item : Reader Json) (seen : List Json) (s : List UInt8) :
    Except ReadError (Taken (List Json) s) :=
  match h : skipBlanks s with
  | [] => .error .unfinished
  | b :: rest =>
    have := length_of_skipBlanks h
    if b = 93 then .ok ⟨seen.reverse, rest, this⟩
    else if b = 44 then
      match skipBlanks rest with
      | [] => .error .unfinished
      | c :: _ =>
        if c = 93 then .error .malformed
        else
          match item rest with
          | .error e => .error e
          | .ok r =>
            have := r.shorter
            (moreItems item (r.value :: seen) r.rest).map (·.widen (by omega))
    else .error .malformed
termination_by s.length

/-- Reads the items of an array behind its opening bracket. -/
def items (item : Reader Json) : Reader (List Json) := fun s =>
  match h : skipBlanks s with
  | [] => .error .unfinished
  | b :: rest =>
    if b = 93 then .ok ⟨[], rest, length_of_skipBlanks h⟩
    else
      match item s with
      | .error e => .error e
      | .ok r => (moreItems item [r.value] r.rest).map (·.widen (Nat.le_of_lt r.shorter))

/-- Reads a member of an object: a name, a colon and a value. -/
def member (item : Reader Json) : Reader (String × Json) := fun s =>
  match h : skipBlanks s with
  | [] => .error .unfinished
  | b :: rest =>
    have := length_of_skipBlanks h
    if b = 34 then
      match string [] rest with
      | .error e => .error e
      | .ok name =>
        have := name.shorter
        match h' : skipBlanks name.rest with
        | [] => .error .unfinished
        | c :: behind =>
          have := length_of_skipBlanks h'
          if c = 58 then
            (item behind).map fun r => (r.map fun v => (name.value, v)).widen (by omega)
          else .error .malformed
    else .error .malformed

/-- Reads the members behind at least one member, and the closing brace. A later member replaces
an earlier one of its name. -/
def moreMembers (item : Reader Json) (seen : List (String × Json)) (s : List UInt8) :
    Except ReadError (Taken (List (String × Json)) s) :=
  match h : skipBlanks s with
  | [] => .error .unfinished
  | b :: rest =>
    have := length_of_skipBlanks h
    if b = 125 then .ok ⟨seen, rest, this⟩
    else if b = 44 then
      match member item rest with
      | .error e => .error e
      | .ok r =>
        have := r.shorter
        (moreMembers item (insertMember r.value.1 r.value.2 seen) r.rest).map
          (·.widen (by omega))
    else .error .malformed
termination_by s.length

/-- Reads the members of an object behind its opening brace. -/
def members (item : Reader Json) : Reader (List (String × Json)) := fun s =>
  match h : skipBlanks s with
  | [] => .error .unfinished
  | b :: rest =>
    if b = 125 then .ok ⟨[], rest, length_of_skipBlanks h⟩
    else
      match member item s with
      | .error e => .error e
      | .ok r =>
        (moreMembers item [r.value] r.rest).map (·.widen (Nat.le_of_lt r.shorter))

/-! ## Documents -/

/-- How deep arrays and objects may be nested. -/
def deepest : Nat := 127

/-- Reads a value in which arrays and objects are nested at most `depth` deep. -/
def value : (depth : Nat) → Reader Json
  | depth, s =>
    match h : skipBlanks s with
    | [] => .error .unfinished
    | b :: rest =>
      have shorter := Nat.le_of_lt (length_of_skipBlanks h)
      if b = 110 then (word .null [117, 108, 108] rest).map (·.widen shorter)
      else if b = 116 then (word (.bool true) [114, 117, 101] rest).map (·.widen shorter)
      else if b = 102 then
        (word (.bool false) [97, 108, 115, 101] rest).map (·.widen shorter)
      else if b = 45 then (unsigned true rest).map (·.widen shorter)
      else if isDigit b then
        (unsigned false (skipBlanks s)).map (·.widen (length_skipBlanks_le s))
      else if b = 34 then
        (string [] rest).map fun r => (r.map .string).widen shorter
      else
        match depth with
        | 0 => .error .malformed
        | depth + 1 =>
          if b = 91 then
            (items (value depth) rest).map fun r => (r.map .array).widen shorter
          else if b = 123 then
            (members (value depth) rest).map fun r => (r.map .object).widen shorter
          else .error .malformed

end Reader

/-- Reads a document: one value, with nothing but blanks around it. -/
def read (s : List UInt8) : Except ReadError Json :=
  match Reader.value Reader.deepest s with
  | .error e => .error e
  | .ok r => if (Reader.skipBlanks r.rest).isEmpty then .ok r.value else .error .malformed

end CipherBoard.Json
