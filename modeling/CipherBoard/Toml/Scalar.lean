/-
CipherBoard.Toml.Scalar — TOML values that are one word: numbers, truth values, dates and times.

Underscores may stand between two digits. A whole number may be written in base 2, 8 or 16; in
base 10 it does not begin with a zero unless it is zero. Whole numbers have at most 128 bits, with
a sign or without. A number with a fraction or an exponent may be smaller than every
floating-point number, but not larger.
-/
import CipherBoard.Decimal.Range
import CipherBoard.Toml.Value

namespace CipherBoard.Toml

/-- The value of a digit in a base. -/
def digit? (base : Nat) (c : Char) : Option Nat :=
  let n := c.toNat
  let value :=
    if 48 ≤ n ∧ n ≤ 57 then n - 48
    else if 97 ≤ n ∧ n ≤ 102 then n - 87
    else if 65 ≤ n ∧ n ≤ 70 then n - 55
    else base
  if value < base then some value else none

/-- The number that digits spell, with single underscores between them. -/
def natFrom? (base : Nat) (n : Nat) : List Char → Option Nat
  | [] => some n
  | '_' :: c :: rest => (digit? base c).bind fun d => natFrom? base (n * base + d) rest
  | c :: rest => (digit? base c).bind fun d => natFrom? base (n * base + d) rest

/-- The number that digits spell; the first is a digit. -/
def nat? (base : Nat) : List Char → Option Nat
  | [] => none
  | c :: rest => (digit? base c).bind fun d => natFrom? base d rest

/-- The number that decimal digits spell without a zero in front. -/
def plainNat? : List Char → Option Nat
  | ['0'] => some 0
  | '0' :: _ => none
  | cs => nat? 10 cs

/-- The word without its sign, and whether the sign is a minus. -/
def signOf : List Char → Bool × List Char
  | '-' :: rest => (true, rest)
  | '+' :: rest => (false, rest)
  | cs => (false, cs)

/-- A whole number. A base other than ten takes no sign. -/
def integer? (cs : List Char) : Option Int :=
  match cs with
  | '0' :: 'x' :: rest => (nat? 16 rest).map Int.ofNat
  | '0' :: 'o' :: rest => (nat? 8 rest).map Int.ofNat
  | '0' :: 'b' :: rest => (nat? 2 rest).map Int.ofNat
  | _ =>
    let (negative, digits) := signOf cs
    (plainNat? digits).map fun n => if negative then -(n : Int) else n

/-- Whether a whole number fits into 128 bits, with a sign or without. -/
def isStorable (n : Int) : Bool :=
  -0x80000000000000000000000000000000 ≤ n && n ≤ 0xffffffffffffffffffffffffffffffff

/-- The text before the first of some characters, and the text behind it if there is one. -/
def cutAt (cut : Char → Bool) (cs : List Char) : List Char × Option (List Char) :=
  match cs.dropWhile (!cut ·) with
  | [] => (cs, none)
  | _ :: rest => (cs.takeWhile (!cut ·), some rest)

/-- The digits ahead of the point and behind it as one number, and the power of ten that it is to
be multiplied by. -/
def mantissa? (whole : List Char) : Option (List Char) → Option (Nat × Int)
  | none => (plainNat? whole).map fun n => (n, 0)
  | some fraction => do
    let n ← plainNat? whole
    let tail ← nat? 10 fraction
    let size := (fraction.filter (· != '_')).length
    some (n * Decimal.tenTo size + tail, -(size : Int))

/-- The power of ten that an exponent stands for. -/
def exponent? : Option (List Char) → Option Int
  | none => some 0
  | some text =>
    let (negative, digits) := signOf text
    (nat? 10 digits).map fun n => if negative then -(n : Int) else n

/-- The value of digits with a fraction or an exponent: a number, and the power of ten that it is to
be multiplied by. -/
def decimal? (word : List Char) : Option (Nat × Int) :=
  let (mantissa, exponent) := cutAt (fun c => c == 'e' || c == 'E') word
  let (whole, fraction) := cutAt (· == '.') mantissa
  if exponent.isNone && fraction.isNone then none
  else do
    let (n, scale) ← mantissa? whole fraction
    let power ← exponent? exponent
    some (n, scale + power)

/-- Whether a word is a floating number: infinite, no number, or digits with a fraction or an
exponent whose value is in range. -/
def isFloating (cs : List Char) : Bool :=
  let (_, word) := signOf cs
  word == ['i', 'n', 'f'] || word == ['n', 'a', 'n'] ||
    (decimal? word).any fun (n, power) => !Decimal.isBeyond n power

/-! ## Dates and times -/

/-- The number that two digits spell, if it is at most `most`. -/
def twoDigits? (most : Nat) (a b : Char) : Option Nat := do
  let n := (← digit? 10 a) * 10 + (← digit? 10 b)
  if n ≤ most then some n else none

/-- The number of days of a month. -/
def daysIn (year month : Nat) : Nat :=
  if month = 2 then
    if year % 4 = 0 ∧ (year % 100 ≠ 0 ∨ year % 400 = 0) then 29 else 28
  else if month = 4 ∨ month = 6 ∨ month = 9 ∨ month = 11 then 30
  else 31

/-- Whether a word is a day: year, month and day of the month. -/
def isDay : List Char → Bool
  | [a, b, c, d, '-', e, f, '-', g, h] =>
    match nat? 10 [a, b, c, d], twoDigits? 12 e f, twoDigits? 31 g h with
    | some year, some month, some day =>
      [a, b, c, d].all (·.isDigit) && 1 ≤ month && 1 ≤ day && day ≤ daysIn year month
    | _, _, _ => false
  | _ => false

/-- Whether a word is what may follow the minutes of a time: seconds, and a fraction of them. -/
def isSeconds : List Char → Bool
  | [] => true
  | [':', a, b] => (twoDigits? 60 a b).isSome
  | ':' :: a :: b :: '.' :: c :: rest => (twoDigits? 60 a b).isSome && (c :: rest).all (·.isDigit)
  | _ => false

/-- Whether a word is a time of day. -/
def isTime : List Char → Bool
  | a :: b :: ':' :: c :: d :: rest =>
    (twoDigits? 23 a b).isSome && (twoDigits? 59 c d).isSome && isSeconds rest
  | _ => false

/-- Whether a word is the distance of a clock from universal time, with its sign ahead of it. -/
def isOffset : List Char → Bool
  | [a, b, ':', c, d] => (twoDigits? 23 a b).isSome && (twoDigits? 59 c d).isSome
  | _ => false

/-- Whether a word is a time of day, perhaps with the distance from universal time. -/
def isClock (cs : List Char) : Bool :=
  let (time, offset) := cutAt (fun c => c == '+' || c == '-') cs
  match offset with
  | some offset => isTime time && isOffset offset
  | none =>
    isTime cs ||
      ((cs.getLast? == some 'Z' || cs.getLast? == some 'z') && isTime cs.dropLast)

/-- Whether a word is a day, a time, or a day and a time with a mark between them. -/
def isMoment (cs : List Char) : Bool :=
  isDay cs || isTime cs ||
    (isDay (cs.take 10) &&
      match cs.drop 10 with
      | mark :: rest => (mark == 'T' || mark == 't' || mark == ' ') && isClock rest
      | [] => false)

/-- The value of a word. -/
def scalar? (cs : List Char) : Option Value :=
  if cs = ['t', 'r', 'u', 'e'] then some (.boolean true)
  else if cs = ['f', 'a', 'l', 's', 'e'] then some (.boolean false)
  else
    match integer? cs with
    | some n => if isStorable n then some (.integer n) else none
    | none =>
      if isFloating cs then some (.floating (String.ofList cs))
      else if isMoment cs then some (.moment (String.ofList cs))
      else none

end CipherBoard.Toml
