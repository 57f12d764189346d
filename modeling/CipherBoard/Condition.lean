/-
CipherBoard.Condition — the tests by which a branch chooses its way.

A level writes a condition as a `ConditionSpec`: a kind and two arguments of which the kind
uses some. `Condition.ofSpec` turns it into a `Condition` that can be evaluated, or says why
it cannot; `Condition.kindName` gives the kind's name back. `Condition.holds` is the meaning,
for the working word and the word the run began with.
-/
import CipherBoard.Occurrence
import CipherBoard.Word.Tally

namespace CipherBoard

/-- A condition as a level writes it. -/
structure ConditionSpec where
  kind : String
  text : String := ""
  number : Int := 0
  deriving DecidableEq, Repr

/-- A condition that can be evaluated. -/
inductive Condition where
  /-- The word is a rearrangement of the given one. -/
  | anagramOf (word : Word)
  | equals (word : Word)
  /-- The given word occurs exactly `times` times. -/
  | occurrences (needle : Word) (times : Int)
  /-- Some letter of the given word occurs. -/
  | anyLetterOf (letters : Word)
  | includes (needle : Word)
  | startsWith (word : Word)
  | endsWith (word : Word)
  /-- The last letter comes after the given one. -/
  | lastAfter (letter : UInt8)
  | evenLength
  | evenHash
  | lengthIs (length : Int)
  | shorterThan (length : Int)
  | longerThan (length : Int)
  /-- The word is still the one the run began with. -/
  | unchanged
  | constant (value : Bool)
  deriving DecidableEq, Repr

/-- Why a condition cannot be evaluated. -/
inductive ConditionError where
  | unknownKind (kind : String)
  | emptyText (kind : String)
  deriving DecidableEq, Repr

namespace ConditionError

/-- The error in words. -/
def message : ConditionError → String
  | unknownKind kind => s!"unknown condition kind '{kind}'"
  | emptyText kind => s!"condition '{kind}' requires a non-empty string_arg"

end ConditionError

namespace Condition

/-- The condition that a level describes. -/
def ofSpec (spec : ConditionSpec) : Except ConditionError Condition :=
  let word := Word.ofText spec.text
  if spec.kind = "anagram" then .ok (.anagramOf word)
  else if spec.kind = "eq" then .ok (.equals word)
  else if spec.kind = "substr_count" then .ok (.occurrences word spec.number)
  else if spec.kind = "contains_letter" then .ok (.anyLetterOf word)
  else if spec.kind = "contains_substr" then .ok (.includes word)
  else if spec.kind = "has_prefix" then .ok (.startsWith word)
  else if spec.kind = "has_suffix" then .ok (.endsWith word)
  else if spec.kind = "last_gt" then
    match word with
    | [] => .error (.emptyText "last_gt")
    | letter :: _ => .ok (.lastAfter letter)
  else if spec.kind = "len_even" then .ok .evenLength
  else if spec.kind = "fnv_even" then .ok .evenHash
  else if spec.kind = "len_eq" then .ok (.lengthIs spec.number)
  else if spec.kind = "len_lt" then .ok (.shorterThan spec.number)
  else if spec.kind = "len_gt" then .ok (.longerThan spec.number)
  else if spec.kind = "unchanged" then .ok .unchanged
  else if spec.kind = "fixed_cond" then .ok (.constant (spec.number == 1))
  else .error (.unknownKind spec.kind)

/-- The kind under which a level writes the condition. -/
def kindName : Condition → String
  | anagramOf _ => "anagram"
  | equals _ => "eq"
  | occurrences _ _ => "substr_count"
  | anyLetterOf _ => "contains_letter"
  | includes _ => "contains_substr"
  | startsWith _ => "has_prefix"
  | endsWith _ => "has_suffix"
  | lastAfter _ => "last_gt"
  | evenLength => "len_even"
  | evenHash => "fnv_even"
  | lengthIs _ => "len_eq"
  | shorterThan _ => "len_lt"
  | longerThan _ => "len_gt"
  | unchanged => "unchanged"
  | constant _ => "fixed_cond"

/-- Whether the condition holds of the working word, in a run that began with `input`. -/
def holds (word input : Word) : Condition → Bool
  | anagramOf v => word.isAnagramOf v
  | equals v => word == v
  | occurrences needle times => (countOccurrences needle word : Int) == times
  | anyLetterOf letters => letters.any fun b => word.elem b
  | includes needle => occursIn needle word
  | startsWith v => v.isPrefixOf word
  | endsWith v => v.isSuffixOf word
  | lastAfter letter => word.getLast?.any (letter < ·)
  | evenLength => word.length % 2 == 0
  | evenHash => word.hash % 2 == 0
  | lengthIs n => (word.length : Int) == n
  | shorterThan n => (word.length : Int) < n
  | longerThan n => n < (word.length : Int)
  | unchanged => word == input
  | constant value => value

end Condition

end CipherBoard
