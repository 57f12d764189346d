/-
CipherBoard.Occurrence — where one list stands inside another.

`occursIn part whole` says that `whole` is something, then `part`, then something.
`countOccurrences` reads from the left and takes an occurrence as soon as one starts; the
occurrences it counts do not overlap. The empty list occurs before every item and at the end.
-/
namespace CipherBoard

variable {α : Type} [BEq α]

/-- Whether the items of `part` stand next to each other somewhere in the list. -/
def occursIn (part : List α) : List α → Bool
  | [] => part.isEmpty
  | x :: rest => part.isPrefixOf (x :: rest) || occursIn part rest

/-- Occurrences of a nonempty `part` that start behind the next `skip` items. -/
def countFrom (part : List α) : (skip : Nat) → List α → Nat
  | _, [] => 0
  | skip + 1, _ :: rest => countFrom part skip rest
  | 0, x :: rest =>
    if part.isPrefixOf (x :: rest) then countFrom part (part.length - 1) rest + 1
    else countFrom part 0 rest

/-- How often `part` occurs in the list, counting from the left without overlaps. -/
def countOccurrences (part whole : List α) : Nat :=
  if part.isEmpty then whole.length + 1 else countFrom part 0 whole

end CipherBoard
