/-
CipherBoard.Text.Taken — what a reader takes off the front of a text.

A reader answers with a value and the rest of the text, and the rest is shorter. That is what
makes a loop of readers end.
-/
namespace CipherBoard.Text

variable {τ α : Type}

/-- A list is shorter than with one item more. -/
theorem length_lt_cons (a : τ) (s : List τ) : s.length < (a :: s).length :=
  Nat.lt_succ_self s.length

/-- A list is no longer than with one item more. -/
theorem length_le_cons (a : τ) (s : List τ) : s.length ≤ (a :: s).length :=
  Nat.le_succ s.length

/-- What has been read off the front of `s`, and the rest. -/
structure Taken (α : Type) (s : List τ) where
  value : α
  rest : List τ
  shorter : rest.length < s.length

namespace Taken

/-- What was read off the front of a shorter text, seen from a longer one. -/
def widen {s t : List τ} (r : Taken α t) (h : t.length ≤ s.length) : Taken α s :=
  ⟨r.value, r.rest, Nat.lt_of_lt_of_le r.shorter h⟩

/-- What was read, seen as another value. -/
def map {β : Type} {s : List τ} (f : α → β) (r : Taken α s) : Taken β s :=
  ⟨f r.value, r.rest, r.shorter⟩

end Taken

end CipherBoard.Text
