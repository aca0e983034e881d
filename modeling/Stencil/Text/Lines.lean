import Stencil.Text.Blank
import Stencil.Text.Search

/-!
# Entries of line-oriented texts

A line-oriented text holds an entry on each line. The blanks around an entry do not belong to it,
a line of blanks holds none. A carriage return before a line feed is one of the blanks, so it makes
no difference.

Main definitions:

* `entries`: the entries of a text.

Main statements:

* `splitOn_append`: a separator between two texts divides their parts.
* `entries_append`: the entries of two texts with a line feed between them are those of the one
  followed by those of the other.
-/

namespace Stencil.Text

/-- The entries of a line-oriented text, in order. -/
def entries (text : List Char) : List (List Char) :=
  (splitOn '\n' text).map trim |>.filter (· ≠ [])

/-- A separator between two texts divides their parts. -/
theorem splitOn_append (separator : Char) (first second : List Char) :
    splitOn separator (first ++ separator :: second) =
      splitOn separator first ++ splitOn separator second := by
  induction first with
  | nil => simp [splitOn]
  | cons c rest ih =>
    simp only [List.cons_append, splitOn, ih]
    split
    · rfl
    · cases h : splitOn separator rest with
      | nil => exact absurd h (splitOn_ne_nil separator rest)
      | cons part parts => rfl

/-- The entries of two texts with a line feed between them are those of the one followed by those
of the other. -/
theorem entries_append (first second : List Char) :
    entries (first ++ '\n' :: second) = entries first ++ entries second := by
  simp [entries, splitOn_append]

end Stencil.Text
