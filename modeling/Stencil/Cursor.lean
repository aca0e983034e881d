/-!
# Cursors

A cursor is the place of a transform in the elements that its strategy presents. A counted cursor
presents the text of the region again and again, a range presents integers, and a list presents
its elements.

Main definitions:

* `Cursor`: the place in the elements.
* `Cursor.next?`: the next element, and the cursor behind it.

Main statements:

* `toInt_addWithin`: a range stops at the ends of the 64-bit integers instead of passing them.
-/

namespace Stencil

/-- The place of a transform in the elements that it is shown. -/
inductive Cursor where
  /-- The transform was never started. -/
  | idle
  /-- The text of the region is shown until `limit` elements are shown. -/
  | counted (shown limit : Nat)
  /-- The integers from `start` on are shown, `step` apart, as long as they lie before `stop`. -/
  | range (start stop step : Int64)
  /-- The elements of a list are shown; `remaining` are those still to come. -/
  | list (elements remaining : List String)
deriving DecidableEq, Repr

namespace Cursor

/-- The sum of two 64-bit integers, or the end of the 64-bit integers that it lies beyond. -/
def addWithin (a b : Int64) : Int64 :=
  Int64.ofInt (max Int64.minValue.toInt (min Int64.maxValue.toInt (a.toInt + b.toInt)))

/-- Whether `n` lies before the end of a range that moves by `step`. -/
def before (n stop step : Int64) : Bool :=
  if 0 < step.toInt then n.toInt < stop.toInt else stop.toInt < n.toInt

/-- The decimal form of an integer. -/
def decimal (n : Int64) : String :=
  toString n.toInt

/-- The element that a transform is shown when it starts: the start of a range, or else the text of
the region. -/
def initial (literal : String) : Cursor → String
  | range start _ _ => decimal start
  | _ => literal

/-- All elements of a list; nothing for the other cursors. -/
def elements : Cursor → List String
  | list elements _ => elements
  | _ => []

/-- The next element and the cursor behind it, or nothing if all elements were shown. -/
def next? (literal : String) : Cursor → Option (String × Cursor)
  | idle => none
  | counted shown limit =>
    if shown < limit then some (literal, counted (shown + 1) limit) else none
  | range start stop step =>
    if before start stop step then some (decimal start, range (addWithin start step) stop step)
    else none
  | list _ [] => none
  | list elements (element :: remaining) => some (element, list elements remaining)

/-- A range stops at the ends of the 64-bit integers instead of passing them. -/
theorem toInt_addWithin (a b : Int64) :
    (addWithin a b).toInt =
      max Int64.minValue.toInt (min Int64.maxValue.toInt (a.toInt + b.toInt)) := by
  have hmin : Int64.minValue.toInt = -2 ^ 63 := by decide
  have hmax : Int64.maxValue.toInt = 2 ^ 63 - 1 := by decide
  rw [addWithin, Int64.toInt_ofInt_of_le]
  all_goals rw [hmin, hmax]; omega

/-- Moving a cursor on keeps its elements. -/
theorem elements_of_next? {literal element : String} {cursor cursor' : Cursor}
    (h : cursor.next? literal = some (element, cursor')) : cursor'.elements = cursor.elements := by
  cases cursor with
  | idle => simp [next?] at h
  | counted shown limit =>
    simp only [next?] at h
    split at h <;> simp at h
    rw [← h.2]
    rfl
  | range start stop step =>
    simp only [next?] at h
    split at h <;> simp at h
    rw [← h.2]
    rfl
  | list elements remaining =>
    cases remaining with
    | nil => simp [next?] at h
    | cons first remaining =>
      simp only [next?, Option.some.injEq, Prod.mk.injEq] at h
      rw [← h.2]
      rfl

end Cursor

end Stencil
