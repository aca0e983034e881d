/-!
# Families of markup

A region opens with `[`, the sigil of its family and a heading up to `]`, and it closes with
the close tag of its family. A template uses at most one of the three iterative families; the
persistent family goes together with any of them.

Main definitions:

* `Family`: the four families.
* `Mode`: how the regions of a template combine.
-/

namespace Stencil

/-- A family of markup. -/
inductive Family where
  /-- One region at a time varies. -/
  | single
  /-- All regions vary in step. -/
  | lockstep
  /-- All combinations of the values of the regions occur. -/
  | cross
  /-- The text of the region is edited in every payload. -/
  | persistent
deriving DecidableEq, Repr

namespace Family

/-- The families whose regions vary, in the order in which they are looked for. -/
def iterative : List Family := [single, lockstep, cross]

/-- The character that marks the tags of the family. -/
def sigil : Family → Char
  | single => '+'
  | lockstep => '#'
  | cross => '%'
  | persistent => '@'

/-- The name under which the family appears in messages. -/
def label : Family → String
  | single => "single-target"
  | lockstep => "lockstep"
  | cross => "cross-product"
  | persistent => "persistent"

/-- How an open tag for `name` starts; what follows is the rest of the heading and `]`. -/
def openPrefix (family : Family) (name : List Char) : List Char :=
  '[' :: family.sigil :: name

/-- The tag that closes a region. -/
def closeTag (family : Family) : List Char :=
  ['[', family.sigil, 'e', 'n', 'd', ']']

/-- The character that divides a heading which names several transforms, if the family has
such headings. -/
def separator? : Family → Option Char
  | single => some ';'
  | persistent => some '|'
  | lockstep | cross => none

/-- Whether a transform may bind only one region of the family in a template. -/
def bindsOnce : Family → Bool
  | lockstep | cross => true
  | single | persistent => false

end Family

/-- How the regions of a template combine. -/
inductive Mode where
  /-- The template has no iterative family. -/
  | none
  /-- One region at a time. -/
  | single
  /-- All regions in step. -/
  | lockstep
  /-- All combinations. -/
  | cross
deriving DecidableEq, Repr

namespace Mode

/-- The family whose regions vary. -/
def family? : Mode → Option Family
  | none => Option.none
  | single => some .single
  | lockstep => some .lockstep
  | cross => some .cross

/-- The mode in which the regions of a family vary. -/
def ofFamily : Family → Mode
  | .single => single
  | .lockstep => lockstep
  | .cross => cross
  | .persistent => none

/-- The name under which the mode is written out. -/
def label : Mode → String
  | none => "none"
  | single => "single"
  | lockstep => "lockstep"
  | cross => "cross"

/-- The mode of a family has that family, if the family is iterative. -/
theorem family?_ofFamily {family : Family} (h : family ∈ Family.iterative) :
    (ofFamily family).family? = some family := by
  cases family <;> first | rfl | exact absurd h (by decide)

end Mode

end Stencil
