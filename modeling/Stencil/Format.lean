import Stencil.State
import Stencil.Transform

/-!
# Formats

A format is a text with placeholders for the element that a step function is shown, for the text
of the region and for the number of values given so far. All placeholders are replaced at once:
what is put in is never read as part of a placeholder, and everything else is copied.

Main definitions:

* `Placeholder`: the placeholders.
* `Format.render`: a format filled in.
* `Format.step`: the step function that fills in a format.
-/

namespace Stencil

/-- What can stand in a format for a text. -/
inductive Placeholder where
  /-- The element shown. -/
  | element
  /-- The text of the region. -/
  | literal
  /-- The number of values given so far. -/
  | iteration
deriving DecidableEq, Repr

namespace Placeholder

/-- All placeholders. -/
def all : List Placeholder := [element, literal, iteration]

/-- How a placeholder is written. -/
def written : Placeholder → List Char
  | element => ['{', 'e', 'l', 'e', 'm', 'e', 'n', 't', '}']
  | literal => ['{', 'l', 'i', 't', 'e', 'r', 'a', 'l', '}']
  | iteration => ['{', 'i', 't', 'e', 'r', 'a', 't', 'i', 'o', 'n', '}']

/-- The text in the place of a placeholder. -/
def value (shown : String) (view : StepView) : Placeholder → List Char
  | element => shown.toList
  | literal => view.inner.toList
  | iteration => (toString view.iteration).toList

/-- The placeholder that a text starts with. -/
def ahead? (text : List Char) : Option Placeholder :=
  all.find? fun placeholder => placeholder.written.isPrefixOf text

end Placeholder

namespace Format

/-- Fills in a format whose first `skip` characters belong to the placeholder filled in last. -/
def renderFrom (value : Placeholder → List Char) : Nat → List Char → List Char
  | _, [] => []
  | skip + 1, _ :: rest => renderFrom value skip rest
  | 0, c :: rest =>
    match Placeholder.ahead? (c :: rest) with
    | some placeholder =>
      value placeholder ++ renderFrom value (placeholder.written.length - 1) rest
    | none => c :: renderFrom value 0 rest

/-- A format filled in for an element. -/
def render (format element : String) (view : StepView) : String :=
  String.ofList (renderFrom (Placeholder.value element view) 0 format.toList)

/-- The format that shows the element alone. -/
def elementOnly : String :=
  String.ofList Placeholder.element.written

/-- The step function that fills in a format. -/
def step (format : String) : StepFunction := fun element view memory =>
  (.value (render format element view), memory)

end Format

end Stencil
