import Stencil.Text.Casing.Mapping
import Stencil.Text.Casing.Property

/-!
# Upper and lower case

A text is mapped character by character. One mapping looks at its neighbours: a capital sigma
that ends a word becomes the final form of the small letter. It ends a word when a cased
character stands before it and none stands after it, characters that are ignored for casing
passed over on both sides.

Main definitions:

* `upper`, `lower`: the text in upper and in lower case.
-/

namespace Stencil.Text

open Casing

/-- The text in upper case. -/
def upper (text : List Char) : List Char :=
  text.flatMap uppercase.image

/-- Whether a cased character comes next, ignored characters passed over. -/
def casedAhead (text : List Char) : Bool :=
  match text.dropWhile isIgnorable with
  | c :: _ => isCased c
  | [] => false

/-- The small form of a capital sigma between `past`, the characters before it from last to
first, and `rest`. -/
def smallSigma (past rest : List Char) : Char :=
  if casedAhead past && !casedAhead rest then 'ς' else 'σ'

/-- Maps a text to lower case, `past` being the characters before it from last to first. -/
def lowerFrom (past : List Char) : List Char → List Char
  | [] => []
  -- the sigma looks at the text as it was given, not at what has become of it
  | c :: rest =>
    (if c = 'Σ' then [smallSigma past rest] else lowercase.image c) ++ lowerFrom (c :: past) rest

/-- The text in lower case. -/
def lower (text : List Char) : List Char :=
  lowerFrom [] text

end Stencil.Text
