/-!
# Blank characters

The characters that separate words, and the text that is left when they are taken from both
ends. A character is blank when it has the Unicode property `White_Space`.

Main definitions:

* `isBlank`: the property, as a table of code points.
* `trim`: a text without the blanks at its two ends.
-/

namespace Stencil.Text

/-- A character is blank when it has the Unicode property `White_Space`. -/
def isBlank (c : Char) : Bool :=
  let n := c.toNat
  (9 ≤ n && n ≤ 13) || n == 0x20 || n == 0x85 || n == 0xA0 || n == 0x1680 ||
    (0x2000 ≤ n && n ≤ 0x200A) || n == 0x2028 || n == 0x2029 || n == 0x202F || n == 0x205F ||
    n == 0x3000

/-- The text without the blanks at its start. -/
def trimStart (text : List Char) : List Char :=
  text.dropWhile isBlank

/-- The text without the blanks at its end. -/
def trimEnd (text : List Char) : List Char :=
  (text.reverse.dropWhile isBlank).reverse

/-- The text without the blanks at its two ends. -/
def trim (text : List Char) : List Char :=
  trimEnd (trimStart text)

@[simp]
theorem trim_nil : trim [] = [] := rfl

/-- A text trims to nothing exactly when all of it is blank. -/
theorem trimStart_eq_nil_iff {text : List Char} :
    trimStart text = [] ↔ ∀ c ∈ text, isBlank c = true := by
  induction text with
  | nil => simp [trimStart]
  | cons c rest ih =>
    by_cases h : isBlank c <;> simp_all [trimStart]

end Stencil.Text
