/-!
# Searching and replacing in a text

A text is searched from left to right. The first place where a pattern stands splits the text
into what comes before it and what comes after it; replacing goes on behind each place found, so
the places replaced never overlap.

Main definitions:

* `splitFirst`: the text before and after the first place where a pattern stands.
* `occurs`: whether a pattern stands anywhere in a text.
* `replace`: the text with every place of a pattern replaced.

Main statements:

* `eq_append_of_splitFirst`: the parts of a split, with the pattern between them, are the text.
* `splitFirst_isSome_iff`: a split exists exactly when the pattern stands in the text.
-/

namespace Stencil.Text

/-- The text before and after the first place where `pattern` stands. -/
def splitFirst (pattern : List Char) : List Char → Option (List Char × List Char)
  | [] => if pattern.isEmpty then some ([], []) else none
  | c :: rest =>
    if pattern.isPrefixOf (c :: rest) then some ([], (c :: rest).drop pattern.length)
    else (splitFirst pattern rest).map fun (before, after) => (c :: before, after)

/-- Whether `pattern` stands anywhere in `text`. -/
def occurs (pattern text : List Char) : Bool :=
  (splitFirst pattern text).isSome

/-- Replaces the places of a pattern that is not empty; `skip` characters still belong to the
place replaced last. -/
def replaceFrom (pattern value : List Char) : Nat → List Char → List Char
  | _, [] => []
  | skip + 1, _ :: rest => replaceFrom pattern value skip rest
  | 0, c :: rest =>
    if pattern.isPrefixOf (c :: rest) then
      value ++ replaceFrom pattern value (pattern.length - 1) rest
    else c :: replaceFrom pattern value 0 rest

/-- The text with every place of `pattern` replaced by `value`. The empty pattern stands before
every character and at the end. -/
def replace (pattern value text : List Char) : List Char :=
  if pattern.isEmpty then text.foldr (fun c rest => value ++ c :: rest) value
  else replaceFrom pattern value 0 text

/-- The parts of a text that `separator` divides, in order; there is always one. -/
def splitOn (separator : Char) : List Char → List (List Char)
  | [] => [[]]
  | c :: rest =>
    if c = separator then [] :: splitOn separator rest
    else
      match splitOn separator rest with
      | [] => [[c]]
      | part :: parts => (c :: part) :: parts

/-- The parts of a split, with the pattern between them, are the text. -/
theorem eq_append_of_splitFirst {pattern text before after : List Char}
    (h : splitFirst pattern text = some (before, after)) : text = before ++ pattern ++ after := by
  induction text generalizing before with
  | nil =>
    simp only [splitFirst, List.isEmpty_iff] at h
    split at h <;> simp_all
  | cons c rest ih =>
    simp only [splitFirst] at h
    split at h
    · rename_i hp
      obtain ⟨tail, ht⟩ := List.isPrefixOf_iff_prefix.1 hp
      simp only [Option.some.injEq, Prod.mk.injEq] at h
      simp [← h.1, ← h.2, ← ht]
    · obtain ⟨⟨b, a⟩, hs, heq⟩ := Option.map_eq_some_iff.1 h
      simp only [Prod.mk.injEq] at heq
      obtain ⟨rfl, rfl⟩ := heq
      simp [ih hs]

/-- A split exists exactly when the pattern stands somewhere in the text. -/
theorem splitFirst_isSome_iff {pattern text : List Char} :
    (splitFirst pattern text).isSome ↔ pattern <:+: text := by
  induction text with
  | nil => simp [splitFirst]
  | cons c rest ih =>
    simp only [splitFirst, List.infix_cons_iff, ← ih, ← List.isPrefixOf_iff_prefix]
    split <;> simp_all

/-- A pattern occurs in a text exactly when it is an infix of the text. -/
@[simp]
theorem occurs_iff {pattern text : List Char} : occurs pattern text = true ↔ pattern <:+: text :=
  splitFirst_isSome_iff

@[simp]
theorem splitOn_ne_nil (separator : Char) (text : List Char) : splitOn separator text ≠ [] := by
  cases text with
  | nil => simp [splitOn]
  | cons c rest =>
    simp only [splitOn]
    split
    · simp
    · split <;> simp

end Stencil.Text
