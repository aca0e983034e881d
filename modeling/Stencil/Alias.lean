import Stencil.Random.Generator
import Stencil.Text.Search

/-!
# Aliases

An alias stands in a template in the place of a region. It is a word of 32 random letters that
does not occur in the text to be avoided and has not been issued before; a candidate that fails
this is thrown away and another one is drawn.

Main definitions:

* `AliasPool`: where aliases come from.
* `AliasPool.fresh?`: the next alias.

Main statements:

* `not_mem_issued_of_fresh?`, `not_occurs_of_fresh?`: an alias is new, and absent from the text
  to be avoided.
-/

namespace Stencil

/-- Where aliases come from. -/
structure AliasPool where
  /-- The source of random letters. -/
  generator : Generator
  /-- The aliases issued so far, the last one first. -/
  issued : List String := []
  /-- How many candidates in a row may be thrown away. -/
  patience : Nat := 65536

namespace AliasPool

/-- The letters of aliases. -/
def letters : List Char :=
  ['a', 'b', 'c', 'd', 'e', 'f', 'g', 'h', 'i', 'j', 'k', 'l', 'm',
    'n', 'o', 'p', 'q', 'r', 's', 't', 'u', 'v', 'w', 'x', 'y', 'z',
    'A', 'B', 'C', 'D', 'E', 'F', 'G', 'H', 'I', 'J', 'K', 'L', 'M',
    'N', 'O', 'P', 'Q', 'R', 'S', 'T', 'U', 'V', 'W', 'X', 'Y', 'Z']

/-- How many letters an alias has. -/
def aliasLength : Nat := 32

/-- Draws `count` letters. -/
def drawLetters : Nat → Generator → List Char × Generator
  | 0, g => ([], g)
  | count + 1, g =>
    let place := Generator.below64 letters.length g
    let rest := drawLetters count place.2
    (letters.getD place.1 'a' :: rest.1, rest.2)

/-- Draws candidates until one is neither among the issued ones nor occurs in `avoid`. -/
def drawFresh (avoid : List Char) (issued : List String) :
    Nat → Generator → Option (String × Generator)
  | 0, _ => none
  | patience + 1, g =>
    let candidate := drawLetters aliasLength g
    let name := String.ofList candidate.1
    if Text.occurs candidate.1 avoid || issued.contains name then
      drawFresh avoid issued patience candidate.2
    else some (name, candidate.2)

/-- The next alias, which occurs nowhere in `avoid`. -/
def fresh? (pool : AliasPool) (avoid : List Char) : Option (String × AliasPool) :=
  (drawFresh avoid pool.issued pool.patience pool.generator).map fun drawn =>
    (drawn.1, { pool with generator := drawn.2, issued := drawn.1 :: pool.issued })

/-- The next `count` aliases, or fewer if the patience of the pool runs out. -/
def freshList (pool : AliasPool) (avoid : List Char) : Nat → List String
  | 0 => []
  | count + 1 =>
    match pool.fresh? avoid with
    | none => []
    | some (name, pool) => name :: freshList pool avoid count

theorem drawLetters_length (count : Nat) (g : Generator) :
    (drawLetters count g).1.length = count := by
  induction count generalizing g with
  | zero => rfl
  | succ count ih => rw [drawLetters, List.length_cons, ih]

/-- A letter picked by its place, the first one if there is none at the place, is a letter. -/
theorem getD_letters_mem (place : Nat) : letters.getD place 'a' ∈ letters := by
  rw [List.getD_eq_getElem?_getD]
  cases hget : letters[place]? with
  | none => simp [letters]
  | some c => exact List.mem_of_getElem? hget

theorem mem_letters_of_mem_drawLetters {count : Nat} {g : Generator} {c : Char}
    (h : c ∈ (drawLetters count g).1) : c ∈ letters := by
  induction count generalizing g with
  | zero => simp [drawLetters] at h
  | succ count ih =>
    rw [drawLetters] at h
    rcases List.mem_cons.1 h with heq | h
    · exact heq ▸ getD_letters_mem _
    · exact ih h

/-- What a draw gives is a candidate that is neither issued nor to be avoided. -/
theorem of_drawFresh {avoid : List Char} {issued : List String} {patience : Nat}
    {g g' : Generator} {name : String}
    (h : drawFresh avoid issued patience g = some (name, g')) :
    (∃ g, name = String.ofList (drawLetters aliasLength g).1) ∧
      Text.occurs name.toList avoid = false ∧ name ∉ issued := by
  induction patience generalizing g with
  | zero => simp [drawFresh] at h
  | succ patience ih =>
    simp only [drawFresh] at h
    split at h
    · exact ih h
    · rename_i hkeep
      simp only [Bool.or_eq_true, not_or, Bool.not_eq_true] at hkeep
      simp only [Option.some.injEq, Prod.mk.injEq] at h
      obtain ⟨rfl, -⟩ := h
      refine ⟨⟨g, rfl⟩, by simpa using hkeep.1, by simpa using hkeep.2⟩

/-- An alias is new. -/
theorem not_mem_issued_of_fresh? {pool pool' : AliasPool} {avoid : List Char} {name : String}
    (h : pool.fresh? avoid = some (name, pool')) : name ∉ pool.issued := by
  obtain ⟨⟨drawn, g⟩, hdraw, heq⟩ := Option.map_eq_some_iff.1 h
  simp only [Prod.mk.injEq] at heq
  exact heq.1 ▸ (of_drawFresh hdraw).2.2

/-- An alias does not occur in the text to be avoided. -/
theorem not_occurs_of_fresh? {pool pool' : AliasPool} {avoid : List Char} {name : String}
    (h : pool.fresh? avoid = some (name, pool')) : Text.occurs name.toList avoid = false := by
  obtain ⟨⟨drawn, g⟩, hdraw, heq⟩ := Option.map_eq_some_iff.1 h
  simp only [Prod.mk.injEq] at heq
  exact heq.1 ▸ (of_drawFresh hdraw).2.1

end AliasPool

end Stencil
