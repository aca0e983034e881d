import Stencil.Random.ChaCha

/-!
# Random choices

A generator is an endless stream of 32-bit words and a position in it. A choice among `bound`
possibilities takes a word, spreads it over the possibilities by a multiplication, and refuses
words that would make some possibility more likely than another.

Main definitions:

* `Generator`: a stream and a position; `Generator.seeded`, `Generator.ofWords`.
* `Generator.below32`, `Generator.below64`: a number below a bound.
* `Generator.shuffle`: a list in a random order.

Main statements:

* `shuffle_perm`: a shuffled list has the elements of the list, each as often.
-/

namespace Stencil

/-- A stream of 32-bit words and the position of the next one. -/
structure Generator where
  /-- The word at each position. -/
  word : Nat → UInt32
  /-- The position of the next word. -/
  position : Nat

namespace Generator

/-- The generator that a seed determines. -/
def seeded (seed : UInt64) : Generator :=
  let key := ChaCha.keyOfSeed seed
  ⟨ChaCha.word key, 0⟩

/-- The generator that gives the 64-bit words listed by `words`, each as its low and its high
half. -/
def ofWords (words : Nat → UInt64) : Generator where
  word position :=
    let pair := words (position / 2)
    if position % 2 = 0 then pair.toUInt32 else (pair >>> 32).toUInt32
  position := 0

/-- Takes one word of the stream. -/
def next32 (g : Generator) : Nat × Generator :=
  ((g.word g.position).toNat, { g with position := g.position + 1 })

/-- Takes two words of the stream, the low half first. -/
def next64 (g : Generator) : Nat × Generator :=
  let low := g.next32
  let high := low.2.next32
  (high.1 * UInt32.size + low.1, high.2)

/-- How many words in a row a choice may refuse. -/
def retryLimit : Nat := 65536

/-- The largest remainder with which one of `size` words is taken for a choice below `bound`: one
less than the bound shifted up until it has as many bits as the words. -/
def zone (size bound : Nat) : Nat :=
  bound <<< (size.log2 - (bound.log2 + 1)) - 1

/-- Chooses a number below `bound` from words below `size`, refusing at most `retries` of them. -/
def drawBelow (draw : Generator → Nat × Generator) (size bound : Nat) :
    Nat → Generator → Nat × Generator
  | 0, g => ((draw g).1 * bound / size, (draw g).2)
  | retries + 1, g =>
    let drawn := draw g
    -- the remainder tells whether the word lies in a part that all choices share evenly
    if drawn.1 * bound % size ≤ zone size bound then (drawn.1 * bound / size, drawn.2)
    else drawBelow draw size bound retries drawn.2

/-- Chooses a number below `bound` from 32-bit words. -/
def below32 (bound : Nat) (g : Generator) : Nat × Generator :=
  drawBelow next32 UInt32.size bound retryLimit g

/-- Chooses a number below `bound` from 64-bit words. -/
def below64 (bound : Nat) (g : Generator) : Nat × Generator :=
  drawBelow next64 UInt64.size bound retryLimit g

/-- Exchanges each of the elements at the places `count`, …, `1` with one that stands at a random
place not behind it. -/
def exchange {α : Type} : Nat → Array α → Generator → Array α × Generator
  | 0, elements, g => (elements, g)
  | i + 1, elements, g =>
    let choice := below32 (i + 2) g
    exchange i (elements.swapIfInBounds (i + 1) choice.1) choice.2

/-- The list in a random order. -/
def shuffle {α : Type} (elements : List α) (g : Generator) : List α × Generator :=
  let exchanged := exchange (elements.length - 1) elements.toArray g
  (exchanged.1.toList, exchanged.2)

theorem exchange_perm {α : Type} (count : Nat) (elements : Array α) (g : Generator) :
    (exchange count elements g).1.Perm elements := by
  induction count generalizing elements g with
  | zero => exact .rfl
  | succ i ih =>
    refine (ih _ _).trans ?_
    simp only [Array.swapIfInBounds]
    split
    · split
      · exact Array.swap_perm _ _
      · exact .rfl
    · exact .rfl

/-- A shuffled list has the elements of the list, each as often. -/
theorem shuffle_perm {α : Type} (elements : List α) (g : Generator) :
    (shuffle elements g).1.Perm elements := by
  simpa [shuffle, Array.perm_iff_toList_perm] using
    exchange_perm (elements.length - 1) elements.toArray g

end Generator

end Stencil
