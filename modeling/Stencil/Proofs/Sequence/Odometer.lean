import Mathlib.Algebra.BigOperators.Group.List.Basic
import Mathlib.Algebra.Order.Group.Nat
import Mathlib.Data.List.Forall2

/-!
# The digits of a counter

A counter has a digit for each of its radices, the first digit moving fastest. The digits of a
number are its remainders when it is divided by one radix after the other, so a number below the
product of the radices is determined by its digits, and every choice of digits below their radices
belongs to such a number.

Main definitions:

* `digits`: the digits of a number.
* `number`: the number with some digits.

Main statements:

* `getElem?_digits`: a digit in closed form.
* `existsUnique_digits`: digits below their radices belong to exactly one number.
* `succ_div_mod_of_lt`, `succ_div_mod_of_eq`: how the first digit and the others move, without and
  with a carry.
-/

namespace Stencil.Odometer

/-- The digits of `n`, the fastest one first. -/
def digits : List Nat → Nat → List Nat
  | [], _ => []
  | radix :: radices, n => n % radix :: digits radices (n / radix)

/-- The number with the given digits. -/
def number : List Nat → List Nat → Nat
  | radix :: radices, digit :: rest => digit + radix * number radices rest
  | _, _ => 0

/-- The digit of `n` at `i` is the quotient of `n` by all radices before, modulo its own `radix`. -/
theorem getElem?_digits {radices : List Nat} {i radix : Nat} (h : radices[i]? = some radix)
    (n : Nat) : (digits radices n)[i]? = some (n / (radices.take i).prod % radix) := by
  induction radices generalizing i n with
  | nil => simp at h
  | cons first radices ih =>
    cases i with
    | zero =>
      simp only [List.getElem?_cons_zero, Option.some.injEq] at h
      simp [digits, h]
    | succ i =>
      rw [List.getElem?_cons_succ] at h
      rw [digits, List.getElem?_cons_succ, ih h, List.take_succ_cons, List.prod_cons,
        Nat.div_div_eq_div_mul]

theorem length_digits (radices : List Nat) (n : Nat) :
    (digits radices n).length = radices.length := by
  induction radices generalizing n with
  | nil => rfl
  | cons radix radices ih => rw [digits, List.length_cons, ih, List.length_cons]

/-- The digits of `n` are `places` exactly if each of these is the digit in closed form. -/
theorem digits_eq_iff {radices places : List Nat} (hlength : places.length = radices.length)
    (n : Nat) :
    digits radices n = places ↔ ∀ i radix, radices[i]? = some radix →
      places[i]? = some (n / (radices.take i).prod % radix) := by
  constructor
  · rintro rfl i radix hradix
    exact getElem?_digits hradix n
  · intro h
    refine List.ext_getElem? fun i => ?_
    cases hradix : radices[i]? with
    | some radix => rw [getElem?_digits hradix, h i radix hradix]
    | none =>
      have hle := List.getElem?_eq_none_iff.1 hradix
      rw [List.getElem?_eq_none (by rwa [length_digits]),
        List.getElem?_eq_none (by rwa [hlength])]

/-- The digits of `number radices places` are `places`, if these lie below their radices. -/
theorem digits_number {radices places : List Nat} (h : List.Forall₂ (· < ·) places radices) :
    digits radices (number radices places) = places := by
  induction h with
  | nil => rfl
  | @cons place radix places radices hlt _ ih =>
    have hpos : 0 < radix := Nat.zero_lt_of_lt hlt
    rw [number, digits, Nat.add_mul_mod_self_left, Nat.mod_eq_of_lt hlt,
      Nat.add_mul_div_left _ _ hpos, Nat.div_eq_of_lt hlt, Nat.zero_add, ih]

theorem number_lt {radices places : List Nat} (h : List.Forall₂ (· < ·) places radices) :
    number radices places < radices.prod := by
  induction h with
  | nil => simp [number]
  | @cons place radix places radices hlt _ ih =>
    rw [number, List.prod_cons]
    calc place + radix * number radices places
        < radix + radix * number radices places := Nat.add_lt_add_right hlt _
      _ = radix * (number radices places + 1) := by rw [Nat.mul_add_one, Nat.add_comm]
      _ ≤ radix * radices.prod := Nat.mul_le_mul_left _ ih

/-- A number `n` below `radices.prod` is the one with its digits. -/
theorem number_digits {radices : List Nat} {n : Nat} (h : n < radices.prod) :
    number radices (digits radices n) = n := by
  induction radices generalizing n with
  | nil =>
    simp only [List.prod_nil, Nat.lt_one_iff] at h
    simp [number, h]
  | cons radix radices ih =>
    have hdiv : n / radix < radices.prod := Nat.div_lt_of_lt_mul (by rwa [List.prod_cons] at h)
    rw [digits, number, ih hdiv, Nat.mod_add_div]

/-- If `places` lie below `radices`, they are the digits of exactly one number below
`radices.prod`. -/
theorem existsUnique_digits {radices places : List Nat}
    (h : List.Forall₂ (· < ·) places radices) :
    ∃! n, n < radices.prod ∧ digits radices n = places := by
  refine ⟨number radices places, ⟨number_lt h, digits_number h⟩, ?_⟩
  -- another number with these digits is the number with its digits
  rintro n ⟨hlt, rfl⟩
  exact (number_digits hlt).symm

/-- Without a carry the first digit of `n` moves by one, and the others stand still. -/
theorem succ_div_mod_of_lt {n radix : Nat} (h : n % radix + 1 < radix) :
    (n + 1) / radix = n / radix ∧ (n + 1) % radix = n % radix + 1 := by
  refine (Nat.div_mod_unique (Nat.zero_lt_of_lt h)).2 ⟨?_, h⟩
  rw [Nat.add_right_comm, Nat.mod_add_div]

/-- With a carry the first digit of `n` goes back to zero, and the others count one further. -/
theorem succ_div_mod_of_eq {n radix : Nat} (h : n % radix + 1 = radix) :
    (n + 1) / radix = n / radix + 1 ∧ (n + 1) % radix = 0 := by
  have hpos : 0 < radix := by omega
  refine (Nat.div_mod_unique hpos).2 ⟨?_, hpos⟩
  calc 0 + radix * (n / radix + 1)
      = radix * (n / radix) + radix := by rw [Nat.zero_add, Nat.mul_add_one]
    _ = radix * (n / radix) + (n % radix + 1) := by rw [h]
    _ = n + 1 := by rw [← Nat.add_assoc, Nat.div_add_mod]

end Stencil.Odometer
