import Stencil.Data.Toml.Moment
import Stencil.Data.Value

/-!
# Scalars of TOML that are written without quotes

Truth values, integers, floating-point numbers, dates and times. A scalar is a run of characters
that is read as a whole: it stands for one value or for none. Numbers can be written that are too
great to be taken; a document may hold them where nobody asks for their value.

Main definitions:

* `Toml.integer?`, `Toml.fraction?`, `Toml.Moment.ofChars?`: the kinds of scalars.
* `Toml.scalar?`: the value of a scalar.
* `Toml.isInRange`: whether the value of a scalar can be taken.
-/

namespace Stencil.Data.Toml

/-- The number of a run of digits behind the mark of its base. -/
def based? (base : Nat) (text : List Char) : Option Int :=
  ((ungroup? text).bind (ofDigits? base)).map Int.ofNat

/-- An integer, in base ten with a sign or behind the mark of another base. -/
def integer? (text : List Char) : Option Int :=
  match text with
  | '0' :: 'x' :: digits => based? 16 digits
  | '0' :: 'o' :: digits => based? 8 digits
  | '0' :: 'b' :: digits => based? 2 digits
  | text =>
    let (negative, digits) := unsign text
    ((whole? digits).bind (ofDigits? 10)).map fun n => if negative then -(n : Int) else n

/-- The exponent behind its mark, or zero if there is none. -/
def exponent? : List Char → Option Int
  | [] => some 0
  | mark :: rest =>
    if mark = 'e' ∨ mark = 'E' then
      let (negative, digits) := unsign rest
      ((decimals? digits).bind (ofDigits? 10)).map fun n => if negative then -(n : Int) else n
    else none

/-- The digits of a floating-point number with a fraction or an exponent, as one number, and the
power of ten that they are multiplied with. The sign is left out. -/
def fraction? (text : List Char) : Option (Nat × Int) := do
  let isMark (c : Char) : Bool := c == 'e' || c == 'E'
  let (whole, rest) := (unsign text).2.span fun c => c != '.' && !isMark c
  let whole ← whole? whole
  match rest with
  | [] => none
  | '.' :: rest =>
    let (fraction, rest) := rest.span fun c => !isMark c
    let fraction ← decimals? fraction
    let exponent ← exponent? rest
    return (← ofDigits? 10 (whole ++ fraction), exponent - fraction.length)
  | rest => return (← ofDigits? 10 whole, ← exponent? rest)

/-- Whether a text is a floating-point number without digits. -/
def isSpecial (text : List Char) : Bool :=
  let unsigned := (unsign text).2
  unsigned == ['i', 'n', 'f'] || unsigned == ['n', 'a', 'n']

/-- The value of a scalar. -/
def scalar? (text : List Char) : Option Value :=
  if text = ['t', 'r', 'u', 'e'] then some (.boolean true)
  else if text = ['f', 'a', 'l', 's', 'e'] then some (.boolean false)
  else
    match Moment.ofChars? text with
    | some moment => some (.moment (String.ofList moment.text))
    | none =>
      match integer? text with
      | some n => some (.integer n)
      | none =>
        if isSpecial text || (fraction? text).isSome then some (.decimal (String.ofList text))
        else none

/-- Whether an integer has at most 128 bits. -/
def isBounded (n : Int) : Bool :=
  -(Nat.pow 2 127 : Int) ≤ n && n < Nat.pow 2 128

/-- Whether `digits * 10 ^ exponent` is a finite floating-point number of 64 bits: it lies below the
middle between the greatest one and the next power of two. -/
def isFinite (digits : Nat) (exponent : Int) : Bool :=
  let size := (Nat.toDigits 10 digits).length + exponent
  if digits = 0 || size < 300 then true
  else if 400 < size then false
  else
    let limit := Nat.pow 2 1024 - Nat.pow 2 970
    if 0 ≤ exponent then digits * Nat.pow 10 exponent.toNat < limit
    else digits < limit * Nat.pow 10 (-exponent).toNat

/-- Whether the value of a scalar can be taken: integers have at most 128 bits, and digits do not
write an infinite floating-point number. -/
def isInRange : Value → Bool
  | .integer n => isBounded n
  | .decimal written =>
    match fraction? written.toList with
    | some (digits, exponent) => isFinite digits exponent
    | none => true
  | _ => true

end Stencil.Data.Toml
