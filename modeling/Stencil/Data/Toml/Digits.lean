/-!
# Digits

Numbers as runs of digits, with underscores between the digits or without them.

Main definitions:

* `Toml.ofDigits?`: the number that digits of a base write.
* `Toml.lastDigits`: the digits that write a number in base ten.
-/

namespace Stencil.Data.Toml

/-- A digit of base ten. -/
def isDecimal (c : Char) : Bool :=
  '0' ≤ c && c ≤ '9'

/-- The value of a digit of base sixteen. -/
def digitValue? (c : Char) : Option Nat :=
  if isDecimal c then some (c.toNat - '0'.toNat)
  else if 'a' ≤ c && c ≤ 'f' then some (c.toNat - 'a'.toNat + 10)
  else if 'A' ≤ c && c ≤ 'F' then some (c.toNat - 'A'.toNat + 10)
  else none

/-- The number that digits of a base write. -/
def ofDigits? (base : Nat) (digits : List Char) : Option Nat :=
  digits.foldlM (fun n c => (digitValue? c).bind fun d => if d < base then some (n * base + d)
    else none) 0

/-- A run of digits without the single underscores that may stand between two of them. -/
def ungroup? : List Char → Option (List Char)
  | [] => none
  | [c] => if c = '_' then none else some [c]
  | c :: '_' :: rest => if c = '_' then none else (ungroup? rest).map (c :: ·)
  | c :: rest => if c = '_' then none else (ungroup? rest).map (c :: ·)

/-- The digits of base ten, without underscores. -/
def decimals? (text : List Char) : Option (List Char) :=
  (ungroup? text).filter (·.all isDecimal)

/-- The digits of base ten, without underscores and without a zero in front of others. -/
def whole? (text : List Char) : Option (List Char) :=
  (decimals? text).filter fun digits => digits.length == 1 || digits.head? != some '0'

/-- The rest of a text behind a sign, and whether the sign is a minus. -/
def unsign : List Char → Bool × List Char
  | '-' :: rest => (true, rest)
  | '+' :: rest => (false, rest)
  | text => (false, text)

/-- The last `count` digits of a number in base ten, with zeros in front of a shorter one. -/
def lastDigits : Nat → Nat → List Char
  | 0, _ => []
  | count + 1, n => lastDigits count (n / 10) ++ [Nat.digitChar (n % 10)]

end Stencil.Data.Toml
