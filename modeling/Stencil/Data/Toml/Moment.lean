import Stencil.Data.Toml.Digits

/-!
# Dates and times of TOML

A moment is a date, a time of day or both. The same moment can be written in several ways: the mark
between date and time and the mark of universal time have two letter cases, seconds may be missing,
and a fraction of a second may have any number of digits, of which nine count. Its text is the one
of them that is always used to show it.

Main definitions:

* `Toml.Moment`: a date, a time of day or both.
* `Toml.Moment.ofChars?`: the moment that a scalar writes.
* `Toml.Moment.text`: the text of a moment.
-/

namespace Stencil.Data.Toml

/-- A day of the calendar. -/
structure Date where
  /-- The year, of four digits. -/
  year : Nat
  /-- The month, counted from one. -/
  month : Nat
  /-- The day of the month, counted from one. -/
  day : Nat
deriving DecidableEq, Repr

/-- A time of day. -/
structure TimeOfDay where
  /-- The hour. -/
  hour : Nat
  /-- The minute. -/
  minute : Nat
  /-- The second; a leap second is the one after the last. -/
  second : Nat
  /-- The nanoseconds that have passed of the second. -/
  nanosecond : Nat
deriving DecidableEq, Repr

/-- How the clock that shows a time differs from universal time. -/
inductive Offset where
  /-- It shows universal time. -/
  | universal
  /-- It is so many minutes ahead. -/
  | ahead (minutes : Int)
deriving DecidableEq, Repr

/-- A date, a time of day or both. -/
inductive Moment where
  /-- A date alone. -/
  | dateOnly (date : Date)
  /-- A time of day alone. -/
  | timeOnly (time : TimeOfDay)
  /-- A time on a date, with the offset of its clock if that is known. -/
  | instant (date : Date) (time : TimeOfDay) (offset : Option Offset)
deriving DecidableEq, Repr

/-- The number between two bounds that two digits write. -/
def twoDigits? (low high : Nat) (a b : Char) : Option Nat :=
  if isDecimal a && isDecimal b then
    (ofDigits? 10 [a, b]).filter fun n => low ≤ n && n ≤ high
  else none

namespace Date

/-- How many days a month has. -/
def daysIn (year month : Nat) : Nat :=
  if month = 2 then
    if year % 4 = 0 ∧ (year % 100 ≠ 0 ∨ year % 400 = 0) then 29 else 28
  else if month = 4 ∨ month = 6 ∨ month = 9 ∨ month = 11 then 30
  else 31

/-- A date at the start of a text, and what follows it. -/
def read? : List Char → Option (Date × List Char)
  | y₁ :: y₂ :: y₃ :: y₄ :: '-' :: m₁ :: m₂ :: '-' :: d₁ :: d₂ :: rest => do
    let century ← twoDigits? 0 99 y₁ y₂
    let year := century * 100 + (← twoDigits? 0 99 y₃ y₄)
    let month ← twoDigits? 1 12 m₁ m₂
    let day ← twoDigits? 1 (daysIn year month) d₁ d₂
    return (⟨year, month, day⟩, rest)
  | _ => none

/-- The text of a date. -/
def text (date : Date) : List Char :=
  lastDigits 4 date.year ++ '-' :: lastDigits 2 date.month ++ '-' :: lastDigits 2 date.day

end Date

namespace TimeOfDay

/-- The nanoseconds that the fraction of a second at the start of a text writes, and what follows
it. Digits behind the ninth are passed over. -/
def fraction? : List Char → Option (Nat × List Char)
  | '.' :: text =>
    let (digits, rest) := text.span isDecimal
    if digits.isEmpty then none
    else (ofDigits? 10 ((digits ++ List.replicate 9 '0').take 9)).map fun n => (n, rest)
  | rest => some (0, rest)

/-- A time of day at the start of a text, and what follows it. The seconds may be missing. -/
def read? : List Char → Option (TimeOfDay × List Char)
  | h₁ :: h₂ :: ':' :: m₁ :: m₂ :: rest => do
    let hour ← twoDigits? 0 23 h₁ h₂
    let minute ← twoDigits? 0 59 m₁ m₂
    match rest with
    | ':' :: s₁ :: s₂ :: rest =>
      let second ← twoDigits? 0 60 s₁ s₂
      let (nanosecond, rest) ← fraction? rest
      return (⟨hour, minute, second, nanosecond⟩, rest)
    | rest => return (⟨hour, minute, 0, 0⟩, rest)
  | _ => none

/-- The text of a time of day. The fraction of the second has no zeros at its end, and there is none
if nothing has passed of the second. -/
def text (time : TimeOfDay) : List Char :=
  let fraction := (lastDigits 9 time.nanosecond).reverse.dropWhile (· == '0')
  lastDigits 2 time.hour ++ ':' :: lastDigits 2 time.minute ++ ':' :: lastDigits 2 time.second ++
    if fraction.isEmpty then [] else '.' :: fraction.reverse

end TimeOfDay

namespace Offset

/-- The offset that a text writes; there may be none. -/
def read? : List Char → Option (Option Offset)
  | [] => some none
  | [z] => if z = 'Z' ∨ z = 'z' then some (some .universal) else none
  | [sign, h₁, h₂, ':', m₁, m₂] => do
    let minutes : Nat := (← twoDigits? 0 23 h₁ h₂) * 60 + (← twoDigits? 0 59 m₁ m₂)
    if sign = '+' then return some (.ahead minutes)
    else if sign = '-' then return some (.ahead (-minutes))
    else none
  | _ => none

/-- The text of an offset. -/
def text : Offset → List Char
  | universal => ['Z']
  | ahead minutes =>
    (if minutes < 0 then '-' else '+') ::
      lastDigits 2 (minutes.natAbs / 60) ++ ':' :: lastDigits 2 (minutes.natAbs % 60)

end Offset

namespace Moment

/-- The moment that a text writes. -/
def ofChars? (chars : List Char) : Option Moment :=
  match Date.read? chars with
  | some (date, []) => some (.dateOnly date)
  | some (date, mark :: rest) => do
    if mark = 'T' ∨ mark = 't' ∨ mark = ' ' then
      let (time, rest) ← TimeOfDay.read? rest
      return .instant date time (← Offset.read? rest)
    else none
  | none =>
    match TimeOfDay.read? chars with
    | some (time, []) => some (.timeOnly time)
    | _ => none

/-- The text of a moment. -/
def text : Moment → List Char
  | dateOnly date => date.text
  | timeOnly time => time.text
  | instant date time offset =>
    date.text ++ 'T' :: time.text ++ (offset.map Offset.text).getD []

end Moment

end Stencil.Data.Toml
