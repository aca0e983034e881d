/-!
# Data values

The values that documents hold: the variables of a step function, and configuration files. The
entries of a table keep the order in which they were given.
-/

namespace Stencil.Data

/-- A value of a document. -/
inductive Value where
  /-- Nothing. -/
  | null
  /-- A truth value. -/
  | boolean (value : Bool)
  /-- A whole number. -/
  | integer (value : Int)
  /-- A number with a fraction or an exponent, as it is written. -/
  | decimal (written : String)
  /-- A date, a time or both. -/
  | moment (text : String)
  /-- A text. -/
  | text (value : String)
  /-- Values in order. -/
  | list (items : List Value)
  /-- Values under names. -/
  | table (entries : List (String × Value))
deriving Inhabited

namespace Value

/-- The first value under a name in the entries of a table. -/
def find? (name : String) : List (String × Value) → Option Value
  | [] => none
  | (key, value) :: rest => if key = name then some value else find? name rest

/-- The whole number that a value is, if it is one. -/
def integer? : Value → Option Int
  | integer value => some value
  | _ => none

/-- The text that a value is, if it is one. -/
def text? : Value → Option String
  | text value => some value
  | _ => none

/-- The truth value that a value is, if it is one. -/
def boolean? : Value → Option Bool
  | boolean value => some value
  | _ => none

mutual

/-- Whether all parts of a value that have no parts themselves pass a test. -/
def every (test : Value → Bool) : Value → Bool
  | list items => everyItem test items
  | table entries => everyEntry test entries
  | part => test part

/-- Whether the parts of some values pass a test. -/
def everyItem (test : Value → Bool) : List Value → Bool
  | [] => true
  | item :: items => every test item && everyItem test items

/-- Whether the parts of the entries of a table pass a test. -/
def everyEntry (test : Value → Bool) : List (String × Value) → Bool
  | [] => true
  | (_, value) :: entries => every test value && everyEntry test entries

end

end Value

end Stencil.Data
