import Stencil.Data.Value

/-!
# Writing values as JSON

Two layouts: all on one line without spaces, and one entry a line with two spaces for each level
of nesting. In a quoted text the quote and the backslash are escaped, as are the control
characters below U+0020; every other character stands for itself.

Main definitions:

* `quote`: a text between quotes.
* `Value.compact`, `Value.pretty`: the two layouts.
-/

namespace Stencil.Data

namespace Json

/-- A digit of base sixteen, in lower case. -/
def hexDigit (n : Nat) : Char :=
  Nat.digitChar (n % 16)

/-- A character as it stands inside a quoted text. -/
def escape (c : Char) : List Char :=
  if c = '"' then ['\\', '"']
  else if c = '\\' then ['\\', '\\']
  else if c = '\n' then ['\\', 'n']
  else if c = '\r' then ['\\', 'r']
  else if c = '\t' then ['\\', 't']
  else if c = '\x08' then ['\\', 'b']
  else if c = '\x0c' then ['\\', 'f']
  else if c.toNat < 0x20 then ['\\', 'u', '0', '0', hexDigit (c.toNat / 16), hexDigit c.toNat]
  else [c]

/-- A text between quotes. -/
def quote (s : String) : String :=
  String.ofList ('"' :: s.toList.flatMap escape ++ ['"'])

/-- The blanks at the start of a line, `depth` levels deep. -/
def indent (depth : Nat) : String :=
  String.ofList (List.replicate (2 * depth) ' ')

end Json

namespace Value

open Json

mutual

/-- The value on one line, without spaces. -/
def compact : Value → String
  | null => "null"
  | boolean value => if value then "true" else "false"
  | integer value => toString value
  | decimal written => written
  | moment written => quote written
  | text value => quote value
  | list items => "[" ++ compactItems items ++ "]"
  | table entries => "\x7b" ++ compactEntries entries ++ "\x7d"

/-- The items of a list, with commas between them. -/
def compactItems : List Value → String
  | [] => ""
  | [item] => compact item
  | item :: items => compact item ++ "," ++ compactItems items

/-- The entries of a table, with commas between them. -/
def compactEntries : List (String × Value) → String
  | [] => ""
  | [(name, value)] => quote name ++ ":" ++ compact value
  | (name, value) :: entries => quote name ++ ":" ++ compact value ++ "," ++ compactEntries entries

end

mutual

/-- The value with one entry a line, its first line being already indented by `depth` levels. -/
def pretty (depth : Nat) : Value → String
  | list [] => "[]"
  | table [] => "\x7b\x7d"
  | list (item :: items) =>
    "[\n" ++ indent (depth + 1) ++ pretty (depth + 1) item ++ prettyItems (depth + 1) items ++
      "\n" ++ indent depth ++ "]"
  | table ((name, value) :: entries) =>
    "\x7b\n" ++ indent (depth + 1) ++ quote name ++ ": " ++ pretty (depth + 1) value ++
      prettyEntries (depth + 1) entries ++ "\n" ++ indent depth ++ "\x7d"
  | null => compact null
  | boolean value => compact (boolean value)
  | integer value => compact (integer value)
  | decimal written => compact (decimal written)
  | moment written => compact (moment written)
  | text value => compact (text value)

/-- The items of a list after the first, each on a line of its own. -/
def prettyItems (depth : Nat) : List Value → String
  | [] => ""
  | item :: items => ",\n" ++ indent depth ++ pretty depth item ++ prettyItems depth items

/-- The entries of a table after the first, each on a line of its own. -/
def prettyEntries (depth : Nat) : List (String × Value) → String
  | [] => ""
  | (name, value) :: entries =>
    ",\n" ++ indent depth ++ quote name ++ ": " ++ pretty depth value ++
      prettyEntries depth entries

end

end Value

end Stencil.Data
