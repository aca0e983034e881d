import Stencil.Data.Toml.Quoted
import Stencil.Data.Toml.Scalar

/-!
# Keys, values and tables of TOML

A value is a quoted text, a scalar, a list in brackets or a table in braces. A table is built from
its entries, whose keys can lead through tables that do not exist yet; it remembers how each part
came about, because that decides which later entries may add to it.

Main definitions:

* `Toml.key?`, `Toml.value?`: a key and a value at the start of a text.
* `Toml.Node`: a table while it is being built; `Toml.Node.insert?` adds an entry.
-/

namespace Stencil.Data.Toml

/-- How a table came about. -/
inductive Origin where
  /-- It has a header of its own. -/
  | header
  /-- The header of a table inside it led through it. -/
  | passed
  /-- The dotted key of an entry led through it. -/
  | dotted
deriving DecidableEq, Repr

/-- A part of a table that is being built. -/
inductive Node where
  /-- A value, to which nothing can be added. -/
  | leaf (value : Value)
  /-- A table. -/
  | table (origin : Origin) (entries : List (String × Node))
  /-- The tables of a list; the last one can be added to. -/
  | tables (items : List (List (String × Node)))

namespace Node

/-- The entries of a table, by name. -/
abbrev Entries := List (String × Node)

/-- Puts a node under a name, in the place of what stood there. -/
def put (name : String) (node : Node) : Entries → Entries
  | [] => [(name, node)]
  | (key, old) :: rest =>
    if key = name then (name, node) :: rest else (key, old) :: put name node rest

/-- Changes the last table of a list. -/
def updateLast? (f : Entries → Option Entries) : List Entries → Option (List Entries)
  | [] => none
  | [last] => (f last).map fun new => [new]
  | first :: rest => (updateLast? f rest).map (first :: ·)

/-- Adds an entry to the entries of a table; `dotted` tells whether dotted keys have led to the
table, and `inside` whether the key of the entry has led there. -/
def insert? (value : Value) (dotted inside : Bool) (entries : Entries) :
    List String → Option Entries
  | [] => none
  | [name] =>
    -- only tables that dotted keys have made take the entries of dotted keys
    if inside && !dotted then none
    else
      match entries.lookup name with
      | some _ => none
      | none => some (put name (.leaf value) entries)
  | name :: names =>
    match entries.lookup name with
    | none =>
      (insert? value true true [] names).map fun new => put name (.table .dotted new) entries
    | some (.table .header _) | some (.leaf _) => none
    | some (.table origin old) =>
      (insert? value (origin = .dotted) true old names).map fun new =>
        put name (.table origin new) entries
    | some (.tables items) =>
      (updateLast? (fun old => insert? value false true old names) items).map fun new =>
        put name (.tables new) entries

mutual

/-- The value of a node. -/
def toValue : Node → Value
  | leaf value => value
  | table _ entries => .table (entryValues entries)
  | tables items => .list (itemValues items)

/-- The values of entries. -/
def entryValues : List (String × Node) → List (String × Value)
  | [] => []
  | (name, node) :: entries => (name, toValue node) :: entryValues entries

/-- The values of the tables of a list. -/
def itemValues : List (List (String × Node)) → List Value
  | [] => []
  | entries :: items => .table (entryValues entries) :: itemValues items

end

end Node

/-- What follows the blanks at the start of a text. -/
def skipBlanks (text : List Char) : List Char :=
  text.dropWhile fun c => c == ' ' || c == '\t'

/-- A character of a key without quotes. -/
def isBare (c : Char) : Bool :=
  c.isAlphanum || c == '_' || c == '-'

/-- A key without dots, and what follows it. -/
def simpleKey? (text : List Char) : Option (String × List Char) :=
  match quotedLine? text with
  | some (name, rest) => some (String.ofList name, rest)
  | none =>
    let (name, rest) := text.span isBare
    if name.isEmpty then none else some (String.ofList name, rest)

/-- A key, with dots between its parts, and what follows it and the blanks behind it. There are at
most `fuel` parts. -/
def keyParts? : Nat → List Char → Option (List String × List Char)
  | 0, _ => none
  | fuel + 1, text =>
    match simpleKey? (skipBlanks text) with
    | none => none
    | some (name, rest) =>
      match skipBlanks rest with
      | '.' :: rest => (keyParts? fuel rest).map fun (names, rest) => (name :: names, rest)
      | rest => some ([name], rest)

/-- How deep lists and tables in braces may nest, and how many parts a key may have. -/
def depthLimit : Nat := 80

/-- A key, and what follows it and the blanks behind it. -/
def key? (text : List Char) : Option (List String × List Char) :=
  keyParts? depthLimit text

/-- What follows a comment at the start of a text, which ends before the line does. -/
def skipComment? : List Char → Option (List Char)
  | '#' :: rest =>
    match rest.dropWhile isPlain with
    | [] => some []
    | text => (lineBreak? text).map fun _ => text
  | text => some text

/-- What follows the blanks, line breaks and comments at the start of a text; there are at most
`fuel` of them. -/
def skipGaps? : Nat → List Char → Option (List Char)
  | 0, text => some text
  | fuel + 1, text =>
    match skipBlanks text with
    | '#' :: rest => (skipComment? ('#' :: rest)).bind (skipGaps? fuel)
    | text =>
      match lineBreak? text with
      | some rest => skipGaps? fuel rest
      | none => some text

/-- What follows all blanks, line breaks and comments at the start of a text. -/
def skipAllGaps? (text : List Char) : Option (List Char) :=
  skipGaps? text.length text

/-- A character of a scalar. -/
def isScalarPart (c : Char) : Bool :=
  c.isAlphanum || c == '_' || c == '-' || c == '+' || c == '.' || c == ':'

/-- The characters of a scalar, and what follows them. A time may stand behind a date with one blank
between them. -/
def scalarText (text : List Char) : List Char × List Char :=
  let (token, rest) := text.span isScalarPart
  match Date.read? token, rest with
  | some (_, []), ' ' :: c :: more =>
    if isDecimal c then
      let (time, rest) := (c :: more).span isScalarPart
      (token ++ ' ' :: time, rest)
    else (token, rest)
  | _, _ => (token, rest)

mutual

/-- A value at the start of a text, and what follows it. Lists and tables nest at most `depth` deep,
and reading takes at most `fuel` steps. -/
def valueWith? (depth : Nat) : Nat → List Char → Option (Value × List Char)
  | 0, _ => none
  | fuel + 1, text =>
    match text with
    | '[' :: rest =>
      match depth with
      | 0 => none
      | depth + 1 => (items? depth fuel rest).map fun (items, rest) => (.list items, rest)
    | '\x7b' :: rest =>
      match depth with
      | 0 => none
      | depth + 1 =>
        (fields? depth fuel [] rest).map fun (entries, rest) =>
          (.table (Node.entryValues entries), rest)
    | '"' :: _ | '\x27' :: _ =>
      (quoted? text).map fun (content, rest) => (.text (String.ofList content), rest)
    | text =>
      let (token, rest) := scalarText text
      (scalar? token).map fun value => (value, rest)

/-- The items of a list up to its closing bracket, and what follows it. -/
def items? (depth : Nat) : Nat → List Char → Option (List Value × List Char)
  | 0, _ => none
  | fuel + 1, text =>
    match skipAllGaps? text with
    | none => none
    | some (']' :: rest) => some ([], rest)
    | some text =>
      match valueWith? depth fuel text with
      | none => none
      | some (item, rest) =>
        match skipAllGaps? rest with
        | some (',' :: rest) =>
          (items? depth fuel rest).map fun (items, rest) => (item :: items, rest)
        | some (']' :: rest) => some ([item], rest)
        | _ => none

/-- The entries of a table up to its closing brace, added to those before, and what follows it. -/
def fields? (depth : Nat) :
    Nat → Node.Entries → List Char → Option (Node.Entries × List Char)
  | 0, _, _ => none
  | fuel + 1, entries, text =>
    match skipAllGaps? text with
    | none => none
    | some ('\x7d' :: rest) => some (entries, rest)
    | some text =>
      match key? text with
      | none => none
      | some (names, rest) =>
        match skipAllGaps? rest with
        | some ('=' :: rest) =>
          match (skipAllGaps? rest).bind (valueWith? depth fuel) with
          | none => none
          | some (value, rest) =>
            match Node.insert? value false false entries names with
            | none => none
            | some entries =>
              match skipAllGaps? rest with
              | some (',' :: rest) => fields? depth fuel entries rest
              | some ('\x7d' :: rest) => some (entries, rest)
              | _ => none
        | _ => none

end

/-- A value at the start of a text, and what follows it. -/
def value? (text : List Char) : Option (Value × List Char) :=
  valueWith? depthLimit (2 * text.length + 2) text

end Stencil.Data.Toml
