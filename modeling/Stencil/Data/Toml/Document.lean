import Stencil.Data.Toml.Item

/-!
# TOML documents

A document is read line by line. A header in brackets says to which table the entries below it
belong; a header in double brackets starts a new table of a list. A table may not be given two
headers. Dotted keys add only to tables that dotted keys have made; on the way there they may pass
tables that headers have led through, and the last tables of lists.

Main definitions:

* `Toml.document?`: the table that a document stands for, if the document is well-formed.
-/

namespace Stencil.Data.Toml

open Node

namespace Node

/-- Changes the entries of the table that some names lead to, through tables and the last tables of
lists. Tables on the way that do not exist come about by the way. -/
def descend? (f : Entries → Option Entries) (entries : Entries) : List String → Option Entries
  | [] => f entries
  | name :: names =>
    match entries.lookup name with
    | none => (descend? f [] names).map fun new => put name (.table .passed new) entries
    | some (.table origin old) =>
      (descend? f old names).map fun new => put name (.table origin new) entries
    | some (.tables items) =>
      (updateLast? (fun old => descend? f old names) items).map fun new =>
        put name (.tables new) entries
    | some (.leaf _) => none

/-- Gives a table a header. -/
def openTable? (name : String) (entries : Entries) : Option Entries :=
  match entries.lookup name with
  | none => some (put name (.table .header []) entries)
  | some (.table .passed old) => some (put name (.table .header old) entries)
  | some _ => none

/-- Starts a new table of a list. -/
def openItem? (name : String) (entries : Entries) : Option Entries :=
  match entries.lookup name with
  | none => some (put name (.tables [[]]) entries)
  | some (.tables items) => some (put name (.tables (items ++ [[]])) entries)
  | some _ => none

end Node

/-- A document while it is being read. -/
structure Draft where
  /-- The entries read so far. -/
  root : Entries
  /-- The names that lead to the table of the last header. -/
  current : List String

namespace Draft

/-- Reads a header: `change` is made under the last of its names. -/
def header? (draft : Draft) (change : String → Entries → Option Entries) (names : List String) :
    Option Draft :=
  match names.getLast? with
  | none => none
  | some name =>
    (descend? (change name) draft.root names.dropLast).map fun root => ⟨root, names⟩

/-- Reads an entry. -/
def entry? (draft : Draft) (names : List String) (value : Value) : Option Draft :=
  (descend? (fun entries => insert? value false false entries names) draft.root
    draft.current).map fun root => { draft with root }

end Draft

/-- What follows the rest of a line: blanks, a comment and the line break. -/
def lineEnd? (text : List Char) : Option (List Char) :=
  match skipComment? (skipBlanks text) with
  | none => none
  | some [] => some []
  | some text => lineBreak? text

/-- Reads one line, which is not empty of characters, and gives what follows it. -/
def line? (draft : Draft) (text : List Char) : Option (Draft × List Char) :=
  match skipBlanks text with
  | '[' :: '[' :: rest =>
    match key? rest with
    | some (names, ']' :: ']' :: rest) => do
      let draft ← draft.header? openItem? names
      return (draft, ← lineEnd? rest)
    | _ => none
  | '[' :: rest =>
    match key? rest with
    | some (names, ']' :: rest) => do
      let draft ← draft.header? openTable? names
      return (draft, ← lineEnd? rest)
    | _ => none
  | text =>
    match lineEnd? text with
    | some rest => some (draft, rest)
    | none =>
      match key? text with
      | some (names, '=' :: rest) => do
        let (value, rest) ← value? (skipBlanks rest)
        let draft ← draft.entry? names value
        return (draft, ← lineEnd? rest)
      | _ => none

/-- Reads lines, of which there are at most `fuel`. -/
def lines? : Nat → Draft → List Char → Option Draft
  | _, draft, [] => some draft
  | 0, _, _ => none
  | fuel + 1, draft, text =>
    match line? draft text with
    | none => none
    | some (draft, rest) => lines? fuel draft rest

/-- A text without the mark that may stand before the first character. -/
def withoutMark : List Char → List Char
  | '\ufeff' :: rest => rest
  | text => text

/-- The table that a document stands for. -/
def document? (source : String) : Option Value :=
  let text := withoutMark source.toList
  (lines? (text.length + 1) ⟨[], []⟩ text).map fun draft => .table (entryValues draft.root)

end Stencil.Data.Toml
