import Stencil.Files
import Stencil.Text.Lines

/-!
# Wordlists

A wordlist is a line-oriented text; its words are its entries.

Main definitions:

* `Wordlist.parse`: the words of a text.
* `Wordlist.read`, `Wordlist.readAll`: the words of files.

Main statements:

* `parse_append`: the words of two texts with a line feed between them are those of the one
  followed by those of the other.
-/

namespace Stencil.Wordlist

/-- The words of a text. -/
def parse (contents : String) : List String :=
  (Text.entries contents.toList).map String.ofList

/-- The words of a file. -/
def read (files : Files) (path : Path) : Except FileError (List String) :=
  (files.read path).map parse

/-- The words of several files, one after the other, or the first path that cannot be read and the
reason. -/
def readAll (files : Files) : List Path → Except (Path × FileError) (List String)
  | [] => .ok []
  | path :: paths =>
    match read files path with
    | .error error => .error (path, error)
    | .ok words => (readAll files paths).map (words ++ ·)

/-- The words of two texts with a line feed between them are those of the one followed by those of
the other. -/
theorem parse_append (first second : String) :
    parse (first ++ "\n" ++ second) = parse first ++ parse second := by
  have h : (first ++ "\n" ++ second).toList = first.toList ++ '\n' :: second.toList := by
    simp [String.toList_append]
  simp [parse, h, Text.entries_append]

end Stencil.Wordlist
