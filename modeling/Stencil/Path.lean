import Stencil.Text.Search

/-!
# Paths

A path is a text whose segments stand between slashes. The text is kept as it was written;
comparing and taking the parent look at the components, which leave out what does not change the
place a path names: empty segments, and single dots other than a leading one.

Main definitions:

* `Path.components`: the components of a path.
* `Path.join`: a path taken from another one.
* `Path.parent?`: the path without its last component.
-/

namespace Stencil

/-- A path, as it is written. -/
structure Path where
  /-- The text of the path. -/
  text : String
deriving DecidableEq, Repr

namespace Path

/-- One step of a path. -/
inductive Component where
  /-- The root, where an absolute path starts. -/
  | root
  /-- A leading dot: the directory where a relative path starts. -/
  | here
  /-- Two dots: the directory above. -/
  | up
  /-- A named file or directory. -/
  | name (name : String)
deriving DecidableEq, Repr

/-- Whether the path starts at the root. -/
def isAbsolute (path : Path) : Bool :=
  path.text.toList.head? == some '/'

/-- The segments between the slashes. -/
def segments (path : Path) : List (List Char) :=
  Text.splitOn '/' path.text.toList

/-- Whether a segment that is not the first is a component. -/
def counts (segment : List Char) : Bool :=
  segment != [] && segment != ['.']

/-- The component that a segment stands for. -/
def componentOf (segment : List Char) : Component :=
  if segment = ['.'] then .here
  else if segment = ['.', '.'] then .up
  else .name (String.ofList segment)

/-- The components of a path. -/
def components (path : Path) : List Component :=
  match path.segments with
  | [] => []
  | first :: rest =>
    let steps := (rest.filter counts).map componentOf
    if path.isAbsolute then .root :: steps
    else if first = [] then steps
    else componentOf first :: steps

/-- Two paths are the same when they have the same components. -/
instance : BEq Path :=
  ⟨fun a b => a.components == b.components⟩

/-- The path `inner` taken from the directory `base`: itself if it is absolute, else written
behind `base` with one slash between them. -/
def join (base inner : Path) : Path :=
  if inner.isAbsolute then inner
  else if base.text.isEmpty || base.text.toList.getLast? == some '/' then
    ⟨base.text ++ inner.text⟩
  else ⟨base.text ++ "/" ++ inner.text⟩

/-- Writes segments with slashes between them. -/
def joinSegments (segments : List (List Char)) : Path :=
  ⟨String.ofList (List.intercalate ['/'] segments)⟩

/-- The segments of a list up to the last one that counts, or nothing if none does. -/
def uptoLastCounting (segments : List (List Char)) : List (List Char) :=
  (segments.reverse.dropWhile fun segment => !counts segment).reverse

/-- The path without its last component. The root has no parent, and the empty path neither. -/
def parent? (path : Path) : Option Path :=
  match path.segments with
  | [] => none
  | first :: rest =>
    match uptoLastCounting rest with
    -- the first segment is the last component, or there is no component but the root
    | [] => if path.isAbsolute || first = [] then none else some ⟨""⟩
    | last :: before =>
      match uptoLastCounting (last :: before).dropLast with
      | [] => if path.isAbsolute then some ⟨"/"⟩ else some (joinSegments [first])
      | shorter => some (joinSegments (first :: shorter))

end Path

end Stencil
