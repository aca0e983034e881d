import Stencil.Error

/-!
# Files that can be read

All that the library knows of a file system is what reading a path as text gives. A file tree is
a small file system that is a value: files and directories by the names that lead to them. Every
file stands in a directory of the tree.

Main definitions:

* `Files`: what reading gives.
* `FileTree`: files and directories as a value; `FileTree.files` says what reading them gives.
* `FileTree.put`, `FileTree.remove`: a tree with one more file or directory, or with one file less.
-/

namespace Stencil

/-- What reading each path as text gives. -/
structure Files where
  /-- The text at a path, or why it cannot be read. -/
  read : Path → Except FileError String

/-- A place in a file tree that is not empty. -/
inductive FileNode where
  /-- A file with its bytes. -/
  | file (bytes : ByteArray)
  /-- A directory. -/
  | directory

/-- Files and directories, by the names that lead to them from the top. -/
structure FileTree where
  /-- What stands at the end of each chain of names; the first entry for a chain counts. -/
  entries : List (List String × FileNode)

namespace FileTree

/-- Nothing but the top directory. -/
def empty : FileTree :=
  ⟨[]⟩

/-- What stands at the end of a chain of names. -/
def node? (tree : FileTree) (names : List String) : Option FileNode :=
  if names = [] then some .directory else tree.entries.lookup names

/-- Makes the directories that the segments of a path name one after another, from the end of a
chain of names; gives the chain that they lead to. A way through a file or out of the tree cannot be
made. -/
def makeWay? (tree : FileTree) (names : List String) :
    List (List Char) → Option (FileTree × List String)
  | [] => some (tree, names)
  | segment :: segments =>
    if segment = [] ∨ segment = ['.'] then tree.makeWay? names segments
    else if segment = ['.', '.'] then
      if names = [] then none else tree.makeWay? names.dropLast segments
    else
      let below := names ++ [String.ofList segment]
      match tree.node? below with
      | none => (FileTree.mk ((below, .directory) :: tree.entries)).makeWay? below segments
      | some .directory => tree.makeWay? below segments
      | some (.file _) => none

/-- Makes a directory at a path, with the directories on the way. -/
def makeDirectory? (tree : FileTree) (path : Path) : Option FileTree :=
  if path.isAbsolute then none
  else (tree.makeWay? [] path.segments).map Prod.fst

/-- Writes a file at a path, in the place of a file that was there, and makes the directories on the
way. -/
def write? (tree : FileTree) (path : Path) (bytes : ByteArray) : Option FileTree := do
  let name ← path.segments.getLast?
  if path.isAbsolute || !Path.counts name || name == ['.', '.'] then none
  else
    let (tree, above) ← tree.makeWay? [] path.segments.dropLast
    let names := above ++ [String.ofList name]
    match tree.node? names with
    | some .directory => none
    | _ => some ⟨(names, .file bytes) :: tree.entries⟩

/-- Puts a file or a directory at a path; the tree stays as it is where that cannot be done. -/
def put (tree : FileTree) (path : Path) : FileNode → FileTree
  | .file bytes => (tree.write? path bytes).getD tree
  | .directory => (tree.makeDirectory? path).getD tree

/-- A place that a path has led to. -/
inductive Place where
  /-- A directory that is not part of the tree. -/
  | outside
  /-- The end of a chain of names. -/
  | inside (names : List String)

/-- Follows the segments of a path. Every segment has to start from a directory. -/
def follow (tree : FileTree) : Place → List (List Char) → Except FileError Place
  | place, [] => .ok place
  | .outside, segment :: segments =>
    if segment = [] ∨ segment = ['.'] ∨ segment = ['.', '.'] then tree.follow .outside segments
    else .error .notFound
  | .inside names, segment :: segments =>
    match tree.node? names with
    | none => .error .notFound
    | some (.file _) => .error .notDirectory
    | some .directory =>
      if segment = [] ∨ segment = ['.'] then tree.follow (.inside names) segments
      else if segment = ['.', '.'] then
        if names = [] then tree.follow .outside segments
        else tree.follow (.inside names.dropLast) segments
      else tree.follow (.inside (names ++ [String.ofList segment])) segments

/-- The place that a path leads to from the top directory. -/
def locate (tree : FileTree) (path : Path) : Except FileError Place :=
  if path.text.isEmpty then .error .notFound
  else tree.follow (if path.isAbsolute then .outside else .inside []) path.segments

/-- Takes away the file at a path. The tree stays as it is where there is no file. -/
def remove (tree : FileTree) (path : Path) : FileTree :=
  match tree.locate path with
  | .ok (.inside names) =>
    match tree.node? names with
    | some (.file _) => ⟨tree.entries.filter fun entry => entry.1 != names⟩
    | _ => tree
  | _ => tree

/-- Reads a path as text, from the top directory. -/
def read (tree : FileTree) (path : Path) : Except FileError String :=
  match tree.locate path with
  | .error error => .error error
  | .ok .outside => .error .isDirectory
  | .ok (.inside names) =>
    match tree.node? names with
    | none => .error .notFound
    | some .directory => .error .isDirectory
    | some (.file bytes) =>
      match String.fromUTF8? bytes with
      | some text => .ok text
      | none => .error .notUtf8

/-- What reading the files of the tree gives. -/
def files (tree : FileTree) : Files :=
  ⟨tree.read⟩

end FileTree

end Stencil
