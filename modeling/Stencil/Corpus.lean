import Stencil.Files
import Stencil.Text.Lines

/-!
# Corpora

A corpus is a directory of wordlists. Its manifest lists a file `<keyword>.pay` on each line; a
keyword names the wordlist in that file.

Main definitions:

* `Manifest`: the keywords of a corpus, and where it lies.
* `Manifest.parse`, `Manifest.load`: from a text, or from its file.
* `Manifest.resolve`: the wordlist of a keyword.
-/

namespace Stencil

/-- The keywords of a corpus. -/
structure Manifest where
  /-- The directory of the corpus. -/
  root : Path
  /-- The keywords, in the order in which they are listed. -/
  keywords : List String
deriving DecidableEq, Repr

namespace Manifest

/-- How the names of wordlists end. -/
def extension : List Char :=
  ['.', 'p', 'a', 'y']

/-- An entry of a manifest without the ending of its name, if it has it. -/
def keywordOf (entry : List Char) : List Char :=
  if extension.isSuffixOf entry then entry.take (entry.length - extension.length) else entry

/-- Reads a manifest. -/
def parse (root : Path) (contents : String) : Manifest where
  root := root
  keywords := (Text.entries contents.toList).map fun entry => String.ofList (keywordOf entry)

/-- Where the manifest of a corpus lies. -/
def pathIn (directory : Path) : Path :=
  directory.join ⟨"manifest.txt"⟩

/-- Reads the manifest of a corpus from its file. -/
def load (files : Files) (directory : Path) : Except FileError Manifest :=
  (files.read (pathIn directory)).map (parse directory)

/-- The file of the wordlist with a keyword, whether it is listed or not. -/
def pathOf (manifest : Manifest) (keyword : String) : Path :=
  manifest.root.join ⟨keyword ++ String.ofList extension⟩

/-- The file of the wordlist with a keyword, which has to be listed and not empty. -/
def resolve (manifest : Manifest) (keyword : String) : Except SetupError Path :=
  if keyword = "" ∨ keyword ∉ manifest.keywords then
    .error (.unknownCorpus keyword manifest.keywords)
  else .ok (manifest.pathOf keyword)

/-- The files of the wordlists with some keywords, all of which have to be listed. -/
def resolveAll (manifest : Manifest) : List String → Except SetupError (List Path)
  | [] => .ok []
  | keyword :: keywords =>
    match manifest.resolve keyword with
    | .error error => .error error
    | .ok path => (manifest.resolveAll keywords).map (path :: ·)

/-- A keyword is resolved exactly when it is listed and not empty. -/
theorem resolve_eq_ok_iff {manifest : Manifest} {keyword : String} {path : Path} :
    manifest.resolve keyword = .ok path ↔
      keyword ≠ "" ∧ keyword ∈ manifest.keywords ∧ path = manifest.pathOf keyword := by
  simp only [resolve]
  split
  · rename_i h
    simp only [reduceCtorEq, false_iff, not_and]
    exact fun hne hmem => absurd hmem (h.resolve_left hne)
  · rename_i h
    simp only [not_or, Classical.not_not] at h
    simp [h.1, h.2, eq_comm]

end Manifest

end Stencil
