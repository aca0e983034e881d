import Stencil.Corpus
import Stencil.Cursor
import Stencil.Wordlist

/-!
# Strategies

A strategy says which elements an iterative transform is shown. Elements of lists, files and
corpora, and observed words, are gathered anew each time the transform is started.

Main definitions:

* `Strategy`: the strategies.
* `Supplies`: what elements are gathered from.
* `Strategy.gather`, `Strategy.cursor`: the elements, and the cursor that shows them.
-/

namespace Stencil

/-- Which elements an iterative transform is shown. -/
inductive Strategy where
  /-- The text of the region, `limit` times. -/
  | counted (limit : Nat)
  /-- The integers from `start` on, `step` apart, as long as they lie before `stop`. -/
  | range (start stop step : Int64)
  /-- The elements given. -/
  | list (elements : List String)
  /-- The words of the files. -/
  | files (paths : List Path)
  /-- The words of corpora, whose wordlists are the files. -/
  | corpus (keywords : List String) (paths : List Path)
  /-- The words that were observed elsewhere. -/
  | observed
deriving BEq

/-- What elements are gathered from. -/
structure Supplies where
  /-- The files. -/
  files : Files
  /-- The observed words, if there is a source of them: what it gives when it is asked for the
  `n`-th time, `n` from 0. -/
  words : Option (Nat → Except Failure (List String)) := none

namespace Supplies

/-- A source of observed words that reads a wordlist each time it is asked. -/
def wordsFrom (files : Files) (path : Path) (_ : Nat) : Except Failure (List String) :=
  (Wordlist.read files path).mapError fun error => ⟨[s!"read {path.text}", error.message]⟩

end Supplies

namespace Strategy

/-- The strategy of some corpora, all of which have to be listed in the manifest. -/
def corpora (manifest : Manifest) (keywords : List String) : Except SetupError Strategy :=
  (manifest.resolveAll keywords).map (corpus keywords)

/-- Whether the elements are a list. -/
def isListBased : Strategy → Bool
  | counted _ | range .. => false
  | list _ | files _ | corpus .. | observed => true

/-- Whether the strategy is a range that does not move. -/
def isStuck : Strategy → Bool
  | range _ _ step => step.toInt == 0
  | _ => false

/-- The strategy of a range, which has to move. -/
def range? (start stop step : Int64) : Except SetupError Strategy :=
  if (range start stop step).isStuck then .error .zeroStep else .ok (range start stop step)

/-- How often gathering the elements asks for observed words. -/
def requests : Strategy → Nat
  | observed => 1
  | _ => 0

/-- The elements of a list, gathered for a transform; nothing if the strategy has no list. Observed
words are asked for the `request`-th time. -/
def gather (strategy : Strategy) (transform : String) (supplies : Supplies) (request : Nat) :
    Except RunError (List String) :=
  match strategy with
  | counted _ | range .. => .ok []
  | list elements => .ok elements
  | files paths | corpus _ paths =>
    (Wordlist.readAll supplies.files paths).mapError fun (path, error) =>
      .unreadableWordlist transform path error
  | observed =>
    match supplies.words with
    | none => .error (.misconfigured transform .noWordSource)
    | some source =>
      (source request).mapError fun failure =>
        .misconfigured transform (.wordsUnavailable failure)

/-- The files that gathering the elements reads. -/
def paths : Strategy → List Path
  | files paths | corpus _ paths => paths
  | counted _ | range .. | list _ | observed => []

/-- The cursor at the start of the elements. -/
def cursor (strategy : Strategy) (elements : List String) : Cursor :=
  match strategy with
  | counted limit => .counted 0 limit
  | range start stop step => .range start stop step
  | list _ | files _ | corpus .. | observed => .list elements elements

/-- The strategy in short. -/
def describe : Strategy → String
  | counted limit => s!"counted({limit})"
  | range start stop step =>
    s!"range({start.toInt}, {stop.toInt}, {step.toInt})"
  | list elements => s!"list({elements.length} elements)"
  | files paths => "files(" ++ ", ".intercalate (paths.map (·.text)) ++ ")"
  | corpus keywords _ => "corpus(" ++ ", ".intercalate keywords ++ ")"
  | observed => "observed"

end Strategy

end Stencil
