import Stencil.Format
import Stencil.TextOp

/-!
# Configurations

A configuration declares transforms by data: iterative ones by a strategy and a format, persistent
ones by operations on texts, and clones of iterative ones. Its relative paths start from a
directory that is given with it.

Main definitions:

* `Config`: the type.
* `Config.validate`: whether the parts of a configuration fit together.
* `Config.build`: the transforms that a configuration declares.
-/

namespace Stencil

/-- A strategy as it is declared. -/
inductive StrategySpec where
  /-- The text of the region, `count` times. -/
  | counted (count : Nat)
  /-- The integers from `start` on, `step` apart, as long as they lie before `stop`. -/
  | range (start stop step : Int64)
  /-- The elements given. -/
  | list (values : List String)
  /-- The words of files. -/
  | files (paths : List Path)
  /-- The words of corpora. -/
  | corpus (keywords : List String)
  /-- The words that were observed elsewhere. -/
  | observed
deriving DecidableEq, Repr

/-- An iterative transform as it is declared. -/
structure IterativeSpec where
  /-- Which elements it is shown. -/
  strategy : StrategySpec
  /-- What it makes of an element. -/
  format : String := Format.elementOnly
deriving DecidableEq, Repr

/-- Transforms declared by data. -/
structure Config where
  /-- Whether lists are put into a random order each time they are gathered. -/
  randomizeLists : Bool := false
  /-- The seed of all random choices. -/
  seed : Option UInt64 := none
  /-- The directory of the corpora. -/
  corpusDir : Option Path := none
  /-- The wordlist of the observed words. -/
  observedWords : Option Path := none
  /-- The iterative transforms. -/
  iterative : Roster IterativeSpec := .empty
  /-- The operations of the persistent transforms. -/
  persistent : Roster (List TextOp) := .empty
  /-- The names of clones, and what each is a clone of. -/
  clones : Roster String := .empty

/-- The tables of a configuration that declare transforms. -/
inductive ConfigTable where
  /-- The iterative transforms. -/
  | iterative
  /-- The persistent transforms. -/
  | persistent
  /-- The clones. -/
  | clones
deriving DecidableEq, Repr

/-- The name of a table. -/
def ConfigTable.label : ConfigTable → String
  | iterative => "iterative"
  | persistent => "persistent"
  | clones => "clones"

/-- Why a configuration declares no transforms. -/
inductive ConfigError where
  /-- A range does not move. -/
  | zeroStep (name : String)
  /-- There is no directory for the corpora of a transform. -/
  | noCorpusDir (name : String)
  /-- There is no wordlist for a transform of observed words. -/
  | noObservedWords (name : String)
  /-- A persistent transform has no operations. -/
  | noOperations (name : String)
  /-- A clone is not one of an iterative transform of the configuration. -/
  | unknownCloneSource (name source : String)
  /-- A file cannot be read. -/
  | unreadable (path : Path) (error : FileError)
  /-- A strategy cannot be made. -/
  | setup (error : SetupError)
  /-- A transform cannot be registered. -/
  | registration (table : ConfigTable) (name : String) (error : SetupError)
deriving DecidableEq, Repr

/-- The text of a configuration error. -/
def ConfigError.message : ConfigError → String
  | zeroStep name => s!"iterative.{name}: range step must not be zero"
  | noCorpusDir name => s!"iterative.{name}: corpus strategy requires corpus_dir"
  | noObservedWords name => s!"iterative.{name}: observed strategy requires observed_words"
  | noOperations name => s!"persistent.{name}: ops must be a non-empty array"
  | unknownCloneSource name source =>
    s!"clones.{name}: source '{source}' is not an iterative transform"
  | unreadable path error => s!"read {path.text}: {error.message}"
  | setup error => error.message
  | registration table name error => s!"register {table.label}.{name}: {error.message}"

namespace StrategySpec

/-- Whether the strategy is one of corpora. -/
def isCorpus : StrategySpec → Bool
  | corpus _ => true
  | _ => false

end StrategySpec

namespace Config

/-- What keeps an iterative transform from fitting the rest of the configuration, if anything
does. -/
def flawOf (config : Config) (name : String) (spec : IterativeSpec) : Option ConfigError :=
  match spec.strategy with
  | .range _ _ step => if step.toInt = 0 then some (.zeroStep name) else none
  | .corpus _ => if config.corpusDir.isNone then some (.noCorpusDir name) else none
  | .observed => if config.observedWords.isNone then some (.noObservedWords name) else none
  | .counted _ | .list _ | .files _ => none

/-- The first thing that does not fit: among the iterative transforms, then the persistent ones,
then the clones. -/
def flaw? (config : Config) : Option ConfigError :=
  (config.iterative.entries.findSome? fun (name, spec) => config.flawOf name spec)
    |>.or (config.persistent.entries.findSome? fun (name, ops) =>
      if ops.isEmpty then some (.noOperations name) else none)
    |>.or (config.clones.entries.findSome? fun (name, source) =>
      if config.iterative.contains source then none else some (.unknownCloneSource name source))

/-- Whether the parts of the configuration fit together. -/
def validate (config : Config) : Except ConfigError Unit :=
  match config.flaw? with
  | some error => .error error
  | none => .ok ()

/-- Whether a transform of the configuration iterates over corpora. -/
def usesCorpus (config : Config) : Bool :=
  config.iterative.entries.any fun (_, spec) => spec.strategy.isCorpus

/-- The directory of the corpora, if it is needed. -/
def corpusRoot? (config : Config) (base : Path) : Option Path :=
  if config.usesCorpus then config.corpusDir.map base.join else none

/-- The manifest of the corpora, if it is needed. -/
def manifest? (config : Config) (files : Files) (base : Path) :
    Except ConfigError (Option Manifest) :=
  match config.corpusRoot? base with
  | none => .ok none
  | some root =>
    match Manifest.load files root with
    | .error error => .error (.unreadable (Manifest.pathIn root) error)
    | .ok manifest => .ok (some manifest)

/-- The strategy that is declared for a transform. -/
def strategyOf (base : Path) (manifest : Option Manifest) (name : String) :
    StrategySpec → Except ConfigError Strategy
  | .counted count => .ok (.counted count)
  | .range start stop step => (Strategy.range? start stop step).mapError .setup
  | .list values => .ok (.list values)
  | .files paths => .ok (.files (paths.map base.join))
  | .corpus keywords =>
    -- a configuration that was validated has a manifest here
    match manifest with
    | none => .error (.noCorpusDir name)
    | some manifest => (Strategy.corpora manifest keywords).mapError .setup
  | .observed => .ok .observed

/-- Registers the iterative transforms that are declared. -/
def addIterative (base : Path) (manifest : Option Manifest) :
    List (String × IterativeSpec) → Transforms → Except ConfigError Transforms
  | [], set => .ok set
  | (name, spec) :: rest, set =>
    match strategyOf base manifest name spec.strategy with
    | .error error => .error error
    | .ok strategy =>
      match set.registerIterative name strategy (Format.step spec.format) with
      | .error error => .error (.registration .iterative name error)
      | .ok set => addIterative base manifest rest set

/-- Registers the persistent transforms that are declared. -/
def addPersistent : List (String × List TextOp) → Transforms → Except ConfigError Transforms
  | [], set => .ok set
  | (name, ops) :: rest, set =>
    match set.registerPersistent name (TextOp.edit ops) with
    | .error error => .error (.registration .persistent name error)
    | .ok set => addPersistent rest set

/-- Registers the clones that are declared. -/
def addClones : List (String × String) → Transforms → Except ConfigError Transforms
  | [], set => .ok set
  | (name, source) :: rest, set =>
    match set.clone source name with
    | .error error => .error (.registration .clones name error)
    | .ok set => addClones rest set

/-- The transforms that the configuration declares, its relative paths starting from `base`. -/
def build (config : Config) (files : Files) (base : Path) : Except ConfigError Transforms :=
  match config.validate with
  | .error error => .error error
  | .ok () =>
    match config.manifest? files base with
    | .error error => .error error
    | .ok manifest =>
      match addIterative base manifest config.iterative.entries .empty with
      | .error error => .error error
      | .ok set =>
        match addPersistent config.persistent.entries set with
        | .error error => .error error
        | .ok set => addClones config.clones.entries set

/-- The wordlist of the observed words. -/
def wordsPath? (config : Config) (base : Path) : Option Path :=
  config.observedWords.map base.join

/-- What the transforms of the configuration draw on. -/
def supplies (config : Config) (files : Files) (base : Path) : Supplies where
  files := files
  words := (config.wordsPath? base).map (Supplies.wordsFrom files)

/-- The directory from which the relative paths of a configuration start. -/
def directoryOf (path : Path) : Path :=
  match path.parent? with
  | some parent => if parent.text.isEmpty then ⟨"."⟩ else parent
  | none => ⟨"."⟩

end Config

end Stencil
