import Stencil.Config
import Stencil.Data.Toml.Scalar

/-!
# Reading configurations from data

A configuration is a table whose entries are all optional; entries that mean nothing are passed
over. An iterative transform is a table in which the entry `strategy` decides which other entries
count. The two formats from which the data can come differ in what else they allow: TOML has
moments, which count as tables, and numbers that are too great to be taken.

Main definitions:

* `Dialect`: which format the data comes from.
* `Dialect.allows`: whether a value that means nothing may stand in the data.
* `Config.ofValue?`: the configuration that a value stands for, if it stands for one.
-/

namespace Stencil

open Data

/-- Which format the data of a configuration comes from. -/
inductive Dialect where
  /-- JSON. A configuration may also be the list of its entries in their order, and a strategy may
  be given by its place among the strategies. -/
  | json
  /-- TOML. -/
  | toml
deriving DecidableEq, Repr

/-- Whether a value that is looked at may stand in the data, whatever it means. -/
def Dialect.allows : Dialect → Value → Bool
  | .json, _ => true
  | .toml, value => value.every Toml.isInRange

namespace Config

/-- The name under which a moment holds its text where entries are asked for. -/
def momentName : String := "$__toml_private_datetime"

/-- The entries of a table. A moment counts as a table of one entry, its text. -/
def entries? : Value → Option (List (String × Value))
  | .table entries => some entries
  | .moment text => some [(momentName, .text text)]
  | _ => none

/-- The values of a list, if they all stand for something. -/
def all? {α : Type} (decode : Value → Option α) : Value → Option (List α)
  | .list items => items.mapM decode
  | _ => none

/-- The entries of a table under their names, if they all stand for something. -/
def roster? {α : Type} (decode : Value → Option α) (value : Value) : Option (Roster α) := do
  let entries ← entries? value
  return Roster.ofList (← entries.mapM fun entry => (decode entry.2).map (entry.1, ·))

/-- What may be missing: nothing, or something that stands for a value. -/
def optional? {α : Type} (decode : Value → Option α) : Value → Option (Option α)
  | .null => some none
  | value => (decode value).map some

/-- An integer without a sign, of 64 bits. -/
def unsigned? (value : Value) : Option Nat :=
  value.integer?.bind fun n => if 0 ≤ n ∧ n < UInt64.size then some n.toNat else none

/-- An integer with a sign, of 64 bits. -/
def signed? (value : Value) : Option Int64 :=
  value.integer?.bind fun n =>
    if Int64.minValue.toInt ≤ n ∧ n ≤ Int64.maxValue.toInt then some (Int64.ofInt n) else none

/-- A path. -/
def path? (value : Value) : Option Path :=
  value.text?.map Path.mk

/-- An entry that has to be there. -/
def required? {α : Type} (entries : List (String × Value)) (name : String)
    (decode : Value → Option α) : Option α :=
  (Value.find? name entries).bind decode

/-- An entry that may be missing, with what counts in its place. -/
def withDefault? {α : Type} (entries : List (String × Value)) (name : String)
    (decode : Value → Option α) (missing : α) : Option α :=
  match Value.find? name entries with
  | none => some missing
  | some value => decode value

/-- The names of the strategies, in their order. -/
def strategyNames : List String :=
  ["counted", "range", "list", "files", "corpus", "observed"]

/-- The name of a strategy. -/
def strategyName? (dialect : Dialect) : Value → Option String
  | .text name => some name
  | .integer n =>
    if dialect = .json ∧ 0 ≤ n then strategyNames[n.toNat]? else none
  | _ => none

/-- The strategy of a table. -/
def strategy? (dialect : Dialect) (entries : List (String × Value)) : Option StrategySpec := do
  let name ← required? entries "strategy" (strategyName? dialect)
  match name with
  | "counted" => return .counted (← required? entries "count" unsigned?)
  | "range" =>
    return .range (← required? entries "start" signed?) (← required? entries "end" signed?)
      (← withDefault? entries "step" signed? 1)
  | "list" => return .list (← required? entries "values" (all? Value.text?))
  | "files" => return .files (← required? entries "paths" (all? path?))
  | "corpus" => return .corpus (← required? entries "keywords" (all? Value.text?))
  | "observed" => return .observed
  | _ => none

/-- Whether a scalar has at most 64 bits if it is an integer. -/
def fitsWord : Value → Bool
  | .integer n => Int64.minValue.toInt ≤ n && n < UInt64.size
  | _ => true

/-- An iterative transform. In TOML, integers longer than 64 bits are refused in all its entries. -/
def iterativeSpec? (dialect : Dialect) : Value → Option IterativeSpec
  | .table entries => do
    let format ← withDefault? entries "format" Value.text? Format.elementOnly
    if dialect = .toml ∧ !Value.everyEntry fitsWord entries then none
    else return ⟨← strategy? dialect entries, format⟩
  | _ => none

/-- An operation: its name, or a table with nothing under its name. -/
def textOp? (dialect : Dialect) : Value → Option TextOp
  | .text name => TextOp.ofLabel? name
  | .table [(name, .null)] => if dialect = .json then TextOp.ofLabel? name else none
  | .table [(name, .list [])] => if dialect = .toml then TextOp.ofLabel? name else none
  | .table [(name, .table [])] => if dialect = .toml then TextOp.ofLabel? name else none
  | _ => none

/-- The operations of a persistent transform: a table with the entry `ops`, or a list that starts
with what that entry would hold. In TOML, nobody looks at the rest of the list. -/
def textOps? (dialect : Dialect) : Value → Option (List TextOp)
  | .table entries =>
    if dialect.allows (.table entries) then required? entries "ops" (all? (textOp? dialect))
    else none
  | .list (ops :: rest) =>
    if dialect = .json ∧ !rest.isEmpty then none else all? (textOp? dialect) ops
  | _ => none

/-- The names of the entries of a configuration, in their order. -/
def entryNames : List String :=
  ["randomize_lists", "seed", "corpus_dir", "observed_words", "iterative", "persistent", "clones"]

/-- Whether an entry may stand in the data; the parts of a persistent transform are looked at when
it is read. -/
def allowsEntry (dialect : Dialect) (entry : String × Value) : Bool :=
  entry.1 == "persistent" || dialect.allows entry.2

/-- The configuration of a table. -/
def ofEntries? (dialect : Dialect) (entries : List (String × Value)) : Option Config := do
  let missing : Config := {}
  if !entries.all (allowsEntry dialect) then none
  else return {
    randomizeLists :=
      ← withDefault? entries "randomize_lists" Value.boolean? missing.randomizeLists
    seed :=
      ← withDefault? entries "seed" (optional? fun value => (unsigned? value).map UInt64.ofNat)
        missing.seed
    corpusDir := ← withDefault? entries "corpus_dir" (optional? path?) missing.corpusDir
    observedWords :=
      ← withDefault? entries "observed_words" (optional? path?) missing.observedWords
    iterative :=
      ← withDefault? entries "iterative" (roster? (iterativeSpec? dialect)) missing.iterative
    persistent :=
      ← withDefault? entries "persistent" (roster? (textOps? dialect)) missing.persistent
    clones := ← withDefault? entries "clones" (roster? Value.text?) missing.clones }

/-- The configuration that a value stands for. -/
def ofValue? (dialect : Dialect) : Value → Option Config
  | .table entries => ofEntries? dialect entries
  | .list items =>
    if dialect = .json ∧ items.length ≤ entryNames.length then
      ofEntries? dialect (entryNames.zip items)
    else none
  | _ => none

end Config

end Stencil
