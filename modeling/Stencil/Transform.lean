import Stencil.State
import Stencil.Strategy
import Stencil.Text.Blank

/-!
# Transforms

An iterative transform is a strategy, which says what elements it is shown, and a step function,
which makes a value of an element. A persistent transform makes a text of a text. Transforms are
registered under names that can be written in headings.

Main definitions:

* `StepFunction`, `IterativeTransform`, `PersistentTransform`: the transforms.
* `Transforms`: the transforms that are registered, in the byte order of their names.
* `Transforms.registerIterative`, `Transforms.registerPersistent`, `Transforms.clone`: the ways to
  register one.

Main statements:

* `nameFlaw?_eq_none_iff`: which names can be registered.
* `registerIterative_eq_ok_iff`, `registerPersistent_eq_ok_iff`: when a registration succeeds, and
  what comes of it.
-/

namespace Stencil

/-- What a step function answers. -/
inductive StepAnswer where
  /-- A value. -/
  | value (text : String)
  /-- There are no more values. -/
  | exhausted
  /-- The sequence cannot go on. -/
  | fatal (failure : Failure)
deriving DecidableEq, Repr

/-- Makes a value of an element. -/
abbrev StepFunction := String → StepView → Memory → StepAnswer × Memory

/-- A transform that gives one value after the other. -/
structure IterativeTransform where
  /-- The name of the transform. -/
  name : String
  /-- Which elements it is shown. -/
  strategy : Strategy
  /-- What it makes of them. -/
  step : StepFunction

/-- Makes a text of a text. It is told how often it was applied before. -/
abbrev PersistentFunction := Nat → String → Except Failure String

/-- A transform that edits a text. -/
structure PersistentTransform where
  /-- The name of the transform. -/
  name : String
  /-- What it makes of a text. -/
  edit : PersistentFunction

/-- The two kinds of transforms. -/
inductive TransformKind where
  /-- It gives one value after the other. -/
  | iterative
  /-- It edits a text. -/
  | persistent
deriving DecidableEq, Repr

/-- The word for a kind. -/
def TransformKind.label : TransformKind → String
  | iterative => "iterative"
  | persistent => "persistent"

/-- The transforms that are registered. -/
structure Transforms where
  /-- The iterative ones. -/
  iterative : Roster IterativeTransform
  /-- The persistent ones. -/
  persistent : Roster PersistentTransform

namespace Transforms

/-- Nothing is registered. -/
def empty : Transforms :=
  ⟨.empty, .empty⟩

/-- Whether a character may not occur in a name: blanks, and what tags and headings are made
of. -/
def isReserved (c : Char) : Bool :=
  Text.isBlank c || c == '[' || c == ']' || c == ';' || c == '|'

/-- Why a name cannot be registered, if it cannot. -/
def nameFlaw? (name : String) : Option NameFlaw :=
  if name = "" then some .empty
  else if name = "end" then some .reserved
  else if name.toList.any isReserved then some .character
  else none

/-- Registers an iterative transform. -/
def registerIterative (set : Transforms) (name : String) (strategy : Strategy)
    (step : StepFunction) : Except SetupError Transforms :=
  match nameFlaw? name with
  | some flaw => .error (.invalidName name flaw)
  | none =>
    if strategy.isStuck then .error .zeroStep
    else if set.iterative.contains name then .error (.duplicateTransform name)
    else .ok { set with iterative := set.iterative.insert name ⟨name, strategy, step⟩ }

/-- Registers a persistent transform. -/
def registerPersistent (set : Transforms) (name : String) (edit : PersistentFunction) :
    Except SetupError Transforms :=
  match nameFlaw? name with
  | some flaw => .error (.invalidName name flaw)
  | none =>
    if set.persistent.contains name then .error (.duplicateTransform name)
    else .ok { set with persistent := set.persistent.insert name ⟨name, edit⟩ }

/-- Registers an iterative transform under one more name. The two have states of their own. -/
def clone (set : Transforms) (source name : String) : Except SetupError Transforms :=
  match set.iterative.find? source with
  | none => .error (.unknownCloneSource source)
  | some transform => set.registerIterative name transform.strategy transform.step

/-- The kind of the transform with a name; iterative ones come first. -/
def kindOf (set : Transforms) (name : String) : Option TransformKind :=
  if set.iterative.contains name then some .iterative
  else if set.persistent.contains name then some .persistent
  else none

/-- Whether nothing is registered. -/
def isEmpty (set : Transforms) : Bool :=
  set.iterative.isEmpty && set.persistent.isEmpty

/-- A name can be registered exactly when it is neither empty nor reserved and has no reserved
character. -/
theorem nameFlaw?_eq_none_iff {name : String} :
    nameFlaw? name = none ↔
      name ≠ "" ∧ name ≠ "end" ∧ ∀ c ∈ name.toList, isReserved c = false := by
  simp only [nameFlaw?]
  split
  · simp_all
  · split
    · simp_all
    · split <;> simp_all

/-- An iterative transform is registered exactly when its name is sound and free and its strategy
is no range that does not move. -/
theorem registerIterative_eq_ok_iff {set set' : Transforms} {name : String} {strategy : Strategy}
    {step : StepFunction} :
    set.registerIterative name strategy step = .ok set' ↔
      nameFlaw? name = none ∧ strategy.isStuck = false ∧ set.iterative.contains name = false ∧
        set' = { set with iterative := set.iterative.insert name ⟨name, strategy, step⟩ } := by
  simp only [registerIterative]
  split
  · simp_all
  · split
    · simp_all
    · split
      · simp_all
      · simp_all
        exact eq_comm

/-- A persistent transform is registered exactly when its name is sound and free. -/
theorem registerPersistent_eq_ok_iff {set set' : Transforms} {name : String}
    {edit : PersistentFunction} :
    set.registerPersistent name edit = .ok set' ↔
      nameFlaw? name = none ∧ set.persistent.contains name = false ∧
        set' = { set with persistent := set.persistent.insert name ⟨name, edit⟩ } := by
  simp only [registerPersistent]
  split
  · simp_all
  · split
    · simp_all
    · simp_all
      exact eq_comm

end Transforms

end Stencil
