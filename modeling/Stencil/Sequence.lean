import Stencil.Error
import Stencil.Substitution

/-!
# Sequences of substitutions

A sequence asks the transforms of its operations for values and makes of them one list of
substitutions after the other. It knows the transforms only through a driver, which starts an
operation afresh or asks it for its next value.

* In single mode the operations take turns: one at a time advances until it is exhausted, and the
  others show the text of their regions.
* In lockstep mode every operation advances in every round, and a round in which any of them is
  exhausted is dropped and ends the sequence.
* In cross mode the operations are the digits of a counter, the first one moving fastest. A digit
  that is exhausted is started afresh and shows its first value again, and the next digit moves.

An error ends the sequence, and so does the first step without substitutions.

Main definitions:

* `Driver`: how a sequence reaches the transforms.
* `Sequence.step`: the next list of substitutions.
-/

namespace Stencil

/-- The answer of an operation that was asked for its next value. -/
inductive Advance where
  /-- The next value. -/
  | value (text : String)
  /-- There are no more values. -/
  | exhausted
deriving DecidableEq, Repr

/-- How a sequence reaches the transforms of its operations, which have a state of their own. -/
structure Driver (σ : Type) where
  /-- Starts an operation afresh. -/
  init : Operation → σ → Except RunError Unit × σ
  /-- Asks an operation for its next value. -/
  advance : Operation → σ → Except RunError Advance × σ

namespace Driver

variable {σ : Type}

/-- Starts operations afresh, one after the other. -/
def initAll (driver : Driver σ) : List Operation → σ → Except RunError Unit × σ
  | [], s => (.ok (), s)
  | op :: ops, s =>
    match driver.init op s with
    | (.error error, s) => (.error error, s)
    | (.ok (), s) => driver.initAll ops s

/-- Asks operations in turn, from the active one on, until one gives a value. An operation is
started afresh when its turn comes. -/
def seek (driver : Driver σ) :
    Nat → List Operation → σ → Except RunError (Option String) × Nat × σ
  | active, [], s => (.ok none, active, s)
  | active, op :: ops, s =>
    match driver.advance op s with
    | (.error error, s) => (.error error, active, s)
    | (.ok (.value text), s) => (.ok (some text), active, s)
    | (.ok .exhausted, s) =>
      match ops with
      | [] => (.ok none, active + 1, s)
      | next :: later =>
        match driver.init next s with
        | (.error error, s) => (.error error, active + 1, s)
        | (.ok (), s) => driver.seek (active + 1) (next :: later) s

/-- Advances every operation once. The answer is whether all of them gave a value. -/
def round (driver : Driver σ) :
    List Operation → σ → Except RunError Bool × List Operation × σ
  | [], s => (.ok true, [], s)
  | op :: ops, s =>
    match driver.advance op s with
    | (.error error, s) => (.error error, op :: ops, s)
    | (.ok .exhausted, s) =>
      -- the round is lost, but the others advance all the same
      match driver.round ops s with
      | (.error error, ops, s) => (.error error, op :: ops, s)
      | (.ok _, ops, s) => (.ok false, op :: ops, s)
    | (.ok (.value text), s) =>
      match driver.round ops s with
      | (answer, ops, s) => (answer, op.withValue text :: ops, s)

/-- Gives a first value to every operation that has none yet. The answer is whether all of them
have one. -/
def prime (driver : Driver σ) :
    List Operation → σ → Except RunError Bool × List Operation × σ
  | [], s => (.ok true, [], s)
  | op :: ops, s =>
    if op.cached.isSome then
      match driver.prime ops s with
      | (answer, ops, s) => (answer, op :: ops, s)
    else
      match driver.advance op s with
      | (.error error, s) => (.error error, op :: ops, s)
      | (.ok .exhausted, s) => (.ok false, op :: ops, s)
      | (.ok (.value text), s) =>
        match driver.prime ops s with
        | (answer, ops, s) => (answer, op.withValue text :: ops, s)

/-- Gives a first value to every operation but the first. -/
def primeRest (driver : Driver σ) :
    List Operation → σ → Except RunError Bool × List Operation × σ
  | [], s => (.ok true, [], s)
  | op :: ops, s =>
    match driver.prime ops s with
    | (answer, ops, s) => (answer, op :: ops, s)

/-- Moves the counter whose digits are the operations, the first digit first. The answer is
whether some digit moved on without a carry out of the last one. -/
def count (driver : Driver σ) :
    List Operation → σ → Except RunError Bool × List Operation × σ
  | [], s => (.ok false, [], s)
  | op :: ops, s =>
    match driver.advance op s with
    | (.error error, s) => (.error error, op :: ops, s)
    | (.ok (.value text), s) => (.ok true, op.withValue text :: ops, s)
    | (.ok .exhausted, s) =>
      -- a carry: the digit shows its first value again, and the next digit moves
      match driver.init op s with
      | (.error error, s) => (.error error, op :: ops, s)
      | (.ok (), s) =>
        match driver.advance op s with
        | (.error error, s) => (.error error, op :: ops, s)
        | (.ok .exhausted, s) => (.ok false, op :: ops, s)
        | (.ok (.value text), s) =>
          match driver.count ops s with
          | (answer, ops, s) => (answer, op.withValue text :: ops, s)

end Driver

/-- How far a sequence has come. -/
inductive Phase where
  /-- No step was made. -/
  | fresh
  /-- The last step gave substitutions. -/
  | running
  /-- The sequence has ended. -/
  | finished
deriving DecidableEq, Repr

/-- The place in a sequence of substitutions. -/
structure Sequence where
  /-- How the operations combine. -/
  mode : Mode
  /-- How far the sequence has come. -/
  phase : Phase := .fresh
  /-- In single mode, the operation whose turn it is. -/
  active : Nat := 0
deriving DecidableEq, Repr

/-- What a step of a sequence gives and leaves behind. -/
structure Step (σ : Type) where
  /-- The substitutions, none of them at the end of the sequence, or the error that ends it. -/
  answer : Except RunError (Option (List Substitution))
  /-- The place in the sequence. -/
  sequence : Sequence
  /-- The operations, with the values that they hold. -/
  operations : List Operation
  /-- The state of the transforms. -/
  state : σ

namespace Sequence

variable {σ : Type}

/-- Whether the sequence has ended. -/
def isFinished (sequence : Sequence) : Bool :=
  sequence.phase = .finished

/-- The sequence, ended. -/
def finish (sequence : Sequence) : Sequence :=
  { sequence with phase := .finished }

/-- The substitutions of a step in single mode: the active operation first. -/
def showActive (active : Nat) (text : String) (operations : List Operation) :
    List Substitution :=
  match operations[active]? with
  | none => []
  | some op => ⟨op.aliasName, text⟩ :: (operations.eraseIdx active).map Operation.asWritten

/-- The operations after a step in single mode: the active one holds its value, the others the
text of their regions. -/
def holdActive (active : Nat) (text : String) (operations : List Operation) : List Operation :=
  operations.mapIdx fun i op => if i = active then op.withValue text else op.withLiteral

/-- The step that ends a sequence with an error. -/
def fail (sequence : Sequence) (error : RunError) (operations : List Operation) (s : σ) :
    Step σ :=
  ⟨.error error, sequence.finish, operations, s⟩

/-- The step that ends a sequence without substitutions. -/
def stop (sequence : Sequence) (operations : List Operation) (s : σ) : Step σ :=
  ⟨.ok none, sequence.finish, operations, s⟩

/-- A step of a sequence that has been started, in single mode. -/
def stepSingle (sequence : Sequence) (driver : Driver σ) (operations : List Operation) (s : σ) :
    Step σ :=
  match driver.seek sequence.active (operations.drop sequence.active) s with
  | (.error error, active, s) => { sequence with active }.fail error operations s
  | (.ok none, active, s) => { sequence with active }.stop operations s
  | (.ok (some text), active, s) =>
    ⟨.ok (some (showActive active text operations)), { sequence with phase := .running, active },
      holdActive active text operations, s⟩

/-- The step after all digits or operations were asked: with the values that they hold, if all is
well. -/
def settle (sequence : Sequence) : Except RunError Bool × List Operation × σ → Step σ
  | (.error error, operations, s) => sequence.fail error operations s
  | (.ok false, operations, s) => sequence.stop operations s
  | (.ok true, operations, s) =>
    ⟨.ok (some (operations.map Operation.current)), { sequence with phase := .running },
      operations, s⟩

/-- A step of a sequence that has been started. -/
def next (sequence : Sequence) (driver : Driver σ) (operations : List Operation) (s : σ) :
    Step σ :=
  match sequence.mode with
  | .none => sequence.stop operations s
  | .single => sequence.stepSingle driver operations s
  | .lockstep => sequence.settle (driver.round operations s)
  | .cross => sequence.settle (driver.count operations s)

/-- The first step of a sequence: operations are started afresh, the first one only in single
mode, and in cross mode the digits behind the first one show their first values. -/
def start (sequence : Sequence) (driver : Driver σ) (operations : List Operation) (s : σ) :
    Step σ :=
  let sequence := { sequence with active := 0 }
  let first := if sequence.mode = .single then operations.take 1 else operations
  match driver.initAll first s with
  | (.error error, s) => sequence.fail error operations s
  | (.ok (), s) =>
    if sequence.mode = .cross then
      -- the first digit has no value yet: the count that follows gives it one
      match driver.primeRest operations s with
      | (.error error, operations, s) => sequence.fail error operations s
      | (.ok false, operations, s) => sequence.stop operations s
      | (.ok true, operations, s) => sequence.next driver operations s
    else sequence.next driver operations s

/-- The next list of substitutions. -/
def step (sequence : Sequence) (driver : Driver σ) (operations : List Operation) (s : σ) :
    Step σ :=
  match sequence.phase with
  | .finished => ⟨.ok none, sequence, operations, s⟩
  | .fresh =>
    if operations.isEmpty || sequence.mode = .none then sequence.stop operations s
    else sequence.start driver operations s
  | .running =>
    if operations.isEmpty || sequence.mode = .none then sequence.stop operations s
    else sequence.next driver operations s

@[simp]
theorem isFinished_finish (sequence : Sequence) : sequence.finish.isFinished = true := rfl

/-- A sequence that has ended gives nothing and asks nobody. -/
theorem step_of_isFinished {sequence : Sequence} (h : sequence.isFinished = true)
    (driver : Driver σ) (operations : List Operation) (s : σ) :
    sequence.step driver operations s = ⟨.ok none, sequence, operations, s⟩ := by
  simp only [isFinished, decide_eq_true_eq] at h
  simp [step, h]

end Sequence

end Stencil
