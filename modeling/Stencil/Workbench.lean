import Stencil.Random.Generator
import Stencil.Sequence
import Stencil.Transform

/-!
# Driving iterative transforms

Between the calls of step functions a workbench keeps what they depend on: the states of the
transforms, the generator that shuffles lists, the number of requests for observed words, and a
journal of the calls.

To start a transform is to gather its elements, to shuffle them if that is asked for, and to call
the step function once so that it can set up; its answer is dropped, unless it is fatal. To advance
a transform is to show its step function the next element.

Main definitions:

* `Workbench`: what is kept.
* `IterativeTransform.start`, `IterativeTransform.advance`: the two ways to run a transform.
* `Transforms.driver`: how a sequence reaches the transforms that are registered.
-/

namespace Stencil

/-- A call of a step function. -/
structure StepCall where
  /-- The transform whose step function was called. -/
  transform : String
  /-- The element that it was shown. -/
  element : String
  /-- What else it saw. -/
  view : StepView
  /-- What it had kept from its calls before. -/
  before : Memory
  /-- What it answered. -/
  answer : StepAnswer
  /-- What it keeps. -/
  after : Memory

/-- What is kept between the calls of step functions. -/
structure Workbench where
  /-- The states of the transforms. -/
  states : StateStore
  /-- The generator that shuffles lists. -/
  generator : Generator
  /-- How often observed words were asked for. -/
  requests : Nat
  /-- The calls of step functions, in order. -/
  calls : List StepCall

namespace Workbench

/-- Nothing has happened yet. -/
def new (generator : Generator) : Workbench :=
  ⟨.empty, generator, 0, []⟩

/-- The workbench with an empty journal. -/
def withoutCalls (bench : Workbench) : Workbench :=
  { bench with calls := [] }

/-- Puts the state of a transform in its place. -/
def putState (bench : Workbench) (transform : String) (state : IterationState) : Workbench :=
  { bench with states := bench.states.insert transform state }

/-- Notes a call. -/
def note (bench : Workbench) (call : StepCall) : Workbench :=
  { bench with calls := bench.calls ++ [call] }

end Workbench

namespace IterativeTransform

/-- The call of the step function, for an operation in a state, with an element. -/
def call (transform : IterativeTransform) (op : Operation) (element : String)
    (state : IterationState) : StepCall :=
  let outcome := transform.step element state.view state.memory
  { transform := op.transform
    element
    view := state.view
    before := state.memory
    answer := outcome.1
    after := outcome.2 }

/-- Puts the elements into a random order, if that is asked for and they are a list. -/
def arrange (transform : IterativeTransform) (shuffle : Bool) (elements : List String)
    (generator : Generator) : List String × Generator :=
  if shuffle && transform.strategy.isListBased then generator.shuffle elements
  else (elements, generator)

/-- Starts a transform for an operation. -/
def start (transform : IterativeTransform) (op : Operation) (supplies : Supplies)
    (shuffle : Bool) (bench : Workbench) : Except RunError Unit × Workbench :=
  let gathered := transform.strategy.gather op.transform supplies bench.requests
  let bench := { bench with requests := bench.requests + transform.strategy.requests }
  match gathered with
  | .error error => (.error error, bench)
  | .ok elements =>
    let arranged := transform.arrange shuffle elements bench.generator
    let cursor := transform.strategy.cursor arranged.1
    let state := (bench.states.state op.transform).begin op.literal cursor
    let call := transform.call op (cursor.initial op.literal) state
    let bench :=
      { bench with generator := arranged.2 }.putState op.transform
        { state with memory := call.after } |>.note call
    -- the first call only sets up: a value is dropped, and so is an early end
    match call.answer with
    | .fatal failure => (.error (.stepFailed op.transform failure), bench)
    | .value _ | .exhausted => (.ok (), bench)

/-- Asks a transform for its next value for an operation. -/
def advance (transform : IterativeTransform) (op : Operation) (bench : Workbench) :
    Except RunError Advance × Workbench :=
  let state := (bench.states.state op.transform).resume op.literal
  match state.cursor.next? op.literal with
  | none => (.ok .exhausted, bench.putState op.transform state)
  | some (element, cursor) =>
    let state := { state with cursor }
    let call := transform.call op element state
    let state := { state with memory := call.after }
    match call.answer with
    | .value text =>
      (.ok (.value text), bench.putState op.transform state.recordValue |>.note call)
    -- the element is used up although no value came of it
    | .exhausted => (.ok .exhausted, bench.putState op.transform state |>.note call)
    | .fatal failure =>
      (.error (.stepFailed op.transform failure),
        bench.putState op.transform state |>.note call)

end IterativeTransform

namespace Transforms

/-- How a sequence reaches the transforms that are registered. -/
def driver (set : Transforms) (supplies : Supplies) (shuffle : Bool) : Driver Workbench where
  init op bench :=
    match set.iterative.find? op.transform with
    | none => (.error (.misconfigured op.transform .noIterativeTransform), bench)
    | some transform => transform.start op supplies shuffle bench
  advance op bench :=
    match set.iterative.find? op.transform with
    | none => (.error (.misconfigured op.transform .noIterativeTransform), bench)
    | some transform => transform.advance op bench

end Transforms

end Stencil
