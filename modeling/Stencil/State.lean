import Stencil.Cursor
import Stencil.Data.Value
import Stencil.Roster

/-!
# The state of iterative transforms

Every iterative transform that is driven has a state of its own, found under its name. A step
function sees part of it and keeps notes in another part: variables, and a label for the payload
that is being made. The notes outlast a fresh start.

Main definitions:

* `StepView`, `Memory`: what a step function sees, and what it may change.
* `IterationState`: the state of one transform.
* `StateStore`: the states of all transforms.
-/

namespace Stencil

/-- What a step function sees besides the element. -/
structure StepView where
  /-- Whether the transform is being started. -/
  init : Bool
  /-- How many values the transform has given since it was started. -/
  iteration : Nat
  /-- The text of the region that is driven. -/
  inner : String
  /-- The elements of a list that is iterated over. -/
  elements : List String
deriving DecidableEq, Repr

/-- What a step function may change. -/
structure Memory where
  /-- Variables by name. -/
  vars : Roster Data.Value
  /-- The label for the payload that is being made. -/
  label : Option String

namespace Memory

/-- Nothing is kept. -/
def empty : Memory :=
  ⟨.empty, none⟩

/-- The value of a variable. -/
def get? (memory : Memory) (key : String) : Option Data.Value :=
  memory.vars.find? key

/-- Whether a variable has a value. -/
def contains (memory : Memory) (key : String) : Bool :=
  memory.vars.contains key

/-- Gives a variable a value. -/
def set (memory : Memory) (key : String) (value : Data.Value) : Memory :=
  { memory with vars := memory.vars.insert key value }

/-- Takes its value from a variable. -/
def remove (memory : Memory) (key : String) : Memory :=
  { memory with vars := memory.vars.erase key }

/-- Sets the label. -/
def setLabel (memory : Memory) (label : String) : Memory :=
  { memory with label := some label }

/-- Takes the label away. -/
def dropLabel (memory : Memory) : Memory :=
  { memory with label := none }

end Memory

/-- The state of a transform. -/
structure IterationState where
  /-- Whether the transform is being started. -/
  init : Bool
  /-- How many values the transform has given since it was started. -/
  iteration : Nat
  /-- The text of the region that is driven. -/
  inner : String
  /-- The place in the elements. -/
  cursor : Cursor
  /-- What the step function keeps. -/
  memory : Memory

namespace IterationState

/-- The state of a transform that was never started. -/
def initial : IterationState :=
  ⟨false, 0, "", .idle, .empty⟩

instance : Inhabited IterationState := ⟨initial⟩

/-- What the step function sees. -/
def view (state : IterationState) : StepView :=
  ⟨state.init, state.iteration, state.inner, state.cursor.elements⟩

/-- The state in which a transform starts. What the step function keeps is left. -/
def begin (state : IterationState) (literal : String) (cursor : Cursor) : IterationState :=
  { state with init := true, iteration := 0, inner := literal, cursor }

/-- The state in which a transform goes on. -/
def resume (state : IterationState) (literal : String) : IterationState :=
  { state with init := false, inner := literal }

/-- The state after a value was given. -/
def recordValue (state : IterationState) : IterationState :=
  { state with iteration := state.iteration + 1 }

@[simp]
theorem memory_begin (state : IterationState) (literal : String) (cursor : Cursor) :
    (state.begin literal cursor).memory = state.memory := rfl

@[simp]
theorem memory_resume (state : IterationState) (literal : String) :
    (state.resume literal).memory = state.memory := rfl

end IterationState

/-- The states of transforms, by name. -/
abbrev StateStore := Roster IterationState

namespace StateStore

/-- The state of a transform; that of a transform never started, if there is none. -/
def state (store : StateStore) (transform : String) : IterationState :=
  (store.find? transform).getD .initial

/-- Changes what the step function of a transform keeps. -/
def updateMemory (store : StateStore) (transform : String) (f : Memory → Memory) : StateStore :=
  let state := store.state transform
  store.insert transform { state with memory := f state.memory }

/-- The label that the last transform with one has set, in the order of the names. -/
def label? (store : StateStore) : Option String :=
  store.entries.foldl (fun label entry => entry.2.memory.label.or label) none

/-- The states without their labels. -/
def dropLabels (store : StateStore) : StateStore :=
  store.map fun state => { state with memory := state.memory.dropLabel }

/-- Changing one state leaves the others. -/
theorem state_insert (store : StateStore) (transform other : String) (state : IterationState) :
    StateStore.state (store.insert transform state) other =
      if transform = other then state else store.state other := by
  simp only [StateStore.state, Roster.find?_insert]
  split <;> rfl

/-- A state without its label, also that of a transform never started. -/
theorem state_dropLabels (store : StateStore) (name : String) :
    store.dropLabels.state name =
      { store.state name with memory := (store.state name).memory.dropLabel } := by
  rw [StateStore.state, dropLabels, Roster.find?_map, StateStore.state]
  cases store.find? name <;> rfl

end StateStore

end Stencil
