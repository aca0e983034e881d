import Stencil.Proofs.Sequence.Journal
import Stencil.Proofs.Transform.Independence

/-!
# What a request does

A request is refused, or it starts a transform, or it asks one for a value. A request that is
refused leaves the states and the journal as they are. Any other one changes the state of its own
transform and calls the step function once, or not at all where no element is left. What the step
function leaves of its memory in that call is what is kept.

Main definitions:

* `Transforms.materialised?`: the elements with which a request starts a transform.
* `Transforms.Effect`: what a request can come to.
* `Reaction.Writes`: what a call of a step function reads and writes.

Main statements:

* `effect_serve`: a request comes to one of the three effects.
* `writes_startFrom`, `writes_advanceFrom`: what is read and written in the course of a request.
-/

namespace Stencil

namespace Transforms

/-- The elements with which a request starts a transform of `set`, gathered and arranged; `none` if
it does not start one, because it asks for a value or because the elements cannot be gathered. -/
def materialised? (set : Transforms) (supplies : Supplies) (shuffle : Bool) (bench : Workbench) :
    Driver.Request → Option (List String)
  | .advance _ => none
  | .init op => do
    let transform ← set.iterative.find? op.transform
    let gathered ← (transform.strategy.gather op.transform supplies bench.requests).toOption
    return (transform.arrange shuffle gathered bench.generator).1

/-- What a request can come to: the call with its answer, and what it leaves. -/
inductive Effect (set : Transforms) (supplies : Supplies) (shuffle : Bool) (bench : Workbench) :
    Driver.Request → Call × Workbench → Prop
  /-- The transform is not registered, or its elements cannot be gathered. -/
  | refused {request : Driver.Request} {call : Call} {error : RunError} (requests : Nat)
      (hcall : call.error? = some error)
      (hnone : set.materialised? supplies shuffle bench request = none) :
      Effect set supplies shuffle bench request (call, { bench with requests })
  /-- The transform is started from its elements. -/
  | started {op : Operation} {transform : IterativeTransform} {reaction : Reaction Unit}
      (elements : List String) (generator : Generator) (requests : Nat)
      (hfind : set.iterative.find? op.transform = some transform)
      (hsome : set.materialised? supplies shuffle bench (.init op) = some elements)
      (hreaction : transform.startFrom op elements (bench.states.state op.transform) = reaction) :
      Effect set supplies shuffle bench (.init op) (.init op.transform reaction.answer,
        ⟨bench.states.insert op.transform reaction.state, generator, requests,
          bench.calls ++ reaction.seen⟩)
  /-- The transform is asked for its next value. -/
  | advanced {op : Operation} {transform : IterativeTransform} {reaction : Reaction Advance}
      (hfind : set.iterative.find? op.transform = some transform)
      (hreaction : transform.advanceFrom op (bench.states.state op.transform) = reaction) :
      Effect set supplies shuffle bench (.advance op) (.advance op.transform reaction.answer,
        { bench with
          states := bench.states.insert op.transform reaction.state
          calls := bench.calls ++ reaction.seen })

/-- The effect of `request`: it is refused, starts its transform or asks it for a value. -/
theorem effect_serve (set : Transforms) (supplies : Supplies) (shuffle : Bool) (bench : Workbench)
    (request : Driver.Request) :
    set.Effect supplies shuffle bench request
      ((set.driver supplies shuffle).serve bench request) := by
  cases request with
  | init op =>
    simp only [Driver.serve, driver]
    cases hfind : set.iterative.find? op.transform with
    | none =>
      refine .refused bench.requests rfl ?_
      simp [materialised?, hfind]
    | some transform =>
      simp only
      cases hgather : transform.strategy.gather op.transform supplies bench.requests with
      | error error =>
        rw [IterativeTransform.start_of_gather_error hgather]
        refine .refused _ rfl ?_
        simp [materialised?, hfind, hgather, Except.toOption]
      | ok gathered =>
        rw [IterativeTransform.start_of_gather hgather]
        refine .started _ _ _ hfind ?_ rfl
        simp [materialised?, hfind, hgather, Except.toOption]
  | advance op =>
    simp only [Driver.serve, driver]
    cases hfind : set.iterative.find? op.transform with
    | none => exact .refused bench.requests rfl rfl
    | some transform =>
      simp only
      rw [IterativeTransform.advance_eq]
      exact .advanced hfind rfl

end Transforms

/-- What `reaction` has to do with memory: the step function is not called, and what it keeps stays
the same, or it is called once, with what it kept, and leaves what is kept. -/
def Reaction.Writes {α : Type} (transform : IterativeTransform) (op : Operation)
    (state : IterationState) (reaction : Reaction α) : Prop :=
  reaction.seen = [] ∧ reaction.state.memory = state.memory ∨
    ∃ call, reaction.seen = [call] ∧ reaction.state.memory = call.after ∧
      call.transform = op.transform ∧ call.before = state.memory ∧
      (call.answer, call.after) = transform.step call.element call.view call.before

/-- A step function is called once at most in `reaction`. -/
theorem Reaction.Writes.length_seen_le {α : Type} {transform : IterativeTransform} {op : Operation}
    {state : IterationState} {reaction : Reaction α} (h : reaction.Writes transform op state) :
    reaction.seen.length ≤ 1 := by
  rcases h with ⟨hseen, -⟩ | ⟨call, hseen, -⟩
  · simp [hseen]
  · simp [hseen]

namespace IterativeTransform

variable (transform : IterativeTransform) (op : Operation) (state : IterationState)

/-- To start `transform` calls its step function once. -/
theorem writes_startFrom (elements : List String) :
    (transform.startFrom op elements state).Writes transform op state :=
  .inr ⟨_, rfl, rfl, rfl, rfl, rfl⟩

/-- To ask `transform` for a value calls its step function if an element is left. -/
theorem writes_advanceFrom : (transform.advanceFrom op state).Writes transform op state := by
  unfold advanceFrom
  simp only
  split
  · exact .inl ⟨rfl, rfl⟩
  · -- whatever the step function answers, it was called, and what it leaves is kept
    split
    · exact .inr ⟨_, rfl, rfl, rfl, rfl, rfl⟩
    · exact .inr ⟨_, rfl, rfl, rfl, rfl, rfl⟩
    · exact .inr ⟨_, rfl, rfl, rfl, rfl, rfl⟩

end IterativeTransform

end Stencil
