import Stencil.Engine
import Stencil.Proofs.Markup.Splice
import Stencil.Proofs.Sequence.Holding

/-!
# Runs of an engine

Each call of `advance` makes one step of the sequence, with a journal of its own, and then a payload
of what the step gives. The journal tells which values step functions have given. A call that
gives no payload leaves an engine that has ended.

Main definitions:

* `Workbench.Gave`: the values in the journal.
* `Engine.stepWith`: the step of a call.
* `Engine.run`: an engine after some calls.
* `Template.asRead`, `Engine.Retains`: what stays the same in a run.

Main statements:

* `tells_gave`: the journal of a workbench tells which values were given.
* `advance_cases`: what a call of `advance` does.
* `fresh_of_build`, `transforms_of_build`: an engine that is built holds no values and no states.
-/

namespace Stencil

namespace Workbench

/-- A step function has given the value `text` when its `transform` was asked for one. What it
answers when it is started does not count. -/
def Gave (transform text : String) (bench : Workbench) : Prop :=
  ∃ call ∈ bench.calls,
    call.transform = transform ∧ call.view.init = false ∧ call.answer = .value text

theorem Gave.of_calls {transform text : String} {bench bench' : Workbench} {more : List StepCall}
    (h : Gave transform text bench) (hcalls : bench'.calls = bench.calls ++ more) :
    Gave transform text bench' := by
  obtain ⟨call, hcall, hgave⟩ := h
  exact ⟨call, hcalls ▸ List.mem_append_left _ hcall, hgave⟩

end Workbench

namespace IterativeTransform

variable (transform : IterativeTransform) (op : Operation) (bench : Workbench)

/-- To start `transform` adds to the journal of `bench`. -/
theorem exists_calls_start (supplies : Supplies) (shuffle : Bool) :
    ∃ more, (transform.start op supplies shuffle bench).2.calls = bench.calls ++ more := by
  unfold start
  simp only
  split
  · exact ⟨[], by simp⟩
  · split <;> exact ⟨[_], rfl⟩

/-- To advance `transform` adds to the journal of `bench`, and a value `text` that is given is
noted. -/
theorem exists_calls_advance :
    (∃ more, (transform.advance op bench).2.calls = bench.calls ++ more) ∧
      ∀ text, (transform.advance op bench).1 = .ok (.value text) →
        Workbench.Gave op.transform text (transform.advance op bench).2 := by
  unfold advance
  simp only
  split
  · -- no element is left, so the step function is not called
    exact ⟨⟨[], by simp [Workbench.putState]⟩, fun text hanswer => by cases hanswer⟩
  · split
    · rename_i text hvalue
      refine ⟨⟨[_], rfl⟩, fun text' hanswer => ?_⟩
      cases hanswer
      exact ⟨_, List.mem_append_right _ (List.mem_singleton_self _), rfl, rfl, hvalue⟩
    · exact ⟨⟨[_], rfl⟩, fun text hanswer => by cases hanswer⟩
    · exact ⟨⟨[_], rfl⟩, fun text hanswer => by cases hanswer⟩

end IterativeTransform

/-- The journal tells which values the transforms of `set` gave. -/
theorem Transforms.tells_gave (set : Transforms) (supplies : Supplies) (shuffle : Bool) :
    (set.driver supplies shuffle).Tells Workbench.Gave where
  init op bench transform text htold := by
    unfold driver
    simp only
    split
    · exact htold
    · rename_i found _
      obtain ⟨more, hcalls⟩ := found.exists_calls_start op bench supplies shuffle
      exact htold.of_calls hcalls
  advance op bench transform text htold := by
    unfold driver
    simp only
    split
    · exact htold
    · rename_i found _
      obtain ⟨⟨more, hcalls⟩, -⟩ := found.exists_calls_advance op bench
      exact htold.of_calls hcalls
  value op bench text hanswer := by
    unfold driver at hanswer ⊢
    simp only at hanswer ⊢
    split at hanswer
    · cases hanswer
    · rename_i found hfound
      exact (found.exists_calls_advance op bench).2 text hanswer

namespace Template

/-- The `template` as it was read: its operations hold no values. -/
def asRead (template : Template) : Template :=
  { template with operations := template.operations.map Operation.asRead }

@[simp]
theorem asWritten_asRead (template : Template) :
    template.asRead.asWritten = template.asWritten := by
  rw [asWritten, asWritten, asRead, List.map_map]
  rfl

end Template

namespace Engine

/-- The step of the sequence that a call of `advance` makes. -/
def stepWith (engine : Engine) (supplies : Supplies) : Step Workbench :=
  engine.sequence.step (engine.transforms.driver supplies engine.randomize)
    engine.template.operations engine.bench.withoutCalls

/-- The engine after some calls of `advance`, one for each of the supplies. -/
def run (engine : Engine) (supplies : List Supplies) : Engine :=
  supplies.foldl (fun engine supplies => (engine.advance supplies).2) engine

/-- The call with `next` behind the run with `earlier`. -/
theorem run_concat (engine : Engine) (earlier : List Supplies) (next : Supplies) :
    engine.run (earlier ++ [next]) = ((engine.run earlier).advance next).2 := by
  simp [run]

/-- What does not change about an engine in a step: the template but for the values that its
operations hold, and the transforms. -/
structure Continues (engine : Engine) (step : Step Workbench) (next : Engine) : Prop where
  /-- The operations are those of the step. -/
  template : next.template = { engine.template with operations := step.operations }
  /-- The transforms stay the same. -/
  transforms : next.transforms = engine.transforms
  /-- The mode is that of the step. -/
  mode : next.sequence.mode = step.sequence.mode
  /-- The journal is that of the step. -/
  calls : next.bench.calls = step.state.calls

/-- Rendering changes nothing in `engine` but how often persistent transforms were applied. -/
theorem exists_uses_render (engine : Engine) (subs : List Substitution) :
    ∃ uses, (engine.render subs).2 = { engine with uses } :=
  ⟨_, rfl⟩

/-- A call of `advance` makes a step. It gives a payload if the step gives substitutions and no
persistent transform fails; otherwise the engine has ended. -/
theorem advance_cases (engine : Engine) (supplies : Supplies) :
    Continues engine (engine.stepWith supplies) (engine.advance supplies).2 ∧
      ((∃ subs payload, (engine.stepWith supplies).answer = .ok (some subs) ∧
          (engine.advance supplies).1 = .ok (some payload) ∧
          (engine.advance supplies).2.sequence = (engine.stepWith supplies).sequence ∧
          ((engine.afterStep (engine.stepWith supplies)).render subs).1 = .ok payload.body) ∨
        (∀ payload, (engine.advance supplies).1 ≠ .ok (some payload)) ∧
          (engine.advance supplies).2.sequence.isFinished = true) := by
  have hconclusive : Sequence.Conclusive (engine.stepWith supplies) :=
    Sequence.conclusive_step _ _ _ _
  unfold advance
  rw [← stepWith]
  generalize engine.stepWith supplies = step at hconclusive ⊢
  have hended : (∀ subs, step.answer ≠ .ok (some subs)) → step.sequence.isFinished = true :=
    hconclusive
  simp only
  rcases hanswer : step.answer with error | _ | subs
  · exact ⟨⟨rfl, rfl, rfl, rfl⟩, .inr ⟨by simp, hended (by simp [hanswer])⟩⟩
  · exact ⟨⟨rfl, rfl, rfl, rfl⟩, .inr ⟨by simp, hended (by simp [hanswer])⟩⟩
  · -- a persistent transform may still refuse the payload
    obtain ⟨uses, huses⟩ := (engine.afterStep step).exists_uses_render subs
    simp only
    rcases hrender : (engine.afterStep step).render subs with ⟨error | body, rendered⟩
    · rw [hrender] at huses
      cases huses
      exact ⟨⟨rfl, rfl, rfl, rfl⟩, .inr ⟨by simp, rfl⟩⟩
    · rw [hrender] at huses
      cases huses
      exact ⟨⟨rfl, rfl, rfl, rfl⟩, .inl ⟨subs, _, rfl, rfl, rfl, congrArg Prod.fst hrender⟩⟩

/-- An `engine` that is built has made no step, and its operations hold no values. -/
theorem fresh_of_build {source : String} {transforms : Transforms} {randomize : Bool}
    {generator : Generator} {engine : Engine}
    (h : build source transforms randomize generator = .ok engine) :
    engine.sequence.phase = .fresh ∧ ∀ op ∈ engine.template.operations, op.cached = none := by
  obtain ⟨⟨template, pool⟩, hparse, rfl⟩ := Except.exists_of_map_eq_ok h
  refine ⟨rfl, fun op hop => ?_⟩
  obtain ⟨varying, -, -, -, -, -, hoperations, -⟩ := Template.exists_of_parse hparse
  simp only [hoperations, Region.operations, List.mem_flatMap, List.mem_map] at hop
  obtain ⟨region, -, name, -, rfl⟩ := hop
  rfl

/-- An `engine` that is built has the `transforms` that it was built with, and none of them has a
state. -/
theorem transforms_of_build {source : String} {transforms : Transforms} {randomize : Bool}
    {generator : Generator} {engine : Engine}
    (h : build source transforms randomize generator = .ok engine) :
    engine.transforms = transforms ∧ engine.bench.states = .empty := by
  obtain ⟨-, -, rfl⟩ := Except.exists_of_map_eq_ok h
  exact ⟨rfl, rfl⟩

/-! ### What calls leave as it is -/

/-- What stays the same about an engine. -/
structure Retains (engine engine' : Engine) : Prop where
  /-- The template, but for the values that its operations hold. -/
  template : engine'.template.asRead = engine.template.asRead
  /-- The transforms. -/
  transforms : engine'.transforms = engine.transforms
  /-- The mode. -/
  mode : engine'.sequence.mode = engine.sequence.mode

namespace Retains

variable {engine engine' engine'' : Engine}

theorem refl (engine : Engine) : Retains engine engine :=
  ⟨rfl, rfl, rfl⟩

theorem trans (h : Retains engine engine') (h' : Retains engine' engine'') :
    Retains engine engine'' :=
  ⟨h'.template.trans h.template, h'.transforms.trans h.transforms, h'.mode.trans h.mode⟩

theorem asWritten_eq (h : Retains engine engine') :
    engine'.template.asWritten = engine.template.asWritten := by
  rw [← Template.asWritten_asRead, h.template, Template.asWritten_asRead]

theorem persistent_eq (h : Retains engine engine') :
    engine'.template.persistent = engine.template.persistent := by
  have hpersistent := congrArg Template.persistent h.template
  exact hpersistent

/-- The literal of each operation `op'` of `engine'` is that of one of `engine`. -/
theorem exists_literal (h : Retains engine engine') {op' : Operation}
    (hop' : op' ∈ engine'.template.operations) :
    ∃ op ∈ engine.template.operations, op'.literal = op.literal := by
  have hoperations : engine'.template.operations.map Operation.asRead =
      engine.template.operations.map Operation.asRead := congrArg Template.operations h.template
  obtain ⟨op, hop, heq⟩ := List.mem_map.1 (hoperations ▸ List.mem_map_of_mem hop')
  have hliteral := congrArg Operation.literal heq
  exact ⟨op, hop, hliteral.symm⟩

end Retains

end Engine

end Stencil
