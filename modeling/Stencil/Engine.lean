import Stencil.Chain
import Stencil.Template
import Stencil.Workbench

/-!
# Engines

An engine owns a template, its operations and the state of every transform, and it produces one
payload after the other. A payload is the text of the template with the substitutions of one step
of the sequence applied and its persistent regions filled. The end of the sequence and every error
are final: an engine gives nothing after either.

Main definitions:

* `Engine.build`: an engine for a template.
* `Engine.advance`: the next payload.
* `Engine.preview`: the payload in which every region shows the text that was written in it.
* `Engine.input`, `Engine.output`: what stands in the only region of a transform.
-/

namespace Stencil

/-- A text that was produced. -/
structure Payload where
  /-- Its place in the sequence, from 0. -/
  index : Nat
  /-- The label that a step function gave it. -/
  label : Option String
  /-- The text. -/
  body : String
deriving DecidableEq, Repr

/-- A template on its way through its payloads. -/
structure Engine where
  /-- The template; its operations hold the values that were shown last. -/
  template : Template
  /-- The place in the sequence. -/
  sequence : Sequence
  /-- The transforms that are registered. -/
  transforms : Transforms
  /-- Whether lists are put into a random order each time they are gathered. -/
  randomize : Bool
  /-- What the iterative transforms depend on. -/
  bench : Workbench
  /-- How often each persistent transform was applied. -/
  uses : Roster Nat
  /-- How many payloads were produced. -/
  emitted : Nat
  /-- The label of the last payload; nothing if the last step gave none. -/
  label : Option String

namespace Transforms

/-- The names that headings may use. -/
def templateNames (set : Transforms) : TransformNames :=
  ⟨set.iterative.names, set.persistent.names⟩

/-- Applies the persistent transforms that are registered, and counts how often each is. -/
def application (set : Transforms) : Application (Roster Nat) := fun name text uses =>
  match set.persistent.find? name with
  | none => (.error (.misconfigured name .noPersistentTransform), uses)
  | some transform =>
    let count := (uses.find? name).getD 0
    ((transform.edit count text).mapError (.stepFailed name), uses.insert name (count + 1))

end Transforms

namespace Engine

/-- An engine for a template. The generator gives the aliases first, then it shuffles lists. -/
def build (source : String) (transforms : Transforms) (randomize : Bool) (generator : Generator) :
    Except SetupError Engine :=
  (Template.parse source transforms.templateNames { generator }).map fun (template, pool) =>
    { template
      sequence := { mode := template.mode }
      transforms
      randomize
      bench := .new pool.generator
      uses := .empty
      emitted := 0
      label := none }

/-- Whether the engine has ended. -/
def isFinished (engine : Engine) : Bool :=
  engine.sequence.isFinished

/-- The calls of step functions during the last step, in order. -/
def calls (engine : Engine) : List StepCall :=
  engine.bench.calls

/-- The text of the template after some substitutions, with its persistent regions filled. -/
def render (engine : Engine) (subs : List Substitution) : Except RunError String × Engine :=
  let filled := applyPersistent engine.transforms.application subs engine.template.persistent
    (substitute subs engine.template.text.toList) engine.uses
  (filled.1.map String.ofList, { engine with uses := filled.2 })

/-- The payload in which every region shows the text that was written in it. -/
def preview (engine : Engine) : Except RunError String × Engine :=
  engine.render engine.template.asWritten

/-- The engine after a step of its sequence. -/
def afterStep (engine : Engine) (step : Step Workbench) : Engine :=
  { engine with
    template := { engine.template with operations := step.operations }
    sequence := step.sequence
    bench := step.state
    label := none }

/-- The engine after a payload was made, and the payload. -/
def emit (engine : Engine) (body : String) : Payload × Engine :=
  let label := StateStore.label? engine.bench.states
  (⟨engine.emitted, label, body⟩,
    { engine with
      bench := { engine.bench with states := StateStore.dropLabels engine.bench.states }
      emitted := engine.emitted + 1
      label })

/-- The next payload, or nothing at the end of the sequence. -/
def advance (engine : Engine) (supplies : Supplies) : Except RunError (Option Payload) × Engine :=
  let step := engine.sequence.step (engine.transforms.driver supplies engine.randomize)
    engine.template.operations engine.bench.withoutCalls
  let engine := engine.afterStep step
  -- a step without a payload leaves the labels that were set in it where they are
  match step.answer with
  | .error error => (.error error, engine)
  | .ok none => (.ok none, engine)
  | .ok (some subs) =>
    -- the sequence has moved on, so an error here has to end it
    match engine.render subs with
    | (.error error, engine) => (.error error, { engine with sequence := engine.sequence.finish })
    | (.ok body, engine) =>
      let emitted := engine.emit body
      (.ok (some emitted.1), emitted.2)

/-- The only member of a list of instances. -/
def single {α : Type} (kind : InstanceKind) (transform : String) :
    List α → Except RunError α
  | [] => .error (.noInstance kind transform)
  | [only] => .ok only
  | instances => .error (.severalInstances transform instances.length)

/-- The text in the only region that is bound to a transform. -/
def input (engine : Engine) (transform : String) : Except RunError String :=
  let varying := engine.template.operations.filter (·.transform = transform)
  let lasting := engine.template.persistent.filter (·.chain.contains transform)
  single .bound transform (varying.map (·.literal) ++ lasting.map (·.literal))

/-- The value that the only region of an iterative transform showed last. -/
def output (engine : Engine) (transform : String) : Except RunError (Option String) :=
  if engine.transforms.kindOf transform = some .persistent then
    .error (.persistentOutput transform)
  else
    (single .iterative transform (engine.template.operations.filter (·.transform = transform))).map
      (·.cached)

/-- The first payloads, as many as `limit` at most, and the error that ended them, if one did. -/
def take (engine : Engine) (supplies : Supplies) : Nat → List Payload × Option RunError
  | 0 => ([], none)
  | limit + 1 =>
    match engine.advance supplies with
    | (.error error, _) => ([], some error)
    | (.ok none, _) => ([], none)
    | (.ok (some payload), engine) =>
      let rest := engine.take supplies limit
      (payload :: rest.1, rest.2)

end Engine

end Stencil
