import Mathlib.Data.List.DropRight
import Stencil.Proofs.Engine.Ending
import Stencil.Proofs.Engine.Output
import Stencil.Proofs.Sequence.Simulation
import Stencil.Proofs.Transform.Requests

/-!
# What step functions see

The history of an engine is a record of all requests that its sequences have made of transforms:
the operation, the elements with which a transform was started, the answer, and the calls of step
functions. Everything that a step function sees can be told from the history before its call:
whether its transform is being started, how many values were given since the latest start, the text
of the region that is driven, the elements of the latest start, and the variables that its own last
call has left. Neither a fresh start nor another transform touches these variables.

Main definitions:

* `Event`: a request in the history.
* `Event.startedWith?`, `Event.given`, `Event.varsLeft`: what a history tells of one transform.
* `Transforms.recorder`: a driver that keeps a history.
* `Engine.history`: the history of a run.
* `StepCall.AsTold`, `Event.Sound`: a call sees what the history tells.

Main statements:

* `told_serve`: the call of a request sees what is told, and what is left is told again.
* `recorded_step`, `recorded_run`: what a step preserves, and what a run does.
* `views_run`: what step functions see in every run.
-/

namespace Stencil

/-- A request to a transform in the course of a run. -/
structure Event where
  /-- What was asked for. -/
  request : Driver.Request
  /-- The elements with which the transform was started, if it was. -/
  elements : Option (List String)
  /-- The request with its answer. -/
  served : Call
  /-- The calls of step functions that were made. -/
  seen : List StepCall

namespace Event

/-- The transform that `event` has reached. -/
def transform (event : Event) : String :=
  event.request.transform

/-- The elements with which the transform `name` was started by `event`, if it was. -/
def startOf? (name : String) (event : Event) : Option (List String) :=
  if event.transform = name then event.elements else none

/-- Whether the transform `name` has given a value in `event`. -/
def gives (name : String) (event : Event) : Bool :=
  match event.served with
  | .advance _ (.ok (.value _)) => event.transform = name
  | _ => false

/-- The elements with which the transform `name` was started last in `history`. -/
def startedWith? (name : String) (history : List Event) : Option (List String) :=
  (history.filterMap (startOf? name)).getLast?

/-- How many values the transform `name` has given in `history` since it was started last. -/
def given (name : String) (history : List Event) : Nat :=
  (history.rtakeWhile fun event => (event.startOf? name).isNone).countP (gives name)

/-- The calls of the step function of `name` in `history`. -/
def callsOf (name : String) (history : List Event) : List StepCall :=
  (history.flatMap seen).filter (·.transform = name)

/-- The variables that the last call of the step function of `name` in `history` has left. -/
def varsLeft (name : String) (history : List Event) : Roster Data.Value :=
  (callsOf name history).getLast?.elim .empty (·.after.vars)

variable {name : String} {history : List Event} {event : Event}

theorem startedWith?_concat :
    startedWith? name (history ++ [event]) =
      (event.startOf? name).or (startedWith? name history) := by
  rw [startedWith?, List.filterMap_append, List.getLast?_append, startedWith?]
  cases hstart : event.startOf? name <;> simp [hstart]

theorem given_concat :
    given name (history ++ [event]) =
      if (event.startOf? name).isSome then 0
      else given name history + if event.gives name then 1 else 0 := by
  rw [given, List.rtakeWhile_concat]
  cases hstart : event.startOf? name with
  | some elements => simp
  | none =>
    simp only [Option.isNone_none, if_true, List.countP_append, List.countP_singleton, given]
    simp

theorem callsOf_concat :
    callsOf name (history ++ [event]) =
      callsOf name history ++ event.seen.filter (·.transform = name) := by
  simp [callsOf, List.flatMap_append]

end Event

open Event (startedWith? given varsLeft)

/-! ### Histories -/

namespace Transforms

/-- The record of `request`. -/
def record (set : Transforms) (supplies : Supplies) (shuffle : Bool) (bench : Workbench)
    (request : Driver.Request) : Event :=
  let served := (set.driver supplies shuffle).serve bench request
  { request
    elements := set.materialised? supplies shuffle bench request
    served := served.1
    seen := served.2.calls.drop bench.calls.length }

/-- A driver that answers as the transforms of `set` do and records what it is asked for. -/
def recorder (set : Transforms) (supplies : Supplies) (shuffle : Bool) :
    Driver (Workbench × List Event) where
  init op s :=
    let done := (set.driver supplies shuffle).init op s.1
    (done.1, done.2, s.2 ++ [set.record supplies shuffle s.1 (.init op)])
  advance op s :=
    let done := (set.driver supplies shuffle).advance op s.1
    (done.1, done.2, s.2 ++ [set.record supplies shuffle s.1 (.advance op)])

/-- To keep a record, as `recorder` does, changes nothing about what transforms do. -/
theorem recorder_abreast (set : Transforms) (supplies : Supplies) (shuffle : Bool)
    (known : List Operation) :
    (set.recorder supplies shuffle).Abreast known (fun s bench => s.1 = bench)
      (set.driver supplies shuffle) where
  init op s bench _ h := by
    subst h
    exact ⟨_, _, _, rfl, rfl, rfl⟩
  advance op s bench _ h := by
    subst h
    exact ⟨_, _, _, rfl, rfl, rfl⟩

end Transforms

namespace Engine

/-- The requests in the course of a call of `advance`. -/
def events (engine : Engine) (supplies : Supplies) : List Event :=
  (engine.sequence.step (engine.transforms.recorder supplies engine.randomize)
    engine.template.operations (engine.bench.withoutCalls, [])).state.2

/-- The requests in the course of some calls of `advance`, one for each of the supplies. -/
def history (engine : Engine) : List Supplies → List Event
  | [] => []
  | next :: later => engine.events next ++ (engine.advance next).2.history later

theorem history_concat (engine : Engine) (earlier : List Supplies) (next : Supplies) :
    engine.history (earlier ++ [next]) =
      engine.history earlier ++ (engine.run earlier).events next := by
  induction earlier generalizing engine with
  | nil => simp [history, run]
  | cons first earlier ih =>
    rw [List.cons_append, history, ih, history, List.append_assoc]
    rfl

end Engine

/-! ### What the history tells -/

/-- A call of a step function sees what the history before it tells: it was made with what the
history tells, and it is this that the step function has made its answer of. -/
structure StepCall.AsTold (set : Transforms) (earlier : List Event) (event : Event)
    (call : StepCall) : Prop where
  /-- It is the step function of the transform that was reached. -/
  transform : call.transform = event.transform
  /-- What the call has come to follows from what was seen. -/
  made : ∃ transform, set.iterative.find? call.transform = some transform ∧
    (call.answer, call.after) = transform.step call.element call.view call.before ∧
    (transform.strategy.isListBased = false → call.view.elements = [])
  /-- It sees that it is started exactly when it is. -/
  init : call.view.init = true ↔ ∃ op, event.request = .init op
  /-- It sees the number of values given since the latest start, and none while it is started. -/
  iteration : call.view.iteration = if call.view.init then 0 else given call.transform earlier
  /-- It sees the text of the region that is driven. -/
  inner : call.view.inner = event.request.operation.literal
  /-- It sees the elements of the latest start, which may be this one. -/
  elements : startedWith? call.transform (earlier ++ [event]) = some call.view.elements
  /-- It finds the variables that its own last call has left. -/
  vars : call.before.vars = varsLeft call.transform earlier

/-- The state of a transform is what a history tells. -/
structure IterationState.Told (set : Transforms) (name : String) (history : List Event)
    (state : IterationState) : Prop where
  /-- The variables are those that the last call has left. -/
  vars : state.memory.vars = varsLeft name history
  /-- The elements are those of the latest start, and the values since then are counted. -/
  started : ∀ elements, startedWith? name history = some elements →
    state.cursor.elements = elements ∧ state.iteration = given name history
  /-- A transform that was never started has no elements to show. -/
  idle : startedWith? name history = none → state.cursor = .idle
  /-- Where the strategy has no list, there are no elements. -/
  bare : ∀ transform, set.iterative.find? name = some transform →
    transform.strategy.isListBased = false → state.cursor.elements = []

namespace IterationState

variable {set : Transforms} {name : String} {history : List Event} {event : Event}
  {state : IterationState}

/-- Nothing is told of the transform `name` at first. -/
theorem told_initial (set : Transforms) (name : String) : Told set name [] initial :=
  ⟨rfl, nofun, fun _ => rfl, fun _ _ _ => rfl⟩

/-- A `state` without its label is told by the same `history`. -/
theorem Told.dropLabel (h : state.Told set name history) :
    Told set name history { state with memory := state.memory.dropLabel } :=
  ⟨h.vars, h.started, h.idle, h.bare⟩

/-- An `event` that calls no step function, starts nothing and gives no value tells nothing new of
`name`. -/
theorem Told.concat_of_silent (h : state.Told set name history)
    (hseen : event.seen.filter (·.transform = name) = []) (hstart : event.startOf? name = none)
    (hgives : event.gives name = false) : state.Told set name (history ++ [event]) := by
  have hvars : varsLeft name (history ++ [event]) = varsLeft name history := by
    rw [varsLeft, Event.callsOf_concat, hseen, List.append_nil, varsLeft]
  have hgiven : given name (history ++ [event]) = given name history := by
    simp [Event.given_concat, hstart, hgives]
  have hstarted : startedWith? name (history ++ [event]) = startedWith? name history := by
    rw [Event.startedWith?_concat, hstart, Option.none_or]
  exact ⟨hvars ▸ h.vars, fun elements => hstarted ▸ hgiven ▸ h.started elements,
    fun hnone => h.idle (hstarted ▸ hnone), h.bare⟩

end IterationState

namespace Transforms

variable {set : Transforms} {supplies : Supplies} {shuffle : Bool} {bench : Workbench}
  {history : List Event}

/-- The cursor shows the `elements` with which `transform` is started. Where the strategy has no
list there are none. -/
theorem elements_cursor_of_materialised {op : Operation} {transform : IterativeTransform}
    {elements : List String} (hfind : set.iterative.find? op.transform = some transform)
    (h : set.materialised? supplies shuffle bench (.init op) = some elements) :
    (transform.strategy.cursor elements).elements = elements ∧
      (transform.strategy.isListBased = false → elements = []) := by
  simp only [materialised?, hfind, Option.bind_eq_bind, Option.bind_some,
    Option.bind_eq_some_iff, Option.pure_def, Option.some.injEq] at h
  obtain ⟨gathered, hgathered, harranged⟩ := h
  -- only a strategy with a list gathers elements
  have hbare : transform.strategy.isListBased = false → elements = [] := by
    intro hlist
    rw [← harranged, IterativeTransform.arrange, hlist, Bool.and_false, if_neg Bool.false_ne_true]
    unfold Strategy.isListBased at hlist
    split at hlist
    · rename_i hstrategy
      rw [hstrategy] at hgathered
      exact (Option.some.inj hgathered).symm
    · rename_i hstrategy
      rw [hstrategy] at hgathered
      exact (Option.some.inj hgathered).symm
    all_goals cases hlist
  refine ⟨?_, hbare⟩
  unfold Strategy.cursor
  split
  · rename_i hstrategy
    exact (hbare (by rw [hstrategy]; rfl)).symm
  · rename_i hstrategy
    exact (hbare (by rw [hstrategy]; rfl)).symm
  all_goals rfl

/-- A `request` leaves the journal with its own calls behind, `seen`, and they are what is
recorded. -/
theorem record_eq {request : Driver.Request} {call : Call} {left : Workbench}
    {seen : List StepCall}
    (hserve : (set.driver supplies shuffle).serve bench request = (call, left))
    (hcalls : left.calls = bench.calls ++ seen) :
    set.record supplies shuffle bench request =
      ⟨request, set.materialised? supplies shuffle bench request, call, seen⟩ := by
  rw [record, hserve, hcalls, List.drop_left]

variable {op : Operation} {transform : IterativeTransform} {state : IterationState}

/-- The one `call` of a step function that a `request` makes leaves the variables that are told
next. -/
theorem varsLeft_concat_singleton {name : String} {request : Driver.Request}
    {elements : Option (List String)} {served : Call} {call : StepCall}
    (hname : call.transform = name) :
    varsLeft name (history ++ [⟨request, elements, served, [call]⟩]) = call.after.vars := by
  simp [varsLeft, Event.callsOf_concat, hname]

/-- A `transform` that is started sees what `history` tells of it, and its state is told again. -/
theorem told_startFrom {elements : List String} (h : state.Told set op.transform history)
    (hfind : set.iterative.find? op.transform = some transform)
    (hsome : set.materialised? supplies shuffle bench (.init op) = some elements) :
    let reaction := transform.startFrom op elements state
    let event : Event :=
      ⟨.init op, some elements, .init op.transform reaction.answer, reaction.seen⟩
    (∀ call ∈ reaction.seen, call.AsTold set history event) ∧
      reaction.state.Told set op.transform (history ++ [event]) := by
  intro reaction event
  obtain ⟨helements, hbare⟩ := elements_cursor_of_materialised hfind hsome
  have hstart : event.startOf? op.transform = some elements := if_pos rfl
  have hstarted : startedWith? op.transform (history ++ [event]) = some elements := by
    rw [Event.startedWith?_concat, hstart, Option.some_or]
  constructor
  · intro call hcall
    rw [List.mem_singleton.1 hcall]
    refine ⟨rfl, ⟨transform, hfind, rfl, fun hlist => ?_⟩, ⟨fun _ => ⟨op, rfl⟩, fun _ => rfl⟩, rfl,
      rfl, hstarted.trans (congrArg some helements.symm), h.vars⟩
    exact helements.trans (hbare hlist)
  · refine ⟨(varsLeft_concat_singleton rfl).symm, fun shown hshown => ?_, fun hnone => ?_, ?_⟩
    · -- the count of values begins again
      rw [hstarted, Option.some.injEq] at hshown
      subst hshown
      refine ⟨helements, ?_⟩
      rw [Event.given_concat, hstart]
      rfl
    · rw [hstarted] at hnone
      cases hnone
    · intro other hother hlist
      rw [hfind] at hother
      cases hother
      exact helements.trans (hbare hlist)

/-- A `transform` that has shown all its elements answers without a call, and nothing new is
told. -/
theorem told_advanceFrom_of_next?_eq_none (transform : IterativeTransform)
    (h : state.Told set op.transform history) (hnext : state.cursor.next? op.literal = none) :
    let reaction := transform.advanceFrom op state
    let event : Event :=
      ⟨.advance op, none, .advance op.transform reaction.answer, reaction.seen⟩
    reaction.seen = [] ∧ reaction.state.Told set op.transform (history ++ [event]) := by
  intro reaction event
  have hstart : event.startOf? op.transform = none := if_pos rfl
  have hreaction : reaction = ⟨.ok .exhausted, state.resume op.literal, []⟩ := by
    simp [reaction, IterativeTransform.advanceFrom, IterationState.resume, hnext]
  have hresumed : (state.resume op.literal).Told set op.transform history :=
    ⟨h.vars, h.started, h.idle, h.bare⟩
  simp only [event, hreaction] at hstart ⊢
  exact ⟨trivial, hresumed.concat_of_silent rfl hstart rfl⟩

/-- A `transform` with an `element` left calls its step function once. Whatever this answers, only
the count of values depends on it. -/
theorem advanceFrom_of_next? (transform : IterativeTransform) {element : String} {cursor : Cursor}
    (hnext : state.cursor.next? op.literal = some (element, cursor)) :
    let reaction := transform.advanceFrom op state
    let event : Event :=
      ⟨.advance op, none, .advance op.transform reaction.answer, reaction.seen⟩
    let call := transform.call op element { state.resume op.literal with cursor }
    reaction.seen = [call] ∧ reaction.state.memory = call.after ∧ reaction.state.cursor = cursor ∧
      reaction.state.iteration =
        state.iteration + if event.gives op.transform then 1 else 0 := by
  intro reaction event call
  have hmoved : (state.resume op.literal).cursor.next? op.literal = some (element, cursor) := hnext
  simp only [event, reaction, IterativeTransform.advanceFrom, hmoved]
  split
  · refine ⟨rfl, rfl, rfl, ?_⟩
    simp [Event.gives, Event.transform, Driver.Request.transform, Driver.Request.operation,
      IterationState.recordValue, IterationState.resume]
  · exact ⟨rfl, rfl, rfl, rfl⟩
  · exact ⟨rfl, rfl, rfl, rfl⟩

/-- A `transform` with an `element` left sees what `history` tells of it, and its state is told
again. -/
theorem told_advanceFrom_of_next? (h : state.Told set op.transform history)
    (hfind : set.iterative.find? op.transform = some transform) {element : String}
    {cursor : Cursor} (hnext : state.cursor.next? op.literal = some (element, cursor)) :
    let reaction := transform.advanceFrom op state
    let event : Event :=
      ⟨.advance op, none, .advance op.transform reaction.answer, reaction.seen⟩
    (∀ call ∈ reaction.seen, call.AsTold set history event) ∧
      reaction.state.Told set op.transform (history ++ [event]) := by
  intro reaction event
  obtain ⟨hseen, hmemory, hplace, hgiven⟩ := advanceFrom_of_next? transform hnext
  have hstart : event.startOf? op.transform = none := if_pos rfl
  -- a transform that was never started has no next element
  obtain ⟨elements, hstarted⟩ : ∃ elements, startedWith? op.transform history = some elements := by
    by_contra hnone
    have hidle := h.idle (Option.eq_none_iff_forall_ne_some.2 fun elements heq =>
      hnone ⟨elements, heq⟩)
    rw [hidle] at hnext
    cases hnext
  obtain ⟨helements, hcount⟩ := h.started elements hstarted
  have hkept : cursor.elements = state.cursor.elements := Cursor.elements_of_next? hnext
  have hstarted' : startedWith? op.transform (history ++ [event]) = some elements := by
    rw [Event.startedWith?_concat, hstart, Option.none_or, hstarted]
  have hbare : transform.strategy.isListBased = false → cursor.elements = [] :=
    fun hlist => hkept.trans (h.bare transform hfind hlist)
  constructor
  · intro call hcall
    rw [hseen, List.mem_singleton] at hcall
    subst hcall
    exact ⟨rfl, ⟨transform, hfind, rfl, hbare⟩, ⟨nofun, nofun⟩, hcount, rfl,
      hstarted'.trans (congrArg some (hkept.trans helements).symm), h.vars⟩
  · refine ⟨?_, fun shown hshown => ?_, fun hnone => ?_, fun other hother hlist => ?_⟩
    · rw [hmemory]
      simp only [event, reaction, hseen]
      exact (varsLeft_concat_singleton rfl).symm
    · rw [hstarted', Option.some.injEq] at hshown
      subst hshown
      refine ⟨(congrArg Cursor.elements hplace).trans (hkept.trans helements), ?_⟩
      rw [hgiven, hcount, Event.given_concat, hstart]
      rfl
    · rw [hstarted'] at hnone
      cases hnone
    · rw [hfind] at hother
      cases hother
      rw [hplace]
      exact hbare hlist

/-- A `transform` that is asked for a value sees what `history` tells of it, and its state is told
again. -/
theorem told_advanceFrom (h : state.Told set op.transform history)
    (hfind : set.iterative.find? op.transform = some transform) :
    let reaction := transform.advanceFrom op state
    let event : Event :=
      ⟨.advance op, none, .advance op.transform reaction.answer, reaction.seen⟩
    (∀ call ∈ reaction.seen, call.AsTold set history event) ∧
      reaction.state.Told set op.transform (history ++ [event]) := by
  intro reaction event
  cases hnext : state.cursor.next? op.literal with
  | none =>
    obtain ⟨hseen, htold⟩ := told_advanceFrom_of_next?_eq_none transform h hnext
    refine ⟨fun call hcall => ?_, htold⟩
    rw [hseen] at hcall
    cases hcall
  | some next => exact told_advanceFrom_of_next? h hfind hnext

/-- The states of all transforms in `bench` are what `history` tells. -/
def Told (set : Transforms) (history : List Event) (bench : Workbench) : Prop :=
  ∀ name, (bench.states.state name).Told set name history

/-- An `event` that has reached the transform of `op` tells nothing new of the others. -/
theorem Told.insert (h : set.Told history bench) {event : Event}
    (hseen : ∀ call ∈ event.seen, call.AsTold set history event)
    (hstate : state.Told set op.transform (history ++ [event]))
    (hname : event.transform = op.transform) (generator : Generator) (requests : Nat)
    (calls : List StepCall) :
    set.Told (history ++ [event])
      ⟨bench.states.insert op.transform state, generator, requests, calls⟩ := by
  rw [← hname] at hstate ⊢
  intro name
  simp only [StateStore.state_insert]
  split
  · rename_i heq
    rw [← heq]
    exact hstate
  · -- the calls, the start and the value are those of another transform
    rename_i hne
    refine (h name).concat_of_silent ?_ (if_neg hne) ?_
    · rw [List.filter_eq_nil_iff]
      intro call hcall
      rw [(hseen call hcall).transform]
      simpa using hne
    · unfold Event.gives
      split
      · exact decide_eq_false hne
      · rfl

/-- What `request` preserves: its calls see what `history` tells, and with the `event` of the
request the states are told again. -/
theorem told_serve (h : set.Told history bench) (supplies : Supplies) (shuffle : Bool)
    (request : Driver.Request) :
    let event := set.record supplies shuffle bench request
    let left := ((set.driver supplies shuffle).serve bench request).2
    (∀ call ∈ event.seen, call.AsTold set history event) ∧
      left.calls = bench.calls ++ event.seen ∧ set.Told (history ++ [event]) left := by
  have heffect := set.effect_serve supplies shuffle bench request
  generalize hserve : (set.driver supplies shuffle).serve bench request = served at heffect
  cases heffect with
  | @refused _ call error requests hcall hnone =>
    rw [record_eq hserve (List.append_nil _).symm, hnone]
    refine ⟨nofun, by simp, fun name => ?_⟩
    refine (h name).concat_of_silent rfl (ite_self none) ?_
    -- what is refused gives no value
    unfold Event.gives
    split
    · rename_i hserved
      rw [show call = _ from hserved] at hcall
      cases hcall
    · rfl
  | started elements generator requests hfind hsome hreaction =>
    subst hreaction
    rw [record_eq hserve rfl, hsome]
    obtain ⟨hseen, hstate⟩ := told_startFrom (h _) hfind hsome
    exact ⟨hseen, rfl, h.insert hseen hstate rfl _ _ _⟩
  | advanced hfind hreaction =>
    subst hreaction
    rw [record_eq hserve rfl]
    obtain ⟨hseen, hstate⟩ := told_advanceFrom (h _) hfind
    exact ⟨hseen, rfl, h.insert hseen hstate rfl _ _ _⟩

end Transforms

/-- A request of a run: it is about an operation of the template, it calls a step function once at
most, and the call sees what the history before it tells. -/
structure Event.Sound (set : Transforms) (known : List Operation) (earlier : List Event)
    (event : Event) : Prop where
  /-- The operation is one of the template, but for the value that it holds. -/
  operation : event.request.operation.asRead ∈ known.map Operation.asRead
  /-- No more than one call is made. -/
  once : event.seen.length ≤ 1
  /-- The call sees what is told. -/
  seen : ∀ call ∈ event.seen, call.AsTold set earlier event

/-! ### Steps -/

namespace Transforms

variable {set : Transforms} {known : List Operation} {past : List Event}
  {s : Workbench × List Event}

/-- A `request` calls a step function once at most. -/
theorem length_seen_record_le (set : Transforms) (supplies : Supplies) (shuffle : Bool)
    (bench : Workbench) (request : Driver.Request) :
    (set.record supplies shuffle bench request).seen.length ≤ 1 := by
  have heffect := set.effect_serve supplies shuffle bench request
  generalize hserve : (set.driver supplies shuffle).serve bench request = served at heffect
  cases heffect with
  | refused requests hcall hnone =>
    rw [record_eq hserve (List.append_nil _).symm]
    exact Nat.zero_le 1
  | started elements generator requests hfind hsome hreaction =>
    rw [record_eq hserve rfl, ← hreaction]
    exact (IterativeTransform.writes_startFrom _ _ _ _).length_seen_le
  | advanced hfind hreaction =>
    rw [record_eq hserve rfl, ← hreaction]
    exact (IterativeTransform.writes_advanceFrom _ _ _).length_seen_le

/-- What is recorded in the course of a step goes on with a history of sound requests, tells the
states, and has the calls that are noted. -/
structure Recorded (set : Transforms) (known : List Operation) (past : List Event)
    (s : Workbench × List Event) : Prop where
  /-- The states are told. -/
  told : set.Told (past ++ s.2) s.1
  /-- The journal has the calls of the requests. -/
  calls : s.1.calls = s.2.flatMap Event.seen
  /-- All requests are sound. -/
  sound : ∀ earlier event, earlier ++ [event] <+: past ++ s.2 → event.Sound set known earlier

/-- What `request` preserves: it is sound, and what it leaves is recorded with its own record behind
the others. -/
theorem Recorded.serve (h : set.Recorded known past s) (supplies : Supplies) (shuffle : Bool)
    (request : Driver.Request)
    (hknown : request.operation.asRead ∈ known.map Operation.asRead) :
    set.Recorded known past (((set.driver supplies shuffle).serve s.1 request).2,
      s.2 ++ [set.record supplies shuffle s.1 request]) := by
  obtain ⟨hseen, hcalls, htold⟩ := told_serve h.told supplies shuffle request
  refine ⟨?_, ?_, fun earlier event hprefix => ?_⟩
  · rwa [← List.append_assoc]
  · rw [List.flatMap_append, List.flatMap_singleton, ← h.calls]
    exact hcalls
  · rw [← List.append_assoc, List.prefix_concat_iff] at hprefix
    rcases hprefix with hlast | hbefore
    · -- the last request is the one that was just made
      obtain ⟨rfl, hevent⟩ := List.append_inj' hlast rfl
      rw [List.singleton_inj.1 hevent]
      exact ⟨hknown, length_seen_record_le _ _ _ _ _, hseen⟩
    · exact h.sound earlier event hbefore

/-- What a step of `sequence` preserves, whatever requests it makes. -/
theorem recorded_step (h : set.Recorded known past s) (supplies : Supplies) (shuffle : Bool)
    (sequence : Sequence) {operations : List Operation}
    (hknown : operations.map Operation.asRead = known.map Operation.asRead) :
    set.Recorded known past
      (sequence.step (set.recorder supplies shuffle) operations s).state := by
  refine sequence.step_preserves operations (fun op s hop hs => ?_) (fun op s hop hs => ?_) h
  · exact Recorded.serve hs supplies shuffle (.init op) (hknown ▸ hop)
  · exact Recorded.serve hs supplies shuffle (.advance op) (hknown ▸ hop)

end Transforms

/-! ### Runs -/

namespace Engine

variable {engine : Engine}

/-- A step with the `recorder` is the step, with a record beside it. -/
theorem state_recorder_step (engine : Engine) (supplies : Supplies) :
    (engine.sequence.step (engine.transforms.recorder supplies engine.randomize)
      engine.template.operations (engine.bench.withoutCalls, [])).state.1 =
      (engine.stepWith supplies).state := by
  have hbeside := engine.transforms.recorder_abreast supplies engine.randomize
    (engine.template.operations.map Operation.asRead)
  exact (engine.sequence.step_level hbeside (fun op hop => List.mem_map_of_mem hop) rfl).state

/-- A call of `advance` leaves the journal of its step, and the states up to their labels. -/
theorem told_advance {history : List Event} {supplies : Supplies}
    (h : engine.transforms.Told history (engine.stepWith supplies).state) :
    engine.transforms.Told history (engine.advance supplies).2.bench ∧
      (engine.advance supplies).2.calls = (engine.stepWith supplies).state.calls := by
  have hout := engine.outcome_advance supplies
  generalize engine.advance supplies = outcome at hout ⊢
  cases hout with
  | failed hstep => exact ⟨h, rfl⟩
  | ended hstep => exact ⟨h, rfl⟩
  | refused hstep hrender => exact ⟨h, rfl⟩
  | given hstep hrender =>
    refine ⟨fun name => ?_, rfl⟩
    show (StateStore.state (StateStore.dropLabels _) name).Told _ _ _
    rw [StateStore.state_dropLabels]
    exact (h name).dropLabel

/-- What a call of `advance` preserves: it goes on with the history `past`, and what it leaves is
told. -/
theorem recorded_advance {known : List Operation} {past : List Event}
    (hknown : engine.template.operations.map Operation.asRead = known.map Operation.asRead)
    (htold : engine.transforms.Told past engine.bench)
    (hsound : ∀ earlier event, earlier ++ [event] <+: past →
      event.Sound engine.transforms known earlier) (supplies : Supplies) :
    engine.transforms.Told (past ++ engine.events supplies) (engine.advance supplies).2.bench ∧
      (engine.advance supplies).2.calls = (engine.events supplies).flatMap Event.seen ∧
      ∀ earlier event, earlier ++ [event] <+: past ++ engine.events supplies →
        event.Sound engine.transforms known earlier := by
  -- the recorder starts with an empty journal
  have hbegin : engine.transforms.Recorded known past (engine.bench.withoutCalls, []) := by
    refine ⟨?_, rfl, ?_⟩
    · rw [List.append_nil]
      exact htold
    · rw [List.append_nil]
      exact hsound
  obtain ⟨htold', hcalls, hsound'⟩ :=
    Transforms.recorded_step hbegin supplies engine.randomize engine.sequence hknown
  rw [state_recorder_step] at htold' hcalls
  obtain ⟨hleft, hjournal⟩ := told_advance htold'
  exact ⟨hleft, hjournal.trans hcalls, hsound'⟩

/-- What a run preserves: `engine.history supplies` tells what it leaves, and every `event` in it is
sound. -/
theorem recorded_run (hfresh : engine.sequence.phase = .fresh)
    (hcached : ∀ op ∈ engine.template.operations, op.cached = none)
    (hstates : engine.bench.states = .empty) (supplies : List Supplies) :
    engine.transforms.Told (engine.history supplies) (engine.run supplies).bench ∧
      ∀ earlier event, earlier ++ [event] <+: engine.history supplies →
        event.Sound engine.transforms engine.template.operations earlier := by
  induction supplies using List.reverseRecOn with
  | nil =>
    refine ⟨fun name => ?_, fun earlier event hprefix => ?_⟩
    · show (StateStore.state engine.bench.states name).Told _ _ _
      rw [hstates]
      exact IterationState.told_initial _ _
    · simp [history] at hprefix
  | append_singleton before next ih =>
    obtain ⟨htold, hsound⟩ := ih
    -- the operations and the transforms are still those of the start
    have hretains := retains_run hfresh hcached before
    have hknown : (engine.run before).template.operations.map Operation.asRead =
        engine.template.operations.map Operation.asRead :=
      congrArg Template.operations hretains.template
    rw [← hretains.transforms] at htold hsound ⊢
    rw [history_concat, run_concat]
    obtain ⟨htold', -, hsound'⟩ := recorded_advance hknown htold hsound next
    exact ⟨htold', hsound'⟩

/-- In every run of an engine that is built, all that a step function sees can be told from
`engine.history`, the requests before its call. The `calls` that the engine notes are those that the
`events` of the call of `advance` have seen. And each `event` of the history is sound with respect
to the events that are `earlier` (`Event.Sound`): it calls its step function once at most, which is
told that it is started exactly when it is, how many values were given since then, the text of the
region that is driven and the elements of the latest start, and which finds the variables that its
own last call has left. -/
theorem views_run {source : String} {transforms : Transforms} {randomize : Bool}
    {generator : Generator} (hbuild : build source transforms randomize generator = .ok engine)
    (supplies : List Supplies) :
    (∀ next, ((engine.run supplies).advance next).2.calls =
        ((engine.run supplies).events next).flatMap Event.seen) ∧
      ∀ earlier event, earlier ++ [event] <+: engine.history supplies →
        event.Sound transforms engine.template.operations earlier := by
  obtain ⟨hfresh, hcached⟩ := fresh_of_build hbuild
  obtain ⟨rfl, hstates⟩ := transforms_of_build hbuild
  obtain ⟨htold, hsound⟩ := recorded_run hfresh hcached hstates supplies
  refine ⟨fun next => ?_, hsound⟩
  have hretains := retains_run hfresh hcached supplies
  rw [← hretains.transforms] at htold hsound
  exact (recorded_advance (congrArg Template.operations hretains.template) htold hsound next).2.1

/-- A transform that writes down the elements that it is shown, and ends early. -/
def remembering : Transforms where
  iterative := Roster.empty.insert "a" ⟨"a", .list ["1", "2"], fun element _ memory =>
    let noted := ((memory.get? "noted").bind Data.Value.text?).getD ""
    (if element = "2" then .exhausted else .value element,
      memory.set "noted" (.text (noted ++ element ++ ";")))⟩
  persistent := .empty

/-- The second payload is made with the second region. The transform has ended early in the first
one, so it is started again. It counts from 0 again, but it finds what it wrote down. -/
theorem views_run_restarted :
    ∃ engine, build "[+a]x[+end]_[+a]y[+end]" remembering false Document.nestedPool.generator =
        .ok engine ∧
      let events := (engine.run [.nothing]).events .nothing
      ((engine.run [.nothing]).advance .nothing).2.calls = events.flatMap Event.seen ∧
      (events.flatMap Event.seen).map (fun call => (call.element, call.view,
          (call.before.get? "noted").bind Data.Value.text?)) =
        [("2", ⟨false, 1, "x", ["1", "2"]⟩, some "x;1;"),
          ("y", ⟨true, 0, "y", ["1", "2"]⟩, some "x;1;2;"),
          ("1", ⟨false, 0, "y", ["1", "2"]⟩, some "x;1;2;y;")] ∧
      ∀ earlier event, earlier ++ [event] <+: engine.history [.nothing, .nothing] →
        event.Sound remembering engine.template.operations earlier := by
  have hread : (build "[+a]x[+end]_[+a]y[+end]" remembering false
      Document.nestedPool.generator).toOption.map (fun engine =>
        (((engine.run [.nothing]).events .nothing).flatMap Event.seen).map fun call =>
          (call.element, call.view, (call.before.get? "noted").bind Data.Value.text?)) =
      some [("2", ⟨false, 1, "x", ["1", "2"]⟩, some "x;1;"),
        ("y", ⟨true, 0, "y", ["1", "2"]⟩, some "x;1;2;"),
        ("1", ⟨false, 0, "y", ["1", "2"]⟩, some "x;1;2;y;")] := by
    decide +kernel
  obtain ⟨engine, hbuild, hviews⟩ := Except.exists_of_toOption_map hread
  exact ⟨engine, hbuild, (views_run hbuild [.nothing]).1 .nothing, hviews,
    (views_run hbuild [.nothing, .nothing]).2⟩

end Engine

end Stencil
