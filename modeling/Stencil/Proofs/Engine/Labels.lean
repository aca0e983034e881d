import Stencil.Proofs.Engine.Ending
import Stencil.Proofs.Engine.Output
import Stencil.Proofs.Sequence.Simulation
import Stencil.Proofs.Transform.Requests

/-!
# Labels belong to their step

A step function can set a label for the payload that is being made. It cannot see a label and cannot
take one away. The labels that were set are collected when a payload is made of them, and no label
waits in an engine from which a payload is still to come. So the label of a payload is told by the
calls of step functions in one call of `advance`, those that start a transform among them: of the
transforms that set a label the one with the greatest name counts, and of its labels the last one.

Main definitions:

* `StepFunction.Blind`: a step function that knows no more of labels than how to set one.
* `Transforms.labelSet?`, `Transforms.labelsSet`: the label that a call sets, and those that the
  calls of one step function set.
* `Transforms.Labelled`: each transform waits with the label that it has set last.
* `Engine.Unlabelled`: no label waits, unless the engine has ended.

Main statements:

* `label?_cases`: which label is collected.
* `labelled_serve`, `labelled_step`: what a request and a step preserve.
* `unlabelled_run`: no label waits after any number of calls.
* `label_run`: where the label of a payload comes from.
-/

namespace Stencil

/-! ### Labels that are set -/

/-- The function `step` does not see the label: what it answers and what else it keeps does not
depend on it, and the label stays as it is unless a new one is set. -/
def StepFunction.Blind (step : StepFunction) : Prop :=
  ∀ element view memory,
    let outcome := step element view memory.dropLabel
    step element view memory =
      (outcome.1, { outcome.2 with label := outcome.2.label.or memory.label })

namespace Transforms

variable {set : Transforms}

/-- No step function of `set` sees the label. -/
def Blind (set : Transforms) : Prop :=
  ∀ name transform, set.iterative.find? name = some transform → transform.step.Blind

/-- The label that `call` sets, if it sets one: the one that is there after it when there was none
before. -/
def labelSet? (set : Transforms) (call : StepCall) : Option String :=
  match set.iterative.find? call.transform with
  | none => none
  | some transform => (transform.step call.element call.view call.before.dropLabel).2.label

/-- The labels that the step function of `name` sets in `calls`, in order. -/
def labelsSet (set : Transforms) (name : String) (calls : List StepCall) : List String :=
  (calls.filter (·.transform = name)).filterMap set.labelSet?

theorem labelsSet_append (set : Transforms) (name : String) (calls more : List StepCall) :
    set.labelsSet name (calls ++ more) = set.labelsSet name calls ++ set.labelsSet name more := by
  rw [labelsSet, List.filter_append, List.filterMap_append, labelsSet, labelsSet]

theorem labelsSet_eq_nil_iff {name : String} {calls : List StepCall} :
    set.labelsSet name calls = [] ↔
      ∀ call ∈ calls, call.transform = name → set.labelSet? call = none := by
  simp [labelsSet, List.filterMap_eq_nil_iff]

/-- A `call` of a blind step function leaves the label that it sets, or else the one that was
there. -/
theorem label_after_of_blind {call : StepCall} {transform : IterativeTransform}
    (hblind : transform.step.Blind)
    (hfind : set.iterative.find? call.transform = some transform)
    (hcall : (call.answer, call.after) = transform.step call.element call.view call.before) :
    call.after.label = (set.labelSet? call).or call.before.label := by
  rw [hblind] at hcall
  rw [labelSet?, hfind, (Prod.mk.inj hcall).2]

/-- Each transform waits with the label that it has set last in `bench.calls`, and without one if it
has set none. -/
def Labelled (set : Transforms) (bench : Workbench) : Prop :=
  ∀ name, (bench.states.state name).memory.label = (set.labelsSet name bench.calls).getLast?

/-- If each transform waits with its last label, so it does after a `reaction` of one of them. -/
theorem Labelled.insert {α : Type} {bench : Workbench} (h : set.Labelled bench)
    {op : Operation} {transform : IterativeTransform} (hblind : transform.step.Blind)
    (hfind : set.iterative.find? op.transform = some transform) {reaction : Reaction α}
    (hwrites : reaction.Writes transform op (bench.states.state op.transform))
    (generator : Generator) (requests : Nat) :
    set.Labelled ⟨bench.states.insert op.transform reaction.state, generator, requests,
      bench.calls ++ reaction.seen⟩ := by
  intro name
  simp only
  rw [StateStore.state_insert, labelsSet_append]
  rcases hwrites with ⟨hseen, hmemory⟩ | ⟨call, hseen, hmemory, hname, hbefore, hcall⟩
  · -- nothing was called, and nothing has changed
    rw [hseen]
    show _ = (set.labelsSet name bench.calls ++ []).getLast?
    rw [List.append_nil, ← h name]
    split
    · rename_i heq
      rw [hmemory, heq]
    · rfl
  · rw [hseen]
    split
    · rename_i heq
      have hafter := label_after_of_blind hblind (hname ▸ hfind) hcall
      rw [hmemory, hafter, hbefore, h, heq, List.getLast?_append]
      simp [labelsSet, hname, heq]
    · -- the call was one of another transform
      rename_i hne
      have hforeign : set.labelsSet name [call] = [] := by
        rw [labelsSet_eq_nil_iff]
        intro other hother hname'
        rw [List.mem_singleton.1 hother, hname] at hname'
        exact absurd hname' hne
      rw [hforeign, List.append_nil, h]

/-- What a `request` preserves: each transform waits with its last label. -/
theorem labelled_serve (hblind : set.Blind) (supplies : Supplies) (shuffle : Bool)
    {bench : Workbench} (h : set.Labelled bench) (request : Driver.Request) :
    set.Labelled ((set.driver supplies shuffle).serve bench request).2 := by
  have heffect := set.effect_serve supplies shuffle bench request
  generalize (set.driver supplies shuffle).serve bench request = served at heffect ⊢
  cases heffect with
  | refused requests hcall hnone => exact h
  | started elements generator requests hfind hsome hreaction =>
    subst hreaction
    exact h.insert (hblind _ _ hfind) hfind (IterativeTransform.writes_startFrom _ _ _ _) _ _
  | advanced hfind hreaction =>
    subst hreaction
    exact h.insert (hblind _ _ hfind) hfind (IterativeTransform.writes_advanceFrom _ _ _) _ _

/-- What a step of `sequence` preserves: each transform waits with its last label. -/
theorem labelled_step (hblind : set.Blind) (supplies : Supplies) (shuffle : Bool)
    (sequence : Sequence) (operations : List Operation) {bench : Workbench}
    (h : set.Labelled bench) :
    set.Labelled (sequence.step (set.driver supplies shuffle) operations bench).state :=
  sequence.step_preserves operations
    (fun op _ _ hbench => labelled_serve hblind supplies shuffle hbench (.init op))
    (fun op _ _ hbench => labelled_serve hblind supplies shuffle hbench (.advance op)) h

end Transforms

/-! ### Labels that are collected -/

namespace StateStore

/-- Of the labels in `entries`, whose names ascend, the last one is collected. -/
theorem foldl_label_cases {entries : List (String × IterationState)}
    (h : entries.Pairwise fun a b => a.1 < b.1) :
    let label := entries.foldl (fun label entry => entry.2.memory.label.or label) none
    (label = none ∧ ∀ entry ∈ entries, entry.2.memory.label = none) ∨
      ∃ entry ∈ entries, ∃ text, label = some text ∧ entry.2.memory.label = some text ∧
        ∀ other ∈ entries, other.2.memory.label ≠ none → other.1 ≤ entry.1 := by
  induction entries using List.reverseRecOn with
  | nil => exact .inl ⟨rfl, nofun⟩
  | append_singleton entries last ih =>
    obtain ⟨hentries, -, hlast⟩ := List.pairwise_append.1 h
    simp only [List.foldl_append, List.foldl_cons, List.foldl_nil]
    cases hlabel : last.2.memory.label with
    | some text =>
      -- the last state has the greatest name
      refine .inr ⟨last, by simp, text, rfl, hlabel, fun other hother _ => ?_⟩
      rcases List.mem_append.1 hother with hother | hother
      · exact String.not_lt.1
          (String.lt_asymm (hlast other hother last (List.mem_singleton_self _)))
      · obtain rfl := List.mem_singleton.1 hother
        exact String.le_refl _
    | none =>
      have hskip : ∀ other ∈ entries ++ [last], other.2.memory.label ≠ none → other ∈ entries := by
        intro other hother hsome
        rcases List.mem_append.1 hother with hother | hother
        · exact hother
        · rw [List.mem_singleton.1 hother] at hsome
          exact absurd hlabel hsome
      rw [Option.none_or]
      rcases ih hentries with ⟨hnone, hall⟩ | ⟨entry, hentry, text, htext, hentrytext, hgreatest⟩
      · refine .inl ⟨hnone, fun entry hentry => ?_⟩
        by_contra hsome
        exact hsome (hall entry (hskip entry hentry hsome))
      · exact .inr ⟨entry, List.mem_append_left _ hentry, text, htext, hentrytext,
          fun other hother hsome => hgreatest other (hskip other hother hsome) hsome⟩

/-- No transform waits with a label in `store`, and none is collected, or the one is collected with
which the transform of the greatest `name` waits. -/
theorem label?_cases (store : StateStore) :
    (store.label? = none ∧ ∀ name, (store.state name).memory.label = none) ∨
      ∃ name text, store.label? = some text ∧ (store.state name).memory.label = some text ∧
        ∀ other, (store.state other).memory.label ≠ none → other ≤ name := by
  -- only transforms with an entry of their own can have a label
  have hentry : ∀ name, (store.state name).memory.label ≠ none →
      (name, store.state name) ∈ store.entries := by
    intro name hsome
    rw [← Roster.find?_eq_some_iff]
    rw [state] at hsome ⊢
    cases hfind : store.find? name with
    | none => simp [hfind, IterationState.initial, Memory.empty] at hsome
    | some state => rfl
  rcases foldl_label_cases store.ascending with
    ⟨hnone, hall⟩ | ⟨⟨name, state⟩, hmem, text, htext, hlabel, hgreatest⟩
  · refine .inl ⟨hnone, fun name => ?_⟩
    by_contra hsome
    exact hsome (hall _ (hentry name hsome))
  · refine .inr ⟨name, text, htext, ?_, fun other hsome => hgreatest _ (hentry other hsome) hsome⟩
    rw [StateStore.state, Roster.find?_eq_some_iff.2 hmem]
    exact hlabel

end StateStore

/-! ### Runs -/

namespace Engine

variable {engine : Engine}

/-- No label waits for a payload of `engine`, unless it has ended. -/
def Unlabelled (engine : Engine) : Prop :=
  engine.isFinished = false → ∀ name, (engine.bench.states.state name).memory.label = none

/-- After a call of `advance` no label waits: they were collected for the payload, or no payload
will come. -/
theorem unlabelled_advance (engine : Engine) (supplies : Supplies) :
    (engine.advance supplies).2.Unlabelled := by
  intro hopen name
  -- a sequence that goes on has just given a payload
  have hgiven : ∃ payload, (engine.advance supplies).1 = .ok (some payload) := by
    by_contra hnone
    obtain ⟨hfinished, -, -⟩ :=
      advance_of_no_payload fun payload hpayload => hnone ⟨payload, hpayload⟩
    rw [hfinished] at hopen
    cases hopen
  obtain ⟨payload, hpayload⟩ := hgiven
  have hout := engine.outcome_advance supplies
  generalize engine.advance supplies = outcome at hpayload hout ⊢
  cases hout with
  | failed hstep => cases hpayload
  | ended hstep => cases hpayload
  | refused hstep hrender => cases hpayload
  | given hstep hrender =>
    show (StateStore.state (StateStore.dropLabels _) name).memory.label = none
    rw [StateStore.state_dropLabels]
    rfl

/-- No label waits after any number of calls of `advance`. -/
theorem unlabelled_run (h : engine.Unlabelled) (supplies : List Supplies) :
    (engine.run supplies).Unlabelled := by
  cases supplies using List.reverseRecOn with
  | nil => exact h
  | append_singleton earlier next =>
    rw [run_concat]
    exact unlabelled_advance _ next

/-- In an engine that is built no transform has a state. -/
theorem unlabelled_of_build {source : String} {transforms : Transforms} {randomize : Bool}
    {generator : Generator} (h : build source transforms randomize generator = .ok engine) :
    engine.Unlabelled := by
  obtain ⟨-, hstates⟩ := transforms_of_build h
  intro _ name
  rw [hstates]
  rfl

/-- A `payload` gets the label that is collected after its step. -/
theorem label_of_advance {supplies : Supplies} {payload : Payload}
    (h : (engine.advance supplies).1 = .ok (some payload)) :
    payload.label = StateStore.label? (engine.stepWith supplies).state.states ∧
      (engine.advance supplies).2.calls = (engine.stepWith supplies).state.calls := by
  have hout := engine.outcome_advance supplies
  generalize engine.advance supplies = outcome at h hout ⊢
  cases hout with
  | failed hstep => cases h
  | ended hstep => cases h
  | refused hstep hrender => cases h
  | given hstep hrender =>
    cases h
    exact ⟨rfl, rfl⟩

/-- Let the step functions of `transforms` know no more of labels than how to set one
(`Transforms.Blind`), and let a call of `advance` behind any run give `payload`. Its label follows
from `calls`, the calls of step functions in this call of `advance`, those that start a transform
among them. If none of them sets a label, there is none. Otherwise it is `text`, the last label set
in them by the transform `name`, which is the greatest, in byte order, of those that set one. -/
theorem label_run {source : String} {transforms : Transforms} {randomize : Bool}
    {generator : Generator} (hbuild : build source transforms randomize generator = .ok engine)
    (hblind : transforms.Blind) (supplies : List Supplies) (next : Supplies) (payload : Payload)
    (h : ((engine.run supplies).advance next).1 = .ok (some payload)) :
    let calls := ((engine.run supplies).advance next).2.calls
    (payload.label = none ∧ ∀ call ∈ calls, transforms.labelSet? call = none) ∨
      ∃ name text, payload.label = some text ∧
        (transforms.labelsSet name calls).getLast? = some text ∧
        ∀ call ∈ calls, transforms.labelSet? call ≠ none → call.transform ≤ name := by
  intro calls
  have hopen : (engine.run supplies).isFinished = false := by
    rw [← Bool.not_eq_true]
    intro hfinished
    rw [advance_eq_of_isFinished hfinished] at h
    cases h
  have hwaiting := unlabelled_run (unlabelled_of_build hbuild) supplies hopen
  obtain ⟨hfresh, hcached⟩ := fresh_of_build hbuild
  have hset : (engine.run supplies).transforms = transforms :=
    (retains_run hfresh hcached supplies).transforms.trans (transforms_of_build hbuild).1
  -- at first the journal is empty and no label waits, and the step keeps labels in order
  have hlabelled : transforms.Labelled ((engine.run supplies).stepWith next).state := by
    have hbefore : transforms.Labelled (engine.run supplies).bench.withoutCalls := hwaiting
    rw [stepWith, hset]
    exact Transforms.labelled_step hblind next _ _ _ hbefore
  obtain ⟨hlabel, hcalls⟩ := label_of_advance h
  have hcalls' : calls = ((engine.run supplies).stepWith next).state.calls := hcalls
  rw [hlabel, hcalls']
  generalize ((engine.run supplies).stepWith next).state = bench at hlabelled
  rcases StateStore.label?_cases bench.states with
    ⟨hnone, hall⟩ | ⟨name, text, htext, hname, hgreatest⟩
  · refine .inl ⟨hnone, fun call hcall => ?_⟩
    have hempty : transforms.labelsSet call.transform bench.calls = [] := by
      rw [← List.getLast?_eq_none_iff, ← hlabelled, hall]
    exact Transforms.labelsSet_eq_nil_iff.1 hempty call hcall rfl
  · refine .inr ⟨name, text, htext, (hlabelled name).symm.trans hname, fun call hcall hset => ?_⟩
    apply hgreatest
    rw [hlabelled]
    intro hnone
    rw [List.getLast?_eq_none_iff] at hnone
    exact hset (Transforms.labelsSet_eq_nil_iff.1 hnone call hcall rfl)

/-- A transform that sets a label in every call, also when it is started, and one that sets a label
for one of its elements. -/
def labelling : Transforms where
  iterative := Roster.empty.insert "a" ⟨"a", .list ["1", "2"], fun element _ memory =>
      (.value element, memory.setLabel ("a" ++ element))⟩
    |>.insert "b" ⟨"b", .list ["x", "y"], fun element _ memory =>
      (.value element, if element = "y" then memory.setLabel "by" else memory)⟩
  persistent := .empty

theorem blind_labelling : labelling.Blind := by
  intro name transform hfind
  simp only [labelling, Roster.find?_insert, Roster.find?_empty] at hfind
  split at hfind
  · cases hfind
    intro element view memory
    by_cases hlast : element = "y"
    · simp only [hlast, if_true]
      rfl
    · simp only [hlast, if_false]
      rfl
  · split at hfind
    · cases hfind
      exact fun _ _ _ => rfl
    · cases hfind

/-- The third payload comes with a carry. The first digit is exhausted, started again and asked for
a value, and it sets a label each time; but the second digit sets one too, and its name is
greater. -/
theorem label_run_carry :
    ∃ engine, build "[%a]_[%end][%b]_[%end]" labelling false Document.nestedPool.generator =
        .ok engine ∧
      let calls := ((engine.run [.nothing, .nothing]).advance .nothing).2.calls
      labelling.Blind ∧
      ((engine.run [.nothing, .nothing]).advance .nothing).1 =
        .ok (some ⟨2, some "by", "1y"⟩) ∧
      labelling.labelsSet "a" calls = ["a_", "a1"] ∧
      ∃ name, (labelling.labelsSet name calls).getLast? = some "by" ∧
        ∀ call ∈ calls, labelling.labelSet? call ≠ none → call.transform ≤ name := by
  have hread : (build "[%a]_[%end][%b]_[%end]" labelling false
      Document.nestedPool.generator).toOption.map (fun engine =>
        let third := (engine.run [.nothing, .nothing]).advance .nothing
        (third.1.toOption, labelling.labelsSet "a" third.2.calls)) =
      some (some (some ⟨2, some "by", "1y"⟩), ["a_", "a1"]) := by
    decide +kernel
  obtain ⟨engine, hbuild, hread⟩ := Except.exists_of_toOption_map hread
  simp only [Prod.mk.injEq] at hread
  have hpayload := Except.eq_ok_of_toOption hread.1
  refine ⟨engine, hbuild, blind_labelling, hpayload, hread.2, ?_⟩
  rcases label_run hbuild blind_labelling [.nothing, .nothing] .nothing _ hpayload with
    ⟨hnone, -⟩ | ⟨name, text, htext, hlast, hgreatest⟩
  · cases hnone
  · cases htext
    exact ⟨name, hlast, hgreatest⟩

end Engine

end Stencil
