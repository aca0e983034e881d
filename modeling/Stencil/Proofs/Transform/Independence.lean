import Stencil.Proofs.Sequence.Run
import Stencil.Workbench

/-!
# Transforms do not interfere

What a transform does when it is started or asked for a value depends on its own state alone, and
it changes no other one. This holds as long as lists are not shuffled, because the shuffles of all
transforms draw from one generator, and as long as what elements are gathered from stays the same.
So in any interleaving of requests the answers to those for one transform, its state and what its
step function sees are as if all the other requests had never been made.

Main definitions:

* `Driver.Request`, `Driver.serveAll`: what a driver is asked to do, and what it answers.
* `Reaction`: what a transform does, as it follows from its own state.
* `Transforms.react`, `Transforms.reactAll`: what is done about requests for one transform.
* `Transforms.Alike`: requests that come to the same for a transform.

Main statements:

* `serve_of_ne`: a request for one transform is nothing to another.
* `serve_eq_react`: what is done about a request follows from the state of its transform.
* `requests_apart`: a transform does not notice the requests for others, and a clone does not
  notice those for its source.
-/

namespace Stencil

/-- What a driver is asked to do. -/
inductive Driver.Request where
  /-- To start an operation afresh. -/
  | init (op : Operation)
  /-- To give the next value of an operation. -/
  | advance (op : Operation)

/-- The operation that a request is about. -/
def Driver.Request.operation : Driver.Request → Operation
  | init op | advance op => op

/-- The transform that `request` reaches. -/
def Driver.Request.transform (request : Driver.Request) : String :=
  request.operation.transform

namespace Driver

variable {σ : Type}

/-- Serves a request to `driver`: the call with its answer, and the state that it leaves. -/
def serve (driver : Driver σ) (s : σ) : Request → Call × σ
  | .init op => (.init op.transform (driver.init op s).1, (driver.init op s).2)
  | .advance op => (.advance op.transform (driver.advance op s).1, (driver.advance op s).2)

/-- Serves requests to `driver`, one after the other. -/
def serveAll (driver : Driver σ) : List Request → σ → List Call × σ
  | [], s => ([], s)
  | request :: requests, s =>
    let served := driver.serve s request
    let rest := driver.serveAll requests served.2
    (served.1 :: rest.1, rest.2)

@[simp]
theorem transform_serve (driver : Driver σ) (s : σ) (request : Request) :
    (driver.serve s request).1.transform = request.transform := by
  cases request <;> rfl

end Driver

/-- The calls of the step function of `transform` that `bench` notes. -/
def Workbench.seenBy (transform : String) (bench : Workbench) : List StepCall :=
  bench.calls.filter (·.transform = transform)

section Noted

variable {bench bench' : Workbench} {seen : List StepCall} {transform other : String}

/-- When the calls `seen` are those of one `transform`, the `other` has seen nothing new. -/
theorem Workbench.seenBy_of_ne (hcalls : bench'.calls = bench.calls ++ seen)
    (h : ∀ call ∈ seen, call.transform = transform) (hne : transform ≠ other) :
    bench'.seenBy other = bench.seenBy other := by
  have hforeign : seen.filter (·.transform = other) = [] := by
    rw [List.filter_eq_nil_iff]
    intro call hcall
    simpa [h call hcall] using hne
  rw [seenBy, hcalls, List.filter_append, hforeign, List.append_nil, seenBy]

/-- When the calls `seen` are those of `transform`, it has seen them. -/
theorem Workbench.seenBy_of_eq (hcalls : bench'.calls = bench.calls ++ seen)
    (h : ∀ call ∈ seen, call.transform = transform) :
    bench'.seenBy transform = bench.seenBy transform ++ seen := by
  have hown : seen.filter (·.transform = transform) = seen := by
    simpa [List.filter_eq_self] using h
  rw [seenBy, hcalls, List.filter_append, hown, seenBy]

end Noted

/-! ### What follows from the state of one transform -/

/-- What a transform does when it is reached. -/
structure Reaction (α : Type) where
  /-- Its answer. -/
  answer : Except RunError α
  /-- The state that it leaves of its own. -/
  state : IterationState
  /-- The calls of its step function. -/
  seen : List StepCall

namespace IterativeTransform

/-- Starts `transform` in a `state`, with `elements` that are gathered and arranged. -/
def startFrom (transform : IterativeTransform) (op : Operation) (elements : List String)
    (state : IterationState) : Reaction Unit :=
  let cursor := transform.strategy.cursor elements
  let begun := state.begin op.literal cursor
  let call := transform.call op (cursor.initial op.literal) begun
  { answer :=
      match call.answer with
      | .fatal failure => .error (.stepFailed op.transform failure)
      | .value _ | .exhausted => .ok ()
    state := { begun with memory := call.after }
    seen := [call] }

/-- Asks `transform` in a `state` for its next value. -/
def advanceFrom (transform : IterativeTransform) (op : Operation) (state : IterationState) :
    Reaction Advance :=
  let resumed := state.resume op.literal
  match resumed.cursor.next? op.literal with
  | none => ⟨.ok .exhausted, resumed, []⟩
  | some (element, cursor) =>
    let moved := { resumed with cursor }
    let call := transform.call op element moved
    let left := { moved with memory := call.after }
    match call.answer with
    | .value text => ⟨.ok (.value text), left.recordValue, [call]⟩
    | .exhausted => ⟨.ok .exhausted, left, [call]⟩
    | .fatal failure => ⟨.error (.stepFailed op.transform failure), left, [call]⟩

variable {transform : IterativeTransform} {op : Operation} {supplies : Supplies} {shuffle : Bool}
  {bench : Workbench}

/-- To start `transform` when its `elements` are gathered is to arrange them and to start from
them. -/
theorem start_of_gather {elements : List String}
    (h : transform.strategy.gather op.transform supplies bench.requests = .ok elements) :
    transform.start op supplies shuffle bench =
      let arranged := transform.arrange shuffle elements bench.generator
      let reaction := transform.startFrom op arranged.1 (bench.states.state op.transform)
      (reaction.answer,
        { states := bench.states.insert op.transform reaction.state
          generator := arranged.2
          requests := bench.requests + transform.strategy.requests
          calls := bench.calls ++ reaction.seen }) := by
  unfold start
  rw [h]
  simp only [startFrom, Workbench.putState, Workbench.note]
  split <;> simp_all

/-- If the elements of `transform` cannot be gathered, it is not started. -/
theorem start_of_gather_error {error : RunError}
    (h : transform.strategy.gather op.transform supplies bench.requests = .error error) :
    transform.start op supplies shuffle bench =
      (.error error, { bench with requests := bench.requests + transform.strategy.requests }) := by
  unfold start
  rw [h]

/-- What it means to ask `transform` for its next value. -/
theorem advance_eq :
    transform.advance op bench =
      let reaction := transform.advanceFrom op (bench.states.state op.transform)
      (reaction.answer,
        { bench with
          states := bench.states.insert op.transform reaction.state
          calls := bench.calls ++ reaction.seen }) := by
  unfold advance advanceFrom
  simp only [Workbench.putState, Workbench.note]
  rcases ((bench.states.state op.transform).resume op.literal).cursor.next? op.literal with
    _ | ⟨element, cursor⟩
  · simp
  · -- whatever the step function answers, the call is noted and what it keeps is stored
    simp only
    generalize transform.call op element _ = call
    rcases call with ⟨_, _, _, _, answer, _⟩
    cases answer <;> rfl

/-- What is noted when `transform` is started are calls of its own step function. -/
theorem transform_seen_startFrom (transform : IterativeTransform) (op : Operation)
    (elements : List String) (state : IterationState) :
    ∀ call ∈ (transform.startFrom op elements state).seen, call.transform = op.transform := by
  intro call hcall
  rw [List.mem_singleton.1 hcall]
  rfl

/-- What is noted when `transform` is asked for a value are calls of its own step function. -/
theorem transform_seen_advanceFrom (transform : IterativeTransform) (op : Operation)
    (state : IterationState) :
    ∀ call ∈ (transform.advanceFrom op state).seen, call.transform = op.transform := by
  intro call hcall
  unfold advanceFrom at hcall
  simp only at hcall
  split at hcall
  · cases hcall
  · split at hcall <;> rw [List.mem_singleton.1 hcall] <;> rfl

end IterativeTransform

/-! ### One request -/

/-- What elements are gathered from `supplies` stays the same, however often it is asked. -/
def Supplies.Unchanging (supplies : Supplies) : Prop :=
  ∀ source, supplies.words = some source → ∀ request request', source request = source request'

/-- Elements that are gathered from unchanging `supplies` do not depend on when they are. -/
theorem Strategy.gather_congr {supplies : Supplies} (h : supplies.Unchanging) (strategy : Strategy)
    (transform : String) (request request' : Nat) :
    strategy.gather transform supplies request = strategy.gather transform supplies request' := by
  unfold gather
  split
  · rfl
  · rfl
  · rfl
  · rfl
  · rfl
  · cases hwords : supplies.words with
    | none => rfl
    | some source => simp only [h source hwords request request']

namespace Transforms

/-- What is done about a request in `state`: the call, the state that is left of its transform, and
the calls of the step function. Lists are not shuffled. -/
def react (set : Transforms) (supplies : Supplies) (state : IterationState) :
    Driver.Request → Call × IterationState × List StepCall
  | .init op =>
    match set.iterative.find? op.transform with
    | none =>
      (.init op.transform (.error (.misconfigured op.transform .noIterativeTransform)), state, [])
    | some transform =>
      match transform.strategy.gather op.transform supplies 0 with
      | .error error => (.init op.transform (.error error), state, [])
      | .ok elements =>
        let reaction := transform.startFrom op elements state
        (.init op.transform reaction.answer, reaction.state, reaction.seen)
  | .advance op =>
    match set.iterative.find? op.transform with
    | none =>
      (.advance op.transform (.error (.misconfigured op.transform .noIterativeTransform)), state,
        [])
    | some transform =>
      let reaction := transform.advanceFrom op state
      (.advance op.transform reaction.answer, reaction.state, reaction.seen)

/-- What is done about requests for one transform, from `state` on: the calls, the state that is
left, and the calls of the step function. -/
def reactAll (set : Transforms) (supplies : Supplies) :
    List Driver.Request → IterationState → List Call × IterationState × List StepCall
  | [], state => ([], state, [])
  | request :: requests, state =>
    let reaction := set.react supplies state request
    let rest := set.reactAll supplies requests reaction.2.1
    (reaction.1 :: rest.1, rest.2.1, reaction.2.2 ++ rest.2.2)

/-- The `requests` and the `others` come to the same for `transform`: the calls that reach it with
what they are answered, the state that they leave, and what its step function sees. -/
def Alike (set : Transforms) (supplies : Supplies) (bench : Workbench) (transform : String)
    (requests others : List Driver.Request) : Prop :=
  let served := (set.driver supplies false).serveAll requests bench
  let served' := (set.driver supplies false).serveAll others bench
  served.1.filter (·.transform = transform) = served'.1.filter (·.transform = transform) ∧
    served.2.states.state transform = served'.2.states.state transform ∧
    served.2.seenBy transform = served'.2.seenBy transform

variable {set : Transforms} {supplies : Supplies} {shuffle : Bool} {bench : Workbench}

/-- A `request` that does not reach `other` changes nothing about it: neither its state nor what its
step function has seen. -/
theorem serve_of_ne (set : Transforms) (supplies : Supplies) (shuffle : Bool) (bench : Workbench)
    {request : Driver.Request} {other : String} (hne : request.transform ≠ other) :
    let left := ((set.driver supplies shuffle).serve bench request).2
    left.states.state other = bench.states.state other ∧
      left.seenBy other = bench.seenBy other := by
  cases request with
  | init op =>
    change op.transform ≠ other at hne
    simp only [Driver.serve, driver]
    split
    · exact ⟨rfl, rfl⟩
    · -- only the state of the requested transform is replaced
      rename_i transform _
      cases hgather : transform.strategy.gather op.transform supplies bench.requests with
      | error error =>
        rw [IterativeTransform.start_of_gather_error hgather]
        exact ⟨rfl, rfl⟩
      | ok elements =>
        rw [IterativeTransform.start_of_gather hgather]
        exact ⟨(StateStore.state_insert _ _ _ _).trans (if_neg hne),
          Workbench.seenBy_of_ne rfl (transform.transform_seen_startFrom op _ _) hne⟩
  | advance op =>
    change op.transform ≠ other at hne
    simp only [Driver.serve, driver]
    split
    · exact ⟨rfl, rfl⟩
    · rename_i transform _
      rw [IterativeTransform.advance_eq]
      exact ⟨(StateStore.state_insert _ _ _ _).trans (if_neg hne),
        Workbench.seenBy_of_ne rfl (transform.transform_seen_advanceFrom op _) hne⟩

/-- What is done about `request` follows from the state of its transform. -/
theorem serve_eq_react (set : Transforms) (bench : Workbench) (hsame : supplies.Unchanging)
    (request : Driver.Request) :
    let served := (set.driver supplies false).serve bench request
    let reaction := set.react supplies (bench.states.state request.transform) request
    served.1 = reaction.1 ∧ served.2.states.state request.transform = reaction.2.1 ∧
      served.2.seenBy request.transform = bench.seenBy request.transform ++ reaction.2.2 := by
  cases request with
  | init op =>
    simp only [Driver.serve, driver, react, Driver.Request.transform, Driver.Request.operation]
    cases hfind : set.iterative.find? op.transform with
    | none => simp
    | some transform =>
      simp only
      rw [← transform.strategy.gather_congr hsame op.transform bench.requests 0]
      cases hgather : transform.strategy.gather op.transform supplies bench.requests with
      | error error =>
        rw [IterativeTransform.start_of_gather_error hgather]
        exact ⟨rfl, rfl, (List.append_nil _).symm⟩
      | ok elements =>
        -- without shuffling the elements keep their order, and the generator has no part in it
        rw [IterativeTransform.start_of_gather hgather, IterativeTransform.arrange, Bool.false_and,
          if_neg Bool.false_ne_true]
        exact ⟨rfl, (StateStore.state_insert _ _ _ _).trans (if_pos rfl),
          Workbench.seenBy_of_eq rfl (transform.transform_seen_startFrom op _ _)⟩
  | advance op =>
    simp only [Driver.serve, driver, react, Driver.Request.transform, Driver.Request.operation]
    cases hfind : set.iterative.find? op.transform with
    | none => simp
    | some transform =>
      simp only
      rw [IterativeTransform.advance_eq]
      exact ⟨rfl, (StateStore.state_insert _ _ _ _).trans (if_pos rfl),
        Workbench.seenBy_of_eq rfl (transform.transform_seen_advanceFrom op _)⟩

/-- What is done about those of `requests` that reach `transform` follows from its state. -/
theorem serveAll_eq_reactAll (set : Transforms) (hsame : supplies.Unchanging)
    (transform : String) (requests : List Driver.Request) (bench : Workbench) :
    let served := (set.driver supplies false).serveAll requests bench
    let reaction := set.reactAll supplies (requests.filter (·.transform = transform))
      (bench.states.state transform)
    served.1.filter (·.transform = transform) = reaction.1 ∧
      served.2.states.state transform = reaction.2.1 ∧
      served.2.seenBy transform = bench.seenBy transform ++ reaction.2.2 := by
  induction requests generalizing bench with
  | nil => exact ⟨rfl, rfl, (List.append_nil _).symm⟩
  | cons request requests ih =>
    obtain ⟨hcalls, hstate, hseen⟩ := ih ((set.driver supplies false).serve bench request).2
    by_cases hown : request.transform = transform
    · subst hown
      obtain ⟨hcall, hleft, hnoted⟩ := serve_eq_react set bench hsame request
      rw [hleft] at hcalls hstate hseen
      simp only [Driver.serveAll, List.filter_cons, Driver.transform_serve, decide_true, if_true,
        reactAll]
      refine ⟨?_, hstate, ?_⟩
      · rw [hcalls, hcall]
      · rw [hseen, hnoted, List.append_assoc]
    · -- a request for another transform leaves everything as it is
      obtain ⟨hleft, hnoted⟩ := serve_of_ne set supplies false bench hown
      rw [hleft] at hcalls hstate hseen
      simp only [Driver.serveAll, List.filter_cons, Driver.transform_serve, hown, decide_false,
        Bool.false_eq_true, if_false]
      refine ⟨hcalls, hstate, ?_⟩
      rw [hseen, hnoted]

/-- If those of `requests` and `others` that reach `transform` are the same, they come to the same
for it. -/
theorem alike_of_filter_eq (hsame : supplies.Unchanging) {transform : String}
    {requests others : List Driver.Request}
    (h : requests.filter (·.transform = transform) = others.filter (·.transform = transform)) :
    set.Alike supplies bench transform requests others := by
  obtain ⟨hcalls, hstate, hseen⟩ := serveAll_eq_reactAll set hsame transform requests bench
  obtain ⟨hcalls', hstate', hseen'⟩ := serveAll_eq_reactAll set hsame transform others bench
  rw [← h] at hcalls' hstate' hseen'
  exact ⟨hcalls.trans hcalls'.symm, hstate.trans hstate'.symm, hseen.trans hseen'.symm⟩

/-- If those for `other` are left out of `requests`, the same ones reach `transform`. -/
theorem filter_filter_of_ne {transform other : String} (hne : transform ≠ other)
    (requests : List Driver.Request) :
    (requests.filter (·.transform ≠ other)).filter (·.transform = transform) =
      requests.filter (·.transform = transform) := by
  rw [List.filter_filter]
  apply List.filter_congr
  intro request _
  by_cases hown : request.transform = transform
  · simp [hown, hne]
  · simp [hown]

/-- A clone `name` and its `source` are two transforms, with the same strategy and the same step
function. -/
theorem exists_of_clone {base : Transforms} {source name : String}
    (h : base.clone source name = .ok set) :
    source ≠ name ∧ ∃ original copy : IterativeTransform,
      set.iterative.find? source = some original ∧ set.iterative.find? name = some copy ∧
        copy.strategy = original.strategy ∧ copy.step = original.step := by
  unfold clone at h
  split at h
  · cases h
  · rename_i original horiginal
    obtain ⟨-, -, hfree, rfl⟩ := registerIterative_eq_ok_iff.1 h
    -- the name of a copy is free, and that of its source is not
    have hne : source ≠ name := by
      rintro rfl
      simp [Roster.contains, horiginal] at hfree
    refine ⟨hne, original, ⟨name, original.strategy, original.step⟩, ?_, ?_, rfl, rfl⟩
    · rw [Roster.find?_insert, if_neg hne.symm, horiginal]
    · rw [Roster.find?_insert_self]

/-- Transforms do not interfere. As long as lists are not shuffled and `supplies` are unchanging, a
`transform` is answered, left and shown what it would be without all those of the `requests` that
are for other transforms (`Transforms.Alike`). So if `name` is cloned from `source`, the clone never
notices what is done with its source, nor the source what is done with its clone, although they
share a strategy and a step function. -/
theorem requests_apart (hsame : supplies.Unchanging) (requests : List Driver.Request)
    (bench : Workbench) :
    (∀ transform, set.Alike supplies bench transform requests
        (requests.filter (·.transform = transform))) ∧
      ∀ (base : Transforms) (source name : String), base.clone source name = .ok set →
        (∃ original copy : IterativeTransform, set.iterative.find? source = some original ∧
          set.iterative.find? name = some copy ∧ copy.strategy = original.strategy ∧
          copy.step = original.step) ∧
        set.Alike supplies bench source requests (requests.filter (·.transform ≠ name)) ∧
        set.Alike supplies bench name requests (requests.filter (·.transform ≠ source)) := by
  refine ⟨fun transform => alike_of_filter_eq hsame ?_, fun base source name hclone => ?_⟩
  · simp only [List.filter_filter, Bool.and_self]
  · obtain ⟨hne, hshared⟩ := exists_of_clone hclone
    exact ⟨hshared, alike_of_filter_eq hsame (filter_filter_of_ne hne requests).symm,
      alike_of_filter_eq hsame (filter_filter_of_ne hne.symm requests).symm⟩

/-- A source and its clone that remember whether they were started before: the source was, again
and again, and the clone sees none of it. -/
theorem requests_apart_clone :
    let remember : StepFunction := fun element view memory =>
      (.value element, if view.init then memory.set "started" .null else memory)
    let base : Transforms := ⟨Roster.empty.insert "a" ⟨"a", .list ["x", "y"], remember⟩, .empty⟩
    let set : Transforms :=
      { base with iterative := base.iterative.insert "b" ⟨"b", .list ["x", "y"], remember⟩ }
    let supplies : Supplies := { files := ⟨fun _ => .error .notFound⟩ }
    let a : Operation := ⟨"a", "A", "", none⟩
    let b : Operation := ⟨"b", "B", "", none⟩
    let requests : List Driver.Request :=
      [.init a, .advance a, .init b, .init a, .advance a, .advance b, .advance a, .advance b]
    let served := (set.driver supplies false).serveAll requests (.new (.seeded 0))
    supplies.Unchanging ∧ base.clone "a" "b" = .ok set ∧
      (served.2.seenBy "b").map (fun call => (call.element, call.before.contains "started")) =
        [("", false), ("x", true), ("y", true)] := by
  intro remember base set supplies a b requests served
  have hsame : supplies.Unchanging := nofun
  have hclone : base.clone "a" "b" = .ok set := rfl
  obtain ⟨-, -, -, -, hseen⟩ :=
    (requests_apart hsame requests (.new (.seeded 0))).2 base "a" "b" hclone
  refine ⟨hsame, hclone, ?_⟩
  rw [hseen]
  decide +kernel

end Transforms

end Stencil
