import Stencil.Format
import Stencil.Proofs.Sequence.Listing
import Stencil.Proofs.Transform.Elements
import Stencil.Proofs.Transform.Independence

/-!
# Reading out a transform

A step function is steady if it always answers a value, and the value follows from the element,
the text of the region and the number of values given before. A transform with such a step function
reads out the elements of its strategy: each start goes back to their head, each request takes the
next one and is answered with the value made of it, and at their end every request finds the
transform exhausted. Requests for other transforms do not disturb it.

Main definitions:

* `StepFunction.Steady`, `StepFunction.text`: steady step functions, and the values they answer.
* `StepFunction.Uniform`: values that do not depend on how many there were before.
* `IterativeTransform.Due`: the elements and the values that are still to come.
* `Workbench.presentedTo`: the elements that a step function was shown.

Main statements:

* `serve_init`, `serve_advance`: what a request makes of what is to come.
* `serveAll_of_due`: what is read out by many requests, among requests for other transforms.
-/

namespace Stencil

/-! ### Steady step functions -/

namespace StepFunction

/-- The value that `step` answers for `element` and the text of a region, after as many values as
`iteration` says. -/
def text (step : StepFunction) (element literal : String) (iteration : Nat) : String :=
  match (step element ⟨false, iteration, literal, []⟩ .empty).1 with
  | .value text => text
  | .exhausted | .fatal _ => ""

/-- The function `step` always answers a value, which depends on nothing but the element, the text
of the region and the count of values. -/
def Steady (step : StepFunction) : Prop :=
  ∀ element view memory,
    (step element view memory).1 = .value (step.text element view.inner view.iteration)

/-- How many values `step` has answered has no part in what it answers. -/
def Uniform (step : StepFunction) : Prop :=
  ∀ element literal iteration iteration',
    step.text element literal iteration = step.text element literal iteration'

variable {step : StepFunction}

/-- If the answers of `step` follow the rule `value`, it is steady, and this rule tells its
values. -/
theorem steady_of_forall (value : String → String → Nat → String)
    (h : ∀ element view memory,
      (step element view memory).1 = .value (value element view.inner view.iteration)) :
    step.Steady ∧ step.text = value := by
  have htext : step.text = value := by
    funext element literal iteration
    rw [text, h]
  exact ⟨fun element view memory => htext ▸ h element view memory, htext⟩

end StepFunction

namespace Format

/-- The `format` filled in for `element` and the text of a region, after as many values as
`iteration` says. -/
def fill (format element literal : String) (iteration : Nat) : String :=
  render format element ⟨false, iteration, literal, []⟩

/-- Nothing else of `view` has a part in what `format` is filled in with. -/
theorem render_eq_fill (format element : String) (view : StepView) :
    render format element view = fill format element view.inner view.iteration := by
  have hvalue : Placeholder.value element view =
      Placeholder.value element ⟨false, view.iteration, view.inner, []⟩ := by
    funext placeholder
    cases placeholder <;> rfl
  rw [fill, render, render, hvalue]

/-- The step function of `format` is steady, and what it answers is the format filled in. -/
theorem steady_step (format : String) :
    (step format).Steady ∧ (step format).text = fill format :=
  StepFunction.steady_of_forall (fill format) fun element view _ =>
    congrArg StepAnswer.value (render_eq_fill format element view)

end Format

/-! ### What is still to come -/

/-- The elements of those of `calls` that do not start a transform. -/
def shownIn (calls : List StepCall) : List String :=
  (calls.filter fun call => !call.view.init).map (·.element)

/-- The elements that the step function of `transform` was shown when it was asked for values. -/
def Workbench.presentedTo (transform : String) (bench : Workbench) : List String :=
  shownIn (bench.seenBy transform)

theorem shownIn_append (calls more : List StepCall) :
    shownIn (calls ++ more) = shownIn calls ++ shownIn more := by
  simp [shownIn]

namespace IterativeTransform

/-- The values that a transform makes of elements, the first of them after `iteration` values. -/
def valuesFrom (transform : IterativeTransform) (literal : String) (iteration : Nat)
    (elements : List String) : List String :=
  elements.mapIdx fun k element => transform.step.text element literal (iteration + k)

/-- A transform in a state is still to be shown some elements, and to make some values of them. -/
structure Due (transform : IterativeTransform) (literal : String) (state : IterationState)
    (elements values : List String) : Prop where
  /-- The elements are those before its cursor. -/
  presents : state.cursor.Presents literal elements
  /-- The values are made of them. -/
  values_eq : values = transform.valuesFrom literal state.iteration elements

variable {transform : IterativeTransform} {op : Operation} {state : IterationState}
  {elements values : List String}

@[simp]
theorem valuesFrom_nil (literal : String) (iteration : Nat) :
    transform.valuesFrom literal iteration [] = [] := rfl

theorem valuesFrom_cons (literal : String) (iteration : Nat) (element : String)
    (elements : List String) :
    transform.valuesFrom literal iteration (element :: elements) =
      transform.step.text element literal iteration ::
        transform.valuesFrom literal (iteration + 1) elements := by
  simp [valuesFrom, List.mapIdx_cons, Nat.add_assoc, Nat.add_comm 1]

/-- In another order, `elements'`, the same elements give the same values, if these do not depend on
their number. -/
theorem valuesFrom_perm (huniform : transform.step.Uniform) (literal : String)
    {elements' : List String} (hperm : elements.Perm elements') :
    (transform.valuesFrom literal 0 elements).Perm (transform.valuesFrom literal 0 elements') := by
  -- a uniform step function does not see the number of its element
  -- a uniform step function gives the same, whatever the number of its element is
  have hvalues : ∀ elements : List String, transform.valuesFrom literal 0 elements =
      elements.map fun element => transform.step.text element literal 0 := by
    intro elements
    apply List.ext_getElem?
    intro i
    rw [valuesFrom, List.getElem?_mapIdx, List.getElem?_map]
    congr 1
    funext element
    exact huniform element literal _ _
  rw [hvalues, hvalues]
  exact hperm.map _

/-- A `transform` that is started has all elements `shown` by its cursor before it. -/
theorem due_startFrom (hsteady : transform.step.Steady) {gathered shown : List String}
    (hcursor : (transform.strategy.cursor gathered).Presents op.literal shown)
    (state : IterationState) :
    (transform.startFrom op gathered state).answer = .ok () ∧
      transform.Due op.literal (transform.startFrom op gathered state).state shown
        (transform.valuesFrom op.literal 0 shown) ∧
      shownIn (transform.startFrom op gathered state).seen = [] := by
  refine ⟨?_, ⟨hcursor, rfl⟩, rfl⟩
  simp only [startFrom, call, hsteady _ _ _]

/-- A `transform` that is asked for a value takes the first of `elements`, if there is one. -/
theorem due_advanceFrom (hsteady : transform.step.Steady)
    (hdue : transform.Due op.literal state elements values) :
    (transform.advanceFrom op state).answer = .ok (.ofList values) ∧
      transform.Due op.literal (transform.advanceFrom op state).state elements.tail values.tail ∧
      shownIn (transform.advanceFrom op state).seen = elements.take 1 := by
  obtain ⟨hpresents, rfl⟩ := hdue
  -- to resume a state is to leave its cursor and its number of values as they are
  cases elements with
  | nil =>
    have hend : (state.resume op.literal).cursor.next? op.literal = none := hpresents
    simp only [advanceFrom, hend]
    exact ⟨rfl, ⟨hpresents, rfl⟩, rfl⟩
  | cons element elements =>
    obtain ⟨cursor, hnext, hlater⟩ := hpresents
    have hnext : (state.resume op.literal).cursor.next? op.literal = some (element, cursor) := hnext
    simp only [advanceFrom, hnext, call, hsteady _ _ _]
    refine ⟨?_, ⟨hlater, ?_⟩, rfl⟩
    · rw [valuesFrom_cons]
      rfl
    · rw [valuesFrom_cons]
      rfl

end IterativeTransform

namespace Transforms

variable {set : Transforms} {supplies : Supplies} {shuffle : Bool} {bench : Workbench}
  {op : Operation} {transform : IterativeTransform} {elements values : List String}

/-- To start `transform` is to put the elements `shown` before it: in their order, or in another one
if lists are shuffled. -/
theorem serve_init (shuffle : Bool) (hfind : set.iterative.find? op.transform = some transform)
    (hsteady : transform.step.Steady) (hready : transform.strategy.Ready supplies)
    (bench : Workbench) :
    ∃ shown, shown.Perm (transform.strategy.elements supplies op.literal) ∧
      (shuffle = false ∨ transform.strategy.isListBased = false →
        shown = transform.strategy.elements supplies op.literal) ∧
      let served := (set.driver supplies shuffle).serve bench (.init op)
      served.1 = .init op.transform (.ok ()) ∧
        transform.Due op.literal (served.2.states.state op.transform) shown
          (transform.valuesFrom op.literal 0 shown) ∧
        served.2.presentedTo op.transform = bench.presentedTo op.transform := by
  obtain ⟨gathered, hgather, hcursor⟩ := transform.strategy.presents_cursor hready
  -- whatever order the elements are put into, the cursor presents them so
  obtain ⟨shown, hperm, hsame, hpresents⟩ : ∃ shown,
      shown.Perm (transform.strategy.elements supplies op.literal) ∧
      (shuffle = false ∨ transform.strategy.isListBased = false →
        shown = transform.strategy.elements supplies op.literal) ∧
      (transform.strategy.cursor
        (transform.arrange shuffle gathered bench.generator).1).Presents op.literal shown := by
    obtain ⟨hlist, hplain⟩ := hcursor op.literal
      (transform.arrange shuffle gathered bench.generator).1
    cases hbased : transform.strategy.isListBased with
    | false => exact ⟨_, .rfl, fun _ => rfl, hplain hbased⟩
    | true =>
      obtain ⟨hgathered, hshown⟩ := hlist hbased
      refine ⟨_, ?_, ?_, hshown⟩
      · rw [← hgathered, IterativeTransform.arrange]
        split
        · exact Generator.shuffle_perm gathered bench.generator
        · exact .rfl
      · rintro (rfl | hplain)
        · exact hgathered
        · cases hplain
  refine ⟨shown, hperm, hsame, ?_⟩
  obtain ⟨hanswer, hdue, hseen⟩ :=
    IterativeTransform.due_startFrom hsteady hpresents (bench.states.state op.transform)
  simp only [Driver.serve, driver, hfind]
  rw [IterativeTransform.start_of_gather (hgather op.transform bench.requests)]
  simp only [StateStore.state_insert, if_true, hanswer]
  refine ⟨trivial, hdue, ?_⟩
  rw [Workbench.presentedTo, Workbench.seenBy_of_eq rfl (transform.transform_seen_startFrom op _ _),
    shownIn_append, hseen, List.append_nil, Workbench.presentedTo]

/-- To ask `transform` for a value is to take the first of those to come. -/
theorem serve_advance (supplies : Supplies) (shuffle : Bool)
    (hfind : set.iterative.find? op.transform = some transform) (hsteady : transform.step.Steady)
    (hdue : transform.Due op.literal (bench.states.state op.transform) elements values) :
    let served := (set.driver supplies shuffle).serve bench (.advance op)
    served.1 = .advance op.transform (.ok (.ofList values)) ∧
      transform.Due op.literal (served.2.states.state op.transform) elements.tail values.tail ∧
      served.2.presentedTo op.transform = bench.presentedTo op.transform ++ elements.take 1 := by
  obtain ⟨hanswer, hdue', hseen⟩ := IterativeTransform.due_advanceFrom hsteady hdue
  simp only [Driver.serve, driver, hfind]
  rw [IterativeTransform.advance_eq]
  simp only [StateStore.state_insert, if_true, hanswer]
  refine ⟨trivial, hdue', ?_⟩
  rw [Workbench.presentedTo, Workbench.seenBy_of_eq rfl (transform.transform_seen_advanceFrom op _),
    shownIn_append, hseen, Workbench.presentedTo]

/-- What is read out of the transform `name` does not change when requests for others come in
between: each of `requests` for it takes one of the elements that are before it. -/
theorem serveAll_of_due {name literal : String}
    (hfind : set.iterative.find? name = some transform) (hsteady : transform.step.Steady)
    {requests : List Driver.Request}
    (hreads : ∀ request ∈ requests, request.transform = name →
      ∃ op, request = .advance op ∧ op.literal = literal)
    {bench : Workbench} (hdue : transform.Due literal (bench.states.state name) elements values) :
    let served := (set.driver supplies shuffle).serveAll requests bench
    let count := (requests.filter (·.transform = name)).length
    served.1.filter (·.transform = name) =
        (List.range count).map (fun k => .advance name (.ok (.ofList (values.drop k)))) ∧
      served.2.presentedTo name = bench.presentedTo name ++ elements.take count := by
  -- along the requests; the invariant is what is still to come
  induction requests generalizing bench elements values with
  | nil => exact ⟨rfl, by simp [Driver.serveAll]⟩
  | cons request requests ih =>
    obtain ⟨hread, hlater⟩ := List.forall_mem_cons.1 hreads
    by_cases hown : request.transform = name
    · obtain ⟨op, rfl, rfl⟩ := hread hown
      change op.transform = name at hown
      subst hown
      obtain ⟨hcall, hleft, hshown⟩ := serve_advance supplies shuffle hfind hsteady hdue
      obtain ⟨hcalls, hpresented⟩ := ih hlater hleft
      have htransform : (Driver.Request.advance op).transform = op.transform := rfl
      simp only [Driver.serveAll, List.filter_cons, Driver.transform_serve, htransform, decide_true,
        if_true, List.length_cons]
      refine ⟨?_, ?_⟩
      · rw [hcall, hcalls, List.range_succ_eq_map, List.map_cons, List.map_map]
        simp [Function.comp_def]
      · rw [hpresented, hshown, List.append_assoc]
        cases elements <;> simp
    · obtain ⟨hstate, hseen⟩ := serve_of_ne set supplies shuffle bench hown
      rw [← hstate] at hdue
      obtain ⟨hcalls, hpresented⟩ := ih hlater hdue
      simp only [Driver.serveAll, List.filter_cons, Driver.transform_serve, hown, decide_false,
        Bool.false_eq_true, if_false]
      refine ⟨hcalls, ?_⟩
      rw [hpresented, Workbench.presentedTo, hseen, Workbench.presentedTo]

end Transforms

end Stencil
