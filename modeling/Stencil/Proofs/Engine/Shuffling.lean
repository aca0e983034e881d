import Mathlib.Data.List.Perm.Basic
import Stencil.Proofs.Engine.Counting

/-!
# Shuffling only reorders

An engine that shuffles lists puts the elements of each list into a new order whenever it is
started, also in the middle of a run. If the values depend on nothing but the element and the text
of the region, it still makes as many payloads as an engine that does not shuffle, and in single and
in cross mode it makes them of the same substitutions, in another order.

Main statements:

* `exists_presented`: what a transform is shown after a start is a permutation of its elements.
* `exists_placings`: a run in cross mode shows every combination of places once.
* `shuffled_run`: an engine that shuffles next to one that does not.
-/

namespace Stencil

namespace StepFunction

/-- The function `step` always answers a value, which depends on the element and the text of the
region alone, as `value` tells. -/
def Makes (step : StepFunction) (value : String → String → String) : Prop :=
  ∀ element view memory, (step element view memory).1 = .value (value element view.inner)

variable {step : StepFunction} {value : String → String → String}

/-- If `step` makes values, it is steady, and its values do not depend on how many there were
before. -/
theorem Makes.steady (h : step.Makes value) : step.Steady ∧ step.Uniform := by
  obtain ⟨hsteady, htext⟩ := steady_of_forall (fun element literal _ => value element literal) h
  refine ⟨hsteady, fun element literal iteration iteration' => ?_⟩
  rw [htext]

end StepFunction

namespace Transforms

variable {set : Transforms} {supplies : Supplies} {shuffle : Bool}

/-- After a start `transform` is shown its elements in some order, whatever is asked of others in
between. Only lists are put into another order. -/
theorem exists_presented (op : Operation) {transform : IterativeTransform}
    (hfind : set.iterative.find? op.transform = some transform)
    (hsteady : transform.step.Steady) (hready : transform.strategy.Ready supplies)
    (bench : Workbench) :
    ∃ shown, shown.Perm (transform.strategy.elements supplies op.literal) ∧
      (transform.strategy.isListBased = false →
        shown = transform.strategy.elements supplies op.literal) ∧
      ∀ requests, (∀ request ∈ requests, request.transform = op.transform →
          ∃ other, request = .advance other ∧ other.literal = op.literal) →
        ((set.driver supplies shuffle).serveAll (.init op :: requests) bench).2.presentedTo
            op.transform =
          bench.presentedTo op.transform ++
            shown.take (requests.filter (·.transform = op.transform)).length := by
  obtain ⟨shown, hperm, hsame, -, hdue, hpresented⟩ :=
    serve_init shuffle hfind hsteady hready bench
  refine ⟨shown, hperm, fun hbased => hsame (.inr hbased), fun requests hreads => ?_⟩
  obtain ⟨-, hlater⟩ := serveAll_of_due hfind hsteady hreads hdue
  rw [hpresented] at hlater
  exact hlater

end Transforms

namespace Engine

variable {source : String} {set : Transforms} {supplies : Supplies} {shuffle : Bool}
  {generator : Generator} {engine plain : Engine}

/-- Whether lists are shuffled, as for `engine`, or not, as for `plain`, has no part in the
template. -/
theorem template_eq_of_build (h : build source set true generator = .ok engine)
    (hplain : build source set false generator = .ok plain) :
    plain.template = engine.template ∧ plain.transforms = engine.transforms := by
  obtain ⟨read, hparse, rfl⟩ := Except.exists_of_map_eq_ok h
  obtain ⟨read', hparse', rfl⟩ := Except.exists_of_map_eq_ok hplain
  obtain rfl : read = read' := Except.ok.inj (hparse.symm.trans hparse')
  exact ⟨rfl, rfl⟩

section Whole

variable (h : build source set shuffle generator = .ok engine) (hset : set.Unfailing)
  (hregular : ∀ op ∈ engine.template.operations, set.Regular supplies shuffle op.transform)
  {calls : Nat} (hcalls : engine.template.mode.total (engine.sizes supplies) ≤ calls)

/-- An `engine` without operations makes no payload. -/
theorem emissions_nil (h : build source set shuffle generator = .ok engine) (hset : set.Unfailing)
    (hnil : engine.template.operations = []) (supplies : Supplies) (calls : Nat) :
    engine.emissions supplies calls = [] := by
  have howes : Owes (Prospect.idle (set.driver supplies shuffle) Workbench.Matches) [] engine :=
    owes_nil h hset hnil
  have hlength := length_emissions_of_owes howes calls
  rw [List.length_nil, Nat.min_zero] at hlength
  exact List.eq_nil_of_length_eq_zero hlength

include h hset hregular hcalls

/-- A whole run in single mode shows all values, each while the others show the texts of their
regions. -/
theorem perm_emissions_single (hmode : engine.template.mode = .single)
    (hne : engine.template.operations ≠ []) :
    (Dealing.shows engine.template.operations
      (turnsFrom 0 (engine.template.operations.map (set.values supplies)))).Perm
        (engine.emissions supplies calls) := by
  have howes := owes_single h hset (List.forall_mem_map.2 hregular) hmode hne
  rw [← total_single h supplies hmode] at hcalls
  have hperm := perm_emissions_of_owes howes hcalls
  -- the account is kept of whole lists of substitutions
  exact hperm.trans (.of_eq (List.map_id _))

/-- A whole run in cross mode shows the values at all choices of places below
`engine.sizes supplies`. -/
theorem perm_emissions_cross (hmode : engine.template.mode = .cross)
    (hne : engine.template.operations ≠ []) :
    ((Dealing.placings (engine.sizes supplies)).map
      (Dealing.showAt (set.values supplies) engine.template.operations)).Perm
        (engine.emissions supplies calls) := by
  have hnames := List.forall_mem_map.2 hregular
  have howes := owes_cross h hset hnames hmode hne
  rw [← total_cross h hmode hne hnames] at hcalls
  have hperm := perm_emissions_of_owes howes hcalls
  rw [Dealing.combinations_eq_map] at hperm
  rw [sizes_eq_map_length h, List.map_map]
  exact hperm.trans (.of_eq (List.map_id _))

/-- A whole run in cross mode shows each of the `choices` of places once. -/
theorem exists_placings (hmode : engine.template.mode = .cross)
    (hne : engine.template.operations ≠ []) :
    ∃ choices : List (List Nat), choices.Nodup ∧
      (∀ places, places ∈ choices ↔ List.Forall₂ (· < ·) places (engine.sizes supplies)) ∧
      engine.emissions supplies calls = choices.map
        (Dealing.showAt (set.values supplies) engine.template.operations) := by
  have hperm := perm_emissions_cross h hset hregular hcalls hmode hne
  -- the payloads are made of the choices in the order in which they are shown
  obtain ⟨choices, hshown, hchoices⟩ :=
    (congrFun (congrFun (List.eq_map_comp_perm _) _) _).mpr hperm.symm
  refine ⟨choices, hchoices.nodup_iff.2 (Dealing.nodup_placings _), fun places => ?_, hshown⟩
  rw [hchoices.mem_iff, Dealing.mem_placings]

end Whole

/-- Let every step function make a value of the element and the text of the region (`Makes`), let
what elements are gathered from stay the same (`Ready`), and let no persistent transform fail. Then
`engine`, which shuffles lists, differs from `plain`, which does not, in the order of its payloads
only. Whenever the transform of an operation is started, it is presented a permutation `shown` of
its elements, which are in their own order if they are no list. Both engines emit `total` payloads.
In single and in cross mode their emissions are permutations of each other, and in cross mode the
engine that shuffles emits, for each of the `choices` of one place in every list of elements, what
stands at these places, once each. -/
theorem shuffled_run (hbuild : build source set true generator = .ok engine)
    (hplain : build source set false generator = .ok plain)
    (hmakes : ∀ op ∈ engine.template.operations, ∃ transform value,
      set.iterative.find? op.transform = some transform ∧ transform.step.Makes value ∧
        transform.strategy.Ready supplies)
    (hset : set.Unfailing) :
    (∀ op ∈ engine.template.operations, ∀ transform,
      set.iterative.find? op.transform = some transform → ∀ held bench,
        ∃ shown, shown.Perm (transform.strategy.elements supplies op.literal) ∧
          (transform.strategy.isListBased = false →
            shown = transform.strategy.elements supplies op.literal) ∧
          ∀ requests, (∀ request ∈ requests, request.transform = op.transform →
              ∃ other, request = .advance other ∧ other.literal = op.literal) →
            ((set.driver supplies true).serveAll (.init { op with cached := held } :: requests)
                bench).2.presentedTo op.transform =
              bench.presentedTo op.transform ++
                shown.take (requests.filter (·.transform = op.transform)).length) ∧
      let total := engine.template.mode.total (engine.sizes supplies)
      (∀ calls, (engine.after supplies calls).emitted = min calls total ∧
        (plain.after supplies calls).emitted = min calls total) ∧
      ∀ calls, total ≤ calls →
        (engine.template.mode = .single ∨ engine.template.mode = .cross →
          (engine.emissions supplies calls).Perm (plain.emissions supplies calls)) ∧
        (engine.template.mode = .cross → engine.template.operations ≠ [] →
          ∃ choices : List (List Nat), choices.Nodup ∧
            (∀ places, places ∈ choices ↔ List.Forall₂ (· < ·) places (engine.sizes supplies)) ∧
            engine.emissions supplies calls = choices.map
              (Dealing.showAt (set.values supplies) engine.template.operations)) := by
  obtain ⟨htemplate, htransforms⟩ := template_eq_of_build hbuild hplain
  have hregular : ∀ shuffle, ∀ op ∈ engine.template.operations,
      set.Regular supplies shuffle op.transform := by
    intro shuffle op hop
    obtain ⟨transform, value, hfind, hvalue, hready⟩ := hmakes op hop
    exact ⟨transform, hfind, hvalue.steady.1, hready, fun _ => hvalue.steady.2⟩
  have hregular' : ∀ op ∈ plain.template.operations, set.Regular supplies false op.transform :=
    htemplate ▸ hregular false
  have hsizes : plain.sizes supplies = engine.sizes supplies := by
    rw [sizes, htemplate, htransforms, sizes]
  refine ⟨?_, ?_, ?_⟩
  · intro op hop transform hfind held bench
    obtain ⟨found, value, hfound, hvalue, hready⟩ := hmakes op hop
    obtain rfl : found = transform := Option.some.inj (hfound.symm.trans hfind)
    exact Transforms.exists_presented { op with cached := held } hfind hvalue.steady.1 hready bench
  · -- as much is due from both, whatever the order
    intro calls
    obtain ⟨V, prospect, due, howes, hlength⟩ := exists_owes_of_build hbuild hset (hregular true)
    obtain ⟨V', prospect', due', howes', hlength'⟩ :=
      exists_owes_of_build hplain hset hregular'
    rw [htemplate, hsizes] at hlength'
    refine ⟨?_, ?_⟩
    · rw [emitted_of_owes howes, emitted_of_build hbuild, hlength, Nat.zero_add]
    · rw [emitted_of_owes howes', emitted_of_build hplain, hlength', Nat.zero_add]
  · intro calls hcalls
    have hcalls' : plain.template.mode.total (plain.sizes supplies) ≤ calls := by
      rwa [htemplate, hsizes]
    refine ⟨fun hmode => ?_, exists_placings hbuild hset (hregular true) hcalls⟩
    by_cases hne : engine.template.operations = []
    · rw [emissions_nil hbuild hset hne, emissions_nil hplain hset (htemplate ▸ hne)]
    · -- both runs take all of what is due, and this is the same
      have hne' : plain.template.operations ≠ [] := htemplate ▸ hne
      rcases hmode with hmode | hmode
      · have hperm := perm_emissions_single hplain hset hregular' hcalls' (htemplate ▸ hmode) hne'
        rw [htemplate] at hperm
        exact (perm_emissions_single hbuild hset (hregular true) hcalls hmode hne).symm.trans hperm
      · have hperm := perm_emissions_cross hplain hset hregular' hcalls' (htemplate ▸ hmode) hne'
        rw [htemplate, hsizes] at hperm
        exact (perm_emissions_cross hbuild hset (hregular true) hcalls hmode hne).symm.trans hperm

/-- Two lists of two elements: the engine that shuffles shows the four combinations in an order of
its own. -/
theorem shuffled_run_two_by_two :
    let source := "[%a]x[%end][%b]y[%end]"
    let set := Transforms.showing [("a", ["1", "2"]), ("b", ["3", "4"])]
    let generator := Document.nestedPool.generator
    ∃ engine plain, build source set true generator = .ok engine ∧
      build source set false generator = .ok plain ∧
      engine.template.mode = .cross ∧ (engine.after .nothing 4).emitted = 4 ∧
      (engine.emissions .nothing 4).map (·.map (·.value)) ≠
        (plain.emissions .nothing 4).map (·.map (·.value)) ∧
      (engine.emissions .nothing 4).Perm (plain.emissions .nothing 4) := by
  intro source set generator
  have hread : (build source set true generator).toOption.bind (fun engine =>
      (build source set false generator).toOption.map fun plain =>
        decide (engine.template.operations.map (·.transform) = ["a", "b"] ∧
          engine.template.mode = .cross ∧
          engine.template.mode.total (engine.sizes .nothing) = 4 ∧
          (engine.emissions .nothing 4).map (·.map (·.value)) ≠
            (plain.emissions .nothing 4).map (·.map (·.value)))) = some true := by
    decide +kernel
  obtain ⟨engine, hengine, hread⟩ := Option.bind_eq_some_iff.1 hread
  have hbuild := Except.eq_ok_of_toOption hengine
  obtain ⟨plain, hplain, hread⟩ := Except.exists_of_toOption_map hread
  obtain ⟨htransforms, hmode, hfour, hne⟩ := of_decide_eq_true hread
  -- both step functions make the element itself
  have hmakes : ∀ op ∈ engine.template.operations, ∃ transform value,
      set.iterative.find? op.transform = some transform ∧ transform.step.Makes value ∧
        transform.strategy.Ready .nothing := by
    intro op hop
    have hmem : op.transform ∈ ["a", "b"] := htransforms ▸ List.mem_map_of_mem hop
    rcases List.mem_pair.1 hmem with ha | hb
    · rw [ha]
      exact ⟨⟨"a", .list ["1", "2"], _⟩, fun element _ => element, rfl, fun _ _ _ => rfl, trivial⟩
    · rw [hb]
      exact ⟨⟨"b", .list ["3", "4"], _⟩, fun element _ => element, rfl, fun _ _ _ => rfl, trivial⟩
  obtain ⟨-, hcounts, hwhole⟩ := shuffled_run hbuild hplain hmakes nofun
  rw [hfour] at hcounts hwhole
  obtain ⟨hperm, -⟩ := hwhole 4 (Nat.le_refl 4)
  exact ⟨engine, plain, hbuild, hplain, hmode, (hcounts 4).1, hne, hperm (.inr hmode)⟩

end Engine

end Stencil
