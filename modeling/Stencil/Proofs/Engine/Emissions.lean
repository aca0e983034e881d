import Stencil.Proofs.Engine.Ending
import Stencil.Proofs.Markup.Distinct
import Stencil.Proofs.Sequence.Combinations
import Stencil.Proofs.Transform.Reading

/-!
# What an engine emits

The transforms of an engine whose step functions are steady deal values, so what is due in a run is
known beforehand. Between two steps an engine drops labels and journals, which is nothing to such
transforms. As long as no persistent transform fails, each call gives a payload of what the step
takes from what is due, until nothing is due any more.

Main definitions:

* `Transforms.Regular`: a name whose transform deals.
* `Transforms.dealing`: the values that the transforms of some names deal.
* `Engine.emissions`: the substitutions of which payloads were made.
* `Engine.Owes`: what is due from an engine.

Main statements:

* `advance_of_owes`: a call takes from what is due.
* `exists_run_of_owes`: what some calls have taken, and what is due after them.
* `answer_of_owes`, `perm_emissions_of_owes`: how long payloads are given, and of what.
* `owes_single`, `owes_lockstep`, `owes_cross`: what is due from an engine that is built.
-/

namespace Stencil

/-- The workbenches `bench` and `bench'` differ in nothing but what step functions keep, the
journals, the generators and the requests for words. -/
def Workbench.Matches (bench bench' : Workbench) : Prop :=
  ∀ name, ∃ memory, bench'.states.state name = { bench.states.state name with memory }

namespace Transforms

variable {set : Transforms} {supplies : Supplies} {shuffle : Bool} {names : List String}

/-- The transform `name` deals: it has a steady step function, its strategy is ready and, if
`shuffle` is set, the values do not depend on their number. -/
def Regular (set : Transforms) (supplies : Supplies) (shuffle : Bool) (name : String) : Prop :=
  ∃ transform, set.iterative.find? name = some transform ∧ transform.step.Steady ∧
    transform.strategy.Ready supplies ∧
    (shuffle = true → transform.step.Uniform)

/-- The elements of the operation `op`. -/
def elements (set : Transforms) (supplies : Supplies) (op : Operation) : List String :=
  match set.iterative.find? op.transform with
  | none => []
  | some transform => transform.strategy.elements supplies op.literal

/-- The values of the operation `op`, in the order of its elements. -/
def values (set : Transforms) (supplies : Supplies) (op : Operation) : List String :=
  match set.iterative.find? op.transform with
  | none => []
  | some transform =>
    transform.valuesFrom op.literal 0 (transform.strategy.elements supplies op.literal)

theorem length_values (set : Transforms) (supplies : Supplies) (op : Operation) :
    (set.values supplies op).length = (set.elements supplies op).length := by
  rw [values, elements]
  split
  · rfl
  · rw [IterativeTransform.valuesFrom, List.length_mapIdx]

/-- The values `texts` are still to be given by the transform of `op`. -/
def Ahead (set : Transforms) (bench : Workbench) (op : Operation) (texts : List String) : Prop :=
  ∃ transform elements, set.iterative.find? op.transform = some transform ∧
    transform.step.Steady ∧
    transform.Due op.literal (bench.states.state op.transform) elements texts

/-- What the transform of `op` has still to give is left as it is by a `request` for another one. -/
theorem Ahead.serve_of_ne {bench : Workbench} {op : Operation} {texts : List String}
    (h : set.Ahead bench op texts) (request : Driver.Request)
    (hne : op.transform ≠ request.transform) :
    set.Ahead ((set.driver supplies shuffle).serve bench request).2 op texts := by
  obtain ⟨transform, elements, hfind, hsteady, hdue⟩ := h
  obtain ⟨hstate, -⟩ := Transforms.serve_of_ne set supplies shuffle bench hne.symm
  rw [← hstate] at hdue
  exact ⟨transform, elements, hfind, hsteady, hdue⟩

/-- The values that the transforms `names` deal. -/
def dealing (h : ∀ name ∈ names, set.Regular supplies shuffle name) :
    Dealing (set.driver supplies shuffle) names where
  values := set.values supplies
  Ahead := set.Ahead
  values_held _ _ := rfl
  ahead_held hahead _ := hahead
  init := by
    intro op hop bench
    obtain ⟨transform, hfind, hsteady, hready, huniform⟩ := h op.transform hop
    obtain ⟨shown, hperm, hsame, hcall, hdue, -⟩ :=
      serve_init shuffle hfind hsteady hready bench
    simp only [Driver.serve, Call.init.injEq, true_and] at hcall hdue
    refine ⟨hcall, _, ?_, transform, shown, hfind, hsteady, hdue⟩
    simp only [values, hfind]
    cases shuffle with
    | false => rw [hsame (.inl rfl)]
    | true => exact IterativeTransform.valuesFrom_perm (huniform rfl) op.literal hperm
  advance := by
    rintro op bench texts ⟨transform, elements, hfind, hsteady, hdue⟩
    obtain ⟨hcall, hleft, -⟩ := serve_advance supplies shuffle hfind hsteady hdue
    simp only [Driver.serve, Call.advance.injEq, true_and] at hcall hleft
    exact ⟨hcall, transform, elements.tail, hfind, hsteady, hleft⟩
  ahead_init {op} _ _ _ hne hahead := hahead.serve_of_ne (.init op) hne
  ahead_advance {op} _ _ _ hne hahead := hahead.serve_of_ne (.advance op) hne

/-- No persistent transform of `set` ever fails. -/
def Unfailing (set : Transforms) : Prop :=
  ∀ name transform, set.persistent.find? name = some transform →
    ∀ count text, ∃ edited, transform.edit count text = .ok edited

/-- What step functions keep, in which `bench` and `bench'` may differ, has no part in what is to
come. -/
theorem same_of_matches (h : ∀ name ∈ names, set.Regular supplies shuffle name)
    {bench bench' : Workbench} (hmatches : bench.Matches bench') :
    (dealing h).Same bench bench' := by
  rintro op texts ⟨transform, elements, hfind, hsteady, hpresents, hvalues⟩
  obtain ⟨memory, hstate⟩ := hmatches op.transform
  refine ⟨transform, elements, hfind, hsteady, ?_, ?_⟩
  · rw [hstate]
    exact hpresents
  · rw [hstate]
    exact hvalues

/-- The account of a run in single mode. -/
def singleAccount (h : ∀ name ∈ names, set.Regular supplies shuffle name) :
    Prospect (set.driver supplies shuffle) (List Substitution) Workbench.Matches :=
  (dealing h).single.mono (same_of_matches h)

/-- The account of a run in lockstep mode. -/
def lockstepAccount (h : ∀ name ∈ names, set.Regular supplies shuffle name) :
    Prospect (set.driver supplies shuffle) Unit Workbench.Matches :=
  (dealing h).lockstep.mono (same_of_matches h)

/-- The account of a run in cross mode. -/
def crossAccount (h : ∀ name ∈ names, set.Regular supplies shuffle name) :
    Prospect (set.driver supplies shuffle) (List Substitution) Workbench.Matches :=
  (dealing h).cross.mono (same_of_matches h)

end Transforms

namespace Engine

/-- The substitutions of which a call of `advance` makes a payload, if it does. -/
def emission? (engine : Engine) (supplies : Supplies) : Option (List Substitution) :=
  match (engine.advance supplies).1, (engine.stepWith supplies).answer with
  | .ok (some _), .ok subs => subs
  | _, _ => none

/-- The engine after some calls of `advance` with the same supplies. -/
def after (engine : Engine) (supplies : Supplies) (calls : Nat) : Engine :=
  engine.run (List.replicate calls supplies)

/-- The substitutions of which as many as `calls` calls have made payloads, in order. -/
def emissions (engine : Engine) (supplies : Supplies) (calls : Nat) : List (List Substitution) :=
  (List.range calls).filterMap fun k => (engine.after supplies k).emission? supplies

theorem after_succ (engine : Engine) (supplies : Supplies) (calls : Nat) :
    engine.after supplies (calls + 1) = ((engine.after supplies calls).advance supplies).2 := by
  rw [after, List.replicate_succ', run_concat, after]

theorem emissions_succ (engine : Engine) (supplies : Supplies) (calls : Nat) :
    engine.emissions supplies (calls + 1) = engine.emissions supplies calls ++
      ((engine.after supplies calls).emission? supplies).toList := by
  rw [emissions, List.range_succ, List.filterMap_append, emissions]
  rfl

/-- No region in `persistent` fails to be filled. -/
def Fills (set : Transforms) (persistent : List PersistentOperation) : Prop :=
  ∀ subs payload uses, ∃ text uses',
    applyPersistent set.application subs persistent payload uses = (.ok text, uses')

theorem exists_runChain {set : Transforms} (hset : set.Unfailing) {chain : List String}
    (hchain : ∀ name ∈ chain, name ∈ set.persistent.names) (text : String) (uses : Roster Nat) :
    ∃ edited uses', runChain set.application chain text uses = (.ok edited, uses') := by
  induction chain generalizing text uses with
  | nil => exact ⟨text, uses, rfl⟩
  | cons name chain ih =>
    obtain ⟨hname, hrest⟩ := List.forall_mem_cons.1 hchain
    obtain ⟨transform, hfind⟩ := Roster.exists_find?_of_mem_names hname
    obtain ⟨edited, hedit⟩ := hset name transform hfind ((uses.find? name).getD 0) text
    -- the use is counted whatever the text is
    have happly : set.application name text uses =
        (.ok edited, uses.insert name ((uses.find? name).getD 0 + 1)) := by
      simp only [Transforms.application, hfind, hedit]
      rfl
    rw [runChain, happly]
    exact ih hrest edited _

/-- The regions of `persistent`, whose transforms are registered, do not fail to be filled, if no
transform of `set` fails. -/
theorem fills_of_unfailing {set : Transforms} (hset : set.Unfailing)
    {persistent : List PersistentOperation}
    (hchains : ∀ op ∈ persistent, ∀ name ∈ op.chain, name ∈ set.persistent.names) :
    Fills set persistent := by
  intro subs payload uses
  induction persistent generalizing payload uses with
  | nil => exact ⟨payload, uses, rfl⟩
  | cons op persistent ih =>
    obtain ⟨hchain, hrest⟩ := List.forall_mem_cons.1 hchains
    obtain ⟨edited, uses', hrun⟩ :=
      exists_runChain hset hchain (String.ofList (substitute subs op.literal.toList)) uses
    rw [applyPersistent, hrun]
    exact ih hrest _ uses'

variable {set : Transforms} {supplies : Supplies} {shuffle : Bool} {V : Type}

/-- What is due from an engine: that of which an account of its run says so, or nothing if it has
ended. -/
structure Owes (prospect : Prospect (set.driver supplies shuffle) V Workbench.Matches)
    (due : List V) (engine : Engine) : Prop where
  /-- The engine has the transforms of the account. -/
  transforms : engine.transforms = set
  /-- It shuffles lists as the account says. -/
  randomize : engine.randomize = shuffle
  /-- No persistent region fails. -/
  fills : Fills set engine.template.persistent
  /-- What is due. -/
  due : (due = [] ∧ engine.isFinished = true) ∨
    prospect.Due due engine.sequence engine.template.operations engine.bench

/-- A step without substitutions makes no payload. -/
theorem advance_of_none {engine : Engine} (h : (engine.stepWith supplies).answer = .ok none) :
    engine.advance supplies = (.ok none, engine.afterStep (engine.stepWith supplies)) := by
  unfold advance
  rw [← stepWith]
  simp only [h]

/-- A step with `subs` makes a payload, if these can be filled in. -/
theorem advance_of_fills {engine : Engine} {subs : List Substitution}
    (h : (engine.stepWith supplies).answer = .ok (some subs))
    (hfills : ∀ payload uses, ∃ text uses', applyPersistent engine.transforms.application subs
      engine.template.persistent payload uses = (.ok text, uses')) :
    ∃ body uses,
      let filled := { engine.afterStep (engine.stepWith supplies) with uses }
      engine.advance supplies = (.ok (some (filled.emit body).1), (filled.emit body).2) := by
  obtain ⟨text, uses, hfilled⟩ :=
    hfills (substitute subs engine.template.text.toList) engine.uses
  have hrender : (engine.afterStep (engine.stepWith supplies)).render subs =
      (.ok (String.ofList text), { engine.afterStep (engine.stepWith supplies) with uses }) := by
    simp only [render, afterStep, hfilled]
    rfl
  refine ⟨String.ofList text, uses, ?_⟩
  unfold advance
  rw [← stepWith]
  simp only [h, hrender]

variable {prospect : Prospect (set.driver supplies shuffle) V Workbench.Matches} {due : List V}
  {engine : Engine}

/-- For what is to come, `bench` is the same without its journal. -/
theorem matches_withoutCalls (bench : Workbench) : bench.Matches bench.withoutCalls :=
  fun _ => ⟨_, rfl⟩

/-- For what is to come, `bench` is the same without labels. -/
theorem matches_dropLabels (bench : Workbench) :
    bench.Matches { bench with states := bench.states.dropLabels } :=
  fun name => ⟨_, bench.states.state_dropLabels name⟩

/-- A call finds nothing `due` and gives nothing, or it takes `subs` from what is due and gives a
`payload` of them. -/
theorem advance_of_owes (h : Owes prospect due engine) :
    (due = [] ∧ (engine.advance supplies).1 = .ok none ∧ engine.emission? supplies = none ∧
        Owes prospect [] (engine.advance supplies).2) ∨
      ∃ subs later payload, (engine.advance supplies).1 = .ok (some payload) ∧
        engine.emission? supplies = some subs ∧ due.Perm (prospect.view subs :: later) ∧
        Owes prospect later (engine.advance supplies).2 := by
  obtain ⟨rfl, rfl, hfills, ⟨rfl, hfinished⟩ | hdue⟩ := h
  · refine .inl ⟨rfl, ?_, ?_, ?_⟩
    · rw [advance_eq_of_isFinished hfinished]
    · rw [emission?, advance_eq_of_isFinished hfinished]
    · rw [advance_eq_of_isFinished hfinished]
      exact ⟨rfl, rfl, hfills, .inl ⟨rfl, hfinished⟩⟩
  · -- the journal is dropped before the step, and the labels are before the next one
    have hdraws := prospect.draws_step (prospect.due_same hdue (matches_withoutCalls engine.bench))
    rw [← stepWith] at hdraws
    rcases hdraws with ⟨rfl, hnone⟩ | ⟨subs, later, hsubs, hperm, hlater⟩
    · have hended : (engine.stepWith supplies).sequence.isFinished = true :=
        Sequence.conclusive_step _ _ _ _ fun subs hsubs => by cases hnone.symm.trans hsubs
      have hadvance := advance_of_none hnone
      refine .inl ⟨rfl, ?_, ?_, ?_⟩
      · rw [hadvance]
      · rw [emission?, hadvance]
      · rw [hadvance]
        exact ⟨rfl, rfl, hfills, .inl ⟨rfl, hended⟩⟩
    · obtain ⟨body, uses, hadvance⟩ := advance_of_fills hsubs (hfills subs)
      refine .inr ⟨subs, later, _, congrArg Prod.fst hadvance, ?_, hperm, ?_⟩
      · rw [emission?, hadvance, hsubs]
      · rw [hadvance]
        exact ⟨rfl, rfl, hfills,
          .inr (prospect.due_same hlater (matches_dropLabels _))⟩

/-- What `calls` calls have taken from what is `due`, and what is due `later`: as long as there is
something, each call has taken something. -/
theorem exists_run_of_owes (h : Owes prospect due engine) (calls : Nat) :
    ∃ later, due.Perm ((engine.emissions supplies calls).map prospect.view ++ later) ∧
      Owes prospect later (engine.after supplies calls) ∧
      (later = [] ∨ (engine.emissions supplies calls).length = calls) := by
  induction calls with
  | zero => exact ⟨due, .rfl, h, .inr rfl⟩
  | succ calls ih =>
    obtain ⟨rest, hperm, howes, hcount⟩ := ih
    rw [emissions_succ, after_succ]
    rcases advance_of_owes howes with
      ⟨rfl, -, hnone, hnext⟩ | ⟨subs, later, payload, -, hsome, htaken, hnext⟩
    · rw [hnone, Option.toList_none, List.append_nil]
      exact ⟨[], hperm, hnext, .inl rfl⟩
    · -- something was due, so every call so far has given a payload
      have hrest : rest ≠ [] := by
        rintro rfl
        exact absurd htaken.symm.eq_nil (List.cons_ne_nil _ _)
      rw [hsome, Option.toList_some]
      refine ⟨later, ?_, hnext, .inr ?_⟩
      · rw [List.map_append, List.append_assoc]
        exact hperm.trans (htaken.append_left _)
      · rw [List.length_append, hcount.resolve_left hrest, List.length_singleton]

/-- Each of `calls` calls has given a payload, or else nothing is `due` any more. -/
theorem length_emissions_of_owes (h : Owes prospect due engine) (calls : Nat) :
    (engine.emissions supplies calls).length = min calls due.length := by
  obtain ⟨later, hperm, -, hcount⟩ := exists_run_of_owes h calls
  have hlength := hperm.length_eq
  rw [List.length_append, List.length_map] at hlength
  -- no call gives more than one payload
  have hle : (engine.emissions supplies calls).length ≤ calls := by
    rw [emissions]
    exact (List.length_filterMap_le _ _).trans_eq List.length_range
  rcases hcount with rfl | hcount
  · rw [List.length_nil] at hlength
    omega
  · omega

/-- After as many calls as there were things `due`, all of them have been taken. -/
theorem perm_emissions_of_owes (h : Owes prospect due engine) {calls : Nat}
    (hcalls : due.length ≤ calls) :
    due.Perm ((engine.emissions supplies calls).map prospect.view) := by
  obtain ⟨later, hperm, -, -⟩ := exists_run_of_owes h calls
  have hlength := hperm.length_eq
  rw [List.length_append, List.length_map, length_emissions_of_owes h,
    Nat.min_eq_right hcalls] at hlength
  have hnil : later = [] := List.eq_nil_of_length_eq_zero (by omega)
  rwa [hnil, List.append_nil] at hperm

/-- The call behind `calls` others gives a `payload` as long as something is `due`, and then
`none`. -/
theorem answer_of_owes (h : Owes prospect due engine) (calls : Nat) :
    if calls < due.length then
      ∃ payload, ((engine.after supplies calls).advance supplies).1 = .ok (some payload)
    else ((engine.after supplies calls).advance supplies).1 = .ok none := by
  obtain ⟨later, hperm, howes, hcount⟩ := exists_run_of_owes h calls
  have hlength := hperm.length_eq
  rw [List.length_append, List.length_map, length_emissions_of_owes h] at hlength
  rcases advance_of_owes howes with
    ⟨rfl, hnone, -⟩ | ⟨subs, rest, payload, hsome, -, htaken, -⟩
  · rw [List.length_nil] at hlength
    rw [if_neg (by omega)]
    exact hnone
  · have htaken := htaken.length_eq
    rw [List.length_cons] at htaken
    rw [if_pos (by omega)]
    exact ⟨payload, hsome⟩

/-! ### Engines that are built -/

section Built

variable {source : String} {generator : Generator}

/-- The template of an `engine` that is built is the one that is read from `source`. -/
theorem exists_parse_of_build (h : build source set shuffle generator = .ok engine) :
    ∃ pool pool', Template.parse source set.templateNames pool = .ok (engine.template, pool') ∧
      engine.sequence = { mode := engine.template.mode } ∧ engine.transforms = set ∧
      engine.randomize = shuffle := by
  obtain ⟨⟨template, pool'⟩, hparse, rfl⟩ := Except.exists_of_map_eq_ok h
  exact ⟨_, pool', hparse, rfl, rfl, rfl⟩

/-- What an `engine` that is built owes is what is `due` at the start of its sequence. -/
theorem owes_of_build (h : build source set shuffle generator = .ok engine)
    (hset : set.Unfailing)
    (hdue : prospect.Due due { mode := engine.template.mode } engine.template.operations
      engine.bench) :
    Owes prospect due engine := by
  obtain ⟨pool, pool', hparse, hsequence, htransforms, hrandomize⟩ := exists_parse_of_build h
  refine ⟨htransforms, hrandomize, ?_, .inr (hsequence ▸ hdue)⟩
  exact fills_of_unfailing hset (Template.registered_of_parse hparse)

/-- In lockstep and cross mode the operations of `engine` have a transform each to themselves. -/
theorem serves_of_build (h : build source set shuffle generator = .ok engine)
    (hmode : engine.template.mode = .lockstep ∨ engine.template.mode = .cross) :
    Listing.Serves (engine.template.operations.map (·.transform)) engine.template.operations := by
  obtain ⟨pool, pool', hparse, -⟩ := exists_parse_of_build h
  exact ⟨fun op hop => List.mem_map_of_mem hop, Template.nodup_transforms_of_parse hparse hmode⟩

section Accounts

variable (h : build source set shuffle generator = .ok engine) (hset : set.Unfailing)
  (hregular : ∀ name ∈ engine.template.operations.map (·.transform),
    set.Regular supplies shuffle name)

include h hset

/-- In single mode all values are due, each while the others show the texts of their regions. -/
theorem owes_single (hmode : engine.template.mode = .single)
    (hne : engine.template.operations ≠ []) :
    Owes (Transforms.singleAccount hregular)
      (Dealing.shows engine.template.operations
        (turnsFrom 0 (engine.template.operations.map (set.values supplies)))) engine := by
  refine owes_of_build h hset ?_
  rw [hmode]
  exact ⟨fun op hop => List.mem_map_of_mem hop, .inl ⟨rfl, hne, rfl⟩⟩

/-- In lockstep mode as many rounds are due as the shortest list of values is long, which is
`rounds`. -/
theorem owes_lockstep (hmode : engine.template.mode = .lockstep)
    (hne : engine.template.operations ≠ []) {rounds : Nat}
    (hrounds : Dealing.Shortest rounds (engine.template.operations.map (set.values supplies))) :
    Owes (Transforms.lockstepAccount hregular) (List.replicate rounds ()) engine := by
  refine owes_of_build h hset ?_
  rw [hmode]
  exact ⟨serves_of_build h (.inl hmode), hne, rounds, rfl, .inl ⟨rfl, hrounds⟩⟩

/-- In cross mode all combinations of values are due. -/
theorem owes_cross (hmode : engine.template.mode = .cross)
    (hne : engine.template.operations ≠ []) :
    Owes (Transforms.crossAccount hregular)
      ((Transforms.dealing hregular).combinations engine.template.operations) engine := by
  refine owes_of_build h hset ?_
  rw [hmode]
  exact ⟨serves_of_build h (.inr hmode), hne, .inl ⟨rfl, (fresh_of_build h).2, rfl⟩⟩

/-- Nothing is due from an engine without operations. -/
theorem owes_nil (hnil : engine.template.operations = []) :
    Owes (Prospect.idle (set.driver supplies shuffle) Workbench.Matches) [] engine :=
  owes_of_build h hset ⟨rfl, hnil⟩

end Accounts

end Built

end Engine

end Stencil
