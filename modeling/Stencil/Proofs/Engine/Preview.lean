import Stencil.Proofs.Engine.Ending
import Stencil.Proofs.Engine.Output

/-!
# Previews in a run

A preview shows every region as it was written. It reads the texts of regions and the aliases, which
no step changes, and it changes nothing but how often persistent transforms were applied. Transforms
that are pure do not look at that. So a preview is the same in every state of a run, whatever the
calls before it have come to, and a run goes on after a preview as it would have done without it.

Main definitions:

* `PersistentTransform.Pure`: a transform that always makes the same of a text.
* `Engine.withUses`: an engine that differs in how often transforms were applied.
* `Engine.Action`, `Engine.actAll`, `Engine.answersAmid`: calls of `advance` with previews among
  them.

Main statements:

* `render_withUses`, `advance_withUses`: how often transforms were applied does not matter.
* `actAll_eq_run`: what actions leave behind is what the calls of `advance` among them leave.
* `preview_run`: previews after any actions, and the answers of the calls between them.
-/

namespace Stencil

/-- What `transform` makes of a text, or how it fails on it, does not depend on how often it was
applied before. -/
def PersistentTransform.Pure (transform : PersistentTransform) : Prop :=
  ∀ count count' text, transform.edit count text = transform.edit count' text

/-! ### Filling regions with pure transforms -/

section Steady

variable {σ : Type} {apply : Application σ}

/-- If the state has no part in what `apply` makes of a text, it has none in what `chain` makes of
it. -/
theorem runChain_steady (h : ∀ name text s s', (apply name text s).1 = (apply name text s').1)
    (chain : List String) (text : String) (s s' : σ) :
    (runChain apply chain text s).1 = (runChain apply chain text s').1 := by
  induction chain generalizing text s s' with
  | nil => rfl
  | cons name chain ih =>
    have hfirst := h name text s s'
    rw [runChain, runChain]
    generalize apply name text s = outcome at hfirst ⊢
    generalize apply name text s' = outcome' at hfirst ⊢
    obtain ⟨answer, t⟩ := outcome
    obtain ⟨answer', t'⟩ := outcome'
    -- the first transform answers the same, and leaves some states or other
    obtain rfl : answer = answer' := hfirst
    cases answer with
    | error error => rfl
    | ok edited => exact ih edited t t'

/-- If the state has no part in what `apply` makes of a text, it has none in what comes of the
regions of `ops`. -/
theorem applyPersistent_steady
    (h : ∀ name text s s', (apply name text s).1 = (apply name text s').1)
    (subs : List Substitution) (ops : List PersistentOperation) (payload : List Char) (s s' : σ) :
    (applyPersistent apply subs ops payload s).1 =
      (applyPersistent apply subs ops payload s').1 := by
  induction ops generalizing payload s s' with
  | nil => rfl
  | cons op ops ih =>
    have hfirst :=
      runChain_steady h op.chain (String.ofList (substitute subs op.literal.toList)) s s'
    rw [applyPersistent, applyPersistent]
    generalize runChain apply op.chain _ s = outcome at hfirst ⊢
    generalize runChain apply op.chain _ s' = outcome' at hfirst ⊢
    obtain ⟨answer, t⟩ := outcome
    obtain ⟨answer', t'⟩ := outcome'
    obtain rfl : answer = answer' := hfirst
    cases answer with
    | error error => rfl
    | ok value => exact ih _ t t'

end Steady

/-- All persistent transforms of `set` are pure. -/
def Transforms.AllPure (set : Transforms) : Prop :=
  ∀ name transform, set.persistent.find? name = some transform → transform.Pure

/-- What the pure transform `name` answers does not depend on how often it was applied. -/
theorem Transforms.AllPure.application {set : Transforms} (h : set.AllPure) (name text : String)
    (uses uses' : Roster Nat) :
    (set.application name text uses).1 = (set.application name text uses').1 := by
  unfold Transforms.application
  split
  · rfl
  · rename_i transform hfind
    simp only [h name transform hfind _ ((uses'.find? name).getD 0)]

namespace Engine

/-- The `engine`, as if its transforms had been applied as often as `uses` says. -/
def withUses (engine : Engine) (uses : Roster Nat) : Engine :=
  { engine with uses }

/-- What is asked of an engine. -/
inductive Action where
  /-- The next payload. -/
  | advance (supplies : Supplies)
  /-- The text in which every region is shown as it was written. -/
  | preview

/-- What the call of `advance` is given, if the action is one. -/
def Action.supplies? : Action → Option Supplies
  | advance supplies => some supplies
  | preview => none

/-- The engine after an action. -/
def act (engine : Engine) : Action → Engine
  | .advance supplies => (engine.advance supplies).2
  | .preview => engine.preview.2

/-- The `engine` after `actions`, one after the other. -/
def actAll (engine : Engine) (actions : List Action) : Engine :=
  actions.foldl act engine

/-- What the calls of `advance` answer, with previews in between. -/
def answersAmid (engine : Engine) : List Action → List (Except RunError (Option Payload))
  | [] => []
  | .advance supplies :: later =>
    (engine.advance supplies).1 :: (engine.advance supplies).2.answersAmid later
  | .preview :: later => engine.preview.2.answersAmid later

variable {engine : Engine}

/-! ### What does not matter -/

/-- What is rendered with `subs` does not depend on how often pure transforms were applied. -/
theorem render_withUses (hpure : engine.transforms.AllPure) (uses : Roster Nat)
    (subs : List Substitution) :
    ((engine.withUses uses).render subs).1 = (engine.render subs).1 := by
  have hfilled := applyPersistent_steady hpure.application subs engine.template.persistent
    (substitute subs engine.template.text.toList) uses engine.uses
  exact congrArg (Except.map String.ofList) hfilled

/-- A preview does not depend on how often pure transforms were applied, that is, on `uses`. -/
theorem preview_withUses (hpure : engine.transforms.AllPure) (uses : Roster Nat) :
    (engine.withUses uses).preview.1 = engine.preview.1 :=
  render_withUses hpure uses engine.template.asWritten

/-- A call of `advance` does not depend on how often pure transforms were applied: it answers the
same, and leaves an engine that differs in nothing else. -/
theorem advance_withUses (hpure : engine.transforms.AllPure) (uses : Roster Nat)
    (supplies : Supplies) :
    ∃ uses', (engine.withUses uses).advance supplies =
      ((engine.advance supplies).1, (engine.advance supplies).2.withUses uses') := by
  -- the step of the sequence knows nothing of persistent transforms
  have hstep : (engine.withUses uses).stepWith supplies = engine.stepWith supplies := rfl
  unfold advance
  rw [← stepWith, ← stepWith, hstep]
  generalize engine.stepWith supplies = step
  have hafter : (engine.withUses uses).afterStep step = (engine.afterStep step).withUses uses := rfl
  simp only [hafter]
  have hstepped : (engine.afterStep step).transforms.AllPure := hpure
  generalize engine.afterStep step = stepped at hstepped ⊢
  rcases step.answer with error | _ | subs
  · exact ⟨uses, rfl⟩
  · exact ⟨uses, rfl⟩
  · have hsame := render_withUses hstepped uses subs
    obtain ⟨spent, hspent⟩ := stepped.exists_uses_render subs
    obtain ⟨spent', hspent'⟩ := (stepped.withUses uses).exists_uses_render subs
    simp only
    generalize (stepped.withUses uses).render subs = outcome' at hsame hspent' ⊢
    generalize stepped.render subs = outcome at hsame hspent ⊢
    obtain ⟨answer, rendered⟩ := outcome
    obtain ⟨answer', rendered'⟩ := outcome'
    obtain rfl : answer' = answer := hsame
    obtain rfl : rendered = _ := hspent
    obtain rfl : rendered' = _ := hspent'
    cases answer' with
    | error error => exact ⟨spent', rfl⟩
    | ok body => exact ⟨spent', rfl⟩

/-! ### Whole runs -/

/-- What actions leave behind is what the calls of `advance` among them leave, but for how often
transforms were applied, and these calls answer what they answer by themselves. -/
theorem actAll_eq_run (hpure : engine.transforms.AllPure) (uses : Roster Nat)
    (actions : List Action) :
    (∃ uses', (engine.withUses uses).actAll actions =
        (engine.run (actions.filterMap Action.supplies?)).withUses uses') ∧
      (engine.withUses uses).answersAmid actions =
        engine.answers (actions.filterMap Action.supplies?) := by
  -- the engine is the one of the run, and what differs is carried along in `uses`
  induction actions generalizing engine uses with
  | nil => exact ⟨⟨uses, rfl⟩, rfl⟩
  | cons action later ih =>
    cases action with
    | advance supplies =>
      obtain ⟨spent, hadvance⟩ := advance_withUses hpure uses supplies
      have hleft := congrArg Prod.snd hadvance
      have hkept : (engine.advance supplies).2.transforms.AllPure := by
        rw [(engine.advance_cases supplies).1.transforms]
        exact hpure
      obtain ⟨⟨uses', hafter⟩, hanswers⟩ := ih hkept spent
      refine ⟨⟨uses', ?_⟩, ?_⟩
      · rw [actAll, List.foldl_cons, act, hleft]
        exact hafter
      · rw [answersAmid, hadvance, hanswers]
        rfl
    | preview =>
      obtain ⟨spent, hspent⟩ := (engine.withUses uses).exists_uses_render engine.template.asWritten
      have hleft : (engine.withUses uses).preview.2 = engine.withUses spent := hspent
      obtain ⟨⟨uses', hafter⟩, hanswers⟩ := ih hpure spent
      refine ⟨⟨uses', ?_⟩, ?_⟩
      · rw [actAll, List.foldl_cons, act, hleft]
        exact hafter
      · rw [answersAmid, hleft]
        exact hanswers

/-- If `engine'` retains what `engine` has, its previews with pure transforms are the same. -/
theorem Retains.preview_eq {engine' : Engine} (h : Retains engine engine')
    (hpure : engine.transforms.AllPure) : engine'.preview.1 = engine.preview.1 := by
  have htext := congrArg Template.text h.template
  change engine'.template.text = engine.template.text at htext
  have hfilled := applyPersistent_steady hpure.application engine.template.asWritten
    engine.template.persistent (substitute engine.template.asWritten engine.template.text.toList)
    engine'.uses engine.uses
  rw [preview, preview, render, render, h.asWritten_eq, h.persistent_eq, h.transforms, htext]
  exact congrArg (Except.map String.ofList) hfilled

/-- If the persistent transforms are pure, previews and calls of `advance` do not get in each
other's way. After any `actions`, also when the sequence has ended or a call has failed, `preview`
is what it was at first. The calls of `advance` among the actions answer the same as they do without
the previews between them, and they leave the same engine but for its `uses`. -/
theorem preview_run {source : String} {transforms : Transforms} {randomize : Bool}
    {generator : Generator} (hbuild : build source transforms randomize generator = .ok engine)
    (hpure : transforms.AllPure) (actions : List Action) :
    (engine.actAll actions).preview.1 = engine.preview.1 ∧
    engine.answersAmid actions = engine.answers (actions.filterMap Action.supplies?) ∧
    ∃ uses, engine.actAll actions =
      { engine.run (actions.filterMap Action.supplies?) with uses } := by
  obtain ⟨hfresh, hcached⟩ := fresh_of_build hbuild
  obtain ⟨rfl, -⟩ := transforms_of_build hbuild
  obtain ⟨⟨uses, hafter⟩, hanswers⟩ := actAll_eq_run hpure engine.uses actions
  have hretains := retains_run hfresh hcached (actions.filterMap Action.supplies?)
  refine ⟨?_, hanswers, uses, hafter⟩
  have hafter : engine.actAll actions = _ := hafter
  rw [hafter, preview_withUses (hretains.transforms ▸ hpure)]
  exact hretains.preview_eq hpure

/-- Transforms for two lists, and a pure one that refuses the text `4`. -/
def refusing : Transforms :=
  { Transforms.showing [("a", ["1", "2"]), ("b", ["3", "4"])] with
    persistent := .ofList [("p", ⟨"p", fun _ text =>
      if text = "4" then .error ⟨["refused"]⟩ else .ok (text ++ "!")⟩)] }

theorem allPure_refusing : refusing.AllPure := by
  intro name transform hfind count count' text
  simp only [refusing, Roster.ofList, List.foldl_cons, List.foldl_nil, Roster.find?_insert,
    Roster.find?_empty, Option.ite_none_right_eq_some, Option.some.injEq] at hfind
  obtain ⟨-, rfl⟩ := hfind
  rfl

/-- The third payload is refused, in the middle of a cross product. Previews before the first
payload, between two of them and after the end show the texts of the template. -/
theorem preview_run_refused :
    ∃ engine, build "[%a]x[%end]-[@p][%b]y[%end][@end]" refusing false
        Document.nestedPool.generator = .ok engine ∧
      let actions : List Action := [.preview, .advance .nothing, .preview, .preview,
        .advance .nothing, .advance .nothing, .preview, .advance .nothing]
      (engine.actAll actions).preview.1 = .ok "x-y!" ∧
      engine.answersAmid actions = [.ok (some ⟨0, none, "1-3!"⟩), .ok (some ⟨1, none, "2-3!"⟩),
        .error (.stepFailed "p" ⟨["refused"]⟩), .ok none] := by
  have hread : (build "[%a]x[%end]-[@p][%b]y[%end][@end]" refusing false
      Document.nestedPool.generator).toOption.map (fun engine =>
        decide (engine.preview.1 = .ok "x-y!" ∧
          engine.answers (List.replicate 4 .nothing) = [.ok (some ⟨0, none, "1-3!"⟩),
            .ok (some ⟨1, none, "2-3!"⟩), .error (.stepFailed "p" ⟨["refused"]⟩),
            .ok none])) = some true := by
    decide +kernel
  obtain ⟨engine, hbuild, hread⟩ := Except.exists_of_toOption_map hread
  obtain ⟨hshown, hplain⟩ := of_decide_eq_true hread
  -- without the previews the answers are those of four calls
  obtain ⟨hpreview, hanswers, -⟩ := preview_run hbuild allPure_refusing [.preview,
    .advance .nothing, .preview, .preview, .advance .nothing, .advance .nothing, .preview,
    .advance .nothing]
  exact ⟨engine, hbuild, hpreview.trans hshown, hanswers.trans hplain⟩

end Engine

end Stencil
