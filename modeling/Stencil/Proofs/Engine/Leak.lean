import Stencil.Proofs.Engine.Output
import Stencil.Proofs.Markup.Vanish

/-!
# Aliases in payloads

No alias is left in a payload, or in the view that shows every region as it was written, if no
region of the template lies inside another one of its family, as long as aliases occur nowhere but
where the engine has put them. The condition is needed: names are read in their order, whatever the
nesting, so an inner region may be read first, and then its alias is part of the text of the outer
one. When that text is shown, the turn of the inner alias is over.

Main definitions:

* `Engine.GivesPlain`, `Engine.Apart`, `Engine.RendersApart`: aliases occur nowhere else: not in the
  values that are given, and not by chance when payloads are rendered.

Main statements:

* `freeOf_cached_run`: these values are without aliases.
* `payloads_freeOf_aliases`: so are payloads, and what is shown as written.
-/

namespace Stencil

/-- The aliases of `template` do not depend on the values that its operations hold. -/
@[simp]
theorem Template.aliases_asRead (template : Template) :
    template.asRead.aliases = template.aliases := by
  rw [aliases, aliases, asRead, List.map_map]
  rfl

namespace Engine

variable {engine : Engine}

theorem Retains.aliases_eq {engine' : Engine} (h : Retains engine engine') :
    engine'.template.aliases = engine.template.aliases := by
  rw [← Template.aliases_asRead, h.template, Template.aliases_asRead]

/-- The values that step functions give during the calls with `supplies` are free of aliases. -/
def GivesPlain (engine : Engine) (supplies : List Supplies) : Prop :=
  ∀ earlier next, earlier ++ [next] <+: supplies → ∀ transform text,
    Workbench.Gave transform text ((engine.run earlier).advance next).2.bench →
      FreeOf engine.template.aliases text.toList

theorem GivesPlain.of_prefix {earlier supplies : List Supplies} (h : engine.GivesPlain supplies)
    (hearlier : earlier <+: supplies) : engine.GivesPlain earlier :=
  fun before call hbefore => h before call (hbefore.trans hearlier)

/-- While `engine` renders `subs`, no alias comes about where values meet the text around them or in
what persistent transforms make of a text. -/
def Apart (engine : Engine) (subs : List Substitution) : Prop :=
  AllSeamless engine.template.aliases subs engine.template.text.toList ∧
    SeamlessFill engine.template.aliases engine.transforms.application subs
      engine.template.persistent (substitute subs engine.template.text.toList) engine.uses

instance (engine : Engine) (subs : List Substitution) : Decidable (engine.Apart subs) :=
  inferInstanceAs (Decidable (AllSeamless engine.template.aliases subs engine.template.text.toList ∧
    SeamlessFill engine.template.aliases engine.transforms.application subs
      engine.template.persistent (substitute subs engine.template.text.toList) engine.uses))

/-- What the calls with `supplies` render is rendered `Apart`. -/
def RendersApart (engine : Engine) (supplies : List Supplies) : Prop :=
  ∀ earlier next subs, earlier ++ [next] <+: supplies →
    ((engine.run earlier).stepWith next).answer = .ok (some subs) →
      ((engine.run earlier).afterStep ((engine.run earlier).stepWith next)).Apart subs

/-- The text `body` that is rendered is free of aliases, if `subs` have a value without aliases for
each operation. -/
theorem freeOf_render {subs : List Substitution} {body : String}
    (hne : "" ∉ engine.template.aliases) (hbodies : engine.template.PlainBodies)
    (hshown : (subs.map Substitution.aliasName).Perm
      (engine.template.operations.map Operation.aliasName))
    (hvalues : ∀ sub ∈ subs, FreeOf engine.template.aliases sub.value.toList)
    (hapart : engine.Apart subs) (hrender : (engine.render subs).1 = .ok body) :
    FreeOf engine.template.aliases body.toList := by
  obtain ⟨out, hout, rfl⟩ := Except.exists_of_map_eq_ok hrender
  rw [String.toList_ofList]
  exact Template.freeOf_of_applyPersistent hne hbodies hshown hvalues hapart.1 hapart.2 hout

/-- The values that operations hold after a run are free of aliases. In single mode they may be the
texts of regions, so these have to be without aliases (`PlainLiterals`). -/
theorem freeOf_cached_run (hfresh : engine.sequence.phase = .fresh)
    (hcached : ∀ op ∈ engine.template.operations, op.cached = none) {supplies : List Supplies}
    (hvalues : engine.GivesPlain supplies)
    (hliterals : engine.sequence.mode = .single → engine.template.PlainLiterals) :
    ∀ op ∈ (engine.run supplies).template.operations, ∀ text, op.cached = some text →
      FreeOf engine.template.aliases text.toList := by
  induction supplies using List.reverseRecOn with
  | nil =>
    intro op hop text htext
    have hnone : op.cached = none := hcached op hop
    rw [htext] at hnone
    cases hnone
  | append_singleton earlier next ih =>
    have hheld := ih (hvalues.of_prefix (List.prefix_append _ _))
    have hfaithful := (holds_run hfresh hcached earlier).faithful next
    have hretains := retains_run hfresh hcached earlier
    obtain ⟨hcontinues, -⟩ := (engine.run earlier).advance_cases next
    have hcalls : ((engine.run earlier).advance next).2.bench.calls =
        ((engine.run earlier).stepWith next).state.calls ++ [] := by
      rw [hcontinues.calls, List.append_nil]
    rw [run_concat, hcontinues.template]
    intro op' hop' text htext
    obtain ⟨i, hi⟩ := List.mem_iff_getElem?.1 hop'
    obtain ⟨op, hop, hkept⟩ := hfaithful.keeps.exists_getElem? hi
    -- a value was held before, or was given in the last call, or is the text of a region
    rcases hkept.origin with hsame | ⟨given, hgiven, htold⟩ | ⟨hsingle, hliteral⟩
    · exact hheld op (List.mem_of_getElem? hop) text (hsame ▸ htext)
    · rw [htext, Option.some.injEq] at hgiven
      subst hgiven
      exact hvalues earlier next List.prefix_rfl _ _ (htold.of_calls hcalls)
    · rw [htext, Option.some.injEq] at hliteral
      subst hliteral
      obtain ⟨first, hfirst, heq⟩ := hretains.exists_literal (List.mem_of_getElem? hop)
      rw [heq]
      exact hliterals (hretains.mode ▸ hsingle) first hfirst

/-- The `payload` that the call behind `earlier` gives is free of aliases. -/
theorem freeOf_payload_run (hfresh : engine.sequence.phase = .fresh)
    (hcached : ∀ op ∈ engine.template.operations, op.cached = none)
    (hne : "" ∉ engine.template.aliases) (hbodies : engine.template.PlainBodies)
    (hliterals : engine.sequence.mode = .single → engine.template.PlainLiterals)
    {earlier : List Supplies} {next : Supplies} (hvalues : engine.GivesPlain (earlier ++ [next]))
    (hapart : engine.RendersApart (earlier ++ [next])) {payload : Payload}
    (hpayload : ((engine.run earlier).advance next).1 = .ok (some payload)) :
    FreeOf engine.template.aliases payload.body.toList := by
  have hfaithful := (holds_run hfresh hcached earlier).faithful next
  have hretains := retains_run hfresh hcached (earlier ++ [next])
  have hheld := freeOf_cached_run hfresh hcached hvalues hliterals
  obtain ⟨hcontinues, -⟩ := (engine.run earlier).advance_cases next
  obtain ⟨subs, hanswer, hrender, -⟩ := shown?_of_advance hpayload
  have hperm := hfaithful.perm subs hanswer
  have hsome := (hfaithful.shows subs hanswer).2
  have haparts := hapart earlier next subs List.prefix_rfl hanswer
  -- what is rendered has the template of the engine after the call
  have htemplate : (engine.run (earlier ++ [next])).template =
      ((engine.run earlier).afterStep ((engine.run earlier).stepWith next)).template := by
    rw [run_concat, hcontinues.template]
    rfl
  have haliases := hretains.aliases_eq
  have hpersistent := hretains.persistent_eq
  rw [htemplate] at haliases hpersistent hheld
  rw [← haliases] at hne hheld ⊢
  refine freeOf_render hne ?_ ?_ ?_ haparts hrender
  · rw [Template.PlainBodies, hpersistent]
    exact hbodies
  · have hnames := hperm.map Substitution.aliasName
    rw [List.map_map] at hnames
    exact hnames
  · intro sub hsub
    obtain ⟨op, hop, rfl⟩ := List.mem_map.1 (hperm.mem_iff.1 hsub)
    obtain ⟨text, htext⟩ := Option.isSome_iff_exists.1 (hsome op hop)
    have hfree := hheld op hop text htext
    rwa [Operation.current, htext]

/-- The `text` that is shown as written, after any run, is free of aliases. -/
theorem freeOf_preview_run (hfresh : engine.sequence.phase = .fresh)
    (hcached : ∀ op ∈ engine.template.operations, op.cached = none)
    (hne : "" ∉ engine.template.aliases) (hbodies : engine.template.PlainBodies)
    (hliterals : engine.template.PlainLiterals) {supplies : List Supplies}
    (hapart : (engine.run supplies).Apart engine.template.asWritten) {text : String}
    (htext : (engine.run supplies).preview.1 = .ok text) :
    FreeOf engine.template.aliases text.toList := by
  have hretains := retains_run hfresh hcached supplies
  rw [preview, hretains.asWritten_eq] at htext
  rw [← hretains.aliases_eq] at hne ⊢
  -- the run has changed what is held, but nothing of the template
  refine freeOf_render hne ?_ ?_ ?_ hapart htext
  · rw [Template.PlainBodies, hretains.persistent_eq]
    exact hbodies
  · rw [← hretains.asWritten_eq, Template.asWritten, List.map_map]
    exact .refl _
  · intro sub hsub
    obtain ⟨op, hop, rfl⟩ := List.mem_map.1 hsub
    rw [hretains.aliases_eq]
    exact hliterals op hop

/-- No alias in `engine.template.aliases` is left in a `payload` of a run, nor in the `text` of a
preview after it. The aliases are taken not to occur by themselves: in no registered name
(`hnames`), in no value given and in nothing that a persistent transform makes (`hvalues`, `hapart`,
`hpreview`), and no persistent region was read with another one inside (`hbodies`). In single mode,
where the texts of regions are shown, and for the preview, the literals have to be free of aliases
too (`PlainLiterals`), that is, no iterative region was read with another region inside. The aliases
are those that parsing has issued, and the literal of an operation that is free of them stands in
`source` between the tags of its region. -/
theorem payloads_freeOf_aliases {source : String} {transforms : Transforms} {randomize : Bool}
    {generator : Generator} {supplies : List Supplies}
    (hbuild : build source transforms randomize generator = .ok engine)
    (hvalid : ∀ name ∈ transforms.templateNames.iterative, Transforms.nameFlaw? name = none)
    (hnames : ∀ name ∈ transforms.templateNames.iterative,
      FreeOf engine.template.aliases name.toList)
    (hbodies : engine.template.PlainBodies) (hvalues : engine.GivesPlain supplies)
    (hapart : engine.RendersApart supplies)
    (hpreview : (engine.run supplies).Apart engine.template.asWritten) :
    (∃ pool', Template.parse source transforms.templateNames { generator } =
      .ok (engine.template, pool') ∧
        ∀ aliasName, aliasName ∈ pool'.issued ↔ aliasName ∈ engine.template.aliases) ∧
    ((engine.template.mode = .single → engine.template.PlainLiterals) →
      ∀ earlier next payload, earlier ++ [next] <+: supplies →
        ((engine.run earlier).advance next).1 = .ok (some payload) →
          FreeOf engine.template.aliases payload.body.toList) ∧
    (engine.template.PlainLiterals → ∀ text, (engine.run supplies).preview.1 = .ok text →
      FreeOf engine.template.aliases text.toList) ∧
    ∀ op ∈ engine.template.operations, FreeOf engine.template.aliases op.literal.toList →
      ∃ family heading, engine.template.mode.family? = some family ∧
        '[' :: family.sigil :: heading ++ ']' :: op.literal.toList ++ family.closeTag <:+:
          source.toList ∧
        (Text.trim heading = op.transform.toList ∨
          ∃ separator, family.separator? = some separator ∧
            op.transform ∈ Search.listedNames separator heading) := by
  obtain ⟨hfresh, hcached⟩ := fresh_of_build hbuild
  obtain ⟨⟨template, pool'⟩, hparse, rfl⟩ := Except.exists_of_map_eq_ok hbuild
  obtain ⟨hissued, hwordy⟩ := Template.mem_aliases_iff_of_parse hparse hvalid
  -- an alias has letters
  have hne : "" ∉ template.aliases := fun hmem => absurd (hwordy "" hmem).2 (by decide)
  refine ⟨⟨pool', hparse, ?_⟩, ?_, ?_, ?_⟩
  · simpa using hissued
  · intro hliterals earlier next payload hbefore hpayload
    exact freeOf_payload_run hfresh hcached hne hbodies hliterals (hvalues.of_prefix hbefore)
      (fun before call subs hcall => hapart before call subs (hcall.trans hbefore)) hpayload
  · intro hliterals text htext
    exact freeOf_preview_run hfresh hcached hne hbodies hliterals hpreview htext
  · intro op hop hliteral
    exact Template.written_of_parse hparse hvalid hnames hop hliteral

/-- A region inside another one. The name `a` is read first, so its alias is part of the text of
`b`, which is shown by the first payload and as written, when the turn of `a` is over. Nothing else
has an alias in it. -/
theorem payloads_freeOf_aliases_inner_region :
    let inner := String.ofList (List.replicate 32 'a')
    ∃ engine, build "[+b][+a]x[+end]y[+end]" (.showing [("a", ["1"]), ("b", ["2"])]) false
        Document.nestedPool.generator = .ok engine ∧
      inner ∈ engine.template.aliases ∧
      (∀ text ∈ ["[+b][+a]x[+end]y[+end]", "a", "b", "1", "2"],
        FreeOf engine.template.aliases text.toList) ∧
      (engine.advance .nothing).1.toOption = some (some ⟨0, none, inner ++ "y"⟩) ∧
      engine.preview.1.toOption = some (inner ++ "y") := by
  intro inner
  have hread : (build "[+b][+a]x[+end]y[+end]" (.showing [("a", ["1"]), ("b", ["2"])]) false
      Document.nestedPool.generator).toOption.map (fun engine =>
        (decide (inner ∈ engine.template.aliases),
          decide (∀ text ∈ ["[+b][+a]x[+end]y[+end]", "a", "b", "1", "2"],
            FreeOf engine.template.aliases text.toList),
          (engine.advance .nothing).1.toOption, engine.preview.1.toOption)) =
      some (true, true, some (some ⟨0, none, inner ++ "y"⟩), some (inner ++ "y")) := by
    decide +kernel
  obtain ⟨engine, hbuild, hread⟩ := Except.exists_of_toOption_map hread
  simp only [Prod.mk.injEq, decide_eq_true_eq] at hread
  obtain ⟨halias, hfree, hpayload, hpreview⟩ := hread
  exact ⟨engine, hbuild, halias, hfree, hpayload, hpreview⟩

/-- Transforms for two lists, and one that puts a mark behind a text. -/
def marking : Transforms :=
  { Transforms.showing [("a", ["1"]), ("b", ["2"])] with
    persistent := .ofList [("p", ⟨"p", fun _ text => .ok (text ++ "!")⟩)] }

/-- The region of `b` lies inside a persistent region. Its alias is part of the text of that region,
where it is replaced before the transform is applied. -/
theorem payloads_freeOf_aliases_persistent_region :
    ∃ engine, build "[+a]x[+end]-[@p]y[+b]z[+end][@end]" marking false
        Document.nestedPool.generator = .ok engine ∧
      (engine.advance .nothing).1 = .ok (some ⟨0, none, "1-yz!"⟩) ∧
      FreeOf engine.template.aliases "1-yz!".toList ∧
      (engine.run [.nothing]).preview.1 = .ok "x-yz!" ∧
      FreeOf engine.template.aliases "x-yz!".toList := by
  let subs : List Substitution := [⟨String.ofList (List.replicate 32 'a'), "1"⟩,
    ⟨String.ofList (List.replicate 32 'd'), "z"⟩]
  have hread : (build "[+a]x[+end]-[@p]y[+b]z[+end][@end]" marking false
      Document.nestedPool.generator).toOption.map (fun engine =>
        decide ((∀ name ∈ marking.templateNames.iterative,
            FreeOf engine.template.aliases name.toList) ∧ engine.template.PlainLiterals ∧
          engine.template.PlainBodies ∧
          (engine.afterStep (engine.stepWith .nothing)).Apart subs ∧
          (engine.run [.nothing]).Apart engine.template.asWritten ∧
          (∀ text ∈ ["x", "1"], FreeOf engine.template.aliases text.toList) ∧
          (engine.advance .nothing).2.bench.calls.map StepCall.answer = [.value "x", .value "1"] ∧
          (engine.stepWith .nothing).answer.toOption = some (some subs) ∧
          (engine.advance .nothing).1.toOption = some (some ⟨0, none, "1-yz!"⟩) ∧
          (engine.run [.nothing]).preview.1.toOption = some "x-yz!")) = some true := by
    decide +kernel
  obtain ⟨engine, hbuild, hread⟩ := Except.exists_of_toOption_map hread
  obtain ⟨hnames, hliterals, hbodies, hstep, hwritten, hplain, hanswers, hsubs, hpayload,
    hpreview⟩ := of_decide_eq_true hread
  -- the run has one call only
  have honly : ∀ earlier next, earlier ++ [next] <+: [Supplies.nothing] →
      earlier = [] ∧ next = .nothing := by
    intro earlier next hprefix
    cases earlier with
    | nil => exact ⟨rfl, by simpa using hprefix⟩
    | cons first earlier => simp at hprefix
  have hvalues : engine.GivesPlain [.nothing] := by
    rintro earlier next hcalls transform text ⟨call, hcall, -, -, hanswer⟩
    obtain ⟨rfl, rfl⟩ := honly earlier next hcalls
    have hmem : StepAnswer.value text ∈ [StepAnswer.value "x", .value "1"] := by
      rw [← hanswer, ← hanswers]
      exact List.mem_map_of_mem hcall
    exact hplain text (by simpa using hmem)
  have hapart : engine.RendersApart [.nothing] := by
    intro earlier next given hcalls hanswer
    obtain ⟨rfl, rfl⟩ := honly earlier next hcalls
    change (engine.stepWith .nothing).answer = .ok (some given) at hanswer
    rw [Except.eq_ok_of_toOption hsubs] at hanswer
    cases hanswer
    exact hstep
  obtain ⟨-, hpayloads, hpreviews, -⟩ := payloads_freeOf_aliases hbuild (by decide +kernel) hnames
    hbodies hvalues hapart hwritten
  have hone := Except.eq_ok_of_toOption hpayload
  have hshown := Except.eq_ok_of_toOption hpreview
  exact ⟨engine, hbuild, hone, hpayloads (fun _ => hliterals) [] .nothing _ List.prefix_rfl hone,
    hshown, hpreviews hliterals _ hshown⟩

end Engine

end Stencil
