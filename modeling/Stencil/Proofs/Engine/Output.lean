import Mathlib.Data.List.Induction
import Stencil.Proofs.Engine.Run
import Stencil.Proofs.Transform.Elements

/-!
# What an engine shows last

The operations of an engine hold values between the payloads. After a payload they are those that
the payload shows, and `output` reports them. A call that gives no payload may still have produced
values: a round in which another operation is exhausted, digits of a counter that goes on past the
last one, a step whose payload a persistent transform refuses. Operations that were given such a
value hold it; all others hold what was shown last.

Main definitions:

* `Engine.shown?`, `Engine.lastShown`: what a payload shows for each operation, and what the last
  payload of a run shows.
* `Engine.Leaves`: a value that is left by a call without a payload.
* `Engine.Holds`: the operations hold what was shown or left.

Main statements:

* `shown?_of_advance`: what is shown is what the payload is made of.
* `holds_advance`: what a call preserves.
* `retains_run`: a run changes nothing but the values that operations hold.
* `output_run`: what operations hold, and what `output` reports, after any number of calls.
-/

namespace Stencil

namespace Engine

/-- What a call of `advance` shows for each operation, in their order, if it gives a payload. -/
def shown? (engine : Engine) (supplies : Supplies) : Option (List Substitution) :=
  match (engine.stepWith supplies).answer, (engine.advance supplies).1 with
  | .ok (some subs), .ok (some _) => some ((engine.stepWith supplies).sequence.arranged subs)
  | _, _ => none

/-- What the last payload shows that the calls give; `none` if they give no payload. -/
def lastShown (engine : Engine) : List Supplies → Option (List Substitution)
  | [] => none
  | next :: later => ((engine.advance next).2.lastShown later).or (engine.shown? next)

/-- The value that the last payload shows for the operation at `i`. -/
def shownAt (engine : Engine) (supplies : List Supplies) (i : Nat) : Option String :=
  (engine.lastShown supplies).bind fun subs => subs[i]?.map Substitution.value

/-- A call that gives no payload leaves an operation with a text. In lockstep and cross mode it is
a value that was given in the call. In single mode a persistent transform has refused the payload,
and the text may also be that of the region of an operation that is not active. -/
structure Leaves (engine : Engine) (supplies : Supplies) (op : Operation) (text : String) :
    Prop where
  /-- There is no payload. -/
  withheld : engine.shown? supplies = none
  /-- In single mode the step has given substitutions. -/
  refused : engine.sequence.mode = .single →
    ∃ subs, (engine.stepWith supplies).answer = .ok (some subs)
  /-- Where the text comes from. -/
  given : Workbench.Gave op.transform text (engine.advance supplies).2.bench ∨
    engine.sequence.mode = .single ∧ text = op.literal

/-- A call of the run with `supplies` leaves `op` with `text`. -/
def LeftBy (engine : Engine) (supplies : List Supplies) (op : Operation) (text : String) : Prop :=
  ∃ earlier next, earlier ++ [next] <+: supplies ∧ (engine.run earlier).Leaves next op text

/-- Every operation holds what was shown for it, and nothing if nothing was shown, or else what a
call has left. While the sequence is running, something was shown. -/
structure Holds (engine : Engine) (shown : Option (List Substitution))
    (left : Operation → String → Prop) : Prop where
  /-- What was shown or left is held. -/
  held : ∀ (i : Nat) op, engine.template.operations[i]? = some op →
    op.cached = (shown.bind fun subs => subs[i]?.map Substitution.value) ∨
      ∃ text, op.cached = some text ∧ left op text
  /-- The first payload has come before the sequence is running. -/
  running : engine.sequence.phase = .running →
    ∀ op ∈ engine.template.operations, op.cached.isSome = true

variable {engine : Engine}

/-- What `shown?` tells is what the `payload` is made of, up to the order. -/
theorem shown?_of_advance {supplies : Supplies} {payload : Payload}
    (h : (engine.advance supplies).1 = .ok (some payload)) :
    ∃ subs, (engine.stepWith supplies).answer = .ok (some subs) ∧
      ((engine.afterStep (engine.stepWith supplies)).render subs).1 = .ok payload.body ∧
      engine.shown? supplies = some ((engine.stepWith supplies).sequence.arranged subs) := by
  obtain ⟨-, ⟨subs, payload', hanswer, hpayload, -, hrender⟩ | ⟨hnone, -⟩⟩ :=
    engine.advance_cases supplies
  · rw [h, Except.ok.injEq, Option.some.injEq] at hpayload
    subst hpayload
    exact ⟨subs, hanswer, hrender, by simp only [shown?, hanswer, h]⟩
  · exact absurd h (hnone payload)

theorem holds_of_fresh (hfresh : engine.sequence.phase = .fresh)
    (hcached : ∀ op ∈ engine.template.operations, op.cached = none)
    {left : Operation → String → Prop} : engine.Holds none left where
  held _ op hop := .inl (hcached op (List.mem_of_getElem? hop))
  running hrunning := by
    rw [hfresh] at hrunning
    cases hrunning

/-- After a payload every operation in `ops` holds what it shows. -/
theorem holds_of_shown {ops : List Operation} (hops : engine.template.operations = ops)
    (hheld : ∀ op ∈ ops, op.cached.isSome = true) {left : Operation → String → Prop} :
    engine.Holds (some (ops.map Operation.current)) left where
  held i op hop := by
    rw [hops] at hop
    obtain ⟨text, htext⟩ := Option.isSome_iff_exists.1 (hheld op (List.mem_of_getElem? hop))
    exact .inl (by simp [hop, Operation.current, htext])
  running _ := by rwa [hops]

/-- The step of the next call keeps the operations of `engine`, and it shows what they hold after
it. -/
theorem Holds.faithful {shown : Option (List Substitution)} {left : Operation → String → Prop}
    (h : engine.Holds shown left) (supplies : Supplies) :
    Step.Faithful Workbench.Gave engine.sequence.mode engine.template.operations
      engine.bench.withoutCalls (engine.stepWith supplies) :=
  Sequence.faithful_step (engine.transforms.tells_gave supplies engine.randomize) _ h.running _

/-- What `more` may be left does not matter to an operation `op` that is as it was. -/
theorem Holds.held_or {shown : Option (List Substitution)}
    {left more : Operation → String → Prop} (h : engine.Holds shown left) {i : Nat}
    {op : Operation} (hop : engine.template.operations[i]? = some op) :
    op.cached = (shown.bind fun subs => subs[i]?.map Substitution.value) ∨
      ∃ text, op.cached = some text ∧ (left op text ∨ more op text) := by
  rcases h.held i op hop with hshown | ⟨text, htext, hleft⟩
  · exact .inl hshown
  · exact .inr ⟨text, htext, .inl hleft⟩

/-- After a call of `advance` the operations hold what it shows or leaves, or else what they have
held. -/
theorem holds_advance {shown : Option (List Substitution)} {left : Operation → String → Prop}
    (h : engine.Holds shown left) (supplies : Supplies) :
    (engine.advance supplies).2.Holds ((engine.shown? supplies).or shown)
      fun op text => left op text ∨ engine.Leaves supplies op text := by
  have hfaithful := h.faithful supplies
  obtain ⟨hcontinues, ⟨subs, payload, hanswer, hpayload, -, -⟩ | ⟨hnone, hended⟩⟩ :=
    engine.advance_cases supplies
  · obtain ⟨hshows, hheld⟩ := hfaithful.shows subs hanswer
    have hshown : engine.shown? supplies =
        some ((engine.stepWith supplies).sequence.arranged subs) := by
      simp only [shown?, hanswer, hpayload]
    rw [hshown, Option.some_or, hshows]
    exact holds_of_shown (congrArg Template.operations hcontinues.template) hheld
  · have hwithheld : engine.shown? supplies = none := by
      unfold shown?
      split
      · rename_i payload _ hpayload
        exact absurd hpayload (hnone payload)
      · rfl
    rw [hwithheld, Option.none_or]
    refine ⟨fun i op' hop' => ?_, fun hrunning => by simp [Sequence.isFinished, hrunning] at hended⟩
    rw [hcontinues.template] at hop'
    -- in single mode nothing is left unless there were substitutions
    by_cases hrefused : engine.sequence.mode = .single →
        ∃ subs, (engine.stepWith supplies).answer = .ok (some subs)
    · obtain ⟨op, hop, hkept⟩ := hfaithful.keeps.exists_getElem? hop'
      have hcalls : (engine.advance supplies).2.bench.calls =
          (engine.stepWith supplies).state.calls ++ [] := by
        rw [hcontinues.calls, List.append_nil]
      rcases hkept with rfl | ⟨text, htold, rfl⟩ | ⟨hsingle, rfl⟩
      · exact h.held_or hop
      · exact .inr ⟨text, rfl, .inr ⟨hwithheld, hrefused, .inl (htold.of_calls hcalls)⟩⟩
      · exact .inr ⟨op.literal, rfl, .inr ⟨hwithheld, hrefused, .inr ⟨hsingle, rfl⟩⟩⟩
    · rw [Classical.not_imp] at hrefused
      obtain ⟨hsingle, hnone⟩ := hrefused
      have hsame : (engine.stepWith supplies).operations = engine.template.operations :=
        Sequence.step_single_operations hsingle _ _ _ fun subs hsubs => hnone ⟨subs, hsubs⟩
      simp only [hsame] at hop'
      exact h.held_or hop'

theorem lastShown_concat (engine : Engine) (earlier : List Supplies) (next : Supplies) :
    engine.lastShown (earlier ++ [next]) =
      ((engine.run earlier).shown? next).or (engine.lastShown earlier) := by
  induction earlier generalizing engine with
  | nil => simp [lastShown, run]
  | cons first earlier ih =>
    rw [List.cons_append, lastShown, lastShown, ih, Option.or_assoc]
    rfl

theorem Holds.mono {shown : Option (List Substitution)} {left left' : Operation → String → Prop}
    (h : engine.Holds shown left) (hmore : ∀ op text, left op text → left' op text) :
    engine.Holds shown left' where
  held i op hop := by
    rcases h.held i op hop with hshown | ⟨text, htext, hleft⟩
    · exact .inl hshown
    · exact .inr ⟨text, htext, hmore op text hleft⟩
  running := h.running

/-- After a run the operations hold what was shown last (`lastShown`) or left by one of its calls
(`LeftBy`). -/
theorem holds_run (hfresh : engine.sequence.phase = .fresh)
    (hcached : ∀ op ∈ engine.template.operations, op.cached = none) (supplies : List Supplies) :
    (engine.run supplies).Holds (engine.lastShown supplies) (engine.LeftBy supplies) := by
  -- from the first call to the last one
  induction supplies using List.reverseRecOn with
  | nil => exact holds_of_fresh hfresh hcached
  | append_singleton earlier next ih =>
    rw [run_concat, lastShown_concat]
    refine (holds_advance ih next).mono fun op text hleft => ?_
    rcases hleft with ⟨before, call, hprefix, hleft⟩ | hleft
    · exact ⟨before, call, hprefix.trans (List.prefix_append _ _), hleft⟩
    · exact ⟨earlier, next, List.prefix_rfl, hleft⟩

/-- A call of `advance` changes nothing but the values that operations hold. -/
theorem Holds.retains {shown : Option (List Substitution)} {left : Operation → String → Prop}
    (h : engine.Holds shown left) (supplies : Supplies) :
    Retains engine (engine.advance supplies).2 := by
  have hfaithful := h.faithful supplies
  obtain ⟨hcontinues, -⟩ := engine.advance_cases supplies
  refine ⟨?_, hcontinues.transforms, hcontinues.mode.trans hfaithful.mode_eq⟩
  rw [hcontinues.template, Template.asRead, Template.asRead]
  simp only [hfaithful.keeps.map_asRead_eq]

/-- A run of `engine` changes nothing but the values that operations hold. -/
theorem retains_run (hfresh : engine.sequence.phase = .fresh)
    (hcached : ∀ op ∈ engine.template.operations, op.cached = none) (supplies : List Supplies) :
    Retains engine (engine.run supplies) := by
  induction supplies using List.reverseRecOn with
  | nil => exact .refl engine
  | append_singleton earlier next ih =>
    rw [run_concat]
    exact ih.trans ((holds_run hfresh hcached earlier).retains next)

/-- What `output` reports is held by an operation of the transform. -/
theorem exists_operation_of_output {transform : String} {value : Option String}
    (h : engine.output transform = .ok value) :
    ∃ (i : Nat) (op : Operation), engine.template.operations[i]? = some op ∧
      op.transform = transform ∧ op.cached = value := by
  unfold output at h
  split at h
  · cases h
  · obtain ⟨only, honly, rfl⟩ := Except.exists_of_map_eq_ok h
    unfold single at honly
    split at honly
    · cases honly
    · rename_i found hfound
      cases honly
      have hmem : only ∈ engine.template.operations.filter (·.transform = transform) := by
        rw [hfound]
        exact List.mem_singleton_self _
      obtain ⟨hop, htransform⟩ := List.mem_filter.1 hmem
      obtain ⟨i, hi⟩ := List.mem_iff_getElem?.1 hop
      exact ⟨i, only, hi, by simpa using htransform, rfl⟩
    · cases honly

/-- After any number of calls of `advance`, in every mode, operation `i` of an engine holds what the
last payload has shown for it, `engine.shownAt supplies i`, which is `none` before the first
payload; but if a call of the run has given no payload, that call may have left the operation with a
`text` of its own (`LeftBy`). The `value` that `output` reports for a transform is what an operation
of it holds. -/
theorem output_run {source : String} {transforms : Transforms} {randomize : Bool}
    {generator : Generator} (hbuild : build source transforms randomize generator = .ok engine)
    (supplies : List Supplies) :
    (∀ (i : Nat) op, (engine.run supplies).template.operations[i]? = some op →
      op.cached = engine.shownAt supplies i ∨
        ∃ text, op.cached = some text ∧ engine.LeftBy supplies op text) ∧
    ∀ transform value, (engine.run supplies).output transform = .ok value →
      ∃ (i : Nat) (op : Operation), (engine.run supplies).template.operations[i]? = some op ∧
        op.transform = transform ∧
        (value = engine.shownAt supplies i ∨
          ∃ text, value = some text ∧ engine.LeftBy supplies op text) := by
  obtain ⟨hfresh, hcached⟩ := fresh_of_build hbuild
  have hheld := (holds_run hfresh hcached supplies).held
  refine ⟨hheld, fun transform value houtput => ?_⟩
  obtain ⟨i, op, hop, htransform, rfl⟩ := exists_operation_of_output houtput
  exact ⟨i, op, hop, htransform, hheld i op hop⟩

/-- A round that is discarded. The first payload shows `1`. In the second round there is no value
for `v`, so there is no payload, but `u` was given `2` and holds it. -/
theorem output_run_discarded :
    ∃ engine, build "[#u]_[#end][#v]_[#end]" (.showing [("u", ["1", "2"]), ("v", ["a"])]) false
        Document.nestedPool.generator = .ok engine ∧
      (engine.advance .nothing).1.toOption = some (some ⟨0, none, "1a"⟩) ∧
      ((engine.advance .nothing).2.advance .nothing).1.toOption = some none ∧
      engine.shownAt [.nothing, .nothing] 0 = some "1" ∧
      ((engine.run [.nothing, .nothing]).output "u").toOption = some (some "2") := by
  have hread : (build "[#u]_[#end][#v]_[#end]" (.showing [("u", ["1", "2"]), ("v", ["a"])]) false
      Document.nestedPool.generator).toOption.map (fun engine =>
        ((engine.advance .nothing).1.toOption,
          ((engine.advance .nothing).2.advance .nothing).1.toOption,
          engine.shownAt [.nothing, .nothing] 0,
          ((engine.run [.nothing, .nothing]).output "u").toOption)) =
      some (some (some ⟨0, none, "1a"⟩), some none, some "1", some (some "2")) := by
    decide +kernel
  obtain ⟨engine, hbuild, hread⟩ := Except.exists_of_toOption_map hread
  simp only [Prod.mk.injEq] at hread
  obtain ⟨hfirst, hsecond, hshown, houtput⟩ := hread
  exact ⟨engine, hbuild, hfirst, hsecond, hshown, houtput⟩

/-- Two payloads in single mode and two calls after the end: what was shown last is `2` for the
first operation and its text for the second one, which has no values. -/
theorem output_run_past_end :
    ∃ engine, build "[+u]x[+end][+v]y[+end]" (.showing [("u", ["1", "2"]), ("v", [])]) false
        Document.nestedPool.generator = .ok engine ∧
      let calls := List.replicate 4 Supplies.nothing
      engine.shownAt calls 0 = some "2" ∧ engine.shownAt calls 1 = some "y" ∧
      ∀ (i : Nat) op, (engine.run calls).template.operations[i]? = some op →
        op.cached = engine.shownAt calls i ∨
          ∃ text, op.cached = some text ∧ engine.LeftBy calls op text := by
  have hread : (build "[+u]x[+end][+v]y[+end]" (.showing [("u", ["1", "2"]), ("v", [])]) false
      Document.nestedPool.generator).toOption.map (fun engine =>
        (engine.shownAt (List.replicate 4 Supplies.nothing) 0,
          engine.shownAt (List.replicate 4 Supplies.nothing) 1)) = some (some "2", some "y") := by
    decide +kernel
  obtain ⟨engine, hbuild, hread⟩ := Except.exists_of_toOption_map hread
  simp only [Prod.mk.injEq] at hread
  obtain ⟨hfirst, hsecond⟩ := hread
  exact ⟨engine, hbuild, hfirst, hsecond, (output_run hbuild _).1⟩

end Engine

end Stencil
