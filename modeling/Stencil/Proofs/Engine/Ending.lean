import Mathlib.Data.List.Induction
import Mathlib.Data.List.Range
import Stencil.Proofs.Engine.Run
import Stencil.Proofs.Transform.Elements

/-!
# How the runs of an engine end

The calls of `advance` give payloads numbered from 0, until one of them gives none: the sequence is
at its end, a step function or a collaborator fails, or a persistent transform refuses the payload
of a step that has gone well. Whatever it was, it is the end of the run. Later calls give nothing,
and they run neither a step function nor a persistent transform.

Main definitions:

* `Engine.Outcome`: what a call of `advance` can come to.
* `Engine.answers`, `Engine.payloads`: what the calls of a run answer, and the payloads among it.

Main statements:

* `outcome_advance`: a call comes to one of the four outcomes.
* `run_of_isFinished`: nothing happens to an engine that has ended.
* `payload_run`: numbers, labels and end of a run, for any supplies and transforms.
-/

namespace Stencil

namespace Engine

/-- What a call of `advance` comes to: its answer and the engine that it leaves. -/
inductive Outcome (engine : Engine) (supplies : Supplies) :
    Except RunError (Option Payload) × Engine → Prop
  /-- The step fails. -/
  | failed {error : RunError} (hstep : (engine.stepWith supplies).answer = .error error) :
      Outcome engine supplies (.error error, engine.afterStep (engine.stepWith supplies))
  /-- The step gives no substitutions. -/
  | ended (hstep : (engine.stepWith supplies).answer = .ok none) :
      Outcome engine supplies (.ok none, engine.afterStep (engine.stepWith supplies))
  /-- The step gives substitutions, and a persistent transform fails on them. -/
  | refused {subs : List Substitution} {error : RunError} {uses : Roster Nat}
      (hstep : (engine.stepWith supplies).answer = .ok (some subs))
      (hrender : (engine.afterStep (engine.stepWith supplies)).render subs =
        (.error error, { engine.afterStep (engine.stepWith supplies) with uses })) :
      Outcome engine supplies (.error error, { engine.afterStep (engine.stepWith supplies) with
        uses
        sequence := (engine.stepWith supplies).sequence.finish })
  /-- The step gives substitutions, and a payload is made of them. -/
  | given {subs : List Substitution} {body : String} {uses : Roster Nat}
      (hstep : (engine.stepWith supplies).answer = .ok (some subs))
      (hrender : (engine.afterStep (engine.stepWith supplies)).render subs =
        (.ok body, { engine.afterStep (engine.stepWith supplies) with uses })) :
      Outcome engine supplies
        (.ok (some (({ engine.afterStep (engine.stepWith supplies) with uses }).emit body).1),
          (({ engine.afterStep (engine.stepWith supplies) with uses }).emit body).2)

/-- The payload that a call has given, if it has given one. -/
def payload? : Except RunError (Option Payload) → Option Payload
  | .ok payload => payload
  | .error _ => none

/-- What the calls of `advance` answer, one call for each of the supplies. -/
def answers (engine : Engine) : List Supplies → List (Except RunError (Option Payload))
  | [] => []
  | next :: later => (engine.advance next).1 :: (engine.advance next).2.answers later

/-- The payloads that the calls with `supplies` give. -/
def payloads (engine : Engine) (supplies : List Supplies) : List Payload :=
  (engine.answers supplies).filterMap payload?

variable {engine : Engine}

theorem payload?_eq_none_iff {answer : Except RunError (Option Payload)} :
    payload? answer = none ↔ ∀ payload, answer ≠ .ok (some payload) := by
  rcases answer with error | _ | payload
  · simp [payload?]
  · simp [payload?]
  · simp [payload?]

theorem payload?_eq_some_iff {answer : Except RunError (Option Payload)} {payload : Payload} :
    payload? answer = some payload ↔ answer = .ok (some payload) := by
  rcases answer with error | _ | other
  · simp [payload?]
  · simp [payload?]
  · simp [payload?]

theorem answers_concat (engine : Engine) (earlier : List Supplies) (next : Supplies) :
    engine.answers (earlier ++ [next]) =
      engine.answers earlier ++ [((engine.run earlier).advance next).1] := by
  induction earlier generalizing engine with
  | nil => rfl
  | cons first earlier ih =>
    rw [List.cons_append, answers, answers, ih]
    rfl

theorem payloads_concat (engine : Engine) (earlier : List Supplies) (next : Supplies) :
    engine.payloads (earlier ++ [next]) =
      engine.payloads earlier ++ (payload? ((engine.run earlier).advance next).1).toList := by
  rw [payloads, answers_concat, List.filterMap_append, payloads]
  rfl

/-! ### One call -/

/-- A call of `advance` fails in its step, finds the sequence at its end, is refused its payload or
gives one. -/
theorem outcome_advance (engine : Engine) (supplies : Supplies) :
    engine.Outcome supplies (engine.advance supplies) := by
  unfold advance
  rw [← stepWith]
  simp only
  split
  · rename_i error hstep
    exact .failed hstep
  · rename_i hstep
    exact .ended hstep
  · rename_i subs hstep
    obtain ⟨uses, huses⟩ := (engine.afterStep (engine.stepWith supplies)).exists_uses_render subs
    rcases hrender : (engine.afterStep (engine.stepWith supplies)).render subs with
      ⟨error | body, rendered⟩
    · rw [hrender] at huses
      cases huses
      exact .refused hstep hrender
    · rw [hrender] at huses
      cases huses
      exact .given hstep hrender

/-- A `payload` carries the number of those before it, and the engine goes on with its label. -/
theorem advance_of_payload {supplies : Supplies} {payload : Payload}
    (h : (engine.advance supplies).1 = .ok (some payload)) :
    payload.index = engine.emitted ∧
      (engine.advance supplies).2.emitted = engine.emitted + 1 ∧
      (engine.advance supplies).2.label = payload.label ∧
      (engine.advance supplies).2.isFinished = false := by
  have hout := engine.outcome_advance supplies
  generalize engine.advance supplies = outcome at h hout ⊢
  cases hout with
  | failed hstep => cases h
  | ended hstep => cases h
  | refused hstep hrender => cases h
  | @given subs body uses hstep hrender =>
    cases h
    -- a sequence that has shown something goes on
    have hphase : (engine.stepWith supplies).sequence.phase = .running :=
      Sequence.ongoing_step _ _ _ _ subs hstep
    refine ⟨rfl, rfl, rfl, ?_⟩
    simp [emit, afterStep, isFinished, Sequence.isFinished, hphase]

/-- A call of `advance` without a payload ends the engine and leaves its count as it was. -/
theorem advance_of_no_payload {supplies : Supplies}
    (h : ∀ payload, (engine.advance supplies).1 ≠ .ok (some payload)) :
    (engine.advance supplies).2.isFinished = true ∧
      (engine.advance supplies).2.emitted = engine.emitted ∧
      (engine.advance supplies).2.label = none := by
  have hconclusive : Sequence.Conclusive (engine.stepWith supplies) :=
    Sequence.conclusive_step _ _ _ _
  have hout := engine.outcome_advance supplies
  generalize engine.advance supplies = outcome at h hout ⊢
  cases hout with
  | failed hstep => exact ⟨hconclusive (by simp [hstep]), rfl, rfl⟩
  | ended hstep => exact ⟨hconclusive (by simp [hstep]), rfl, rfl⟩
  -- the step has gone well, so it is the call that ends the sequence
  | refused hstep hrender => exact ⟨rfl, rfl, rfl⟩
  | given hstep hrender => exact absurd rfl (h _)

/-- A call of `advance` finds nothing to do in an engine that has ended. -/
theorem advance_eq_of_isFinished (h : engine.isFinished = true) (supplies : Supplies) :
    engine.advance supplies =
      (.ok none, { engine with bench := engine.bench.withoutCalls, label := none }) := by
  have hstep := Sequence.step_of_isFinished h
    (engine.transforms.driver supplies engine.randomize) engine.template.operations
    engine.bench.withoutCalls
  simp only [advance, hstep, afterStep]

/-! ### Whole runs -/

/-- Nothing happens to an engine that has ended, whatever comes `later`. -/
theorem run_of_isFinished (h : engine.isFinished = true) (later : List Supplies) :
    (engine.run later).isFinished = true ∧ (engine.run later).emitted = engine.emitted ∧
      (engine.run later).uses = engine.uses ∧ (engine.run later).template = engine.template := by
  induction later using List.reverseRecOn with
  | nil => exact ⟨h, rfl, rfl, rfl⟩
  | append_singleton earlier next ih =>
    obtain ⟨hfinished, hemitted, huses, htemplate⟩ := ih
    rw [run_concat, advance_eq_of_isFinished hfinished]
    exact ⟨hfinished, hemitted, huses, htemplate⟩

/-- A built engine has given nothing. -/
theorem emitted_of_build {source : String} {transforms : Transforms} {randomize : Bool}
    {generator : Generator} (h : build source transforms randomize generator = .ok engine) :
    engine.emitted = 0 := by
  obtain ⟨-, -, rfl⟩ := Except.exists_of_map_eq_ok h
  rfl

/-- The payloads of a run are numbered without a gap, and `emitted` is their number. -/
theorem index_payloads (hemitted : engine.emitted = 0) (supplies : List Supplies) :
    (engine.payloads supplies).map Payload.index = List.range (engine.payloads supplies).length ∧
      (engine.run supplies).emitted = (engine.payloads supplies).length := by
  induction supplies using List.reverseRecOn with
  | nil => exact ⟨rfl, hemitted⟩
  | append_singleton earlier next ih =>
    obtain ⟨hindices, hcount⟩ := ih
    rw [payloads_concat, run_concat]
    cases hpayload : payload? ((engine.run earlier).advance next).1 with
    | none =>
      obtain ⟨-, hsame, -⟩ := advance_of_no_payload (payload?_eq_none_iff.1 hpayload)
      rw [Option.toList_none, List.append_nil, hsame]
      exact ⟨hindices, hcount⟩
    | some payload =>
      -- the number of the new payload is the count of those before it
      obtain ⟨hindex, hnext, -, -⟩ := advance_of_payload (payload?_eq_some_iff.1 hpayload)
      rw [Option.toList_some, List.map_append, List.length_append, List.length_singleton,
        List.range_succ, hindices, hnext, hcount, List.map_singleton, hindex, hcount]
      exact ⟨rfl, rfl⟩

/-- An engine has ended exactly if one of the answers to `supplies` has no payload. -/
theorem isFinished_run_iff (hfresh : engine.sequence.phase = .fresh) (supplies : List Supplies) :
    (engine.run supplies).isFinished = true ↔
      ∃ answer ∈ engine.answers supplies, payload? answer = none := by
  induction supplies using List.reverseRecOn with
  | nil => simp [answers, run, isFinished, Sequence.isFinished, hfresh]
  | append_singleton earlier next ih =>
    rw [answers_concat, run_concat]
    cases hpayload : payload? ((engine.run earlier).advance next).1 with
    | none =>
      obtain ⟨hfinished, -, -⟩ := advance_of_no_payload (payload?_eq_none_iff.1 hpayload)
      simp [hfinished, hpayload]
    | some payload =>
      have hgiven := payload?_eq_some_iff.1 hpayload
      obtain ⟨-, -, -, hongoing⟩ := advance_of_payload hgiven
      -- an engine that has ended would not have given this payload
      have hopen : ¬(engine.run earlier).isFinished = true := by
        intro hfinished
        rw [advance_eq_of_isFinished hfinished] at hgiven
        cases hgiven
      rw [ih] at hopen
      simp only [List.mem_append, List.mem_singleton, hongoing, Bool.false_eq_true, false_iff]
      rintro ⟨answer, hanswer | rfl, hnone⟩
      · exact hopen ⟨answer, hanswer, hnone⟩
      · rw [hpayload] at hnone
        cases hnone

/-- In every run of an engine, whatever fails and whenever, the payloads have the indices
`0, 1, 2, …`, and `emitted` is their number. The engine has ended exactly if some call has given no
payload. Let `answer` be what the call behind `supplies` gives, and `after` the engine it leaves.
The label of `after` is that of the payload given, and `none` if none was. If none was, be it at the
end of the sequence, by an error of the step or by an error of a persistent transform, then `after`
has ended with its count as it was, and each later call gives `none`, makes no `calls`, leaves
`uses` as they are and counts nothing. -/
theorem payload_run {source : String} {transforms : Transforms} {randomize : Bool}
    {generator : Generator} (hbuild : build source transforms randomize generator = .ok engine)
    (supplies : List Supplies) :
    (engine.payloads supplies).map Payload.index = List.range (engine.payloads supplies).length ∧
    (engine.run supplies).emitted = (engine.payloads supplies).length ∧
    ((engine.run supplies).isFinished = true ↔
      ∃ answer ∈ engine.answers supplies, payload? answer = none) ∧
    ∀ next,
      let answer := ((engine.run supplies).advance next).1
      let after := ((engine.run supplies).advance next).2
      after.label = (payload? answer).bind Payload.label ∧
      (payload? answer = none → after.isFinished = true ∧
        after.emitted = (engine.run supplies).emitted ∧
        ∀ later last,
          let there := after.run later
          (there.advance last).1 = .ok none ∧ (there.advance last).2.calls = [] ∧
          (there.advance last).2.uses = after.uses ∧
          (there.advance last).2.emitted = after.emitted ∧
          (there.advance last).2.isFinished = true) := by
  obtain ⟨hindices, hcount⟩ := index_payloads (emitted_of_build hbuild) supplies
  obtain ⟨hfresh, -⟩ := fresh_of_build hbuild
  refine ⟨hindices, hcount, isFinished_run_iff hfresh supplies, ?_⟩
  intro next answer after
  cases hpayload : payload? answer with
  | some payload =>
    obtain ⟨-, -, hlabel, -⟩ := advance_of_payload (payload?_eq_some_iff.1 hpayload)
    exact ⟨hlabel, nofun⟩
  | none =>
    obtain ⟨hfinished, hsame, hlabel⟩ := advance_of_no_payload (payload?_eq_none_iff.1 hpayload)
    refine ⟨hlabel, fun _ => ⟨hfinished, hsame, ?_⟩⟩
    intro later last there
    obtain ⟨hthere, hemitted, huses, -⟩ := run_of_isFinished hfinished later
    rw [advance_eq_of_isFinished hthere]
    exact ⟨rfl, rfl, huses, hemitted, hthere⟩

/-- A transform that puts a mark behind a text, but fails when it is applied for the second time,
and the iterative transform for a list. -/
def faltering : Transforms :=
  { Transforms.showing [("a", ["1", "2", "3"])] with
    persistent := .ofList [("p", ⟨"p", fun count text =>
      if count = 1 then .error ⟨["worn out"]⟩ else .ok (text ++ "!")⟩)] }

/-- The second payload is refused. It was the turn of the value `2`, but the engine has counted one
payload, and a later call gives nothing although there is a third value. -/
theorem payload_run_refused :
    ∃ engine, build "[+a]x[+end][@p]y[@end]" faltering false Document.nestedPool.generator =
        .ok engine ∧
      let first := engine.run [.nothing]
      let ended := (first.advance .nothing).2
      (first.advance .nothing).1 = .error (.stepFailed "p" ⟨["worn out"]⟩) ∧
      (engine.payloads [.nothing]).map Payload.index = [0] ∧ first.emitted = 1 ∧
      ended.isFinished = true ∧ ended.emitted = 1 ∧ ended.label = none ∧
      ((ended.run [.nothing]).advance .nothing).1 = .ok none ∧
      ((ended.run [.nothing]).advance .nothing).2.uses = ended.uses := by
  -- the failure is computed, and what comes behind it is not
  have hread : (build "[+a]x[+end][@p]y[@end]" faltering false
      Document.nestedPool.generator).toOption.map (fun engine =>
        decide (((engine.run [.nothing]).advance .nothing).1 =
            .error (.stepFailed "p" ⟨["worn out"]⟩) ∧
          (engine.payloads [.nothing]).length = 1)) = some true := by
    decide +kernel
  obtain ⟨engine, hbuild, hread⟩ := Except.exists_of_toOption_map hread
  obtain ⟨herror, hone⟩ := of_decide_eq_true hread
  obtain ⟨hindices, hcount, -, hcalls⟩ := payload_run hbuild [.nothing]
  obtain ⟨hlabel, hend⟩ := hcalls .nothing
  obtain ⟨hfinished, hsame, hlater⟩ := hend (by rw [herror]; rfl)
  obtain ⟨hnone, -, huses, -, -⟩ := hlater [.nothing] .nothing
  rw [hone] at hindices hcount
  rw [hcount] at hsame
  rw [herror] at hlabel
  exact ⟨engine, hbuild, herror, hindices, hcount, hfinished, hsame, hlabel, hnone, huses⟩

end Engine

end Stencil
