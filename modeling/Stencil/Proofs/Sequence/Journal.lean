import Stencil.Proofs.Sequence.Run

/-!
# What the journal of a step says

A driver with a journal makes every step come out as it does without one, so the calls in the
journal are those that the step makes. They also explain its answer: a call that fails is the last
one of the step, and its error is the answer; if no call fails, the step does not fail either.

Main definitions:

* `Call.Explain`: how the calls of a step and its answer belong together.
* `Sequence.calls`: the calls that a step makes.

Main statements:

* `initAll_journaled`, `seek_journaled`, `round_journaled`, `prime_journaled`,
  `primeRest_journaled`, `count_journaled`: what each way to reach the transforms writes down.
* `step_journaled`: a journal changes nothing about a step.
* `explain_calls`: the calls of a step explain its answer.
-/

namespace Stencil

namespace Call

/-- The error that the call was answered with, if it was. -/
def error? : Call → Option RunError
  | init _ (.error error) | advance _ (.error error) => some error
  | init _ (.ok _) | advance _ (.ok _) => none

/-- The transform that the call started, if it started one. -/
def started? : Call → Option String
  | init transform _ => some transform
  | advance _ _ => none

/-- The `calls` explain an answer: an error is that of the last call, and no other call failed. -/
def Explain {α : Type} (calls : List Call) : Except RunError α → Prop
  | .error error => ∃ earlier last, calls = earlier ++ [last] ∧ last.error? = some error ∧
      ∀ call ∈ earlier, call.error? = none
  | .ok _ => ∀ call ∈ calls, call.error? = none

namespace Explain

variable {α β : Type} {calls more : List Call} {answer : Except RunError β}

theorem nil (value : α) : Explain [] (.ok value : Except RunError α) := by
  simp [Explain]

/-- A `call` that fails explains its `error`. -/
theorem error {call : Call} {error : RunError} (h : call.error? = some error) :
    Explain [call] (.error error : Except RunError α) :=
  ⟨[], call, rfl, h, by simp⟩

/-- Calls without an error do not change what the calls of `more`, behind them, explain. -/
theorem append {value : α} (h : Explain calls (.ok value : Except RunError α))
    (hmore : Explain more answer) : Explain (calls ++ more) answer := by
  cases answer with
  | error error =>
    obtain ⟨earlier, last, rfl, hlast, hearlier⟩ := hmore
    refine ⟨calls ++ earlier, last, by simp, hlast, ?_⟩
    intro call hcall
    rcases List.mem_append.1 hcall with hcall | hcall
    · exact h call hcall
    · exact hearlier call hcall
  | ok result =>
    intro call hcall
    rcases List.mem_append.1 hcall with hcall | hcall
    · exact h call hcall
    · exact hmore call hcall

/-- A `call` without an error does not change what the calls of `more`, behind it, explain. -/
theorem cons {call : Call} (h : call.error? = none) (hmore : Explain more answer) :
    Explain (call :: more) answer := by
  have hone : Explain [call] (.ok () : Except RunError Unit) := by
    intro other hother
    rw [List.mem_singleton.1 hother, h]
  exact hone.append hmore

end Explain

end Call

namespace Driver

open Call (Explain)

variable {σ : Type} (driver : Driver σ)

/-- Two outcomes belong together: `noted` is `plain` with calls added to the journal `log`, and
these calls explain the answer. -/
def Noted {α β : Type} (log : List Call) (plain : Except RunError α × β × σ)
    (noted : Except RunError α × β × σ × List Call) : Prop :=
  ∃ calls, noted = (plain.1, plain.2.1, plain.2.2, log ++ calls) ∧ Explain calls plain.1

theorem init_journaled (op : Operation) (s : σ) (log : List Call) :
    driver.journaled.init op (s, log) = ((driver.init op s).1, (driver.init op s).2,
      log ++ [.init op.transform (driver.init op s).1]) := rfl

theorem advance_journaled (op : Operation) (s : σ) (log : List Call) :
    driver.journaled.advance op (s, log) = ((driver.advance op s).1, (driver.advance op s).2,
      log ++ [.advance op.transform (driver.advance op s).1]) := rfl

/-- With the journal `log`, `operations` are started in the same way. -/
theorem initAll_journaled (operations : List Operation) (s : σ) (log : List Call) :
    ∃ calls, driver.journaled.initAll operations (s, log) =
        ((driver.initAll operations s).1, (driver.initAll operations s).2, log ++ calls) ∧
      Explain calls (driver.initAll operations s).1 := by
  induction operations generalizing s log with
  | nil => exact ⟨[], by simp [initAll], .nil ()⟩
  | cons op operations ih =>
    rw [initAll, initAll, init_journaled]
    rcases driver.init op s with ⟨error | ⟨⟩, s'⟩
    · exact ⟨[.init op.transform (.error error)], rfl, .error rfl⟩
    · obtain ⟨calls, hrun, hexplain⟩ := ih s' (log ++ [.init op.transform (.ok ())])
      refine ⟨.init op.transform (.ok ()) :: calls, ?_, hexplain.cons rfl⟩
      simpa using hrun

/-- With the journal `log`, `operations` take turns in the same way. -/
theorem seek_journaled (active : Nat) (operations : List Operation) (s : σ) (log : List Call) :
    Noted log (driver.seek active operations s)
      (driver.journaled.seek active operations (s, log)) := by
  induction operations generalizing active s log with
  | nil => exact ⟨[], by simp [seek], .nil none⟩
  | cons op operations ih =>
    rw [seek.eq_def, seek.eq_def]
    simp only [advance_journaled]
    rcases driver.advance op s with ⟨error | text | _, s'⟩
    · exact ⟨[.advance op.transform (.error error)], rfl, .error rfl⟩
    · exact ⟨[.advance op.transform (.ok (.value text))], rfl, (Explain.nil _).cons rfl⟩
    · cases operations with
      | nil => exact ⟨[.advance op.transform (.ok .exhausted)], rfl, (Explain.nil _).cons rfl⟩
      | cons next later =>
        simp only [init_journaled]
        -- the next operation is started when its turn comes
        rcases driver.init next s' with ⟨error | ⟨⟩, s''⟩
        · exact ⟨[.advance op.transform (.ok .exhausted), .init next.transform (.error error)],
            by simp, Explain.cons rfl (.error rfl)⟩
        · obtain ⟨calls, hrun, hexplain⟩ := ih (active + 1) s''
            (log ++ [.advance op.transform (.ok .exhausted)] ++ [.init next.transform (.ok ())])
          exact ⟨.advance op.transform (.ok .exhausted) :: .init next.transform (.ok ()) :: calls,
            by simpa using hrun, (hexplain.cons rfl).cons rfl⟩

/-- With the journal `log`, a round of `operations` is made in the same way. -/
theorem round_journaled (operations : List Operation) (s : σ) (log : List Call) :
    Noted log (driver.round operations s) (driver.journaled.round operations (s, log)) := by
  induction operations generalizing s log with
  | nil => exact ⟨[], by simp [round], .nil true⟩
  | cons op operations ih =>
    rw [round, round, advance_journaled]
    rcases driver.advance op s with ⟨error | text | _, s'⟩
    · exact ⟨[.advance op.transform (.error error)], rfl, .error rfl⟩
    · obtain ⟨calls, hrun, hexplain⟩ := ih s' (log ++ [.advance op.transform (.ok (.value text))])
      simp only [hrun]
      exact ⟨.advance op.transform (.ok (.value text)) :: calls, by simp, hexplain.cons rfl⟩
    · obtain ⟨calls, hrun, hexplain⟩ := ih s' (log ++ [.advance op.transform (.ok .exhausted)])
      simp only [hrun]
      refine ⟨.advance op.transform (.ok .exhausted) :: calls, ?_⟩
      generalize driver.round operations s' = outcome at hexplain ⊢
      -- the round is lost in any case, but an error of the others is its answer
      rcases outcome with ⟨error | all, rest, s''⟩
      · exact ⟨by simp, hexplain.cons rfl⟩
      · exact ⟨by simp, hexplain.cons rfl⟩

/-- With the journal `log`, the digits `operations` are primed in the same way. -/
theorem prime_journaled (operations : List Operation) (s : σ) (log : List Call) :
    Noted log (driver.prime operations s) (driver.journaled.prime operations (s, log)) := by
  induction operations generalizing s log with
  | nil => exact ⟨[], by simp [prime], .nil true⟩
  | cons op operations ih =>
    rw [prime, prime]
    by_cases hcached : op.cached.isSome = true
    · -- a digit that holds a value makes no call
      obtain ⟨calls, hrun, hexplain⟩ := ih s log
      rw [if_pos hcached, if_pos hcached, hrun]
      exact ⟨calls, rfl, hexplain⟩
    · rw [if_neg hcached, if_neg hcached, advance_journaled]
      rcases driver.advance op s with ⟨error | text | _, s'⟩
      · exact ⟨[.advance op.transform (.error error)], rfl, .error rfl⟩
      · obtain ⟨calls, hrun, hexplain⟩ :=
          ih s' (log ++ [.advance op.transform (.ok (.value text))])
        simp only [hrun]
        exact ⟨.advance op.transform (.ok (.value text)) :: calls, by simp, hexplain.cons rfl⟩
      · exact ⟨[.advance op.transform (.ok .exhausted)], rfl, (Explain.nil _).cons rfl⟩

/-- With the journal `log`, all digits but the first are primed in the same way. -/
theorem primeRest_journaled (operations : List Operation) (s : σ) (log : List Call) :
    Noted log (driver.primeRest operations s) (driver.journaled.primeRest operations (s, log)) := by
  cases operations with
  | nil => exact ⟨[], by simp [primeRest], .nil true⟩
  | cons op operations =>
    obtain ⟨calls, hrun, hexplain⟩ := driver.prime_journaled operations s log
    rw [primeRest, primeRest, hrun]
    exact ⟨calls, rfl, hexplain⟩

/-- With the journal `log`, the counter moves in the same way. -/
theorem count_journaled (operations : List Operation) (s : σ) (log : List Call) :
    Noted log (driver.count operations s) (driver.journaled.count operations (s, log)) := by
  induction operations generalizing s log with
  | nil => exact ⟨[], by simp [count], .nil false⟩
  | cons op operations ih =>
    rw [count, count, advance_journaled]
    rcases driver.advance op s with ⟨error | text | _, s₁⟩
    · exact ⟨[.advance op.transform (.error error)], rfl, .error rfl⟩
    · exact ⟨[.advance op.transform (.ok (.value text))], rfl, (Explain.nil _).cons rfl⟩
    · -- a carry: the digit is started and asked once more, and each of the two calls may fail
      simp only [init_journaled]
      rcases driver.init op s₁ with ⟨error | ⟨⟩, s₂⟩
      · exact ⟨[.advance op.transform (.ok .exhausted), .init op.transform (.error error)],
          by simp, Explain.cons rfl (.error rfl)⟩
      · simp only [advance_journaled]
        rcases driver.advance op s₂ with ⟨error | text | _, s₃⟩
        · exact ⟨[.advance op.transform (.ok .exhausted), .init op.transform (.ok ()),
            .advance op.transform (.error error)], by simp,
            Explain.cons rfl (.cons rfl (.error rfl))⟩
        · obtain ⟨calls, hrun, hexplain⟩ := ih s₃ (log ++
            [.advance op.transform (.ok .exhausted)] ++ [.init op.transform (.ok ())] ++
            [.advance op.transform (.ok (.value text))])
          simp only [hrun]
          exact ⟨.advance op.transform (.ok .exhausted) :: .init op.transform (.ok ()) ::
            .advance op.transform (.ok (.value text)) :: calls, by simp,
            ((hexplain.cons rfl).cons rfl).cons rfl⟩
        · exact ⟨[.advance op.transform (.ok .exhausted), .init op.transform (.ok ()),
            .advance op.transform (.ok .exhausted)], by simp,
            (((Explain.nil _).cons rfl).cons rfl).cons rfl⟩

end Driver

namespace Step

variable {σ : Type}

/-- Two steps belong together: `noted` is `plain` with calls added to the journal `log`, and these
calls explain the answer. -/
def Noted (log : List Call) (plain : Step σ) (noted : Step (σ × List Call)) : Prop :=
  ∃ calls, noted = ⟨plain.answer, plain.sequence, plain.operations, plain.state, log ++ calls⟩ ∧
    Call.Explain calls plain.answer

/-- The `calls` that were made before and did not fail are noted in front. -/
theorem Noted.behind {α : Type} {value : α} {log calls : List Call} {plain : Step σ}
    {noted : Step (σ × List Call)}
    (hcalls : Call.Explain calls (.ok value : Except RunError α))
    (h : Noted (log ++ calls) plain noted) : Noted log plain noted := by
  obtain ⟨more, rfl, hmore⟩ := h
  exact ⟨calls ++ more, by simp, hcalls.append hmore⟩

end Step

namespace Sequence

variable {σ : Type} (sequence : Sequence) (driver : Driver σ) (operations : List Operation)
  (s : σ) (log : List Call)

/-- A step that ends the sequence makes no calls of its own. -/
theorem stop_noted :
    Step.Noted log (sequence.stop operations s) (sequence.stop operations (s, log)) :=
  ⟨[], by simp [stop], .nil none⟩

/-- What was `noted` of an outcome is noted of the step that is made of it. -/
theorem settle_noted {plain : Except RunError Bool × List Operation × σ}
    {noted : Except RunError Bool × List Operation × σ × List Call}
    (h : Driver.Noted log plain noted) :
    Step.Noted log (sequence.settle plain) (sequence.settle noted) := by
  obtain ⟨calls, rfl, hexplain⟩ := h
  rcases plain with ⟨error | all, ops, s⟩
  · exact ⟨calls, rfl, hexplain⟩
  · cases all
    · exact ⟨calls, rfl, hexplain⟩
    · exact ⟨calls, rfl, hexplain⟩

theorem stepSingle_noted :
    Step.Noted log (sequence.stepSingle driver operations s)
      (sequence.stepSingle driver.journaled operations (s, log)) := by
  obtain ⟨calls, hrun, hexplain⟩ :=
    driver.seek_journaled sequence.active (operations.drop sequence.active) s log
  rw [stepSingle, stepSingle, hrun]
  generalize driver.seek sequence.active (operations.drop sequence.active) s = outcome at hexplain ⊢
  rcases outcome with ⟨error | _ | text, active, s'⟩
  · exact ⟨calls, rfl, hexplain⟩
  · exact ⟨calls, rfl, hexplain⟩
  · exact ⟨calls, rfl, hexplain⟩

theorem next_noted :
    Step.Noted log (sequence.next driver operations s)
      (sequence.next driver.journaled operations (s, log)) := by
  unfold next
  cases sequence.mode with
  | none => exact sequence.stop_noted operations s log
  | single => exact sequence.stepSingle_noted driver operations s log
  | lockstep => exact sequence.settle_noted log (driver.round_journaled operations s log)
  | cross => exact sequence.settle_noted log (driver.count_journaled operations s log)

theorem start_noted :
    Step.Noted log (sequence.start driver operations s)
      (sequence.start driver.journaled operations (s, log)) := by
  unfold start
  generalize { sequence with active := 0 } = sequence
  simp only
  generalize (if sequence.mode = .single then operations.take 1 else operations) = first
  obtain ⟨calls, hrun, hexplain⟩ := driver.initAll_journaled first s log
  rw [hrun]
  generalize driver.initAll first s = started at hexplain ⊢
  rcases started with ⟨error | ⟨⟩, s₁⟩
  · exact ⟨calls, rfl, hexplain⟩
  · by_cases hcross : sequence.mode = .cross
    · simp only [if_pos hcross]
      obtain ⟨more, hprime, hmore⟩ := driver.primeRest_journaled operations s₁ (log ++ calls)
      rw [hprime]
      generalize driver.primeRest operations s₁ = outcome at hmore ⊢
      -- an error of the priming, an empty digit, or the count that follows
      rcases outcome with ⟨error | _ | _, ops, s₂⟩
      · exact Step.Noted.behind hexplain ⟨more, rfl, hmore⟩
      · exact Step.Noted.behind hexplain ⟨more, rfl, hmore⟩
      · exact Step.Noted.behind hexplain
          (Step.Noted.behind hmore (sequence.next_noted driver ops s₂ _))
    · simp only [if_neg hcross]
      exact Step.Noted.behind hexplain (sequence.next_noted driver operations s₁ _)

theorem step_noted :
    Step.Noted log (sequence.step driver operations s)
      (sequence.step driver.journaled operations (s, log)) := by
  unfold step
  cases sequence.phase with
  | finished => exact ⟨[], by simp, .nil none⟩
  | fresh =>
    simp only
    split
    · exact sequence.stop_noted operations s log
    · exact sequence.start_noted driver operations s log
  | running =>
    simp only
    split
    · exact sequence.stop_noted operations s log
    · exact sequence.next_noted driver operations s log

/-- The calls that a step makes, in order. -/
def calls : List Call :=
  (sequence.step driver.journaled operations (s, [])).state.2

/-- The calls of step `k + 1` of a run are those of the step that is made after step `k`. -/
theorem callsAt_succ (k : Nat) :
    sequence.callsAt driver operations s (k + 1) =
      (sequence.stepAt driver operations s k).sequence.calls driver
        (sequence.stepAt driver operations s k).operations
        (sequence.stepAt driver operations s k).state := rfl

/-- A journal changes nothing about a step. -/
theorem step_journaled :
    sequence.step driver.journaled operations (s, []) =
      ⟨(sequence.step driver operations s).answer, (sequence.step driver operations s).sequence,
        (sequence.step driver operations s).operations, (sequence.step driver operations s).state,
        sequence.calls driver operations s⟩ := by
  obtain ⟨made, hstep, -⟩ := sequence.step_noted driver operations s []
  rw [calls, hstep]

/-- If a step with a journal comes to `step` with the calls `made`, the step without one comes to
it, and these are its calls. -/
theorem step_of_journaled (step : Step σ) {made : List Call}
    (h : sequence.step driver.journaled operations (s, []) =
      ⟨step.answer, step.sequence, step.operations, step.state, made⟩) :
    sequence.step driver operations s = step ∧ sequence.calls driver operations s = made := by
  rw [step_journaled] at h
  simp only [Step.mk.injEq, Prod.mk.injEq] at h
  obtain ⟨hanswer, hsequence, hoperations, hstate, hmade⟩ := h
  refine ⟨?_, hmade⟩
  rcases hstep : sequence.step driver operations s with ⟨answer, place, ops, state⟩
  rw [hstep] at hanswer hsequence hoperations hstate
  simp only at hanswer hsequence hoperations hstate
  rw [hanswer, hsequence, hoperations, hstate]

/-- The calls of a step explain its answer. -/
theorem explain_calls :
    Call.Explain (sequence.calls driver operations s)
      (sequence.step driver operations s).answer := by
  obtain ⟨made, hstep, hexplain⟩ := sequence.step_noted driver operations s []
  rw [calls, hstep]
  exact hexplain

/-- A `sequence` that has ended calls nobody. -/
theorem calls_of_isFinished (h : sequence.isFinished = true) :
    sequence.calls driver operations s = [] := by
  rw [calls, step_of_isFinished h]

end Sequence

end Stencil
