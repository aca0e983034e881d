import Stencil.Proofs.Sequence.Journal

/-!
# How sequences end

A sequence is asked for steps and may be told to finish, in any order. It ends with the first step
that gives no substitutions, be it exhausted or failed, and when it is told to finish. Then it has
ended for good: no later step gives anything, calls a transform or touches an operation. A step in
which a call fails makes no further call and fails with the same error.

Main definitions:

* `Sequence.Command`: what a sequence is told to do.
* `Sequence.Conclusive`, `Sequence.Ongoing`: a step that ends the sequence if it gives nothing, and
  leaves it running if it gives something.
* `Progress`: a sequence with the operations and the state that its steps work on.
* `Progress.Ends`: whether a command ends the sequence.

Main statements:

* `conclusive_step`, `ongoing_step`: a step ends the sequence exactly if it is without
  substitutions.
* `run_of_isFinished`: nothing happens to a sequence that has ended.
* `ended_for_good`: both laws, for all commands given to one sequence.
-/

namespace Stencil

/-- What a sequence is told to do. -/
inductive Sequence.Command where
  /-- To make a step. -/
  | step
  /-- To end early. -/
  | finish
deriving DecidableEq, Repr

/-- A sequence, and what its steps work on. -/
structure Progress (σ : Type) where
  /-- The place in the sequence. -/
  sequence : Sequence
  /-- The operations, with the values that they hold. -/
  operations : List Operation
  /-- The state of the transforms. -/
  state : σ

namespace Sequence

variable {σ : Type}

/-- A `step` without substitutions leaves a sequence that has ended. -/
def Conclusive (step : Step σ) : Prop :=
  (∀ subs, step.answer ≠ .ok (some subs)) → step.sequence.isFinished = true

theorem conclusive_stop (sequence : Sequence) (operations : List Operation) (s : σ) :
    Conclusive (sequence.stop operations s) :=
  fun _ => rfl

theorem conclusive_fail (sequence : Sequence) (error : RunError) (operations : List Operation)
    (s : σ) : Conclusive (sequence.fail error operations s) :=
  fun _ => rfl

theorem conclusive_settle (sequence : Sequence)
    (outcome : Except RunError Bool × List Operation × σ) :
    Conclusive (sequence.settle outcome) := by
  rcases outcome with ⟨error | _ | _, operations, s⟩
  · exact conclusive_fail sequence error operations s
  · exact conclusive_stop sequence operations s
  · intro hnone
    exact absurd rfl (hnone _)

theorem conclusive_stepSingle (sequence : Sequence) (driver : Driver σ)
    (operations : List Operation) (s : σ) :
    Conclusive (sequence.stepSingle driver operations s) := by
  unfold stepSingle
  rcases driver.seek sequence.active (operations.drop sequence.active) s with
    ⟨error | _ | text, active, s'⟩
  · exact conclusive_fail _ error operations s'
  · exact conclusive_stop _ operations s'
  · intro hnone
    exact absurd rfl (hnone _)

theorem conclusive_next (sequence : Sequence) (driver : Driver σ) (operations : List Operation)
    (s : σ) : Conclusive (sequence.next driver operations s) := by
  unfold next
  cases sequence.mode with
  | none => exact conclusive_stop sequence operations s
  | single => exact conclusive_stepSingle sequence driver operations s
  | lockstep => exact conclusive_settle sequence _
  | cross => exact conclusive_settle sequence _

theorem conclusive_start (sequence : Sequence) (driver : Driver σ) (operations : List Operation)
    (s : σ) : Conclusive (sequence.start driver operations s) := by
  unfold start
  simp only
  -- an error on the way and an empty digit end the sequence before the first values are shown
  split
  · exact conclusive_fail _ _ _ _
  · split
    · split
      · exact conclusive_fail _ _ _ _
      · exact conclusive_stop _ _ _
      · exact conclusive_next _ driver _ _
    · exact conclusive_next _ driver _ _

/-- A step of `sequence` without substitutions ends it. -/
theorem conclusive_step (sequence : Sequence) (driver : Driver σ) (operations : List Operation)
    (s : σ) : Conclusive (sequence.step driver operations s) := by
  unfold step
  split
  · rename_i hphase
    intro _
    simp [isFinished, hphase]
  · split
    · exact conclusive_stop sequence operations s
    · exact conclusive_start sequence driver operations s
  · split
    · exact conclusive_stop sequence operations s
    · exact conclusive_next sequence driver operations s

/-- A `step` with substitutions leaves a sequence that is running. -/
def Ongoing (step : Step σ) : Prop :=
  ∀ subs, step.answer = .ok (some subs) → step.sequence.phase = .running

theorem ongoing_of_none {step : Step σ} (h : ∀ subs, step.answer ≠ .ok (some subs)) :
    Ongoing step :=
  fun subs hsubs => absurd hsubs (h subs)

theorem ongoing_settle (sequence : Sequence)
    (outcome : Except RunError Bool × List Operation × σ) : Ongoing (sequence.settle outcome) := by
  rcases outcome with ⟨error | _ | _, operations, s⟩
  · exact ongoing_of_none fun _ => nofun
  · exact ongoing_of_none fun _ => nofun
  · exact fun _ _ => rfl

theorem ongoing_stepSingle (sequence : Sequence) (driver : Driver σ)
    (operations : List Operation) (s : σ) :
    Ongoing (sequence.stepSingle driver operations s) := by
  unfold stepSingle
  split
  · exact ongoing_of_none fun _ => nofun
  · exact ongoing_of_none fun _ => nofun
  · exact fun _ _ => rfl

theorem ongoing_next (sequence : Sequence) (driver : Driver σ) (operations : List Operation)
    (s : σ) : Ongoing (sequence.next driver operations s) := by
  unfold next
  cases sequence.mode with
  | none => exact ongoing_of_none fun _ => nofun
  | single => exact ongoing_stepSingle sequence driver operations s
  | lockstep => exact ongoing_settle sequence _
  | cross => exact ongoing_settle sequence _

theorem ongoing_start (sequence : Sequence) (driver : Driver σ) (operations : List Operation)
    (s : σ) : Ongoing (sequence.start driver operations s) := by
  unfold start
  simp only
  -- whatever ends the sequence before the first values are shown gives no substitutions
  split
  · exact ongoing_of_none fun _ => nofun
  · split
    · split
      · exact ongoing_of_none fun _ => nofun
      · exact ongoing_of_none fun _ => nofun
      · exact ongoing_next _ driver _ _
    · exact ongoing_next _ driver _ _

/-- A step of `sequence` with substitutions does not end it. -/
theorem ongoing_step (sequence : Sequence) (driver : Driver σ) (operations : List Operation)
    (s : σ) : Ongoing (sequence.step driver operations s) := by
  unfold step
  split
  · exact ongoing_of_none fun _ => nofun
  · split
    · exact ongoing_of_none fun _ => nofun
    · exact ongoing_start sequence driver operations s
  · split
    · exact ongoing_of_none fun _ => nofun
    · exact ongoing_next sequence driver operations s

end Sequence

namespace Progress

variable {σ : Type}

/-- The step that comes next after `progress`. -/
def step (progress : Progress σ) (driver : Driver σ) : Step σ :=
  progress.sequence.step driver progress.operations progress.state

/-- The calls that the next step after `progress` makes, in order. -/
def calls (progress : Progress σ) (driver : Driver σ) : List Call :=
  progress.sequence.calls driver progress.operations progress.state

/-- What a command leaves of `progress`. -/
def after (driver : Driver σ) (progress : Progress σ) : Sequence.Command → Progress σ
  | .step =>
    let step := progress.step driver
    ⟨step.sequence, step.operations, step.state⟩
  | .finish => { progress with sequence := progress.sequence.finish }

/-- What `commands` leave of `progress` that are given one after the other. -/
def run (driver : Driver σ) (progress : Progress σ) (commands : List Sequence.Command) :
    Progress σ :=
  commands.foldl (after driver) progress

/-- A command ends the sequence of `progress`: it says so, or it asks for a step that gives no
substitutions. -/
def Ends (driver : Driver σ) (progress : Progress σ) : Sequence.Command → Prop
  | .step => ∀ subs, (progress.step driver).answer ≠ .ok (some subs)
  | .finish => True

variable {driver : Driver σ} {progress : Progress σ}

/-- A `command` that ends the sequence leaves it ended. -/
theorem isFinished_after {command : Sequence.Command} (h : progress.Ends driver command) :
    (progress.after driver command).sequence.isFinished = true := by
  cases command with
  | step => exact Sequence.conclusive_step _ driver _ _ h
  | finish => exact Sequence.isFinished_finish _

/-- A step of a sequence that has ended gives nothing and leaves `progress` as it is. -/
theorem step_of_isFinished (h : progress.sequence.isFinished = true) :
    progress.step driver =
      ⟨.ok none, progress.sequence, progress.operations, progress.state⟩ := by
  rw [step, Sequence.step_of_isFinished h]

/-- No `command` changes anything about a sequence that has ended. -/
theorem after_of_isFinished (h : progress.sequence.isFinished = true)
    (command : Sequence.Command) : progress.after driver command = progress := by
  cases command with
  | step => rw [after, step_of_isFinished h]
  | finish =>
    have hphase : progress.sequence.phase = .finished := by
      simpa [Sequence.isFinished] using h
    rw [after, Sequence.finish, ← hphase]

/-- Nothing that `commands` tell happens to a sequence that has ended. -/
theorem run_of_isFinished (h : progress.sequence.isFinished = true)
    (commands : List Sequence.Command) : progress.run driver commands = progress := by
  induction commands with
  | nil => rfl
  | cons command commands ih =>
    rw [run, List.foldl_cons, after_of_isFinished h]
    exact ih

end Progress

/-- Let `here` be what comes of `start` after any commands that are `earlier`. The calls of the next
step explain its answer (`Call.Explain`): an error is that of its last call, and otherwise no call
has failed. And if some `command` ends the sequence, it does so for good: `there`, after anything
that is told `later`, the sequence is still finished, the operations are those that the command has
left, and a step gives nothing, changes nothing and makes no call. -/
theorem ended_for_good {σ : Type} (driver : Driver σ) (start : Progress σ)
    (earlier : List Sequence.Command) :
    let here := start.run driver earlier
    Call.Explain (here.calls driver) (here.step driver).answer ∧
      ∀ command, here.Ends driver command → ∀ later : List Sequence.Command,
        let ended := here.after driver command
        let there := ended.run driver later
        there.sequence.isFinished = true ∧ there.operations = ended.operations ∧
          there.step driver = ⟨.ok none, there.sequence, there.operations, there.state⟩ ∧
          there.calls driver = [] := by
  intro here
  refine ⟨here.sequence.explain_calls driver here.operations here.state, ?_⟩
  intro command hends later ended there
  have hended : ended.sequence.isFinished = true := Progress.isFinished_after hends
  -- the later commands leave what the one that ended the sequence has left
  have hthere : there = ended := Progress.run_of_isFinished hended later
  rw [hthere]
  exact ⟨hended, rfl, Progress.step_of_isFinished hended,
    ended.sequence.calls_of_isFinished driver ended.operations ended.state hended⟩

/-- A driver that answers from a script, whatever it is asked for. -/
def Driver.scripted : Driver (List (Except RunError Advance)) where
  init _ script :=
    match script with
    | .error error :: script => (.error error, script)
    | script => (.ok (), script)
  advance _ script :=
    match script with
    | [] => (.ok .exhausted, [])
    | answer :: script => (answer, script)

/-- A digit that cannot be started again fails the step in the middle of its carry. Neither a
step after that nor the word to finish changes anything. -/
theorem ended_for_good_carry :
    let error : RunError := .stepFailed "x" ⟨["gone"]⟩
    let operations : List Operation := [⟨"x", "X", "", none⟩, ⟨"y", "Y", "", none⟩]
    let start : Progress _ := ⟨{ mode := .cross }, operations,
      [.ok (.value "1"), .ok (.value "2"), .ok .exhausted, .error error, .ok (.value "3")]⟩
    let here := start.run .scripted [.step]
    let there := start.run .scripted [.step, .step, .finish]
    here.calls .scripted = [.advance "x" (.ok .exhausted), .init "x" (.error error)] ∧
      (here.step .scripted).answer = .error error ∧ here.Ends .scripted .step ∧
      there.sequence.isFinished = true ∧ there.calls .scripted = [] := by
  intro error operations start here there
  have hends : here.Ends .scripted .step := by
    intro subs hanswer
    cases hanswer
  obtain ⟨-, hended⟩ := ended_for_good .scripted start [.step]
  obtain ⟨hfinished, -, -, hcalls⟩ := hended .step hends [.finish]
  exact ⟨rfl, rfl, hends, hfinished, hcalls⟩

end Stencil
