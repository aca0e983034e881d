import Stencil.Proofs.Sequence.Holding

/-!
# Every operation is shown

A step with substitutions shows all operations: it has exactly one substitution for each of them,
of the value that the operation holds after the step. The text of a region stands in for a value
only where single mode has given it to the operation before, and never because an operation holds
nothing. This does not depend on what a driver answers. It may exhaust digits and fill them again
as it likes, because a sequence that is running has shown something before, and from then on every
operation holds a value.

Main definitions:

* `Operation.held?`: the substitution of the value that an operation holds.
* `Progress.Stocked`: while a sequence is running, every operation holds a value.

Main statements:

* `stocked_after`, `stocked_run`: what one command preserves, and what any number of them do.
* `substitutions_complete`: what every step shows that can be reached, and what no step changes.
-/

namespace Stencil

namespace Operation

/-- The substitution of the value that an operation holds, if it holds one. In contrast to `current`
the text of the region does not stand in for it. -/
def held? (op : Operation) : Option Substitution :=
  op.cached.map fun text => ⟨op.aliasName, text⟩

/-- If `op` holds a value, it shows it. -/
theorem some_current_eq_held? {op : Operation} (h : op.cached.isSome = true) :
    some op.current = op.held? := by
  obtain ⟨text, htext⟩ := Option.isSome_iff_exists.1 h
  simp [held?, current, htext]

end Operation

namespace Progress

variable {σ : Type} {driver : Driver σ} {progress : Progress σ}

/-- While the sequence of `progress` is running, every operation holds a value. -/
def Stocked (progress : Progress σ) : Prop :=
  progress.sequence.phase = .running → ∀ op ∈ progress.operations, op.cached.isSome = true

/-- If `progress` is stocked, its next step keeps the operations and shows what they hold after
it. -/
theorem Stocked.faithful_step (h : progress.Stocked) (driver : Driver σ) :
    Step.Faithful (fun _ _ _ => True) progress.sequence.mode progress.operations progress.state
      (progress.step driver) :=
  Sequence.faithful_step driver.tells_nothing progress.sequence h progress.state

/-- What one `command` preserves. -/
theorem stocked_after (h : progress.Stocked) (command : Sequence.Command) :
    (progress.after driver command).Stocked := by
  cases command with
  | step =>
    intro hrunning
    -- a step that leaves the sequence running has given substitutions
    have hgiven : ∃ subs, (progress.step driver).answer = .ok (some subs) := by
      by_contra hnone
      have hended : (progress.step driver).sequence.isFinished = true :=
        Sequence.conclusive_step _ driver _ _ fun subs hsubs => hnone ⟨subs, hsubs⟩
      rw [Sequence.isFinished, decide_eq_true_eq] at hended
      rw [after, hended] at hrunning
      cases hrunning
    obtain ⟨subs, hsubs⟩ := hgiven
    exact ((h.faithful_step driver).shows subs hsubs).2
  | finish =>
    intro hrunning
    cases hrunning

/-- No `command` changes anything about operations but the values that they hold. -/
theorem map_asRead_after (h : progress.Stocked) (command : Sequence.Command) :
    (progress.after driver command).operations.map Operation.asRead =
      progress.operations.map Operation.asRead := by
  cases command with
  | step => exact (h.faithful_step driver).keeps.map_asRead_eq
  | finish => rfl

/-- What `commands` preserve that are given one after the other. -/
theorem stocked_run (h : progress.Stocked) (commands : List Sequence.Command) :
    (progress.run driver commands).Stocked ∧
      (progress.run driver commands).operations.map Operation.asRead =
        progress.operations.map Operation.asRead := by
  induction commands generalizing progress with
  | nil => exact ⟨h, rfl⟩
  | cons command commands ih =>
    obtain ⟨hstocked, hread⟩ := ih (stocked_after h command)
    exact ⟨hstocked, hread.trans (map_asRead_after h command)⟩

end Progress

/-- Let `here` be what comes of a new sequence after any `commands`, whatever its `operations` held
at first and whatever its `driver` answers, and let `step` be the next step. If it gives `subs`,
every operation of `step.operations` holds a value, and `subs` are, in some order, exactly one for
each operation, of its alias and the value that it holds (`Operation.held?`). And no step, be it
with substitutions, without them or failed, has changed the transform, the alias or the text of an
operation (`Operation.asRead`). -/
theorem substitutions_complete {σ : Type} (driver : Driver σ) (mode : Mode)
    (operations : List Operation) (s : σ) (commands : List Sequence.Command) :
    let here := Progress.run driver ⟨{ mode }, operations, s⟩ commands
    let step := here.step driver
    (∀ subs, step.answer = .ok (some subs) →
      (∀ op ∈ step.operations, op.cached.isSome = true) ∧
        (subs.map some).Perm (step.operations.map Operation.held?)) ∧
      step.operations.map Operation.asRead = operations.map Operation.asRead := by
  intro here step
  have hfresh : (⟨{ mode }, operations, s⟩ : Progress σ).Stocked := nofun
  have hrun : here.Stocked ∧
      here.operations.map Operation.asRead = operations.map Operation.asRead :=
    Progress.stocked_run hfresh commands
  obtain ⟨hstocked, hread⟩ := hrun
  have hfaithful := hstocked.faithful_step driver
  refine ⟨fun subs hsubs => ?_, hfaithful.keeps.map_asRead_eq.trans hread⟩
  obtain ⟨-, hheld⟩ := hfaithful.shows subs hsubs
  refine ⟨hheld, ?_⟩
  -- what is shown of an operation is what it holds
  have hshown : (step.operations.map Operation.current).map some =
      step.operations.map Operation.held? := by
    rw [List.map_map]
    exact List.map_congr_left fun op hop => Operation.some_current_eq_held? (hheld op hop)
  rw [← hshown]
  exact (hfaithful.perm subs hsubs).map some

/-- Two digits, the second of which held `old` from the start and was not primed. The first one is
exhausted and filled again, and the carry takes the second one on to `new`. -/
theorem substitutions_complete_carry :
    let operations : List Operation := [⟨"x", "X", "", none⟩, ⟨"y", "Y", "", some "old"⟩]
    let script : List (Except RunError Advance) :=
      [.ok (.value "1"), .ok .exhausted, .ok (.value "2"), .ok (.value "new")]
    let step := (Progress.run .scripted ⟨{ mode := .cross }, operations, script⟩ [.step]).step
      .scripted
    step.answer = .ok (some [⟨"X", "2"⟩, ⟨"Y", "new"⟩]) ∧
      (∀ op ∈ step.operations, op.cached.isSome = true) ∧
      ([some ⟨"X", "2"⟩, some ⟨"Y", "new"⟩]).Perm (step.operations.map Operation.held?) := by
  intro operations script step
  have hanswer : step.answer = .ok (some [⟨"X", "2"⟩, ⟨"Y", "new"⟩]) := rfl
  obtain ⟨hcomplete, -⟩ := substitutions_complete .scripted .cross operations script [.step]
  exact ⟨hanswer, hcomplete _ hanswer⟩

end Stencil
