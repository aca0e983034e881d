import Stencil.Sequence

/-!
# Runs of a sequence

A run makes one step of a sequence after the other, each with the operations and the state that
the step before has left behind. What a step asks of the transforms is seen by a driver that keeps
a journal of its calls and passes each of them on to another driver.

Main definitions:

* `Sequence.stepAt`: the steps of a run.
* `Call`, `Driver.journaled`: a call of a driver, and a driver with a journal.
* `Sequence.callsAt`: the calls that a step of a run makes.
-/

namespace Stencil

/-- A call of a driver: the transform that was reached, and what the driver answered. -/
inductive Call where
  /-- An operation was started afresh. -/
  | init (transform : String) (answer : Except RunError Unit)
  /-- An operation was asked for its next value. -/
  | advance (transform : String) (answer : Except RunError Advance)

/-- The transform that a call has reached. -/
def Call.transform : Call → String
  | init transform _ | advance transform _ => transform

namespace Driver

variable {σ : Type}

/-- A driver that answers as `driver` does and keeps a journal of its calls. -/
def journaled (driver : Driver σ) : Driver (σ × List Call) where
  init op s :=
    let done := driver.init op s.1
    (done.1, done.2, s.2 ++ [.init op.transform done.1])
  advance op s :=
    let done := driver.advance op s.1
    (done.1, done.2, s.2 ++ [.advance op.transform done.1])

end Driver

namespace Sequence

variable {σ : Type}

/-- The steps of a run of `operations`, the first one at `0`. -/
def stepAt (sequence : Sequence) (driver : Driver σ) (operations : List Operation) (s : σ) :
    Nat → Step σ
  | 0 => sequence.step driver operations s
  | k + 1 =>
    let last := sequence.stepAt driver operations s k
    last.sequence.step driver last.operations last.state

/-- The calls that a step of a run of `operations` makes, in order. -/
def callsAt (sequence : Sequence) (driver : Driver σ) (operations : List Operation) (s : σ) :
    Nat → List Call
  | 0 => (sequence.step driver.journaled operations (s, [])).state.2
  | k + 1 =>
    let last := sequence.stepAt driver operations s k
    (last.sequence.step driver.journaled last.operations (last.state, [])).state.2

variable {sequence : Sequence} {driver : Driver σ} {operations : List Operation} {s : σ}

theorem stepAt_succ (k : Nat) :
    sequence.stepAt driver operations s (k + 1) =
      (sequence.stepAt driver operations s k).sequence.step driver
        (sequence.stepAt driver operations s k).operations
        (sequence.stepAt driver operations s k).state := rfl

/-- Once step `k` has ended the sequence, step `k + 1` gives nothing and leaves it ended. -/
theorem stepAt_succ_of_isFinished {k : Nat}
    (h : (sequence.stepAt driver operations s k).sequence.isFinished = true) :
    (sequence.stepAt driver operations s (k + 1)).answer = .ok none ∧
      (sequence.stepAt driver operations s (k + 1)).sequence.isFinished = true := by
  rw [stepAt_succ, step_of_isFinished h]
  exact ⟨rfl, h⟩

/-- Once step `k` has ended the sequence, every later step `n` gives nothing. -/
theorem stepAt_of_isFinished {k n : Nat} (hlt : k < n)
    (h : (sequence.stepAt driver operations s k).sequence.isFinished = true) :
    (sequence.stepAt driver operations s n).answer = .ok none ∧
      (sequence.stepAt driver operations s n).sequence.isFinished = true := by
  induction hlt with
  | refl => exact stepAt_succ_of_isFinished h
  | step _ ih => exact stepAt_succ_of_isFinished ih.2

/-- Once step `k` has ended the sequence, no later step `n` makes a call. -/
theorem callsAt_of_isFinished {k n : Nat} (hlt : k < n)
    (h : (sequence.stepAt driver operations s k).sequence.isFinished = true) :
    sequence.callsAt driver operations s n = [] := by
  obtain ⟨m, rfl⟩ := Nat.exists_eq_add_of_lt hlt
  have hlast : (sequence.stepAt driver operations s (k + m)).sequence.isFinished = true := by
    rcases Nat.eq_zero_or_pos m with rfl | hm
    · exact h
    · exact (stepAt_of_isFinished (by omega) h).2
  rw [callsAt, step_of_isFinished hlast]

end Sequence

end Stencil
