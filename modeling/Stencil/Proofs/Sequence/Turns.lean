import Mathlib.Algebra.GroupWithZero.Nat
import Mathlib.Data.List.InsertIdx
import Stencil.Proofs.Sequence.Journal
import Stencil.Proofs.Sequence.Listing

/-!
# Single-target runs

In single mode the operations take turns. The one whose turn it is has been started, and it reads
out its list of values, one in each step; the others show the text of their regions. When the list
is at its end, the next operation is started within the same step, and operations without values
are passed over. So a run reads out the lists of all operations, one after the other.

A driver serves such a run if it reads out the list of an operation that it has just started. What
it does about other operations in between does not matter, because they are not asked, and two
operations may share a transform and its state.

Main definitions:

* `Driver.Ahead`: an operation has some values before it.
* `Driver.Starts`: to start an operation is to put its list before it.
* `turnsFrom`: lists that are read out one after the other.
* `Driver.Stands`: how a run stands between two steps.

Main statements:

* `yields_of_stands`: what a step takes from what is to come.
* `single_run`: the substitutions, the operations and the calls of a whole run.
-/

namespace Stencil

/-! ### Lists that are read one after the other -/

/-- The values of some lists, one list after the other, each value with the place of its list; the
first list stands at `place`. -/
def turnsFrom (place : Nat) (lists : List (List String)) : List (Nat × String) :=
  (lists.zipIdx place).flatMap fun turn => turn.1.map fun text => (turn.2, text)

@[simp]
theorem turnsFrom_nil (place : Nat) : turnsFrom place [] = [] := rfl

@[simp]
theorem turnsFrom_cons (place : Nat) (texts : List String) (lists : List (List String)) :
    turnsFrom place (texts :: lists) =
      (texts.map fun text => (place, text)) ++ turnsFrom (place + 1) lists := by
  simp [turnsFrom]

/-- The values of the turns are those of `lists`. -/
theorem map_snd_turnsFrom (place : Nat) (lists : List (List String)) :
    (turnsFrom place lists).map (·.2) = lists.flatten := by
  induction lists generalizing place with
  | nil => rfl
  | cons texts lists ih => simp [ih, Function.comp_def]

/-- What `f` makes of the operations from `op` on begins with `f op`. -/
theorem drop_map_eq_cons {α : Type} {operations : List Operation} {i : Nat} {op : Operation}
    (f : Operation → α) (h : operations[i]? = some op) :
    (operations.map f).drop i = f op :: (operations.map f).drop (i + 1) := by
  obtain ⟨hlt, rfl⟩ := List.getElem?_eq_some_iff.1 h
  rw [List.drop_eq_getElem_cons (by simpa using hlt), List.getElem_map]

/-! ### Drivers that read out one list at a time -/

/-- The calls that read out `texts`, the rest of the list of `op`, its end included. -/
def readCalls (op : Operation) (texts : List String) : List Call :=
  (texts.map fun text => .advance op.transform (.ok (.value text))) ++
    [.advance op.transform (.ok .exhausted)]

/-- The calls of a whole turn: `op` is started, and then its list is read out. -/
def turnCalls (values : Operation → List String) (op : Operation) : List Call :=
  .init op.transform (.ok ()) :: readCalls op (values op)

namespace Driver

variable {σ : Type}

/-- An operation has `texts` before it: whatever value it holds, it is given them one after the
other, and then it is exhausted. -/
def Ahead (driver : Driver σ) (op : Operation) : List String → σ → Prop
  | [], s => ∀ held, (driver.advance { op with cached := held } s).1 = .ok .exhausted
  | text :: texts, s => ∀ held,
      (driver.advance { op with cached := held } s).1 = .ok (.value text) ∧
        driver.Ahead op texts (driver.advance { op with cached := held } s).2

/-- Whatever was done before, to start an operation is to put its own list of values before it. The
value that it holds has no part in this. -/
structure Starts (driver : Driver σ) (values : Operation → List String)
    (operations : List Operation) : Prop where
  /-- The list does not depend on the value that the operation holds. -/
  values_held : ∀ op ∈ operations, ∀ held, values { op with cached := held } = values op
  /-- The operation can be started. -/
  init_fst : ∀ op ∈ operations, ∀ held s,
    (driver.init { op with cached := held } s).1 = .ok ()
  /-- When it was started, its list is before it. -/
  ahead_init : ∀ op ∈ operations, ∀ held s,
    driver.Ahead op (values op) (driver.init { op with cached := held } s).2

/-- How a run in single mode stands: `active` is the operation whose turn it is, `upcoming` are the
values to come, with the places of their operations, and `pending` the calls to be made for them. -/
def Stands (driver : Driver σ) (values : Operation → List String) (operations : List Operation)
    (active : Nat) (upcoming : List (Nat × String)) (pending : List Call) (s : σ) : Prop :=
  ∃ op texts, operations[active]? = some op ∧ driver.Ahead op texts s ∧
    upcoming = (texts.map fun text => (active, text)) ++
      turnsFrom (active + 1) ((operations.map values).drop (active + 1)) ∧
    pending = readCalls op texts ++
      ((operations.map (turnCalls values)).drop (active + 1)).flatten

/-- A step takes the first of the values that are `upcoming`, with the first of the calls that are
`pending`, or makes all these calls if there is no value to come. -/
def Yields (driver : Driver σ) (values : Operation → List String) (operations : List Operation)
    (upcoming : List (Nat × String)) (pending log : List Call)
    (outcome : Except RunError (Option String) × Nat × σ × List Call) : Prop :=
  match upcoming with
  | [] => ∃ active s, outcome = (.ok none, active, s, log ++ pending)
  | (place, text) :: later => ∃ made rest s,
      outcome = (.ok (some text), place, s, log ++ made) ∧ pending = made ++ rest ∧
        driver.Stands values operations place later rest s

variable {driver : Driver σ} {values : Operation → List String} {operations : List Operation}

/-- The values `texts` are before `op`, whatever value it holds. -/
theorem Ahead.held {op : Operation} {texts : List String} {s : σ} (h : driver.Ahead op texts s)
    (held : Option String) : driver.Ahead { op with cached := held } texts s := by
  induction texts generalizing s with
  | nil => exact h
  | cons text texts ih =>
    intro other
    exact ⟨(h other).1, ih (h other).2⟩

/-- When `op`, the operation at `active`, has been started, it has its turn. -/
theorem Starts.stands_init (hstarts : driver.Starts values operations) {active : Nat}
    {op : Operation} (hop : operations[active]? = some op) (s : σ) :
    driver.Stands values operations active (turnsFrom active ((operations.map values).drop active))
      (readCalls op (values op) ++ ((operations.map (turnCalls values)).drop (active + 1)).flatten)
      (driver.init op s).2 := by
  refine ⟨op, values op, hop, hstarts.ahead_init op (List.mem_of_getElem? hop) op.cached s, ?_, rfl⟩
  rw [drop_map_eq_cons values hop, turnsFrom_cons]

/-- The calls `made` before may be counted among those to be made. -/
theorem Yields.behind {upcoming : List (Nat × String)} {pending log made : List Call}
    {outcome : Except RunError (Option String) × Nat × σ × List Call}
    (h : driver.Yields values operations upcoming pending (log ++ made) outcome) :
    driver.Yields values operations upcoming (made ++ pending) log outcome := by
  cases upcoming with
  | nil =>
    obtain ⟨active, s, rfl⟩ := h
    exact ⟨active, s, by simp⟩
  | cons turn later =>
    obtain ⟨more, rest, s, rfl, rfl, hstands⟩ := h
    exact ⟨made ++ more, rest, s, by simp, by simp, hstands⟩

/-- If `op`, the operation at `active`, has the value `text` before it, it is given it. -/
theorem yields_of_value {active : Nat} {op : Operation} {text : String} {texts : List String}
    {s : σ} (hop : operations[active]? = some op) (hahead : driver.Ahead op (text :: texts) s)
    (log : List Call) :
    driver.Yields values operations
      (((text :: texts).map fun text => (active, text)) ++
        turnsFrom (active + 1) ((operations.map values).drop (active + 1)))
      (readCalls op (text :: texts) ++
        ((operations.map (turnCalls values)).drop (active + 1)).flatten) log
      (driver.journaled.seek active (op :: operations.drop (active + 1)) (s, log)) := by
  obtain ⟨hvalue, hlater⟩ := hahead op.cached
  refine ⟨[.advance op.transform (.ok (.value text))], _, (driver.advance op s).2, ?_, rfl,
    op, texts, hop, hlater, rfl, rfl⟩
  have hcall : (driver.advance op s).1 = .ok (.value text) := hvalue
  rw [seek.eq_def]
  simp only [advance_journaled, hcall]

/-- What a step takes from the values that are `upcoming` and the calls that are `pending`. -/
theorem yields_of_stands (hstarts : driver.Starts values operations) {active : Nat}
    {upcoming : List (Nat × String)} {pending : List Call} {s : σ}
    (h : driver.Stands values operations active upcoming pending s) (log : List Call) :
    driver.Yields values operations upcoming pending log
      (driver.journaled.seek active (operations.drop active) (s, log)) := by
  obtain ⟨op, texts, hop, hahead, rfl, rfl⟩ := h
  obtain ⟨hlt, heq⟩ := List.getElem?_eq_some_iff.1 hop
  rw [List.drop_eq_getElem_cons hlt, heq]
  -- along the operations behind the active one, which are passed over while they have no values
  induction hrest : operations.drop (active + 1) generalizing active op texts s log with
  | nil =>
    cases texts with
    | cons text texts => exact hrest ▸ yields_of_value hop hahead log
    | nil =>
      -- the last operation is at its end: the run ends with this call
      have hcall : (driver.advance op s).1 = .ok .exhausted := hahead op.cached
      have hnone : operations.length ≤ active + 1 := List.drop_eq_nil_iff.1 hrest
      have hlists : (operations.map values).drop (active + 1) = [] := by simpa using hnone
      have hcalls : (operations.map (turnCalls values)).drop (active + 1) = [] := by
        simpa using hnone
      rw [hlists, hcalls]
      refine ⟨active + 1, (driver.advance op s).2, ?_⟩
      rw [seek.eq_def]
      simp [advance_journaled, hcall, readCalls]
  | cons next later ih =>
    cases texts with
    | cons text texts => exact hrest ▸ yields_of_value hop hahead log
    | nil =>
      have hcall : (driver.advance op s).1 = .ok .exhausted := hahead op.cached
      have hnext : operations[active + 1]? = some next := by
        rw [← List.head?_drop, hrest, List.head?_cons]
      obtain ⟨hlt', heq'⟩ := List.getElem?_eq_some_iff.1 hnext
      have hlater : operations.drop (active + 1 + 1) = later := by
        rw [← List.tail_drop, hrest, List.tail_cons]
      have hstart : (driver.init next (driver.advance op s).2).1 = .ok () :=
        hstarts.init_fst next (List.mem_of_getElem? hnext) next.cached _
      -- the turn goes to the next operation, with its whole list before it
      have hyields := ih (log ++ [.advance op.transform (.ok .exhausted)] ++
        [.init next.transform (.ok ())]) next (values next) hnext (hstarts.ahead_init next
          (List.mem_of_getElem? hnext) next.cached (driver.advance op s).2) hlt' heq' hlater
      rw [drop_map_eq_cons values hnext, drop_map_eq_cons (turnCalls values) hnext, seek.eq_def]
      simp only [advance_journaled, init_journaled, hcall, hstart]
      rw [List.append_assoc] at hyields
      simpa [readCalls, turnCalls] using Yields.behind hyields

end Driver

/-! ### The operations between two steps -/

namespace Sequence

variable {active : Nat} {text : String} {operations : List Operation}

theorem getElem?_holdActive (i : Nat) :
    (holdActive active text operations)[i]? = operations[i]?.map fun op =>
      if i = active then op.withValue text else op.withLiteral := by
  rw [holdActive, List.getElem?_mapIdx]

/-- If `f` does not depend on the values that operations hold, it is the same after a step. -/
theorem map_holdActive {α : Type} {f : Operation → α}
    (hf : ∀ op ∈ operations, ∀ held, f { op with cached := held } = f op) :
    (holdActive active text operations).map f = operations.map f := by
  apply List.ext_getElem?
  intro i
  rw [List.getElem?_map, getElem?_holdActive, List.getElem?_map]
  cases hop : operations[i]? with
  | none => rfl
  | some op =>
    have hblind := hf op (List.mem_of_getElem? hop)
    rw [Option.map_some, Option.map_some, Option.map_some]
    by_cases hi : i = active
    · rw [if_pos hi]
      exact congrArg some (hblind (some text))
    · rw [if_neg hi]
      exact congrArg some (hblind (some op.literal))

/-- The step that shows `other` leaves nothing of the values that operations held before. -/
theorem holdActive_holdActive (later : Nat) (other : String) :
    holdActive later other (holdActive active text operations) =
      holdActive later other operations := by
  apply List.ext_getElem?
  intro i
  rw [getElem?_holdActive, getElem?_holdActive, getElem?_holdActive, Option.map_map]
  congr 1
  funext op
  by_cases hi : i = active
  · simp [hi, Operation.withLiteral]
  · simp [hi, Operation.withLiteral]

/-- The substitutions that show `other` do not depend on the values that operations held before. -/
theorem showActive_holdActive (later : Nat) (other : String) :
    showActive later other (holdActive active text operations) =
      showActive later other operations := by
  have hwritten : ((holdActive active text operations).eraseIdx later).map Operation.asWritten =
      (operations.eraseIdx later).map Operation.asWritten := by
    rw [← List.eraseIdx_map, ← List.eraseIdx_map, map_holdActive fun _ _ _ => rfl]
  rw [showActive, showActive, hwritten, getElem?_holdActive]
  cases operations[later]? with
  | none => rfl
  | some op =>
    by_cases hlater : later = active
    · simp [hlater]
    · simp [hlater, Operation.withLiteral]

end Sequence

namespace Driver

variable {σ : Type} {driver : Driver σ} {values : Operation → List String}
  {operations : List Operation} {active : Nat} {text : String}

theorem Starts.holdActive (hstarts : driver.Starts values operations) (active : Nat)
    (text : String) : driver.Starts values (Sequence.holdActive active text operations) := by
  -- an operation after the step is one before it with another value
  have hheld : ∀ op ∈ Sequence.holdActive active text operations,
      ∃ base ∈ operations, ∃ held, op = { base with cached := held } := by
    intro op hop
    obtain ⟨i, hi⟩ := List.mem_iff_getElem?.1 hop
    rw [Sequence.getElem?_holdActive, Option.map_eq_some_iff] at hi
    obtain ⟨base, hbase, rfl⟩ := hi
    refine ⟨base, List.mem_of_getElem? hbase,
      if i = active then some text else some base.literal, ?_⟩
    split <;> rfl
  constructor
  · intro op hop held
    obtain ⟨base, hbase, other, rfl⟩ := hheld op hop
    exact (hstarts.values_held base hbase held).trans (hstarts.values_held base hbase other).symm
  · intro op hop held s
    obtain ⟨base, hbase, other, rfl⟩ := hheld op hop
    exact hstarts.init_fst base hbase held s
  · intro op hop held s
    obtain ⟨base, hbase, other, rfl⟩ := hheld op hop
    rw [hstarts.values_held base hbase other]
    exact (hstarts.ahead_init base hbase held s).held other

theorem Starts.turnCalls_held (hstarts : driver.Starts values operations) :
    ∀ op ∈ operations, ∀ held,
      turnCalls values { op with cached := held } = turnCalls values op := by
  intro op hop held
  rw [turnCalls, hstarts.values_held op hop held]
  rfl

/-- How a run stands at `place` does not depend on the values that the operations hold. -/
theorem Stands.holdActive (hstarts : driver.Starts values operations) {place : Nat}
    {upcoming : List (Nat × String)} {pending : List Call} {s : σ}
    (h : driver.Stands values operations place upcoming pending s) (active : Nat) (text : String) :
    driver.Stands values (Sequence.holdActive active text operations) place upcoming pending s := by
  obtain ⟨op, texts, hop, hahead, rfl, rfl⟩ := h
  -- what an operation holds has no part in the values ahead of it
  refine ⟨if place = active then op.withValue text else op.withLiteral, texts, ?_, ?_, ?_, ?_⟩
  · rw [Sequence.getElem?_holdActive, hop, Option.map_some]
  · split
    · exact hahead.held (some text)
    · exact hahead.held (some op.literal)
  · rw [Sequence.map_holdActive hstarts.values_held]
  · rw [Sequence.map_holdActive hstarts.turnCalls_held]
    congr 1
    split <;> rfl

/-- What `step`, in single mode, makes of the turns that are `upcoming`, and of the calls that are
`pending` for them. -/
def Takes (driver : Driver σ) (values : Operation → List String) (operations : List Operation)
    (upcoming : List (Nat × String)) (pending : List Call) (step : Step σ) (made : List Call) :
    Prop :=
  match upcoming with
  | [] => step.answer = .ok none ∧ step.sequence.isFinished = true ∧ made = pending
  | (place, text) :: later => ∃ rest s,
      step = ⟨.ok (some (Sequence.showActive place text operations)), ⟨.single, .running, place⟩,
        Sequence.holdActive place text operations, s⟩ ∧
      pending = made ++ rest ∧
      driver.Stands values (Sequence.holdActive place text operations) place later rest s

/-- A step that asks the operations in turn, from `active` on, takes what it is given. -/
theorem takes_of_yields (hstarts : driver.Starts values operations) {sequence : Sequence}
    {phase : Phase} {upcoming : List (Nat × String)} {pending log : List Call} {s s' : σ}
    (hstep : sequence.step driver.journaled operations (s, []) =
      Sequence.stepSingle ⟨.single, phase, active⟩ driver.journaled operations (s', log))
    (h : driver.Yields values operations upcoming pending log
      (driver.journaled.seek active (operations.drop active) (s', log))) :
    driver.Takes values operations upcoming (log ++ pending)
      (sequence.step driver operations s) (sequence.calls driver operations s) := by
  -- the calls before the search are logged before those that it makes
  have hall : driver.Yields values operations upcoming (log ++ pending) []
      (driver.journaled.seek active (operations.drop active) (s', log)) := Yields.behind h
  rw [Sequence.stepSingle] at hstep
  cases upcoming with
  | nil =>
    obtain ⟨place, t, houtcome⟩ := hall
    rw [houtcome] at hstep
    obtain ⟨hplain, hcalls⟩ := sequence.step_of_journaled driver operations s
      ⟨.ok none, ⟨.single, .finished, place⟩, operations, t⟩ hstep
    rw [hplain, hcalls]
    exact ⟨rfl, rfl, rfl⟩
  | cons turn later =>
    obtain ⟨made, rest, t, houtcome, hpending, hstands⟩ := hall
    rw [houtcome] at hstep
    obtain ⟨hplain, hcalls⟩ := sequence.step_of_journaled driver operations s
      ⟨.ok (some (Sequence.showActive turn.1 turn.2 operations)),
        ⟨.single, .running, turn.1⟩, Sequence.holdActive turn.1 turn.2 operations, t⟩ hstep
    rw [hplain, hcalls]
    exact ⟨rest, t, rfl, hpending, hstands.holdActive hstarts turn.1 turn.2⟩

/-- The first step starts the first of `operations` and takes the first of all values. -/
theorem takes_first (hstarts : driver.Starts values operations) (hne : operations ≠ []) (s : σ) :
    driver.Takes values operations (turnsFrom 0 (operations.map values))
      (operations.flatMap (turnCalls values))
      (Sequence.step { mode := .single } driver operations s)
      (Sequence.calls { mode := .single } driver operations s) := by
  obtain ⟨op, rest, rfl⟩ := List.exists_cons_of_ne_nil hne
  -- in single mode only the first operation is started
  have hstart : (driver.init op s).1 = .ok () :=
    hstarts.init_fst op List.mem_cons_self op.cached s
  have hstands := hstarts.stands_init (show (op :: rest)[0]? = some op from rfl) s
  have hstep : Sequence.step { mode := .single } driver.journaled (op :: rest) (s, []) =
      Sequence.stepSingle ⟨.single, .fresh, 0⟩ driver.journaled (op :: rest)
        ((driver.init op s).2, [.init op.transform (.ok ())]) := by
    simp [Sequence.step, Sequence.start, Sequence.next, initAll, init_journaled, hstart]
  have htakes := takes_of_yields hstarts hstep (yields_of_stands hstarts hstands _)
  simpa [turnCalls, List.flatMap] using htakes

/-- A later step takes the first of the values that are still `upcoming`. -/
theorem takes_later (hstarts : driver.Starts values operations) {place : Nat}
    {upcoming : List (Nat × String)} {pending : List Call} {s : σ}
    (h : driver.Stands values (Sequence.holdActive place text operations) place upcoming
      pending s) :
    driver.Takes values operations upcoming pending
      (Sequence.step ⟨.single, .running, place⟩ driver
        (Sequence.holdActive place text operations) s)
      (Sequence.calls ⟨.single, .running, place⟩ driver
        (Sequence.holdActive place text operations) s) := by
  have hheld := hstarts.holdActive place text
  have hne : Sequence.holdActive place text operations ≠ [] := by
    obtain ⟨op, -, hop, -⟩ := h
    intro hnil
    simp [hnil] at hop
  have hstep : Sequence.step ⟨.single, .running, place⟩ driver.journaled
      (Sequence.holdActive place text operations) (s, []) =
        Sequence.stepSingle ⟨.single, .running, place⟩ driver.journaled
          (Sequence.holdActive place text operations) (s, []) := by
    simp [Sequence.step, Sequence.next, hne]
  have htakes := takes_of_yields hheld hstep (yields_of_stands hheld h [])
  -- the step leaves nothing of the values that the operations held before it
  cases upcoming with
  | nil => exact htakes
  | cons turn later =>
    obtain ⟨rest, s', hplain, hpending, hstands⟩ := htakes
    rw [Sequence.showActive_holdActive, Sequence.holdActive_holdActive] at hplain
    rw [Sequence.holdActive_holdActive] at hstands
    exact ⟨rest, s', hplain, hpending, hstands⟩

/-- Step `k` of a run takes the first of the values behind the first `k`; the calls of the steps
before it and those to be made are the calls of all turns. -/
theorem takes_stepAt (hstarts : driver.Starts values operations) (hne : operations ≠ []) (s : σ)
    {k : Nat} (hk : k ≤ (turnsFrom 0 (operations.map values)).length) :
    ∃ pending, driver.Takes values operations ((turnsFrom 0 (operations.map values)).drop k) pending
        (Sequence.stepAt { mode := .single } driver operations s k)
        (Sequence.callsAt { mode := .single } driver operations s k) ∧
      operations.flatMap (turnCalls values) =
        (List.range k).flatMap (Sequence.callsAt { mode := .single } driver operations s) ++
          pending := by
  induction k with
  | zero => exact ⟨_, takes_first hstarts hne s, rfl⟩
  | succ k ih =>
    obtain ⟨pending, htakes, hmade⟩ := ih (Nat.le_of_succ_le hk)
    rw [List.drop_eq_getElem_cons hk] at htakes
    obtain ⟨rest, s', hlast, rfl, hstands⟩ := htakes
    refine ⟨rest, ?_, ?_⟩
    · rw [Sequence.stepAt_succ, Sequence.callsAt_succ, hlast]
      exact takes_later hstarts hstands
    · rw [hmade, List.range_succ, List.flatMap_append, List.append_assoc]
      simp

end Driver

/-! ### Whole runs -/

theorem started_readCalls (op : Operation) (texts : List String) :
    (readCalls op texts).filterMap Call.started? = [] := by
  simp [readCalls, Call.started?, List.filterMap_eq_nil_iff]

/-- Each turn starts one of `operations`, and no other one. -/
theorem started_turnCalls (values : Operation → List String) (operations : List Operation) :
    (operations.flatMap (turnCalls values)).filterMap Call.started? =
      operations.map (·.transform) := by
  induction operations with
  | nil => rfl
  | cons op operations ih =>
    rw [List.flatMap_cons, List.filterMap_append, ih, turnCalls, List.filterMap_cons,
      started_readCalls]
    rfl

namespace Driver

variable {σ : Type} {driver : Driver σ} {values : Operation → List String}
  {operations : List Operation} {place : Nat}

theorem Stands.exists_operation {upcoming : List (Nat × String)} {pending : List Call} {s : σ}
    {text : String}
    (h : driver.Stands values (Sequence.holdActive place text operations) place upcoming
      pending s) :
    ∃ op, operations[place]? = some op := by
  obtain ⟨op, -, hop, -⟩ := h
  rw [Sequence.getElem?_holdActive, Option.map_eq_some_iff] at hop
  obtain ⟨base, hbase, -⟩ := hop
  exact ⟨base, hbase⟩

/-- The operations that are still to be started are those behind `place`. -/
theorem Stands.started_pending {upcoming : List (Nat × String)} {pending : List Call} {s : σ}
    (h : driver.Stands values operations place upcoming pending s) :
    pending.filterMap Call.started? = (operations.map (·.transform)).drop (place + 1) := by
  obtain ⟨op, texts, -, -, -, rfl⟩ := h
  rw [List.filterMap_append, started_readCalls, List.nil_append, ← List.map_drop,
    ← List.flatMap_def, started_turnCalls, List.map_drop]

end Driver

/-- A single-target run reads out the lists of all operations, one after the other. Its `turns` pair
each value `text` with the `place` of the operation that it belongs to. The `k`-th `step` shows the
value of turn `k` for that operation, and behind it the text of its region for every other
operation, in order. After it the operation holds the value and every other one the text of its
region; and exactly the operations up to `place` have been started, in order. Behind the last turn
the run gives nothing. The `calls` of the whole run are those of one turn after the other
(`turnCalls`), each of which starts its operation once and reads its list to the end; no call is
made after them. -/
theorem single_run {σ : Type} {driver : Driver σ} {values : Operation → List String}
    {operations : List Operation} (hne : operations ≠ [])
    (hstarts : driver.Starts values operations) (s : σ) :
    let turns := turnsFrom 0 (operations.map values)
    let step := Sequence.stepAt { mode := .single } driver operations s
    let calls := Sequence.callsAt { mode := .single } driver operations s
    turns.map (·.2) = operations.flatMap values ∧
      turns.length = (operations.map fun op => (values op).length).sum ∧
      (∀ k place text, turns[k]? = some (place, text) → ∃ op, operations[place]? = some op ∧
        (step k).answer = .ok (some
          (⟨op.aliasName, text⟩ :: (operations.eraseIdx place).map Operation.asWritten)) ∧
        (step k).operations = operations.mapIdx (fun i op =>
          { op with cached := some (if i = place then text else op.literal) }) ∧
        (step k).sequence.active = place ∧
        ((List.range (k + 1)).flatMap calls).filterMap Call.started? =
          (operations.take (place + 1)).map (·.transform)) ∧
      (∀ k, turns.length ≤ k → (step k).answer = .ok none) ∧
      (List.range (turns.length + 1)).flatMap calls = operations.flatMap (turnCalls values) ∧
      ∀ k, turns.length < k → calls k = [] := by
  intro turns step calls
  have hvalues : turns.map (·.2) = operations.flatMap values := by
    rw [map_snd_turnsFrom, List.flatMap_def]
  -- the step behind all values finds the last list at its end
  obtain ⟨pending, hlast, hmade⟩ := Driver.takes_stepAt hstarts hne s (Nat.le_refl turns.length)
  rw [List.drop_length] at hlast
  obtain ⟨hanswer, hfinished, hcalls⟩ := hlast
  refine ⟨hvalues, ?_, ?_, ?_, ?_, ?_⟩
  · rw [← List.length_map, hvalues, List.length_flatMap]
  · intro k place text hturn
    obtain ⟨hlt, heq⟩ := List.getElem?_eq_some_iff.1 hturn
    obtain ⟨pending, htakes, hmade⟩ := Driver.takes_stepAt hstarts hne s (Nat.le_of_lt hlt)
    rw [List.drop_eq_getElem_cons hlt, heq] at htakes
    obtain ⟨rest, s', hstep, rfl, hstands⟩ := htakes
    obtain ⟨op, hop⟩ := hstands.exists_operation
    refine ⟨op, hop, ?_, ?_, ?_, ?_⟩
    · simp only [step, hstep, Sequence.showActive, hop]
    · simp only [step, hstep, Sequence.holdActive]
      congr 1
      funext i other
      split <;> rfl
    · simp only [step, hstep]
    · -- the calls made so far are those of all turns without those still to be made
      have hall : (List.range (k + 1)).flatMap calls ++ rest =
          operations.flatMap (turnCalls values) := by
        rw [hmade, List.range_succ, List.flatMap_append, List.append_assoc]
        simp [calls]
      have hstarted := congrArg (List.filterMap Call.started?) hall
      rw [List.filterMap_append, hstands.started_pending, started_turnCalls,
        Sequence.map_holdActive fun _ _ _ => rfl] at hstarted
      rw [List.map_take]
      apply List.append_cancel_right (hstarted.trans (List.take_append_drop (place + 1) _).symm)
  · intro k hk
    rcases Nat.eq_or_lt_of_le hk with rfl | hlt
    · exact hanswer
    · exact (Sequence.stepAt_of_isFinished hlt hfinished).1
  · rw [List.range_succ, List.flatMap_append, hmade]
    simp [calls, hcalls]
  · intro k hk
    exact Sequence.callsAt_of_isFinished hk hfinished

/-- The `lists` that are kept by transform are read out one at a time, also to several operations of
one transform. -/
theorem starts_ofLists (lists : String → List String) (operations : List Operation) :
    (Driver.ofLists lists).Starts (fun op => lists op.transform) operations := by
  have hahead : ∀ (op : Operation) (texts : List String) (s : String → List String),
      s op.transform = texts → (Driver.ofLists lists).Ahead op texts s := by
    intro op texts
    induction texts with
    | nil =>
      intro s hs held
      simp [Driver.ofLists, hs, Advance.ofList]
    | cons text texts ih =>
      intro s hs held
      refine ⟨by simp [Driver.ofLists, hs, Advance.ofList], ih _ ?_⟩
      simp [Driver.ofLists, hs]
  refine ⟨fun _ _ _ => rfl, fun _ _ _ _ => rfl, ?_⟩
  intro op _ held s
  apply hahead
  simp [Driver.ofLists]

/-- Two operations of one transform and one alias, with an operation without values between them:
the third step passes over the empty one and starts the shared list again. -/
theorem single_run_shared_transform :
    let operations : List Operation :=
      [⟨"a", "A", "x", none⟩, ⟨"b", "B", "y", none⟩, ⟨"a", "A", "z", none⟩]
    let lists := fun name => if name = "a" then ["1", "2"] else []
    let driver := Driver.ofLists lists
    let sequence : Sequence := { mode := .single }
    operations ≠ [] ∧ driver.Starts (fun op => lists op.transform) operations ∧
      (sequence.stepAt driver operations (fun _ => []) 2).answer =
        .ok (some [⟨"A", "1"⟩, ⟨"A", "x"⟩, ⟨"B", "y"⟩]) ∧
      (sequence.stepAt driver operations (fun _ => []) 4).answer = .ok none ∧
      ((List.range 5).flatMap (sequence.callsAt driver operations fun _ => [])).filterMap
        Call.started? = ["a", "b", "a"] := by
  intro operations lists driver sequence
  have hne : operations ≠ [] := by decide
  have hstarts : driver.Starts (fun op => lists op.transform) operations :=
    starts_ofLists lists operations
  obtain ⟨-, -, hsteps, hend, hcalls, -⟩ := single_run hne hstarts fun _ => []
  -- the third answer is the first value of the third operation
  obtain ⟨op, hop, hanswer, -⟩ := hsteps 2 2 "1" rfl
  refine ⟨hne, hstarts, ?_, hend 4 (Nat.le_refl 4), ?_⟩
  · cases hop
    exact hanswer
  · exact (congrArg (List.filterMap Call.started?) hcalls).trans (started_turnCalls _ _)

end Stencil
