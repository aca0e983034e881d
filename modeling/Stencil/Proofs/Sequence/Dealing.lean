import Mathlib.Data.List.Forall2
import Stencil.Proofs.Sequence.Lockstep
import Stencil.Proofs.Sequence.Turns

/-!
# Drivers that deal

A driver deals if each operation has some values, of which every start puts all before the
operation, but in an order that may be another one each time. Nothing is then known about which
value comes when, but what is due altogether is: a step takes one list of substitutions from it and
leaves the others, in whatever order they will come.

In single mode the values of all operations are due, each to be shown while the others show the
texts of their regions. In lockstep mode only the number of steps that are due is known, because
the values that come together are not.

Main definitions:

* `Dealing`: the values that a driver deals.
* `Sequence.Draws`: what a step takes from what is due.
* `Prospect`: an account of what is due in a run.
* `Prospect.idle`, `Dealing.single`, `Dealing.lockstep`: the accounts of runs without operations
  and of runs in two of the modes.

Main statements:

* `exists_seek`: whose turn it is, and what is left of the turns.
* `exists_round`: a round takes one value from every operation.
-/

namespace Stencil

/-- The values that a driver deals for the transforms `names`. -/
structure Dealing {σ : Type} (driver : Driver σ) (names : List String) where
  /-- The values of an operation. -/
  values : Operation → List String
  /-- The values that are before an operation, in the order in which it will be given them. -/
  Ahead : σ → Operation → List String → Prop
  /-- The value that an operation holds has no part in its values. -/
  values_held : ∀ op held, values { op with cached := held } = values op
  /-- The value that an operation holds has no part in the values before it. -/
  ahead_held : ∀ {s op texts}, Ahead s op texts → ∀ held, Ahead s { op with cached := held } texts
  /-- An operation can be started, and then its values are before it in some order. -/
  init : ∀ {op}, op.transform ∈ names → ∀ s, (driver.init op s).1 = .ok () ∧
    ∃ texts, texts.Perm (values op) ∧ Ahead (driver.init op s).2 op texts
  /-- An operation is given the next of the values before it. -/
  advance : ∀ {op s texts}, Ahead s op texts → (driver.advance op s).1 = .ok (.ofList texts) ∧
    Ahead (driver.advance op s).2 op texts.tail
  /-- To start an operation is nothing to the operations of other transforms. -/
  ahead_init : ∀ {op other s texts}, other.transform ≠ op.transform → Ahead s other texts →
    Ahead (driver.init op s).2 other texts
  /-- To ask an operation is nothing to the operations of other transforms. -/
  ahead_advance : ∀ {op other s texts}, other.transform ≠ op.transform → Ahead s other texts →
    Ahead (driver.advance op s).2 other texts

variable {σ V : Type}

/-- A `step` takes from what is `due`: what it shows is one of the things due, and the others are
due after it; or nothing is due, and the step gives nothing. -/
def Sequence.Draws (view : List Substitution → V)
    (Due : List V → Sequence → List Operation → σ → Prop) (due : List V) (step : Step σ) : Prop :=
  (due = [] ∧ step.answer = .ok none) ∨
    ∃ subs later, step.answer = .ok (some subs) ∧ due.Perm (view subs :: later) ∧
      Due later step.sequence step.operations step.state

/-- The order in which things are `due` does not matter. -/
theorem Sequence.Draws.of_perm {view : List Substitution → V}
    {Due : List V → Sequence → List Operation → σ → Prop} {due due' : List V} {step : Step σ}
    (hperm : due.Perm due') (h : Draws view Due due' step) : Draws view Due due step := by
  rcases h with ⟨rfl, hnone⟩ | ⟨subs, later, hsubs, hdue, hlater⟩
  · exact .inl ⟨hperm.eq_nil, hnone⟩
  · exact .inr ⟨subs, later, hsubs, hperm.trans hdue, hlater⟩

/-- An account of what is due in a run, which is kept from step to step. -/
structure Prospect (driver : Driver σ) (V : Type) (Same : σ → σ → Prop) where
  /-- What counts about the substitutions of a step. -/
  view : List Substitution → V
  /-- What is due. -/
  Due : List V → Sequence → List Operation → σ → Prop
  /-- Each step takes from what is due. -/
  draws_step : ∀ {due sequence operations s}, Due due sequence operations s →
    Sequence.Draws view Due due (sequence.step driver operations s)
  /-- Between steps that state may be replaced by one that is the same in some respect. -/
  due_same : ∀ {due sequence operations s s'}, Due due sequence operations s → Same s s' →
    Due due sequence operations s'

/-- The account `prospect` also allows for `Same'`, what is a change in fewer respects. -/
def Prospect.mono {driver : Driver σ} {Same Same' : σ → σ → Prop}
    (prospect : Prospect driver V Same) (h : ∀ {s s'}, Same' s s' → Same s s') :
    Prospect driver V Same' where
  view := prospect.view
  Due := prospect.Due
  draws_step := prospect.draws_step
  due_same hdue hsame := prospect.due_same hdue (h hsame)

/-- The account of a run without operations: nothing is due. -/
def Prospect.idle (driver : Driver σ) (Same : σ → σ → Prop) : Prospect driver Unit Same where
  view _ := ()
  Due due _ operations _ := due = [] ∧ operations = []
  draws_step := by
    rintro due sequence operations s ⟨rfl, rfl⟩
    refine .inl ⟨rfl, ?_⟩
    rw [Sequence.step]
    split <;> rfl
  due_same hdue _ := hdue

namespace Dealing

variable {driver : Driver σ} {names : List String} (dealing : Dealing driver names)
  {op : Operation} {operations : List Operation} {s s' : σ} {texts : List String}

/-- All that is before some operation in `s` is before it in `s'`. -/
def Same (s s' : σ) : Prop :=
  ∀ op texts, dealing.Ahead s op texts → dealing.Ahead s' op texts

/-- How many values `op` has. -/
def size (op : Operation) : Nat :=
  (dealing.values op).length

theorem init_eq (dealing : Dealing driver names) (h : op.transform ∈ names) (s : σ) :
    driver.init op s = (.ok (), (driver.init op s).2) :=
  Prod.ext (dealing.init h s).1 rfl

theorem advance_eq (h : dealing.Ahead s op texts) :
    driver.advance op s = (.ok (.ofList texts), (driver.advance op s).2) :=
  Prod.ext (dealing.advance h).1 rfl

/-- If `operations'` have the transforms of `operations`, they are served as these are. -/
theorem mem_names_of_map_eq {operations' : List Operation}
    (h : operations'.map (·.transform) = operations.map (·.transform))
    (hmem : ∀ op ∈ operations, op.transform ∈ names) :
    ∀ op ∈ operations', op.transform ∈ names := by
  intro op hop
  obtain ⟨base, hbase, heq⟩ := List.mem_map.1 (h ▸ List.mem_map_of_mem hop)
  exact heq ▸ hmem base hbase

theorem ne_nil_of_map_eq {operations' : List Operation}
    (h : operations'.map (·.transform) = operations.map (·.transform)) (hne : operations ≠ []) :
    operations' ≠ [] := by
  rintro rfl
  exact hne (List.map_eq_nil_iff.1 h.symm)

theorem serves_of_map_eq {operations' : List Operation}
    (h : operations'.map (·.transform) = operations.map (·.transform))
    (hserves : Listing.Serves names operations) : Listing.Serves names operations' :=
  ⟨mem_names_of_map_eq h hserves.mem, h ▸ hserves.distinct⟩

theorem ahead_withValue (h : dealing.Ahead s op texts) (value : String) :
    dealing.Ahead s (op.withValue value) texts :=
  dealing.ahead_held h (some value)

/-! ### Taking turns -/

/-- What is shown when the values of `turns` are shown, one after the other. -/
def shows (operations : List Operation) (turns : List (Nat × String)) : List (List Substitution) :=
  turns.map fun turn => Sequence.showActive turn.1 turn.2 operations

/-- The turns that are to come when the values `texts` are before the operation at `active`. -/
def turnsAhead (operations : List Operation) (active : Nat) (texts : List String) :
    List (Nat × String) :=
  (texts.map fun text => (active, text)) ++
    turnsFrom (active + 1) ((operations.map dealing.values).drop (active + 1))

/-- When the values of the operation at `active` are used up, `texts`, those of the `next` one,
come, in some order. -/
theorem turnsAhead_nil_perm {active : Nat} {next : Operation}
    (hnext : operations[active + 1]? = some next) (hperm : texts.Perm (dealing.values next)) :
    (dealing.turnsAhead operations active []).Perm
      (dealing.turnsAhead operations (active + 1) texts) := by
  rw [turnsAhead, turnsAhead, List.map_nil, List.nil_append,
    drop_map_eq_cons dealing.values hnext, turnsFrom_cons]
  exact (hperm.symm.map _).append_right _

/-- If `op` has the value `text` before it, it gives it. -/
theorem seek_of_ahead {text : String} (h : dealing.Ahead s op (text :: texts)) (active : Nat)
    (rest : List Operation) :
    driver.seek active (op :: rest) s = (.ok (some text), active, (driver.advance op s).2) := by
  rw [Driver.seek, dealing.advance_eq h]
  rfl

/-- The operation at `active` gives the next value, or the next operation that has values does, as
long as there is one. -/
theorem exists_seek (hmem : ∀ op ∈ operations, op.transform ∈ names) {active : Nat}
    (hop : operations[active]? = some op) (hahead : dealing.Ahead s op texts) :
    (dealing.turnsAhead operations active texts = [] ∧
        ∃ place s', driver.seek active (operations.drop active) s = (.ok none, place, s')) ∨
      ∃ place text op' later s', driver.seek active (operations.drop active) s =
          (.ok (some text), place, s') ∧
        operations[place]? = some op' ∧ dealing.Ahead s' op' later ∧
        (dealing.turnsAhead operations active texts).Perm
          ((place, text) :: dealing.turnsAhead operations place later) := by
  obtain ⟨hlt, heq⟩ := List.getElem?_eq_some_iff.1 hop
  rw [List.drop_eq_getElem_cons hlt, heq]
  have hadvance := dealing.advance_eq hahead
  -- along the operations behind the active one, which are passed over while they have no values
  induction hrest : operations.drop (active + 1) generalizing active op texts s with
  | nil =>
    cases texts with
    | nil =>
      refine .inl ⟨?_, active + 1, (driver.advance op s).2, ?_⟩
      · rw [turnsAhead, ← List.map_drop, hrest]
        rfl
      · rw [Driver.seek, hadvance]
        rfl
    | cons text texts =>
      exact .inr ⟨active, text, op, texts, _, dealing.seek_of_ahead hahead active _, hop,
        (dealing.advance hahead).2, .rfl⟩
  | cons next rest ih =>
    cases texts with
    | nil =>
      have hnext : operations[active + 1]? = some next := by
        rw [← List.head?_drop, hrest, List.head?_cons]
      obtain ⟨hlt', heq'⟩ := List.getElem?_eq_some_iff.1 hnext
      have hserved := hmem next (List.mem_of_getElem? hnext)
      obtain ⟨-, dealt, hperm, hdealt⟩ := dealing.init hserved (driver.advance op s).2
      have hturns := dealing.turnsAhead_nil_perm hnext hperm
      have hrest' : operations.drop (active + 1 + 1) = rest := by
        rw [← List.tail_drop, hrest, List.tail_cons]
      have hseek : driver.seek active (op :: next :: rest) s =
          driver.seek (active + 1) (next :: rest)
            (driver.init next (driver.advance op s).2).2 := by
        rw [Driver.seek, hadvance]
        simp only [Advance.ofList]
        rw [dealing.init_eq hserved]
      rw [hseek]
      -- the turn goes to the next operation
      rcases ih hnext hdealt hlt' heq' (dealing.advance_eq hdealt) hrest' with
        ⟨hnone, hend⟩ | ⟨place, text, op', later, s', hshown, hop', hahead', hleft⟩
      · rw [hnone] at hturns
        exact .inl ⟨hturns.eq_nil, hend⟩
      · exact .inr ⟨place, text, op', later, s', hshown, hop', hahead', hturns.trans hleft⟩
    | cons text texts =>
      exact .inr ⟨active, text, op, texts, _, dealing.seek_of_ahead hahead active _, hop,
        (dealing.advance hahead).2, .rfl⟩

/-- What is `due` in a run in single mode: at first all values, then those that are before the
active operation and those of the operations behind it. -/
def SingleDue (due : List (List Substitution)) (sequence : Sequence) (operations : List Operation)
    (s : σ) : Prop :=
  (∀ op ∈ operations, op.transform ∈ names) ∧
    ((sequence = { mode := .single } ∧ operations ≠ [] ∧
        due = shows operations (turnsFrom 0 (operations.map dealing.values))) ∨
      ∃ op texts, sequence.mode = .single ∧ sequence.phase = .running ∧
        operations[sequence.active]? = some op ∧ dealing.Ahead s op texts ∧
        due = shows operations (dealing.turnsAhead operations sequence.active texts))

theorem shows_holdActive (active : Nat) (text : String) (operations : List Operation)
    (turns : List (Nat × String)) :
    shows (Sequence.holdActive active text operations) turns = shows operations turns := by
  simp only [shows, Sequence.showActive_holdActive]

theorem turnsAhead_holdActive (active : Nat) (text : String) (operations : List Operation)
    (place : Nat) (texts : List String) :
    dealing.turnsAhead (Sequence.holdActive active text operations) place texts =
      dealing.turnsAhead operations place texts := by
  rw [turnsAhead, turnsAhead, Sequence.map_holdActive fun op _ => dealing.values_held op]

/-- What is before the operation at `place` is before it after the step that gave it its turn. -/
theorem exists_holdActive {place : Nat} (text : String) (hop : operations[place]? = some op)
    (hahead : dealing.Ahead s op texts) :
    ∃ held, (Sequence.holdActive place text operations)[place]? = some held ∧
      dealing.Ahead s held texts := by
  refine ⟨op.withValue text, ?_, dealing.ahead_withValue hahead text⟩
  rw [Sequence.getElem?_holdActive, hop, Option.map_some, if_pos rfl]

/-- A step that asks the operations in turn, from `active` on, takes from what is due. -/
theorem draws_stepSingle (hmem : ∀ op ∈ operations, op.transform ∈ names) (phase : Phase)
    {active : Nat} (hop : operations[active]? = some op) (hahead : dealing.Ahead s op texts) :
    Sequence.Draws id dealing.SingleDue
      (shows operations (dealing.turnsAhead operations active texts))
      (Sequence.stepSingle ⟨.single, phase, active⟩ driver operations s) := by
  rw [Sequence.stepSingle]
  rcases dealing.exists_seek hmem hop hahead with
    ⟨hnone, place, s', hseek⟩ | ⟨place, text, op', later, s', hseek, hop', hahead', hleft⟩
  · rw [hnone, hseek]
    exact .inl ⟨rfl, rfl⟩
  · rw [hseek]
    refine .inr ⟨Sequence.showActive place text operations, _, rfl, hleft.map _, ?_, .inr ?_⟩
    · exact mem_names_of_map_eq (Sequence.map_holdActive fun _ _ _ => rfl) hmem
    · obtain ⟨held, hheld, hahead''⟩ := dealing.exists_holdActive text hop' hahead'
      refine ⟨held, later, rfl, rfl, hheld, hahead'', ?_⟩
      rw [shows_holdActive, turnsAhead_holdActive]
      rfl

/-- The account of a run in single mode. -/
def single : Prospect driver (List Substitution) dealing.Same where
  view := id
  Due := dealing.SingleDue
  draws_step := by
    rintro due sequence operations s
      ⟨hmem, ⟨rfl, hne, rfl⟩ | ⟨op, texts, hmode, hphase, hop, hahead, rfl⟩⟩
    · -- the first step gives the first operation its turn
      obtain ⟨op, rest, rfl⟩ := List.exists_cons_of_ne_nil hne
      have hserved := hmem op List.mem_cons_self
      obtain ⟨-, texts, hperm, hahead⟩ := dealing.init hserved s
      have hstep : Sequence.step { mode := .single } driver (op :: rest) s =
          Sequence.stepSingle ⟨.single, .fresh, 0⟩ driver (op :: rest) (driver.init op s).2 := by
        have hinit := dealing.init_eq hserved s
        simp only [Sequence.step, Sequence.start, Sequence.next, List.isEmpty_cons, if_true,
          List.take_succ_cons, List.take_zero, Driver.initAll]
        rw [hinit]
        simp
      have hturns : (turnsFrom 0 ((op :: rest).map dealing.values)).Perm
          (dealing.turnsAhead (op :: rest) 0 texts) := by
        rw [turnsAhead, List.map_cons, turnsFrom_cons, List.drop_succ_cons, List.drop_zero]
        exact (hperm.symm.map _).append_right _
      rw [hstep]
      exact (dealing.draws_stepSingle hmem .fresh rfl hahead).of_perm (hturns.map _)
    · obtain ⟨mode, phase, active⟩ := sequence
      cases hmode
      cases hphase
      have hne : operations ≠ [] := by
        rintro rfl
        cases hop
      have hstep : Sequence.step ⟨.single, .running, active⟩ driver operations s =
          Sequence.stepSingle ⟨.single, .running, active⟩ driver operations s := by
        simp [Sequence.step, Sequence.next, hne]
      rw [hstep]
      exact dealing.draws_stepSingle hmem .running hop hahead
  due_same := by
    rintro due sequence operations s s' ⟨hmem, hfresh | hrunning⟩ hsame
    · exact ⟨hmem, .inl hfresh⟩
    · obtain ⟨op, texts, hmode, hphase, hop, hahead, hdue⟩ := hrunning
      exact ⟨hmem, .inr ⟨op, texts, hmode, hphase, hop, hsame op texts hahead, hdue⟩⟩

/-! ### Rounds -/

/-- Whatever is before operations of other transforms than those of `operations` in one state is
before them in the other. -/
def Untouched (operations : List Operation) (s s' : σ) : Prop :=
  ∀ other texts, other.transform ∉ operations.map (·.transform) → dealing.Ahead s other texts →
    dealing.Ahead s' other texts

theorem untouched_refl (operations : List Operation) (s : σ) : dealing.Untouched operations s s :=
  fun _ _ _ hahead => hahead

theorem untouched_init (op : Operation) (s : σ) :
    dealing.Untouched [op] s (driver.init op s).2 :=
  fun _ _ hother => dealing.ahead_init (mt List.mem_singleton.2 hother)

theorem untouched_advance (op : Operation) (s : σ) :
    dealing.Untouched [op] s (driver.advance op s).2 :=
  fun _ _ hother => dealing.ahead_advance (mt List.mem_singleton.2 hother)

variable {dealing} in
theorem Untouched.trans {s₁ s₂ : σ} (h : dealing.Untouched operations s s₁)
    (h' : dealing.Untouched operations s₁ s₂) : dealing.Untouched operations s s₂ :=
  fun other texts hother hahead => h' other texts hother (h other texts hother hahead)

variable {dealing} in
/-- If nothing but `op`, and then nothing but the operations of `rest`, is touched, nothing
else is. -/
theorem Untouched.cons {rest : List Operation} {s₁ s₂ : σ} (hhead : dealing.Untouched [op] s s₁)
    (hrest : dealing.Untouched rest s₁ s₂) : dealing.Untouched (op :: rest) s s₂ := by
  intro other texts hother hahead
  obtain ⟨hne, hapart⟩ := not_or.1 (mt List.mem_cons.2 hother)
  exact hrest other texts hapart (hhead other texts (mt List.mem_singleton.1 hne) hahead)

variable {dealing} in
/-- What is before each `other` operation is left by what touches nothing but `op`. -/
theorem Untouched.ahead_tail (h : dealing.Untouched [op] s s')
    (hserves : Listing.Serves names (op :: operations)) :
    ∀ other ∈ operations, ∀ texts, dealing.Ahead s other texts → dealing.Ahead s' other texts :=
  fun other hother texts => h other texts (mt List.mem_singleton.1 (hserves.ne_head hother))

/-- If `operations` are started, they have their values before them, each in some order. -/
theorem exists_initAll (hserves : Listing.Serves names operations) (s : σ) :
    ∃ lists s', driver.initAll operations s = (.ok (), s') ∧
      List.Forall₂ (fun op texts => dealing.Ahead s' op texts ∧ texts.Perm (dealing.values op))
        operations lists ∧
      dealing.Untouched operations s s' := by
  induction operations generalizing s with
  | nil => exact ⟨[], s, rfl, .nil, dealing.untouched_refl [] s⟩
  | cons op operations ih =>
    obtain ⟨-, texts, hperm, hahead⟩ := dealing.init hserves.head s
    obtain ⟨lists, s', hrun, hlists, hframe⟩ := ih hserves.tail (driver.init op s).2
    refine ⟨texts :: lists, s', ?_, .cons ⟨?_, hperm⟩ hlists,
      (dealing.untouched_init op s).cons hframe⟩
    · rw [Driver.initAll, dealing.init_eq hserves.head]
      exact hrun
    · -- starting the others leaves this one as it is
      exact hframe op texts hserves.head_notMem hahead

/-- In another order, as `lists` have them, the values of `operations` are as many as before. -/
theorem map_length_of_perm {lists : List (List String)}
    (h : List.Forall₂ (fun op texts => texts.Perm (dealing.values op)) operations lists) :
    lists.map List.length = (operations.map dealing.values).map List.length := by
  induction h with
  | nil => rfl
  | cons hperm _ ih => rw [List.map_cons, ih, hperm.length_eq, List.map_cons, List.map_cons]

variable {dealing} in
/-- The `lists` before the others are left by what touches nothing but `op`. -/
theorem Untouched.forall₂_tail (hframe : dealing.Untouched [op] s s')
    (hserves : Listing.Serves names (op :: operations)) {lists : List (List String)}
    (h : List.Forall₂ (dealing.Ahead s) operations lists) :
    List.Forall₂ (dealing.Ahead s') operations lists := by
  rw [List.forall₂_iff_zip] at h ⊢
  exact ⟨h.1, fun hmem => hframe.ahead_tail hserves _ (List.of_mem_zip hmem).1 _ (h.2 hmem)⟩

/-- A round takes a value from each of `operations`, if each of them has one before it. -/
theorem exists_round (hserves : Listing.Serves names operations) {lists : List (List String)}
    (h : List.Forall₂ (dealing.Ahead s) operations lists) :
    ∃ operations' s', driver.round operations s =
        (.ok (lists.all fun texts => texts ≠ []), operations', s') ∧
      operations'.map (·.transform) = operations.map (·.transform) ∧
      List.Forall₂ (dealing.Ahead s') operations' (lists.map List.tail) ∧
      dealing.Untouched operations s s' := by
  induction operations generalizing s lists with
  | nil =>
    cases h
    exact ⟨[], s, rfl, rfl, .nil, dealing.untouched_refl [] s⟩
  | cons op operations ih =>
    cases h with
    | @cons _ texts _ lists hahead hrest =>
      obtain ⟨-, htail⟩ := dealing.advance hahead
      have hfirst := dealing.untouched_advance op s
      obtain ⟨operations', s', hrun, hsame, hlists, hframe⟩ := ih hserves.tail
        (hfirst.forall₂_tail hserves hrest)
      have hhead : dealing.Ahead s' op texts.tail := hframe op _ hserves.head_notMem htail
      have hall : dealing.Untouched (op :: operations) s s' := hfirst.cons hframe
      cases texts with
      | nil =>
        -- the round is lost, and the others are asked all the same
        refine ⟨op :: operations', s', ?_, ?_, .cons hhead hlists, hall⟩
        · rw [Driver.round, dealing.advance_eq hahead]
          simp [Advance.ofList, hrun]
        · rw [List.map_cons, hsame, List.map_cons]
      | cons text texts =>
        refine ⟨op.withValue text :: operations', s', ?_, ?_,
          .cons (dealing.ahead_withValue hhead text) hlists, hall⟩
        · rw [Driver.round, dealing.advance_eq hahead]
          simp [Advance.ofList, hrun]
        · rw [List.map_cons, hsame, List.map_cons]
          rfl

/-- The shortest of `lists` has this `length`. -/
def Shortest (length : Nat) (lists : List (List String)) : Prop :=
  (lists.map List.length).min? = some length

/-- When the shortest of `lists` is empty, one of them is. -/
theorem Shortest.exists_nil {lists : List (List String)} (h : Shortest 0 lists) :
    (lists.all fun texts => texts ≠ []) = false := by
  obtain ⟨hmem, -⟩ := List.min?_eq_some_iff.1 h
  obtain ⟨texts, htexts, hlength⟩ := List.mem_map.1 hmem
  rw [List.all_eq_false]
  exact ⟨texts, htexts, by simpa using hlength⟩

/-- When the shortest of `lists` is not empty, none is, and without their first values they are
shorter by one. -/
theorem Shortest.tail {length : Nat} {lists : List (List String)}
    (h : Shortest (length + 1) lists) :
    (lists.all fun texts => texts ≠ []) = true ∧ Shortest length (lists.map List.tail) := by
  obtain ⟨hmem, hleast⟩ := List.min?_eq_some_iff.1 h
  obtain ⟨texts, htexts, hlength⟩ := List.mem_map.1 hmem
  -- no list is shorter than the shortest
  have hlong : ∀ texts ∈ lists, length + 1 ≤ texts.length :=
    fun texts htexts => hleast _ (List.mem_map_of_mem htexts)
  constructor
  · rw [List.all_eq_true]
    intro texts htexts
    have hpos := hlong texts htexts
    simpa using List.ne_nil_of_length_pos (Nat.zero_lt_of_lt hpos)
  · refine List.min?_eq_some_iff.2 ⟨?_, ?_⟩
    · rw [List.map_map, List.mem_map]
      exact ⟨texts, htexts, by simp [hlength]⟩
    · intro other hother
      rw [List.map_map, List.mem_map] at hother
      obtain ⟨texts, htexts, rfl⟩ := hother
      have hpos := hlong texts htexts
      simp only [Function.comp_apply, List.length_tail]
      omega

/-- What is `due` in a run in lockstep mode: as many rounds as the shortest list of values is
long. -/
def LockstepDue (due : List Unit) (sequence : Sequence) (operations : List Operation) (s : σ) :
    Prop :=
  Listing.Serves names operations ∧ operations ≠ [] ∧ ∃ rounds, due = List.replicate rounds () ∧
    ((sequence = { mode := .lockstep } ∧ Shortest rounds (operations.map dealing.values)) ∨
      sequence = ⟨.lockstep, .running, 0⟩ ∧
        ∃ lists, List.Forall₂ (dealing.Ahead s) operations lists ∧ Shortest rounds lists)

/-- A round takes from the `rounds` that are due. -/
theorem draws_settle_round (hserves : Listing.Serves names operations) (hne : operations ≠ [])
    (phase : Phase) {rounds : Nat} {lists : List (List String)}
    (hlists : List.Forall₂ (dealing.Ahead s) operations lists) (hrounds : Shortest rounds lists) :
    Sequence.Draws (fun _ => ()) dealing.LockstepDue (List.replicate rounds ())
      (Sequence.settle ⟨.lockstep, phase, 0⟩ (driver.round operations s)) := by
  obtain ⟨operations', s', hround, hsame, hlater, -⟩ := dealing.exists_round hserves hlists
  rw [hround]
  cases rounds with
  | zero =>
    -- one of the lists is used up
    rw [hrounds.exists_nil]
    exact .inl ⟨rfl, rfl⟩
  | succ rounds =>
    obtain ⟨hall, hshorter⟩ := hrounds.tail
    rw [hall]
    exact .inr ⟨_, List.replicate rounds (), rfl, .rfl, serves_of_map_eq hsame hserves,
      ne_nil_of_map_eq hsame hne, rounds, rfl, .inr ⟨rfl, _, hlater, hshorter⟩⟩

/-- The account of a run in lockstep mode. -/
def lockstep : Prospect driver Unit dealing.Same where
  view _ := ()
  Due := dealing.LockstepDue
  draws_step := by
    rintro due sequence operations s
      ⟨hserves, hne, rounds, rfl, ⟨rfl, hrounds⟩ | ⟨rfl, lists, hlists, hrounds⟩⟩
    · obtain ⟨lists, s', hinit, hdealt, -⟩ := dealing.exists_initAll hserves s
      rw [Listing.step_fresh_lockstep hne hinit]
      refine dealing.draws_settle_round hserves hne .fresh (hdealt.imp fun _ _ h => h.1) ?_
      rw [Shortest, dealing.map_length_of_perm (hdealt.imp fun _ _ h => h.2)]
      exact hrounds
    · rw [Listing.step_running_lockstep s hne]
      exact dealing.draws_settle_round hserves hne .running hlists hrounds
  due_same := by
    rintro due sequence operations s s' ⟨hserves, hne, rounds, hdue, hfresh | hrunning⟩ hsame
    · exact ⟨hserves, hne, rounds, hdue, .inl hfresh⟩
    · obtain ⟨hsequence, lists, hlists, hrounds⟩ := hrunning
      exact ⟨hserves, hne, rounds, hdue,
        .inr ⟨hsequence, lists, hlists.imp fun op texts => hsame op texts, hrounds⟩⟩

end Dealing

end Stencil
