import Mathlib.Data.List.Forall2
import Mathlib.Data.List.InsertIdx
import Stencil.Proofs.Sequence.Ending
import Stencil.Proofs.Sequence.Turns

/-!
# What operations hold after a step

A step changes operations in one respect only: the values that they hold. Each value is one that a
transform has given during the step or, in single mode, the text of a region when another one is
active. After a step with substitutions every operation holds a value, and it is the one that the
step shows for it.

Where the values come from is told by the state of the transforms, for any account of them that a
driver keeps.

Main definitions:

* `Driver.Tells`: states that tell which values were given.
* `Operation.asRead`, `Operation.Kept`: an operation without its value, and before and after a step.
* `Driver.Keeps`: what the ways to reach the transforms do to operations.
* `Sequence.arranged`: the substitutions of a step in the order of the operations.

Main statements:

* `Kept.origin`: where a value comes from that an operation holds.
* `faithful_step`: a step keeps the operations and shows what they hold after it.
* `step_single_operations`: without substitutions a step in single mode changes nothing.
-/

namespace Stencil

variable {σ : Type}

/-- The states of a driver tell which values transforms have given, and forget none of them. -/
structure Driver.Tells (driver : Driver σ) (Told : String → String → σ → Prop) : Prop where
  /-- To start an operation forgets nothing. -/
  init : ∀ op s transform text, Told transform text s → Told transform text (driver.init op s).2
  /-- To advance an operation forgets nothing. -/
  advance : ∀ op s transform text, Told transform text s →
    Told transform text (driver.advance op s).2
  /-- A value that is given is told. -/
  value : ∀ op s text, (driver.advance op s).1 = .ok (.value text) →
    Told op.transform text (driver.advance op s).2

/-- To tell nothing about values is true of every `driver`. -/
theorem Driver.tells_nothing (driver : Driver σ) : driver.Tells fun _ _ _ => True where
  init _ _ _ _ _ := trivial
  advance _ _ _ _ _ := trivial
  value _ _ _ _ := trivial

namespace Operation

/-- The operation `op` as it was when the template was read: it holds no value. -/
def asRead (op : Operation) : Operation :=
  { op with cached := none }

/-- The operation `op'` is `op` as it was, or with a value that was `told`, or, where it may be
`bare`, with the text of its region. -/
def Kept (told : String → String → Prop) (bare : Prop) (op op' : Operation) : Prop :=
  op' = op ∨ (∃ text, told op.transform text ∧ op' = op.withValue text) ∨
    bare ∧ op' = op.withLiteral

variable {told told' : String → String → Prop} {bare : Prop} {op op' op'' : Operation}

theorem Kept.mono (hmore : ∀ transform text, told transform text → told' transform text)
    (h : Kept told bare op op') : Kept told' bare op op' := by
  rcases h with rfl | ⟨text, htold, rfl⟩ | ⟨hbare, rfl⟩
  · exact .inl rfl
  · exact .inr (.inl ⟨text, hmore _ _ htold, rfl⟩)
  · exact .inr (.inr ⟨hbare, rfl⟩)

theorem Kept.trans (h : Kept told bare op op') (h' : Kept told bare op' op'') :
    Kept told bare op op'' := by
  -- of two values the later one is held, and neither changes anything else
  rcases h' with rfl | ⟨text, htold, rfl⟩ | ⟨hbare, rfl⟩
  · exact h
  · rcases h with rfl | ⟨_, -, rfl⟩ | ⟨-, rfl⟩ <;> exact .inr (.inl ⟨text, htold, rfl⟩)
  · rcases h with rfl | ⟨_, -, rfl⟩ | ⟨-, rfl⟩ <;> exact .inr (.inr ⟨hbare, rfl⟩)

/-- Nothing but the value of `op` changes. -/
theorem Kept.asRead_eq (h : Kept told bare op op') : op'.asRead = op.asRead := by
  rcases h with rfl | ⟨_, -, rfl⟩ | ⟨-, rfl⟩ <;> rfl

/-- Where the value that `op'` holds comes from. -/
theorem Kept.origin (h : Kept told bare op op') :
    op'.cached = op.cached ∨ (∃ text, op'.cached = some text ∧ told op.transform text) ∨
      bare ∧ op'.cached = some op.literal := by
  rcases h with rfl | ⟨text, htold, rfl⟩ | ⟨hbare, rfl⟩
  · exact .inl rfl
  · exact .inr (.inl ⟨text, rfl, htold⟩)
  · exact .inr (.inr ⟨hbare, rfl⟩)

end Operation

namespace Driver

variable {Told : String → String → σ → Prop} {bare : Prop} {driver : Driver σ}
  {op op' : Operation} {ops ops' ops'' : List Operation} {s s' s'' : σ}

/-- From one state to a later one nothing is forgotten, and operations are kept but for values that
are told of in the end, and the texts of their regions where these may be held. -/
structure Keeps (Told : String → String → σ → Prop) (bare : Prop) (ops : List Operation) (s : σ)
    (ops' : List Operation) (s' : σ) : Prop where
  /-- Nothing is forgotten. -/
  told : ∀ transform text, Told transform text s → Told transform text s'
  /-- The operations are kept. -/
  kept : List.Forall₂ (Operation.Kept (fun transform text => Told transform text s') bare) ops ops'

namespace Keeps

theorem of_told (h : ∀ transform text, Told transform text s → Told transform text s') :
    Keeps Told bare ops s ops s' :=
  ⟨h, List.forall₂_same.2 fun _ _ => .inl rfl⟩

theorem trans (h : Keeps Told bare ops s ops' s') (h' : Keeps Told bare ops' s' ops'' s'') :
    Keeps Told bare ops s ops'' s'' := by
  refine ⟨fun transform text htold => h'.told _ _ (h.told _ _ htold), ?_⟩
  have hfirst := h.kept.imp fun _ _ => Operation.Kept.mono h'.told
  have hsecond := h'.kept
  clear h h'
  induction hfirst generalizing ops'' with
  | nil => exact hsecond
  | cons hhead _ ih =>
    cases hsecond with
    | cons hhead' htail' => exact .cons (hhead.trans hhead') (ih htail')

/-- The first operation `op` is kept, and then the others. -/
theorem cons (htold : ∀ transform text, Told transform text s → Told transform text s')
    (hhead : Operation.Kept (fun transform text => Told transform text s') bare op op')
    (htail : Keeps Told bare ops s' ops' s'') :
    Keeps Told bare (op :: ops) s (op' :: ops') s'' :=
  ⟨fun _ _ h => htail.told _ _ (htold _ _ h), .cons (hhead.mono htail.told) htail.kept⟩

/-- The first operation `op` is kept, and the others are as they were. -/
theorem head (htold : ∀ transform text, Told transform text s → Told transform text s')
    (hhead : Operation.Kept (fun transform text => Told transform text s') bare op op') :
    Keeps Told bare (op :: ops) s (op' :: ops) s' :=
  cons htold hhead (of_told fun _ _ => id)

/-- What the operation at `i` was before. -/
theorem exists_getElem? (h : Keeps Told bare ops s ops' s') {i : Nat} (hop' : ops'[i]? = some op') :
    ∃ op, ops[i]? = some op ∧
      Operation.Kept (fun transform text => Told transform text s') bare op op' := by
  obtain ⟨hlt', rfl⟩ := List.getElem?_eq_some_iff.1 hop'
  have hlt : i < ops.length := h.kept.length_eq ▸ hlt'
  exact ⟨ops[i], List.getElem?_eq_getElem hlt, h.kept.get hlt hlt'⟩

/-- Nothing but the values of `ops` changes. -/
theorem map_asRead_eq (h : Keeps Told bare ops s ops' s') :
    ops'.map Operation.asRead = ops.map Operation.asRead := by
  have hsame : List.Forall₂ (fun op op' => op.asRead = op'.asRead) ops ops' :=
    h.kept.imp fun _ _ hkept => (Operation.Kept.asRead_eq hkept).symm
  rw [← List.forall₂_map_right_iff, ← List.forall₂_map_left_iff, List.forall₂_eq_eq_eq] at hsame
  exact hsame.symm

end Keeps

theorem initAll_told (h : driver.Tells Told) (ops : List Operation) (s : σ) :
    ∀ transform text, Told transform text s → Told transform text (driver.initAll ops s).2 := by
  induction ops generalizing s with
  | nil => exact fun _ _ => id
  | cons op ops ih =>
    intro transform text htold
    have hfirst := h.init op s transform text htold
    rw [initAll]
    generalize driver.init op s = started at hfirst ⊢
    rcases started with ⟨error | ⟨⟩, s'⟩
    · exact hfirst
    · exact ih s' transform text hfirst

/-- The operation that is given a value when `ops` take turns from `active` on is one of them. -/
theorem seek_told (h : driver.Tells Told) (active : Nat) (ops : List Operation) (s : σ) :
    let found := driver.seek active ops s
    (∀ transform text, Told transform text s → Told transform text found.2.2) ∧
      ∀ text, found.1 = .ok (some text) → ∃ op, active ≤ found.2.1 ∧
        ops[found.2.1 - active]? = some op ∧ Told op.transform text found.2.2 := by
  induction ops generalizing active s with
  | nil => exact ⟨fun _ _ => id, fun text hfound => by cases hfound⟩
  | cons op ops ih =>
    have htold := h.advance op s
    have hvalue := h.value op s
    rw [seek.eq_def]
    simp only
    generalize driver.advance op s = answer at htold hvalue ⊢
    rcases answer with ⟨error | text | _, s'⟩
    · exact ⟨htold, fun text hfound => by cases hfound⟩
    · refine ⟨htold, fun found hfound => ?_⟩
      cases hfound
      exact ⟨op, Nat.le_refl _, by simp, hvalue text rfl⟩
    · cases ops with
      | nil => exact ⟨htold, fun text hfound => by cases hfound⟩
      | cons next later =>
        have hstart := h.init next s'
        simp only
        generalize driver.init next s' = started at hstart ⊢
        rcases started with ⟨error | ⟨⟩, s''⟩
        · exact ⟨fun _ _ hbefore => hstart _ _ (htold _ _ hbefore),
            fun text hfound => by cases hfound⟩
        · -- the turn has gone to the next operation
          obtain ⟨hmore, hfound⟩ := ih (active + 1) s''
          simp only
          generalize driver.seek (active + 1) (next :: later) s'' = outcome at hmore hfound ⊢
          refine ⟨fun _ _ hbefore => hmore _ _ (hstart _ _ (htold _ _ hbefore)), ?_⟩
          intro text htext
          obtain ⟨found, hle, hget, hgiven⟩ := hfound text htext
          have hplace : outcome.2.1 - active = outcome.2.1 - (active + 1) + 1 := by omega
          exact ⟨found, by omega, by rw [hplace]; simpa using hget, hgiven⟩

/-- A round keeps `ops`, and all of them hold a value if all were given one. -/
theorem round_keeps (h : driver.Tells Told) (ops : List Operation) (s : σ) :
    let outcome := driver.round ops s
    Keeps Told bare ops s outcome.2.1 outcome.2.2 ∧
      (outcome.1 = .ok true → ∀ op ∈ outcome.2.1, op.cached.isSome = true) := by
  induction ops generalizing s with
  | nil => exact ⟨.of_told fun _ _ => id, by simp [round]⟩
  | cons op ops ih =>
    have htold := h.advance op s
    have hvalue := h.value op s
    rw [round]
    generalize driver.advance op s = answer at htold hvalue ⊢
    rcases answer with ⟨error | text | _, s'⟩
    · exact ⟨.of_told htold, fun hall => by cases hall⟩
    · obtain ⟨hkeeps, hall⟩ := ih s'
      refine ⟨.cons htold (.inr (.inl ⟨text, hvalue text rfl, rfl⟩)) hkeeps, ?_⟩
      intro hanswer
      exact List.forall_mem_cons.2 ⟨rfl, hall hanswer⟩
    · obtain ⟨hkeeps, -⟩ := ih s'
      simp only
      generalize driver.round ops s' = outcome at hkeeps ⊢
      -- the round is lost, whatever comes of the others
      rcases outcome with ⟨error | all, rest, s''⟩
      · exact ⟨.cons htold (.inl rfl) hkeeps, fun hall => by cases hall⟩
      · exact ⟨.cons htold (.inl rfl) hkeeps, fun hall => by cases hall⟩

/-- If the digits `ops` are primed, they are kept, and all of them hold a value if none was
empty. -/
theorem prime_keeps (h : driver.Tells Told) (ops : List Operation) (s : σ) :
    let outcome := driver.prime ops s
    Keeps Told bare ops s outcome.2.1 outcome.2.2 ∧
      (outcome.1 = .ok true → ∀ op ∈ outcome.2.1, op.cached.isSome = true) := by
  induction ops generalizing s with
  | nil => exact ⟨.of_told fun _ _ => id, by simp [prime]⟩
  | cons op ops ih =>
    rw [prime]
    by_cases hcached : op.cached.isSome = true
    · -- a digit that holds a value is passed over
      obtain ⟨hkeeps, hall⟩ := ih s
      rw [if_pos hcached]
      exact ⟨.cons (fun _ _ => id) (.inl rfl) hkeeps,
        fun hanswer => List.forall_mem_cons.2 ⟨hcached, hall hanswer⟩⟩
    · have htold := h.advance op s
      have hvalue := h.value op s
      rw [if_neg hcached]
      generalize driver.advance op s = answer at htold hvalue ⊢
      rcases answer with ⟨error | text | _, s'⟩
      · exact ⟨.of_told htold, fun hall => by cases hall⟩
      · obtain ⟨hkeeps, hall⟩ := ih s'
        exact ⟨.cons htold (.inr (.inl ⟨text, hvalue text rfl, rfl⟩)) hkeeps,
          fun hanswer => List.forall_mem_cons.2 ⟨rfl, hall hanswer⟩⟩
      · exact ⟨.of_told htold, fun hall => by cases hall⟩

/-- If the digits of `ops` behind the first one are primed, they are kept, and all of them hold a
value if none was empty. -/
theorem primeRest_keeps (h : driver.Tells Told) (ops : List Operation) (s : σ) :
    let outcome := driver.primeRest ops s
    Keeps Told bare ops s outcome.2.1 outcome.2.2 ∧
      (outcome.1 = .ok true → ∀ op ∈ outcome.2.1.tail, op.cached.isSome = true) := by
  cases ops with
  | nil => exact ⟨.of_told fun _ _ => id, by simp [primeRest]⟩
  | cons op ops =>
    obtain ⟨hkeeps, hall⟩ := prime_keeps h ops s
    exact ⟨.cons (fun _ _ => id) (.inl rfl) hkeeps, hall⟩

/-- The counter keeps its digits `ops`. If it moves, and all digits but the first held a value
before, all of them hold one. -/
theorem count_keeps (h : driver.Tells Told) (ops : List Operation) (s : σ) :
    let outcome := driver.count ops s
    Keeps Told bare ops s outcome.2.1 outcome.2.2 ∧
      (outcome.1 = .ok true → (∀ op ∈ ops.tail, op.cached.isSome = true) →
        ∀ op ∈ outcome.2.1, op.cached.isSome = true) := by
  induction ops generalizing s with
  | nil => exact ⟨.of_told fun _ _ => id, by simp [count]⟩
  | cons op ops ih =>
    have htold := h.advance op s
    have hvalue := h.value op s
    rw [count]
    generalize driver.advance op s = answer at htold hvalue ⊢
    rcases answer with ⟨error | text | _, s₁⟩
    · exact ⟨.of_told htold, fun hall => by cases hall⟩
    · exact ⟨.head htold (.inr (.inl ⟨text, hvalue text rfl, rfl⟩)),
        fun _ hrest => List.forall_mem_cons.2 ⟨rfl, hrest⟩⟩
    · -- a carry
      have hstart := h.init op s₁
      simp only
      generalize driver.init op s₁ = started at hstart ⊢
      rcases started with ⟨error | ⟨⟩, s₂⟩
      · exact ⟨.of_told fun _ _ hbefore => hstart _ _ (htold _ _ hbefore),
          fun hall => by cases hall⟩
      · have htold' := h.advance op s₂
        have hvalue' := h.value op s₂
        have hmore : ∀ transform text, Told transform text s →
            Told transform text (driver.advance op s₂).2 :=
          fun _ _ hbefore => htold' _ _ (hstart _ _ (htold _ _ hbefore))
        simp only
        generalize driver.advance op s₂ = answer at hmore hvalue' ⊢
        rcases answer with ⟨error | text | _, s₃⟩
        · exact ⟨.of_told hmore, fun hall => by cases hall⟩
        · obtain ⟨hkeeps, hall⟩ := ih s₃
          refine ⟨.cons hmore (.inr (.inl ⟨text, hvalue' text rfl, rfl⟩)) hkeeps, ?_⟩
          intro hanswer hrest
          exact List.forall_mem_cons.2
            ⟨rfl, hall hanswer fun other hother => hrest other (List.mem_of_mem_tail hother)⟩
        · exact ⟨.of_told hmore, fun hall => by cases hall⟩

end Driver

namespace Sequence

variable {Told : String → String → σ → Prop} {driver : Driver σ} {sequence : Sequence}
  {operations : List Operation} {active : Nat} {text : String} {s : σ}

/-- The substitutions `subs` of a step in the order of the operations: in single mode the one of the
active operation comes first in the step. -/
def arranged (sequence : Sequence) (subs : List Substitution) : List Substitution :=
  match sequence.mode, subs with
  | .single, sub :: subs => subs.insertIdx sequence.active sub
  | _, subs => subs

/-- In single mode a step shows what the operations hold after it: the one at `active` holds `text`,
and the others hold the texts of their regions. -/
theorem insertIdx_asWritten {op : Operation} (hactive : operations[active]? = some op) :
    ((operations.eraseIdx active).map Operation.asWritten).insertIdx active ⟨op.aliasName, text⟩ =
      (holdActive active text operations).map Operation.current := by
  have hlt : active < operations.length := (List.getElem?_eq_some_iff.1 hactive).1
  have hlength : active ≠ (operations.map Operation.asWritten).length := by
    rw [List.length_map]
    exact Nat.ne_of_lt hlt
  rw [← List.eraseIdx_map, List.insertIdx_eraseIdx_self hlength]
  apply List.ext_getElem?
  intro i
  rw [List.getElem?_set, List.length_map, if_pos hlt, List.getElem?_map, List.getElem?_map,
    getElem?_holdActive]
  -- the two agree at the active place and at every other
  by_cases hi : active = i
  · subst hi
    simp [hactive, Operation.current]
  · rw [if_neg hi]
    cases operations[i]? with
    | none => rfl
    | some other => simp [Ne.symm hi, Operation.current, Operation.asWritten, Operation.withLiteral]

/-- In single mode a step keeps `operations`, if it is `told` of its value. -/
theorem kept_holdActive {told : String → String → Prop} {bare : Prop} {op : Operation}
    (hactive : operations[active]? = some op) (htold : told op.transform text) (hbare : bare) :
    List.Forall₂ (Operation.Kept told bare) operations (holdActive active text operations) := by
  rw [List.forall₂_iff_get]
  refine ⟨by simp [holdActive], fun i hi hi' => ?_⟩
  simp only [List.get_eq_getElem, holdActive, List.getElem_mapIdx]
  -- the active operation holds what was told, and the others their own text
  by_cases heq : i = active
  · subst heq
    rw [if_pos rfl]
    have hop : operations[i] = op := by
      rw [List.getElem?_eq_getElem hi] at hactive
      exact Option.some.inj hactive
    exact .inr (.inl ⟨text, by rwa [hop], rfl⟩)
  · rw [if_neg heq]
    exact .inr (.inr ⟨hbare, rfl⟩)

end Sequence

/-- A step keeps the operations, and if it gives substitutions they hold what it shows. -/
structure Step.Faithful (Told : String → String → σ → Prop) (mode : Mode)
    (operations : List Operation) (s : σ) (step : Step σ) : Prop where
  /-- The operations are kept. -/
  keeps : Driver.Keeps Told (mode = .single) operations s step.operations step.state
  /-- The mode stays the same. -/
  mode_eq : step.sequence.mode = mode
  /-- What is shown is held. -/
  shows : ∀ subs, step.answer = .ok (some subs) →
    step.sequence.arranged subs = step.operations.map Operation.current ∧
      ∀ op ∈ step.operations, op.cached.isSome = true
  /-- There is one substitution for each operation. -/
  perm : ∀ subs, step.answer = .ok (some subs) →
    subs.Perm (step.operations.map Operation.current)

namespace Sequence

variable {Told : String → String → σ → Prop} {driver : Driver σ} {operations ops : List Operation}
  {s s' : σ}

/-- A `step` without substitutions that keeps `operations` is faithful, for it shows nothing. -/
theorem faithful_of_none {mode : Mode} {step : Step σ}
    (hkeeps : Driver.Keeps Told (mode = .single) operations s step.operations step.state)
    (hmode : step.sequence.mode = mode) (hnone : ∀ subs, step.answer ≠ .ok (some subs)) :
    Step.Faithful Told mode operations s step where
  keeps := hkeeps
  mode_eq := hmode
  shows subs hsubs := absurd hsubs (hnone subs)
  perm subs hsubs := absurd hsubs (hnone subs)

theorem faithful_stop (sequence : Sequence)
    (h : Driver.Keeps Told (sequence.mode = .single) operations s ops s') :
    Step.Faithful Told sequence.mode operations s (sequence.stop ops s') :=
  faithful_of_none h rfl fun _ => nofun

theorem faithful_fail (sequence : Sequence) (error : RunError)
    (h : Driver.Keeps Told (sequence.mode = .single) operations s ops s') :
    Step.Faithful Told sequence.mode operations s (sequence.fail error ops s') :=
  faithful_of_none h rfl fun _ => nofun

/-- In lockstep and cross mode the values that are held after `outcome` are shown in their order. -/
theorem faithful_settle {sequence : Sequence} (hmode : sequence.mode ≠ .single)
    {outcome : Except RunError Bool × List Operation × σ}
    (hkeeps : Driver.Keeps Told (sequence.mode = .single) operations s outcome.2.1 outcome.2.2)
    (hall : outcome.1 = .ok true → ∀ op ∈ outcome.2.1, op.cached.isSome = true) :
    Step.Faithful Told sequence.mode operations s (sequence.settle outcome) := by
  rcases outcome with ⟨error | _ | _, ops, s'⟩
  · exact faithful_fail sequence error hkeeps
  · exact faithful_stop sequence hkeeps
  · refine ⟨hkeeps, rfl, fun subs hsubs => ⟨?_, hall rfl⟩, fun subs hsubs => by
      cases hsubs
      exact .refl _⟩
    cases hsubs
    unfold arranged
    split
    · rename_i hsingle _
      exact absurd hsingle hmode
    · rfl

theorem faithful_stepSingle (h : driver.Tells Told) {sequence : Sequence}
    (hmode : sequence.mode = .single) (operations : List Operation) (s : σ) :
    Step.Faithful Told sequence.mode operations s (sequence.stepSingle driver operations s) := by
  obtain ⟨htold, hfound⟩ :=
    Driver.seek_told h sequence.active (operations.drop sequence.active) s
  unfold stepSingle
  generalize driver.seek sequence.active (operations.drop sequence.active) s = found
    at htold hfound ⊢
  rcases found with ⟨error | _ | text, active, s'⟩
  · exact faithful_of_none (.of_told htold) rfl fun _ => nofun
  · exact faithful_of_none (.of_told htold) rfl fun _ => nofun
  · obtain ⟨op, hle, hget, hgiven⟩ := hfound text rfl
    have hactive : operations[active]? = some op := by
      rw [List.getElem?_drop] at hget
      rwa [Nat.add_sub_cancel' hle] at hget
    -- all operations but the active one are shown as they are written
    have hshown : showActive active text operations =
        ⟨op.aliasName, text⟩ :: (operations.eraseIdx active).map Operation.asWritten := by
      simp only [showActive, hactive]
    refine ⟨⟨htold, kept_holdActive hactive hgiven hmode⟩, rfl, fun subs hsubs => ?_,
      fun subs hsubs => ?_⟩
    · cases hsubs
      constructor
      · rw [← insertIdx_asWritten hactive]
        simp only [arranged, hmode, hshown]
      · intro other hother
        obtain ⟨i, -, rfl⟩ := List.mem_iff_getElem.1 hother
        simp only [holdActive, List.getElem_mapIdx]
        split <;> rfl
    · cases hsubs
      have hlt : active < operations.length := (List.getElem?_eq_some_iff.1 hactive).1
      rw [hshown, ← insertIdx_asWritten hactive]
      refine (List.perm_insertIdx _ _ ?_).symm
      rw [List.length_map, List.length_eraseIdx_of_lt hlt]
      omega

theorem faithful_next (h : driver.Tells Told) (sequence : Sequence)
    (hheld : sequence.mode = .cross → ∀ op ∈ operations.tail, op.cached.isSome = true) (s : σ) :
    Step.Faithful Told sequence.mode operations s (sequence.next driver operations s) := by
  unfold next
  split
  · exact faithful_stop sequence (.of_told fun _ _ => id)
  · rename_i hmode
    exact faithful_stepSingle h hmode operations s
  · rename_i hmode
    obtain ⟨hkeeps, hall⟩ := Driver.round_keeps h operations s
    exact faithful_settle (by simp [hmode]) hkeeps hall
  · rename_i hmode
    -- a count does not fill the digits behind the first one, so they hold something before
    obtain ⟨hkeeps, hall⟩ := Driver.count_keeps h operations s
    exact faithful_settle (by simp [hmode]) hkeeps fun hanswer => hall hanswer (hheld hmode)

theorem faithful_start (h : driver.Tells Told) (sequence : Sequence) (operations : List Operation)
    (s : σ) :
    Step.Faithful Told sequence.mode operations s (sequence.start driver operations s) := by
  unfold start
  simp only
  generalize (if sequence.mode = .single then operations.take 1 else operations) = first
  have htold := Driver.initAll_told h first s
  generalize driver.initAll first s = started at htold ⊢
  rcases started with ⟨error | ⟨⟩, s₁⟩
  · exact faithful_fail { sequence with active := 0 } error (.of_told htold)
  · by_cases hcross : sequence.mode = .cross
    · simp only [if_pos hcross]
      obtain ⟨hkeeps, hall⟩ := Driver.primeRest_keeps h operations s₁
      generalize driver.primeRest operations s₁ = outcome at hkeeps hall ⊢
      have hprimed : Driver.Keeps Told (sequence.mode = .single) operations s outcome.2.1
          outcome.2.2 := .trans (.of_told htold) hkeeps
      rcases outcome with ⟨error | _ | _, ops, s₂⟩
      · exact faithful_fail { sequence with active := 0 } error hprimed
      · exact faithful_stop { sequence with active := 0 } hprimed
      · -- the count goes on from the digits that are primed
        have hnext : Step.Faithful Told sequence.mode ops s₂
            (({ sequence with active := 0 } : Sequence).next driver ops s₂) :=
          faithful_next h { sequence with active := 0 } (fun _ => hall rfl) s₂
        exact ⟨hprimed.trans hnext.keeps, hnext.mode_eq, hnext.shows, hnext.perm⟩
    · simp only [if_neg hcross]
      have hnext : Step.Faithful Told sequence.mode operations s₁
          (({ sequence with active := 0 } : Sequence).next driver operations s₁) :=
        faithful_next h { sequence with active := 0 } (fun hmode => absurd hmode hcross) s₁
      exact ⟨.trans (.of_told htold) hnext.keeps, hnext.mode_eq, hnext.shows, hnext.perm⟩

/-- A step keeps `operations` and shows what they hold after it. If `sequence` is running it has
shown something, so all operations hold a value. -/
theorem faithful_step (h : driver.Tells Told) (sequence : Sequence)
    (hheld : sequence.phase = .running → ∀ op ∈ operations, op.cached.isSome = true) (s : σ) :
    Step.Faithful Told sequence.mode operations s (sequence.step driver operations s) := by
  unfold step
  split
  · exact faithful_of_none (.of_told fun _ _ => id) rfl fun _ hsubs => by cases hsubs
  · split
    · exact faithful_stop sequence (.of_told fun _ _ => id)
    · exact faithful_start h sequence operations s
  · rename_i hphase
    split
    · exact faithful_stop sequence (.of_told fun _ _ => id)
    · exact faithful_next h sequence
        (fun _ op hop => hheld hphase op (List.mem_of_mem_tail hop)) s

/-- In single mode `operations` change only together with what is shown. -/
theorem stepSingle_operations (sequence : Sequence) (driver : Driver σ)
    (operations : List Operation) (s : σ) :
    (sequence.stepSingle driver operations s).operations = operations ∨
      ∃ subs, (sequence.stepSingle driver operations s).answer = .ok (some subs) := by
  unfold stepSingle
  split
  · exact .inl rfl
  · exact .inl rfl
  · exact .inr ⟨_, rfl⟩

/-- In single mode a step without substitutions leaves `operations` as they are. -/
theorem step_single_operations {sequence : Sequence} (hmode : sequence.mode = .single)
    (driver : Driver σ) (operations : List Operation) (s : σ)
    (hnone : ∀ subs, (sequence.step driver operations s).answer ≠ .ok (some subs)) :
    (sequence.step driver operations s).operations = operations := by
  -- a value is only held in the step that shows it
  have hnext : ∀ (sequence : Sequence) (s : σ), sequence.mode = .single →
      (sequence.next driver operations s).operations = operations ∨
        ∃ subs, (sequence.next driver operations s).answer = .ok (some subs) := by
    intro sequence s hmode
    simp only [next, hmode]
    exact stepSingle_operations sequence driver operations s
  have hstart : (sequence.start driver operations s).operations = operations ∨
      ∃ subs, (sequence.start driver operations s).answer = .ok (some subs) := by
    unfold start
    simp only [hmode, reduceCtorEq, if_false]
    split
    · exact .inl rfl
    · exact hnext _ _ rfl
  have hstep : (sequence.step driver operations s).operations = operations ∨
      ∃ subs, (sequence.step driver operations s).answer = .ok (some subs) := by
    unfold step
    split
    · exact .inl rfl
    · split
      · exact .inl rfl
      · exact hstart
    · split
      · exact .inl rfl
      · exact hnext _ _ hmode
  rcases hstep with hsame | ⟨subs, hsubs⟩
  · exact hsame
  · exact absurd hsubs (hnone subs)

end Sequence

end Stencil
