import Mathlib.Data.List.Nodup
import Stencil.Proofs.Sequence.Completeness
import Stencil.Proofs.Sequence.Cross
import Stencil.Proofs.Sequence.Lockstep
import Stencil.Proofs.Sequence.Simulation

/-!
# What an earlier run has left behind

Operations that went through a run, finished or not, still hold values, and their transforms have
moved on. A new run over them starts every transform afresh before it asks it for a value, so
nothing of the driver's state gets through. The values that are held have no part in single mode,
which gives each operation a value or the text of its region in every step, nor in lockstep mode,
where every operation is given a value in every round.

In cross mode the first digit is given a value by the first count. The digits behind it are given
one by priming, which passes over digits that hold a value already. Such a digit shows what was left
in it while its own values are all still to come, so the run is longer than it should be.

Main definitions:

* `Listing.Alike`: states with the same values to come.
* `Step.Meets`: steps with the same answer, and the same outcome if they give substitutions.
* `Listing.toCome`: how many combinations a counter still goes through.

Main statements:

* `meets_stepAt`: runs that meet in their first step meet in every step.
* `count_toCome`: to count is to go through one of the combinations to come.
* `answer_stepAt_of_held`, `answer_stepAt_volume_ne`: when runs give the same answers, and when they
  do not.
* `leftovers_run`: what is left behind has no part in a run, unless it is a value held by a digit
  behind the first.
-/

namespace Stencil

namespace Operation

variable {α : Type} {f : Operation → α} {op op' : Operation} {ops ops' : List Operation}

theorem eq_asRead (hf : ∀ op text, f (op.withValue text) = f op) (op : Operation) :
    f op.asRead = f op := by
  obtain ⟨transform, aliasName, literal, _ | text⟩ := op
  · rfl
  · exact (hf ⟨transform, aliasName, literal, none⟩ text).symm

/-- If `f` does not depend on the value that an operation holds, it is the same for `op` and `op'`,
which differ in nothing else. -/
theorem eq_of_asRead_eq (hf : ∀ op text, f (op.withValue text) = f op)
    (h : op'.asRead = op.asRead) : f op' = f op := by
  rw [← eq_asRead hf op', h, eq_asRead hf]

theorem map_eq_of_map_asRead_eq (hf : ∀ op text, f (op.withValue text) = f op)
    (h : ops'.map asRead = ops.map asRead) : ops'.map f = ops.map f := by
  have hmap : ∀ ops : List Operation, (ops.map asRead).map f = ops.map f := by
    intro ops
    rw [List.map_map]
    exact List.map_congr_left fun op _ => eq_asRead hf op
  rw [← hmap ops', h, hmap]

/-- If `op` and `op'` differ in the values that they hold, nothing differs once they are given
`text`. -/
theorem withValue_of_asRead_eq (h : op'.asRead = op.asRead) (text : String) :
    op'.withValue text = op.withValue text :=
  congrArg (·.withValue text) h

theorem transform_of_asRead_eq (h : op'.asRead = op.asRead) : op'.transform = op.transform :=
  eq_of_asRead_eq (f := Operation.transform) (fun _ _ => rfl) h

end Operation

namespace Listing

variable {σ : Type} {driver : Driver σ} {names : List String} (listing : Listing driver names)
  {op op' : Operation} {ops ops' : List Operation} {s t : σ}

theorem left_of_asRead_eq (h : op'.asRead = op.asRead) (s : σ) :
    listing.left s op' = listing.left s op :=
  Operation.eq_of_asRead_eq (listing.left_withValue s) h

theorem values_of_asRead_eq (h : op'.asRead = op.asRead) :
    listing.values op' = listing.values op :=
  Operation.eq_of_asRead_eq listing.values_withValue h

theorem Serves.of_map_asRead_eq (hserves : Serves names ops)
    (h : ops'.map Operation.asRead = ops.map Operation.asRead) : Serves names ops' := by
  have htransforms : ops'.map (·.transform) = ops.map (·.transform) :=
    Operation.map_eq_of_map_asRead_eq (fun _ _ => rfl) h
  refine ⟨fun op hop => ?_, htransforms ▸ hserves.distinct⟩
  obtain ⟨base, hbase, heq⟩ := List.mem_map.1 (htransforms ▸ List.mem_map_of_mem hop)
  exact heq ▸ hserves.mem base hbase

theorem volume_of_map_asRead_eq (h : ops'.map Operation.asRead = ops.map Operation.asRead) :
    listing.volume ops' = listing.volume ops := by
  have hsize : ∀ op text, listing.size (op.withValue text) = listing.size op := by
    intro op text
    rw [size, listing.values_withValue, size]
  rw [volume, Operation.map_eq_of_map_asRead_eq hsize h, volume]

/-! ### Single mode -/

theorem left_held (s : σ) (op : Operation) (held : Option String) :
    listing.left s { op with cached := held } = listing.left s op := by
  have hread : Operation.asRead { op with cached := held } = op.asRead := rfl
  exact listing.left_of_asRead_eq hread s

theorem values_held (op : Operation) (held : Option String) :
    listing.values { op with cached := held } = listing.values op := by
  have hread : Operation.asRead { op with cached := held } = op.asRead := rfl
  exact listing.values_of_asRead_eq hread

/-- The values to come for `op` are before it. -/
theorem ahead_left (hop : op.transform ∈ names) (s : σ) :
    driver.Ahead op (listing.left s op) s := by
  induction hleft : listing.left s op generalizing s with
  | nil =>
    intro held
    rw [listing.advance_fst { op with cached := held } s hop, listing.left_held, hleft]
    rfl
  | cons text texts ih =>
    intro held
    refine ⟨?_, ih _ ?_⟩
    · rw [listing.advance_fst { op with cached := held } s hop, listing.left_held, hleft]
      rfl
    · rw [← listing.left_held _ op held, listing.left_advance { op with cached := held } s hop,
        listing.left_held, hleft, List.tail_cons]

/-- A driver that reads out lists puts the list of an operation of `ops` before it when it is
started. -/
theorem starts (hserves : Serves names ops) : driver.Starts listing.values ops where
  values_held op _ held := listing.values_held op held
  init_fst op hop held s := listing.init_fst { op with cached := held } s (hserves.mem op hop)
  ahead_init op hop held s := by
    have hmem := hserves.mem op hop
    have hahead := listing.ahead_left hmem (driver.init { op with cached := held } s).2
    rwa [← listing.left_held _ op held, listing.left_init { op with cached := held } s hmem,
      listing.values_held] at hahead

end Listing

namespace Sequence

theorem showActive_map_asRead (active : Nat) (text : String) (ops : List Operation) :
    showActive active text (ops.map Operation.asRead) = showActive active text ops := by
  rw [showActive, showActive, List.getElem?_map, List.eraseIdx_map, List.map_map]
  cases ops[active]? with
  | none => rfl
  | some op => rfl

end Sequence

namespace Driver

variable {σ : Type} {driver : Driver σ} {values : Operation → List String} {ops : List Operation}

/-- What a `step` in single mode answers, by the turns that are `upcoming`. -/
theorem Takes.answer_eq {upcoming : List (Nat × String)} {pending made : List Call} {step : Step σ}
    (h : driver.Takes values ops upcoming pending step made) :
    step.answer =
      .ok (upcoming.head?.map fun turn => Sequence.showActive turn.1 turn.2 ops) := by
  cases upcoming with
  | nil => exact h.1
  | cons turn later =>
    obtain ⟨rest, s, hstep, -⟩ := h
    rw [hstep]
    rfl

/-- The answer of step `n` of a run in single mode, in closed form. -/
theorem Starts.answer_stepAt (hstarts : driver.Starts values ops) (hne : ops ≠ []) (s : σ)
    (n : Nat) :
    (Sequence.stepAt { mode := .single } driver ops s n).answer =
      .ok ((turnsFrom 0 (ops.map values))[n]?.map fun turn =>
        Sequence.showActive turn.1 turn.2 ops) := by
  rcases Nat.lt_or_ge (turnsFrom 0 (ops.map values)).length n with hlt | hle
  · -- the step behind all values has ended the run
    obtain ⟨pending, htakes, -⟩ := takes_stepAt hstarts hne s (Nat.le_refl _)
    rw [List.drop_length] at htakes
    rw [(Sequence.stepAt_of_isFinished hlt htakes.2.1).1,
      List.getElem?_eq_none (Nat.le_of_lt hlt)]
    rfl
  · obtain ⟨pending, htakes, -⟩ := takes_stepAt hstarts hne s hle
    rw [htakes.answer_eq, List.head?_drop]

end Driver

/-! ### Runs that meet -/

/-- The steps `step` and `other` have the same answer, and if they give substitutions they differ in
nothing but states that `R` relates. -/
def Step.Meets {σ τ : Type} (R : σ → τ → Prop) (step : Step σ) (other : Step τ) : Prop :=
  step.answer = other.answer ∧ ∀ subs, step.answer = .ok (some subs) → step.Level R other

namespace Sequence

variable {σ τ : Type} {driver : Driver σ} {other : Driver τ} {R : σ → τ → Prop}

/-- What `n + 1` commands to make a step leave is what step `n` of a run leaves. -/
theorem run_replicate_step (sequence : Sequence) (driver : Driver σ) (ops : List Operation) (s : σ)
    (n : Nat) :
    Progress.run driver ⟨sequence, ops, s⟩ (List.replicate (n + 1) .step) =
      ⟨(sequence.stepAt driver ops s n).sequence, (sequence.stepAt driver ops s n).operations,
        (sequence.stepAt driver ops s n).state⟩ := by
  induction n with
  | zero => rfl
  | succ n ih =>
    rw [List.replicate_succ', Progress.run, List.foldl_append]
    exact congrArg (Progress.after driver · .step) ih

/-- No step of a run changes anything about `ops` but the values that they hold. -/
theorem map_asRead_stepAt (mode : Mode) (driver : Driver σ) (ops : List Operation) (s : σ)
    (n : Nat) :
    (stepAt { mode } driver ops s n).operations.map Operation.asRead =
      ops.map Operation.asRead := by
  have hfresh : (⟨{ mode }, ops, s⟩ : Progress σ).Stocked := nofun
  have hrun : (Progress.run driver ⟨{ mode }, ops, s⟩
      (List.replicate (n + 1) .step)).operations.map Operation.asRead =
      ops.map Operation.asRead := (Progress.stocked_run hfresh _).2
  rwa [run_replicate_step] at hrun

theorem conclusive_stepAt (sequence : Sequence) (driver : Driver σ) (ops : List Operation) (s : σ)
    (n : Nat) : Conclusive (sequence.stepAt driver ops s n) := by
  cases n with
  | zero => exact conclusive_step _ _ _ _
  | succ n => exact conclusive_step _ _ _ _

/-- Runs over `ops` and `ops'` that meet in their first step meet in every step, if their drivers go
side by side. -/
theorem meets_stepAt {mode : Mode} {ops ops' : List Operation} {s : σ} {t : τ}
    (h : driver.Abreast (ops.map Operation.asRead) R other)
    (hfirst : Step.Meets R (step { mode } driver ops s) (step { mode } other ops' t)) (n : Nat) :
    Step.Meets R (stepAt { mode } driver ops s n) (stepAt { mode } other ops' t n) := by
  induction n with
  | zero => exact hfirst
  | succ n ih =>
    obtain ⟨hanswer, hlevel⟩ := ih
    by_cases hgiven : ∃ subs, (stepAt { mode } driver ops s n).answer = .ok (some subs)
    · -- both have come to the same place, and go on from it side by side
      obtain ⟨subs, hsubs⟩ := hgiven
      obtain ⟨-, hsequence, hoperations, hstate⟩ := hlevel subs hsubs
      have hknown : ∀ op ∈ (stepAt { mode } driver ops s n).operations,
          op.asRead ∈ ops.map Operation.asRead := by
        intro op hop
        rw [← map_asRead_stepAt mode driver ops s n]
        exact List.mem_map_of_mem hop
      have hnext := step_level h (stepAt { mode } driver ops s n).sequence hknown hstate
      rw [stepAt_succ, stepAt_succ, ← hsequence, ← hoperations]
      exact ⟨hnext.answer, fun _ _ => hnext⟩
    · -- both have ended
      have hnone : ∀ subs, (stepAt { mode } driver ops s n).answer ≠ .ok (some subs) :=
        not_exists.1 hgiven
      have hended := (stepAt_succ_of_isFinished (conclusive_stepAt _ _ _ _ _ hnone)).1
      have hended' := (stepAt_succ_of_isFinished
        (conclusive_stepAt { mode } other ops' t n fun subs hsubs =>
          hnone subs (hanswer.trans hsubs))).1
      refine ⟨hended.trans hended'.symm, fun subs hsubs => ?_⟩
      rw [hended] at hsubs
      cases hsubs

end Sequence

namespace Listing

variable {σ : Type} {driver : Driver σ} {names : List String} (listing : Listing driver names)
  {op op' : Operation} {ops ops' rest rest' : List Operation} {s t : σ}

/-- Two states have the same values to come for the operations `ops`. -/
def Alike (ops : List Operation) (s t : σ) : Prop :=
  ∀ op : Operation, op.asRead ∈ ops.map Operation.asRead → listing.left s op = listing.left t op

/-- If `op` and `op'` are among operations that are served, they are the same but for the values
that they hold, or of different transforms. -/
theorem Serves.asRead_eq_or_ne (hserves : Serves names ops)
    (hop : op.asRead ∈ ops.map Operation.asRead) (hop' : op'.asRead ∈ ops.map Operation.asRead) :
    op'.asRead = op.asRead ∨ op'.transform ≠ op.transform := by
  obtain ⟨base, hbase, hread⟩ := List.mem_map.1 hop
  obtain ⟨base', hbase', hread'⟩ := List.mem_map.1 hop'
  refine or_iff_not_imp_right.2 fun heq => ?_
  rw [Decidable.not_not, ← Operation.transform_of_asRead_eq hread,
    ← Operation.transform_of_asRead_eq hread'] at heq
  rw [← hread, ← hread', List.inj_on_of_nodup_map hserves.distinct hbase' hbase heq]

theorem Serves.mem_of_asRead (hserves : Serves names ops)
    (hop : op.asRead ∈ ops.map Operation.asRead) : op.transform ∈ names := by
  obtain ⟨base, hbase, hread⟩ := List.mem_map.1 hop
  rw [← Operation.transform_of_asRead_eq hread]
  exact hserves.mem base hbase

/-- From states `s` and `t` that are alike, starting `op` or `op'` leads to states that are alike,
whatever values these hold. -/
theorem Alike.init (h : listing.Alike ops s t) (hserves : Serves names ops)
    (hop : op.asRead ∈ ops.map Operation.asRead) (hread : op'.asRead = op.asRead) :
    ∃ s' t', driver.init op s = (.ok (), s') ∧ driver.init op' t = (.ok (), t') ∧
      listing.Alike ops s' t' := by
  have hmem := hserves.mem_of_asRead hop
  have htransform := Operation.transform_of_asRead_eq hread
  have hmem' : op'.transform ∈ names := htransform ▸ hmem
  refine ⟨_, _, listing.init_eq s hmem, listing.init_eq t hmem', fun other hother => ?_⟩
  rcases hserves.asRead_eq_or_ne hop hother with hsame | hne
  · rw [listing.left_of_asRead_eq hsame, listing.left_of_asRead_eq (hsame.trans hread.symm),
      listing.left_init op s hmem, listing.left_init op' t hmem', listing.values_of_asRead_eq hread]
  · rw [listing.left_init_of_ne op other s hmem hne,
      listing.left_init_of_ne op' other t hmem' (htransform ▸ hne), h other hother]

/-- From states `s` and `t` that are alike, `op` and `op'` are given the same answer, and this leads
to states that are alike, whatever values these hold. -/
theorem Alike.advance (h : listing.Alike ops s t) (hserves : Serves names ops)
    (hop : op.asRead ∈ ops.map Operation.asRead) (hread : op'.asRead = op.asRead) :
    ∃ s' t', driver.advance op s = (.ok (.ofList (listing.left s op)), s') ∧
      driver.advance op' t = (.ok (.ofList (listing.left s op)), t') ∧ listing.Alike ops s' t' := by
  have hmem := hserves.mem_of_asRead hop
  have htransform := Operation.transform_of_asRead_eq hread
  have hmem' : op'.transform ∈ names := htransform ▸ hmem
  have hleft : listing.left t op' = listing.left s op := by
    rw [listing.left_of_asRead_eq hread, h op hop]
  refine ⟨_, _, listing.advance_eq s hmem, hleft ▸ listing.advance_eq t hmem',
    fun other hother => ?_⟩
  rcases hserves.asRead_eq_or_ne hop hother with hsame | hne
  · rw [listing.left_of_asRead_eq hsame, listing.left_of_asRead_eq (hsame.trans hread.symm),
      listing.left_advance op s hmem, listing.left_advance op' t hmem', hleft]
  · rw [listing.left_advance_of_ne op other s hmem hne,
      listing.left_advance_of_ne op' other t hmem' (htransform ▸ hne), h other hother]

/-- From states that are alike, a `driver` that reads out lists goes beside itself. -/
theorem abreast (hserves : Serves names ops) :
    driver.Abreast (ops.map Operation.asRead) (listing.Alike ops) driver where
  init op s t hop hst := by
    obtain ⟨s', t', hs, ht, halike⟩ := hst.init listing hserves hop rfl
    exact ⟨.ok (), s', t', hs, ht, halike⟩
  advance op s t hop hst := by
    obtain ⟨s', t', hs, ht, halike⟩ := hst.advance listing hserves hop rfl
    exact ⟨.ok (.ofList (listing.left s op)), s', t', hs, ht, halike⟩

/-- When all of `ops`, or of `ops'`, were started, the states are alike, whatever `s` and `t` were
before. -/
theorem alike_initAll (hserves : Serves names ops)
    (hread : ops'.map Operation.asRead = ops.map Operation.asRead) (s t : σ) :
    ∃ s' t', driver.initAll ops s = (.ok (), s') ∧ driver.initAll ops' t = (.ok (), t') ∧
      listing.Alike ops s' t' := by
  obtain ⟨s', hinit, hstarted, -⟩ := listing.initAll_eq hserves s
  obtain ⟨t', hinit', hstarted', -⟩ := listing.initAll_eq (hserves.of_map_asRead_eq hread) t
  refine ⟨s', t', hinit, hinit', fun op hop => ?_⟩
  obtain ⟨base, hbase, heq⟩ := List.mem_map.1 hop
  obtain ⟨base', hbase', heq'⟩ := List.mem_map.1 (hread ▸ hop)
  rw [← listing.left_of_asRead_eq heq, hstarted base hbase, ← listing.left_of_asRead_eq heq',
    hstarted' base' hbase', listing.values_of_asRead_eq (heq.trans heq'.symm)]

/-- The outcomes `outcome` and `other` have the same answer and states that are alike, and if all
operations were given a value they leave the same operations. -/
def Meet (ops : List Operation) (outcome other : Except RunError Bool × List Operation × σ) :
    Prop :=
  outcome.1 = other.1 ∧ listing.Alike ops outcome.2.2 other.2.2 ∧
    (outcome.1 = .ok true → outcome.2.1 = other.2.1)

/-- A round leaves nothing of the values in which `rest` and `rest'` differ before it. -/
theorem meet_round (hserves : Serves names ops)
    (hknown : ∀ op ∈ rest, op.asRead ∈ ops.map Operation.asRead)
    (hread : rest'.map Operation.asRead = rest.map Operation.asRead)
    (hst : listing.Alike ops s t) :
    listing.Meet ops (driver.round rest s) (driver.round rest' t) := by
  induction rest generalizing rest' s t with
  | nil =>
    obtain rfl := List.map_eq_nil_iff.1 hread
    exact ⟨rfl, hst, fun _ => rfl⟩
  | cons op rest ih =>
    obtain ⟨op', rest', rfl, hop, hothers⟩ := List.map_eq_cons_iff.1 hread
    obtain ⟨hhead, htail⟩ := List.forall_mem_cons.1 hknown
    obtain ⟨s₁, t₁, hs, ht, halike⟩ := hst.advance listing hserves hhead hop
    have hmeet := ih htail hothers halike
    rcases hround : driver.round rest s₁ with ⟨answer, later, s₂⟩
    rcases hround' : driver.round rest' t₁ with ⟨answer', later', t₂⟩
    rw [hround, hround'] at hmeet
    obtain ⟨rfl, hstates, hsame⟩ := hmeet
    rw [Driver.round, Driver.round, hs, ht]
    cases listing.left s op with
    | nil =>
      -- the round is lost, whatever comes of the others
      simp only [Advance.ofList, hround, hround']
      rcases answer with error | all
      · exact ⟨rfl, hstates, fun hall => by cases hall⟩
      · exact ⟨rfl, hstates, fun hall => by cases hall⟩
    | cons text texts =>
      simp only [Advance.ofList, hround, hround']
      refine ⟨rfl, hstates, fun hall => ?_⟩
      exact List.cons_eq_cons.2 ⟨(Operation.withValue_of_asRead_eq hop text).symm, hsame hall⟩

/-- A count leaves nothing of the values in which the first digits `op` and `op'` differ before
it. -/
theorem meet_count_cons (hserves : Serves names ops)
    (hknown : ∀ other ∈ op :: rest, other.asRead ∈ ops.map Operation.asRead)
    (hread : op'.asRead = op.asRead) (hst : listing.Alike ops s t) :
    listing.Meet ops (driver.count (op :: rest) s) (driver.count (op' :: rest) t) := by
  obtain ⟨hhead, htail⟩ := List.forall_mem_cons.1 hknown
  obtain ⟨s₁, t₁, hs₁, ht₁, hst₁⟩ := hst.advance listing hserves hhead hread
  have hsame := Operation.withValue_of_asRead_eq hread
  rw [Driver.count, Driver.count, hs₁, ht₁]
  cases listing.left s op with
  | cons text texts => exact ⟨rfl, hst₁, fun _ => congrArg (· :: rest) (hsame text).symm⟩
  | nil =>
    -- a carry: the digit is started and asked once more before the others count
    obtain ⟨s₂, t₂, hs₂, ht₂, hst₂⟩ := hst₁.init listing hserves hhead hread
    obtain ⟨s₃, t₃, hs₃, ht₃, hst₃⟩ := hst₂.advance listing hserves hhead hread
    simp only [Advance.ofList, hs₂, ht₂, hs₃, ht₃]
    cases listing.left s₂ op with
    | nil => exact ⟨rfl, hst₃, fun hall => by cases hall⟩
    | cons text texts =>
      obtain ⟨answer, later, s₄, t₄, hs₄, ht₄, hst₄⟩ :=
        Driver.count_level (listing.abreast hserves) htail hst₃
      simp only [hs₄, ht₄]
      exact ⟨rfl, hst₄, fun _ => congrArg (· :: later) (hsame text).symm⟩

variable {listing} in
/-- If `outcome` and `other` meet, they make steps that meet. -/
theorem Meet.settle {outcome other : Except RunError Bool × List Operation × σ}
    (h : listing.Meet ops outcome other) (sequence : Sequence) :
    Step.Meets (listing.Alike ops) (sequence.settle outcome) (sequence.settle other) := by
  obtain ⟨answer, ops₁, s⟩ := outcome
  obtain ⟨answer', ops₂, t⟩ := other
  obtain ⟨rfl, hst, hsame⟩ := h
  rcases answer with error | _ | _
  · exact ⟨rfl, fun _ hsubs => by cases hsubs⟩
  · exact ⟨rfl, fun _ hsubs => by cases hsubs⟩
  · obtain rfl : ops₁ = ops₂ := hsame rfl
    exact ⟨rfl, fun _ _ => ⟨rfl, rfl, rfl, hst⟩⟩

/-- The first rounds over `ops` and `ops'` meet, whatever was left behind. -/
theorem meets_first_lockstep (hserves : Serves names ops) (hne : ops ≠ [])
    (hread : ops'.map Operation.asRead = ops.map Operation.asRead) (s t : σ) :
    Step.Meets (listing.Alike ops) (Sequence.step { mode := .lockstep } driver ops s)
      (Sequence.step { mode := .lockstep } driver ops' t) := by
  obtain ⟨s', t', hs, ht, hst⟩ := listing.alike_initAll hserves hread s t
  have hne' : ops' ≠ [] := by
    rintro rfl
    exact hne (List.map_eq_nil_iff.1 hread.symm)
  rw [step_fresh_lockstep hne hs, step_fresh_lockstep hne' ht]
  exact (listing.meet_round hserves (fun _ hop => List.mem_map_of_mem hop) hread hst).settle _

/-- The first counts meet, whatever was left behind in `op` and `op'`, if the digits of `rest` hold
the same. -/
theorem meets_first_cross (hserves : Serves names (op :: rest)) (hread : op'.asRead = op.asRead)
    (s t : σ) :
    Step.Meets (listing.Alike (op :: rest))
      (Sequence.step { mode := .cross } driver (op :: rest) s)
      (Sequence.step { mode := .cross } driver (op' :: rest) t) := by
  have hmap : (op' :: rest).map Operation.asRead = (op :: rest).map Operation.asRead := by
    rw [List.map_cons, hread, List.map_cons]
  obtain ⟨s₁, t₁, hs₁, ht₁, hst₁⟩ := listing.alike_initAll hserves hmap s t
  have hknown : ∀ other ∈ op :: rest, other.asRead ∈ (op :: rest).map Operation.asRead :=
    fun _ hother => List.mem_map_of_mem hother
  obtain ⟨hhead, htail⟩ := List.forall_mem_cons.1 hknown
  -- the digits behind the first are primed in the same way
  have hkeeps : Driver.Keeps (fun _ _ _ => True) False rest s₁ (driver.prime rest s₁).2.1
      (driver.prime rest s₁).2.2 := (Driver.prime_keeps driver.tells_nothing rest s₁).1
  obtain ⟨answer, primed, s₂, t₂, hs₂, ht₂, hst₂⟩ :=
    Driver.prime_level (listing.abreast hserves) htail hst₁
  rw [hs₂] at hkeeps
  have hprimed : ∀ other ∈ op :: primed, other.asRead ∈ (op :: rest).map Operation.asRead := by
    refine List.forall_mem_cons.2 ⟨hhead, fun other hother => ?_⟩
    rw [List.map_cons, ← hkeeps.map_asRead_eq]
    exact List.mem_cons_of_mem _ (List.mem_map_of_mem hother)
  rcases answer with error | _ | _
  · simp [Sequence.step, Sequence.start, Driver.primeRest, hs₁, ht₁, hs₂, ht₂, Sequence.fail,
      Step.Meets]
  · simp [Sequence.step, Sequence.start, Driver.primeRest, hs₁, ht₁, hs₂, ht₂, Sequence.stop,
      Step.Meets]
  · have hmeet := listing.meet_count_cons hserves hprimed hread hst₂
    simpa [Sequence.step, Sequence.start, Sequence.next, Driver.primeRest, hs₁, ht₁, hs₂, ht₂]
      using hmeet.settle ⟨.cross, .fresh, 0⟩

/-! ### Digits that show what was left in them -/

/-- How many combinations are still to come for the digits of a counter in the state `s`: those that
the first digit shows before the others move, and then all its values for each combination of the
others. -/
def toCome (listing : Listing driver names) (s : σ) : List Operation → Nat
  | [] => 0
  | op :: ops => (listing.left s op).length + listing.size op * listing.toCome s ops

theorem toCome_congr (h : ∀ op ∈ ops, listing.left t op = listing.left s op) :
    listing.toCome t ops = listing.toCome s ops := by
  induction ops with
  | nil => rfl
  | cons op ops ih =>
    obtain ⟨hhead, htail⟩ := List.forall_mem_cons.1 h
    rw [toCome, toCome, hhead, ih htail]

@[simp]
theorem toCome_withValue (s : σ) (op : Operation) (text : String) (ops : List Operation) :
    listing.toCome s (op.withValue text :: ops) = listing.toCome s (op :: ops) := by
  rw [toCome, toCome, listing.left_withValue, size, listing.values_withValue, size]

/-- To count the digits `ops` is to go through one of the combinations to come. -/
theorem count_toCome (hserves : Serves names ops) (hpos : ∀ op ∈ ops, 0 < listing.size op) (s : σ) :
    ∃ ops' s', driver.count ops s = (.ok (decide (0 < listing.toCome s ops)), ops', s') ∧
      ops'.map Operation.asRead = ops.map Operation.asRead ∧
      (0 < listing.toCome s ops → listing.toCome s' ops' + 1 = listing.toCome s ops) ∧
      listing.Untouched ops s s' := by
  induction ops generalizing s with
  | nil => exact ⟨[], s, rfl, rfl, fun h => absurd h (Nat.lt_irrefl 0), fun _ _ => rfl⟩
  | cons op ops ih =>
    obtain ⟨hsize, hothers⟩ := List.forall_mem_cons.1 hpos
    cases hleft : listing.left s op with
    | cons text later =>
      -- the others stand still
      have hapart : ∀ other : Operation, other.transform ≠ op.transform →
          listing.left (driver.advance op s).2 other = listing.left s other :=
        fun other => listing.left_advance_of_ne op other s hserves.head
      have hcome : listing.toCome s (op :: ops) =
          later.length + 1 + listing.size op * listing.toCome s ops := by
        rw [toCome, hleft, List.length_cons]
      refine ⟨op.withValue text :: ops, (driver.advance op s).2, ?_, rfl, fun _ => ?_,
        .of_head _ hapart⟩
      · rw [listing.count_of_left hserves.head hleft, hcome, decide_eq_true (by omega)]
      · rw [toCome_withValue, toCome, listing.left_advance op s hserves.head, hleft,
          listing.toCome_congr fun other hother => hapart other (hserves.ne_head hother), hcome,
          List.tail_cons]
        omega
    | nil =>
      -- the digit goes back to its first value, and the others count
      obtain ⟨text, later, hvalues⟩ := List.exists_cons_of_length_pos hsize
      obtain ⟨s₁, hcount, hwound, hapart⟩ :=
        listing.count_of_end hserves.head hleft hvalues ops
      obtain ⟨ops', s₂, hcounted, hread, hless, hframe⟩ := ih hserves.tail hothers s₁
      have hsame : listing.toCome s₁ ops = listing.toCome s ops :=
        listing.toCome_congr fun other hother => hapart other (hserves.ne_head hother)
      have hcome : listing.toCome s (op :: ops) = listing.size op * listing.toCome s ops := by
        rw [toCome, hleft, List.length_nil, Nat.zero_add]
      rw [hsame] at hcounted hless
      refine ⟨op.withValue text :: ops', s₂, ?_, ?_, fun hmore => ?_, hframe.cons hapart⟩
      · rw [hcount, hcounted, hcome]
        simp [Nat.pos_iff_ne_zero, Nat.pos_iff_ne_zero.1 hsize]
      · rw [List.map_cons, hread]
        rfl
      · have hrest : 0 < listing.toCome s ops := Nat.pos_of_mul_pos_left (hcome ▸ hmore)
        have hlater : later.length + 1 = listing.size op := by rw [size, hvalues, List.length_cons]
        rw [toCome_withValue, toCome, hframe op hserves.head_notMem, hwound, hcome, ← hless hrest,
          Nat.mul_succ]
        omega

/-- To prime `ops` that have values is to have all but one of their combinations to come. If one of
them holds a value already, none of its own values is used up, and there is at least one combination
more. -/
theorem exists_prime_toCome (hserves : Serves names ops) (hpos : ∀ op ∈ ops, 0 < listing.size op)
    (hleft : ∀ op ∈ ops, listing.left s op = listing.values op) :
    ∃ primed s', driver.prime ops s = (.ok true, primed, s') ∧
      primed.map Operation.asRead = ops.map Operation.asRead ∧
      listing.volume ops ≤ listing.toCome s' primed + 1 ∧
      ((∃ op ∈ ops, op.cached ≠ none) → listing.volume ops ≤ listing.toCome s' primed) ∧
      listing.Untouched ops s s' := by
  induction ops generalizing s with
  | nil => exact ⟨[], s, rfl, rfl, Nat.le_refl 1, by simp, fun _ _ => rfl⟩
  | cons op ops ih =>
    obtain ⟨hsize, hothers⟩ := List.forall_mem_cons.1 hpos
    obtain ⟨hhead, htail⟩ := List.forall_mem_cons.1 hleft
    rw [volume_cons]
    cases hcached : op.cached with
    | some old =>
      -- the operation is passed over, with all its values to come
      obtain ⟨primed, s', hprime, hread, hvolume, -, hframe⟩ := ih hserves.tail hothers htail
      have hcome : listing.toCome s' (op :: primed) =
          listing.size op * (listing.toCome s' primed + 1) := by
        rw [toCome, hframe op hserves.head_notMem, hhead, ← size, Nat.mul_succ, Nat.add_comm]
      have hmore := Nat.mul_le_mul_left (listing.size op) hvolume
      refine ⟨op :: primed, s', ?_, ?_, ?_, fun _ => hcome ▸ hmore, hframe.cons fun _ _ => rfl⟩
      · rw [Driver.prime, hcached, hprime]
        rfl
      · rw [List.map_cons, hread, List.map_cons]
      · exact Nat.le_succ_of_le (hcome ▸ hmore)
    | none =>
      obtain ⟨text, later, hvalues⟩ := List.exists_cons_of_length_pos hsize
      have hadvance := listing.advance_eq s hserves.head
      have hapart : ∀ other : Operation, other.transform ≠ op.transform →
          listing.left (driver.advance op s).2 other = listing.left s other :=
        fun other => listing.left_advance_of_ne op other s hserves.head
      have hrest : ∀ other ∈ ops,
          listing.left (driver.advance op s).2 other = listing.values other := by
        intro other hother
        rw [hapart other (hserves.ne_head hother), htail other hother]
      obtain ⟨primed, s', hprime, hread, hvolume, hheld, hframe⟩ := ih hserves.tail hothers hrest
      have hlater : listing.size op = later.length + 1 := by
        rw [size, hvalues, List.length_cons]
      have hcome : listing.toCome s' (op.withValue text :: primed) =
          later.length + listing.size op * listing.toCome s' primed := by
        rw [toCome_withValue, toCome, hframe op hserves.head_notMem,
          listing.left_advance op s hserves.head, hhead, hvalues, List.tail_cons]
      refine ⟨op.withValue text :: primed, s', ?_, ?_, ?_, ?_, hframe.cons hapart⟩
      · rw [Driver.prime, hcached, hadvance, hhead, hvalues]
        simp [Advance.ofList, hprime]
      · rw [List.map_cons, hread]
        rfl
      · have hmore := Nat.mul_le_mul_left (listing.size op) hvolume
        rw [Nat.mul_succ] at hmore
        omega
      · rintro ⟨other, hother, hsome⟩
        rcases List.mem_cons.1 hother with rfl | hother
        · exact absurd hcached hsome
        · have hmore := Nat.mul_le_mul_left (listing.size op) (hheld ⟨other, hother, hsome⟩)
          omega

/-- The first step of a cross run over `op :: rest` counts, with all combinations to come, if all of
them have values. If a digit of `rest` holds a value, there is more to come than that. -/
theorem exists_first_cross (hserves : Serves names (op :: rest))
    (hpos : ∀ other ∈ op :: rest, 0 < listing.size other)
    (hheld : ∃ other ∈ rest, other.cached ≠ none) (s : σ) :
    ∃ ops s', Sequence.step { mode := .cross } driver (op :: rest) s =
        Sequence.settle ⟨.cross, .fresh, 0⟩ (driver.count ops s') ∧
      ops.map Operation.asRead = (op :: rest).map Operation.asRead ∧
      listing.volume (op :: rest) < listing.toCome s' ops := by
  obtain ⟨s₁, hinit, hstarted, -⟩ := listing.initAll_eq hserves s
  obtain ⟨hhead, htail⟩ := List.forall_mem_cons.1 hstarted
  obtain ⟨hsize, hothers⟩ := List.forall_mem_cons.1 hpos
  obtain ⟨primed, s₂, hprime, hread, -, hmore, hframe⟩ :=
    listing.exists_prime_toCome hserves.tail hothers htail
  refine ⟨op :: primed, s₂, ?_, ?_, ?_⟩
  · simp [Sequence.step, Sequence.start, Sequence.next, Driver.primeRest, hinit, hprime]
  · rw [List.map_cons, hread, List.map_cons]
  · -- the first digit has all its values before it
    rw [toCome, hframe op hserves.head_notMem, hhead, ← size, volume_cons]
    have hcome := Nat.mul_le_mul_left (listing.size op) (hmore hheld)
    omega

/-- A step that counts the digits `ops` gives substitutions while there are combinations to come. -/
theorem exists_settle_count (hserves : Serves names ops) (hpos : 0 < listing.volume ops)
    (phase : Phase) {s : σ} (hcome : 0 < listing.toCome s ops) :
    ∃ ops' s', Sequence.settle ⟨.cross, phase, 0⟩ (driver.count ops s) =
        ⟨.ok (some (ops'.map Operation.current)), ⟨.cross, .running, 0⟩, ops', s'⟩ ∧
      ops'.map Operation.asRead = ops.map Operation.asRead ∧
      listing.toCome s' ops' + 1 = listing.toCome s ops := by
  obtain ⟨ops', s', hcount, hread, hless, -⟩ :=
    listing.count_toCome hserves (listing.volume_pos_iff.1 hpos) s
  refine ⟨ops', s', ?_, hread, hless hcome⟩
  rw [hcount, decide_eq_true hcome]
  rfl

/-- Step `n` of a cross run gives substitutions while `n` is below the number of combinations to
come. -/
theorem exists_stepAt_cross (hserves : Serves names ops) (hpos : 0 < listing.volume ops)
    (hne : ops ≠ []) {s s' : σ}
    (hfirst : Sequence.step { mode := .cross } driver ops s =
      Sequence.settle ⟨.cross, .fresh, 0⟩ (driver.count ops' s'))
    (hread : ops'.map Operation.asRead = ops.map Operation.asRead) {n : Nat}
    (hn : n < listing.toCome s' ops') :
    ∃ later t, Sequence.stepAt { mode := .cross } driver ops s n =
        ⟨.ok (some (later.map Operation.current)), ⟨.cross, .running, 0⟩, later, t⟩ ∧
      later.map Operation.asRead = ops.map Operation.asRead ∧
      listing.toCome t later + (n + 1) = listing.toCome s' ops' := by
  induction n with
  | zero =>
    obtain ⟨later, t, hstep, hlater, hless⟩ := listing.exists_settle_count
      (hserves.of_map_asRead_eq hread) (listing.volume_of_map_asRead_eq hread ▸ hpos) .fresh hn
    exact ⟨later, t, hfirst.trans hstep, hlater.trans hread, hless⟩
  | succ n ih =>
    obtain ⟨last, s₁, hlast, hsame, hless⟩ := ih (Nat.lt_of_succ_lt hn)
    obtain ⟨later, t, hstep, hlater, hless'⟩ := listing.exists_settle_count
      (hserves.of_map_asRead_eq hsame) (listing.volume_of_map_asRead_eq hsame ▸ hpos) .running
      (show 0 < listing.toCome s₁ last by omega)
    refine ⟨later, t, ?_, hlater.trans hsame, by omega⟩
    -- the operations are the same ones, so there are some
    have hlast_ne : last ≠ [] := by
      rintro rfl
      exact hne (List.map_eq_nil_iff.1 hsame.symm)
    rw [Sequence.stepAt_succ, hlast]
    exact (step_running_cross s₁ hlast_ne).trans hstep

end Listing

/-- A run without operations, or without a mode, gives nothing. -/
theorem Sequence.answer_stepAt_of_idle {σ : Type} {driver : Driver σ} {mode : Mode}
    {ops : List Operation} (hidle : ops = [] ∨ mode = .none) (s : σ) (n : Nat) :
    (Sequence.stepAt { mode } driver ops s n).answer = .ok none := by
  have hfirst : Sequence.step { mode } driver ops s = Sequence.stop { mode } ops s := by
    rcases hidle with rfl | rfl <;> simp [Sequence.step]
  cases n with
  | zero => rw [Sequence.stepAt, hfirst, Sequence.stop]
  | succ n =>
    refine (Sequence.stepAt_of_isFinished (Nat.succ_pos n) ?_).1
    rw [Sequence.stepAt, hfirst]
    rfl

/-- If `ops'` differ from `ops` in nothing but the values that they hold, and these are the same,
nothing differs. -/
theorem Operation.eq_of_map_asRead_eq {ops ops' : List Operation}
    (hread : ops'.map Operation.asRead = ops.map Operation.asRead)
    (hcached : ops'.map (·.cached) = ops.map (·.cached)) : ops' = ops := by
  induction ops generalizing ops' with
  | nil => exact List.map_eq_nil_iff.1 hread
  | cons op ops ih =>
    obtain ⟨op', ops', rfl, hop, hops⟩ := List.map_eq_cons_iff.1 hread
    obtain ⟨hheld, hothers⟩ := List.cons_eq_cons.1 hcached
    rw [ih hops hothers]
    exact congrArg₂ (fun (op : Operation) held => { op with cached := held } :: ops) hop hheld

namespace Listing

variable {σ : Type} {driver : Driver σ} {names : List String} (listing : Listing driver names)
  {mode : Mode} {operations leftover : List Operation}

include listing in
/-- Runs over `leftover` and `operations`, which differ in the values that they hold, give the same
answers, unless they are cross runs whose digits behind the first one hold different values. -/
theorem answer_stepAt_of_held (hserves : Serves names operations)
    (hread : leftover.map Operation.asRead = operations.map Operation.asRead)
    (hheld : mode = .cross → leftover.tail.map (·.cached) = operations.tail.map (·.cached))
    (s t : σ) (n : Nat) :
    (Sequence.stepAt { mode } driver leftover t n).answer =
      (Sequence.stepAt { mode } driver operations s n).answer := by
  -- without operations, or without a mode, every answer is the end
  rcases eq_or_ne operations [] with rfl | hne
  · obtain rfl := List.map_eq_nil_iff.1 hread
    exact (Sequence.answer_stepAt_of_idle (.inl rfl) t n).trans
      (Sequence.answer_stepAt_of_idle (.inl rfl) s n).symm
  cases mode with
  | none =>
    exact (Sequence.answer_stepAt_of_idle (.inr rfl) t n).trans
      (Sequence.answer_stepAt_of_idle (.inr rfl) s n).symm
  | single =>
    have hne' : leftover ≠ [] := by
      rintro rfl
      exact hne (List.map_eq_nil_iff.1 hread.symm)
    have hvalues : leftover.map listing.values = operations.map listing.values :=
      Operation.map_eq_of_map_asRead_eq listing.values_withValue hread
    -- single mode shows what is written and what is given, not what is held
    have hshown : ∀ active text, Sequence.showActive active text leftover =
        Sequence.showActive active text operations := by
      intro active text
      rw [← Sequence.showActive_map_asRead, hread, Sequence.showActive_map_asRead]
    simp only [(listing.starts (hserves.of_map_asRead_eq hread)).answer_stepAt hne' t n,
      (listing.starts hserves).answer_stepAt hne s n, hvalues, hshown]
  | lockstep =>
    -- a round that is shown gives all the values that it shows
    have hfirst := listing.meets_first_lockstep hserves hne hread s t
    exact (Sequence.meets_stepAt (listing.abreast hserves) hfirst n).1.symm
  | cross =>
    obtain ⟨op, rest, rfl⟩ := List.exists_cons_of_ne_nil hne
    obtain ⟨op', rest', rfl, hop, hrest⟩ := List.map_eq_cons_iff.1 hread
    obtain rfl := Operation.eq_of_map_asRead_eq hrest (hheld rfl)
    -- the first step gives the first digit a value, and the others hold the same
    have hfirst := listing.meets_first_cross hserves hop s t
    exact (Sequence.meets_stepAt (listing.abreast hserves) hfirst n).1.symm

/-- If all operations have values, and a digit of `leftover.tail` holds one, a cross run over
`leftover` gives substitutions in a step in which the run over `operations`, which hold nothing, has
ended. -/
theorem answer_stepAt_volume_ne (hserves : Serves names operations)
    (hread : leftover.map Operation.asRead = operations.map Operation.asRead)
    (hpos : ∀ op ∈ operations, 0 < listing.size op)
    (hfresh : ∀ op ∈ operations, op.cached = none)
    (hheld : ∃ op ∈ leftover.tail, op.cached ≠ none) (s t : σ) :
    (Sequence.stepAt { mode := .cross } driver leftover t (listing.volume operations)).answer ≠
      (Sequence.stepAt { mode := .cross } driver operations s
        (listing.volume operations)).answer := by
  -- the digit that is passed over leaves more combinations to come than there are
  obtain ⟨old, hold, hsome⟩ := hheld
  obtain ⟨op, rest, rfl⟩ :=
    List.exists_cons_of_ne_nil (List.ne_nil_of_mem (List.mem_of_mem_tail hold))
  have hserves' := hserves.of_map_asRead_eq hread
  have hvolume := listing.volume_of_map_asRead_eq hread
  have hpos' : 0 < listing.volume (op :: rest) := hvolume ▸ listing.volume_pos_iff.2 hpos
  obtain ⟨ops, t', hfirst, hread', hmore⟩ :=
    listing.exists_first_cross hserves' (listing.volume_pos_iff.1 hpos') ⟨old, hold, hsome⟩ t
  obtain ⟨later, t'', hgiven, -, -⟩ := listing.exists_stepAt_cross hserves' hpos'
    (List.cons_ne_nil op rest) hfirst hread' hmore
  have hne : operations ≠ [] := by
    rintro rfl
    exact List.cons_ne_nil _ _ (List.map_eq_nil_iff.1 hread)
  rw [← hvolume, hgiven, hvolume, (listing.stepAt_volume hserves hne hfresh s).1]
  intro hanswer
  cases hanswer

end Listing

/-- Let `leftover` be the same as `operations` but for the values that are held, and let the driver
be in whatever state `t`. The run over `leftover` gives the same `answer` in every step as the run
over `operations` from `s`, except that in cross mode the digits behind the first one have to hold
the same: a digit that holds a value is not primed. If all operations have values and `operations`
hold nothing, a cross run over `leftover` gives the same answers exactly if no digit of
`leftover.tail` holds a value. -/
theorem leftovers_run {σ : Type} {driver : Driver σ} {mode : Mode}
    {operations leftover : List Operation}
    (listing : Listing driver (operations.map (·.transform)))
    (hdistinct : (operations.map (·.transform)).Nodup)
    (hread : leftover.map Operation.asRead = operations.map Operation.asRead) (s t : σ) :
    let answer := fun operations s n => (Sequence.stepAt { mode } driver operations s n).answer
    ((mode = .cross → leftover.tail.map (·.cached) = operations.tail.map (·.cached)) →
        ∀ n, answer leftover t n = answer operations s n) ∧
      (mode = .cross → (∀ op ∈ operations, 0 < listing.size op) →
        (∀ op ∈ operations, op.cached = none) →
        ((∀ n, answer leftover t n = answer operations s n) ↔
          ∀ op ∈ leftover.tail, op.cached = none)) := by
  intro answer
  have hserves : Listing.Serves (operations.map (·.transform)) operations :=
    ⟨fun op hop => List.mem_map_of_mem hop, hdistinct⟩
  refine ⟨fun hheld n => listing.answer_stepAt_of_held hserves hread hheld s t n, ?_⟩
  rintro rfl hpos hfresh
  constructor
  · intro hanswers
    by_contra hheld
    simp only [not_forall] at hheld
    obtain ⟨op, hop, hsome⟩ := hheld
    -- a digit that holds a value is still shown when the fresh run has come to its end
    exact listing.answer_stepAt_volume_ne hserves hread hpos hfresh ⟨op, hop, hsome⟩ s t
      (hanswers _)
  · intro hnone n
    refine listing.answer_stepAt_of_held hserves hread (fun _ => ?_) s t n
    have hlength : leftover.length = operations.length := by
      simpa using congrArg List.length hread
    rw [List.map_congr_left hnone,
      List.map_congr_left fun op hop => hfresh op (List.mem_of_mem_tail hop)]
    simp [hlength]

/-- A counter of two digits is left at its last combination and counted through anew. A run over
digits that hold nothing begins with the first values of both and ends after four combinations. This
one begins with what was left in the second digit, shows it again later, and goes on after the
fourth. -/
theorem leftovers_run_counted_anew :
    let operations : List Operation := [⟨"x", "X", "", none⟩, ⟨"y", "Y", "", none⟩]
    let values := fun name => if name = "x" then ["1", "2"] else ["a", "b"]
    let sequence : Sequence := { mode := .cross }
    let run := sequence.stepAt (Driver.ofLists values)
    let left := run operations (fun _ => []) 3
    (operations.map (·.transform)).Nodup ∧
      left.operations.map Operation.asRead = operations.map Operation.asRead ∧
      (run operations (fun _ => []) 0).answer = .ok (some [⟨"X", "1"⟩, ⟨"Y", "a"⟩]) ∧
      (run left.operations left.state 0).answer = .ok (some [⟨"X", "1"⟩, ⟨"Y", "b"⟩]) ∧
      (run operations (fun _ => []) 4).answer = .ok none ∧
      (run left.operations left.state 4).answer = .ok (some [⟨"X", "1"⟩, ⟨"Y", "b"⟩]) :=
  ⟨by decide, rfl, rfl, rfl, rfl, rfl⟩

/-- What was left in the first digit has no part in a run, nor has the state of the driver: here the
lists have been read in part. -/
theorem leftovers_run_first_digit :
    let operations : List Operation := [⟨"x", "X", "", none⟩, ⟨"y", "Y", "", none⟩]
    let leftover : List Operation := [⟨"x", "X", "", some "2"⟩, ⟨"y", "Y", "", none⟩]
    let values := fun name => if name = "x" then ["1", "2"] else ["a", "b"]
    let driver := Driver.ofLists values
    let sequence : Sequence := { mode := .cross }
    (operations.map (·.transform)).Nodup ∧
      leftover.map Operation.asRead = operations.map Operation.asRead ∧
      leftover.tail.map (·.cached) = operations.tail.map (·.cached) ∧
      (∀ op ∈ operations, 0 < (Listing.ofLists values (operations.map (·.transform))).size op) ∧
      (∀ op ∈ operations, op.cached = none) ∧
      (∀ n, (sequence.stepAt driver leftover (fun _ => ["b"]) n).answer =
        (sequence.stepAt driver operations (fun _ => []) n).answer) ∧
      ∀ op ∈ leftover.tail, op.cached = none := by
  intro operations leftover values driver sequence
  have hdistinct : (operations.map (·.transform)).Nodup := by decide
  have hread : leftover.map Operation.asRead = operations.map Operation.asRead := rfl
  have htail : leftover.tail.map (·.cached) = operations.tail.map (·.cached) := rfl
  have hpos : ∀ op ∈ operations,
      0 < (Listing.ofLists values (operations.map (·.transform))).size op := by decide
  have hfresh : ∀ op ∈ operations, op.cached = none := by decide
  obtain ⟨hsame, hexact⟩ := @leftovers_run _ driver .cross operations leftover
    (Listing.ofLists values (operations.map (·.transform))) hdistinct hread (fun _ => [])
    fun _ => ["b"]
  have hanswers := hsame fun _ => htail
  exact ⟨hdistinct, hread, htail, hpos, hfresh, hanswers, (hexact rfl hpos hfresh).1 hanswers⟩

end Stencil
