import Stencil.Proofs.Sequence.Holding

/-!
# Drivers side by side

A step learns nothing about the transforms but what its driver answers. So if two drivers answer
alike from related states, and are left in related states, a step comes out the same with either of
them. That is how a driver is seen to do no more than another one that it is built on, and it is
how a step inherits what every single request preserves. The requests are about the operations of
the sequence and about no others.

Main definitions:

* `Driver.Abreast`: two drivers that answer alike from related states.
* `Driver.Level`, `Step.Level`: outcomes that differ in nothing but related states.

Main statements:

* `step_level`: a step comes out the same with drivers that go side by side.
* `step_preserves`: a step preserves what requests preserve.
-/

namespace Stencil

variable {σ τ : Type}

namespace Driver

/-- From related states, two drivers that are asked about a known operation give the same answer and
are left in related states. What an operation holds does not matter to its being known. -/
structure Abreast (known : List Operation) (R : σ → τ → Prop) (driver : Driver σ)
    (other : Driver τ) : Prop where
  /-- To start an operation comes to the same. -/
  init : ∀ op s t, op.asRead ∈ known → R s t →
    ∃ answer s' t', driver.init op s = (answer, s') ∧ other.init op t = (answer, t') ∧ R s' t'
  /-- To advance an operation comes to the same. -/
  advance : ∀ op s t, op.asRead ∈ known → R s t →
    ∃ answer s' t', driver.advance op s = (answer, s') ∧ other.advance op t = (answer, t') ∧
      R s' t'

/-- The outcomes `outcome` and `other` have the same answer, the same results and states that `R`
relates. -/
def Level {α β : Type} (R : σ → τ → Prop) (outcome : α × β × σ) (other : α × β × τ) : Prop :=
  ∃ answer result s t, outcome = (answer, result, s) ∧ other = (answer, result, t) ∧ R s t

variable {known : List Operation} {R : σ → τ → Prop} {driver : Driver σ} {other : Driver τ}
  {s : σ} {t : τ}

theorem initAll_level (h : driver.Abreast known R other) {ops : List Operation}
    (hops : ∀ op ∈ ops, op.asRead ∈ known) (hst : R s t) :
    ∃ answer s' t', driver.initAll ops s = (answer, s') ∧ other.initAll ops t = (answer, t') ∧
      R s' t' := by
  induction ops generalizing s t with
  | nil => exact ⟨.ok (), s, t, rfl, rfl, hst⟩
  | cons op ops ih =>
    obtain ⟨hop, hrest⟩ := List.forall_mem_cons.1 hops
    obtain ⟨answer, s', t', hs, ht, hst'⟩ := h.init op s t hop hst
    rw [initAll, initAll, hs, ht]
    rcases answer with error | ⟨⟩
    · exact ⟨.error error, s', t', rfl, rfl, hst'⟩
    · exact ih hrest hst'

theorem seek_level (h : driver.Abreast known R other) (active : Nat) {ops : List Operation}
    (hops : ∀ op ∈ ops, op.asRead ∈ known) (hst : R s t) :
    Level R (driver.seek active ops s) (other.seek active ops t) := by
  induction ops generalizing active s t with
  | nil => exact ⟨.ok none, active, s, t, rfl, rfl, hst⟩
  | cons op ops ih =>
    obtain ⟨hop, hrest⟩ := List.forall_mem_cons.1 hops
    obtain ⟨answer, s', t', hs, ht, hst'⟩ := h.advance op s t hop hst
    rw [seek.eq_def, seek.eq_def]
    simp only [hs, ht]
    rcases answer with error | text | _
    · exact ⟨.error error, active, s', t', rfl, rfl, hst'⟩
    · exact ⟨.ok (some text), active, s', t', rfl, rfl, hst'⟩
    · cases ops with
      | nil => exact ⟨.ok none, active + 1, s', t', rfl, rfl, hst'⟩
      | cons next later =>
        -- the turn goes to the next operation, which is started
        obtain ⟨answer, s'', t'', hs, ht, hst''⟩ :=
          h.init next s' t' (hrest next List.mem_cons_self) hst'
        simp only [hs, ht]
        rcases answer with error | ⟨⟩
        · exact ⟨.error error, active + 1, s'', t'', rfl, rfl, hst''⟩
        · exact ih (active + 1) hrest hst''

theorem round_level (h : driver.Abreast known R other) {ops : List Operation}
    (hops : ∀ op ∈ ops, op.asRead ∈ known) (hst : R s t) :
    Level R (driver.round ops s) (other.round ops t) := by
  induction ops generalizing s t with
  | nil => exact ⟨.ok true, [], s, t, rfl, rfl, hst⟩
  | cons op ops ih =>
    obtain ⟨hop, hrest⟩ := List.forall_mem_cons.1 hops
    obtain ⟨answer, s', t', hs, ht, hst'⟩ := h.advance op s t hop hst
    rw [round, round, hs, ht]
    rcases answer with error | text | _
    · exact ⟨.error error, op :: ops, s', t', rfl, rfl, hst'⟩
    · obtain ⟨answer, later, s'', t'', hs, ht, hst''⟩ := ih hrest hst'
      simp only [hs, ht]
      exact ⟨answer, op.withValue text :: later, s'', t'', rfl, rfl, hst''⟩
    · -- the round is lost, whatever comes of the others
      obtain ⟨answer, later, s'', t'', hs, ht, hst''⟩ := ih hrest hst'
      simp only [hs, ht]
      rcases answer with error | all
      · exact ⟨.error error, op :: later, s'', t'', rfl, rfl, hst''⟩
      · exact ⟨.ok false, op :: later, s'', t'', rfl, rfl, hst''⟩

theorem prime_level (h : driver.Abreast known R other) {ops : List Operation}
    (hops : ∀ op ∈ ops, op.asRead ∈ known) (hst : R s t) :
    Level R (driver.prime ops s) (other.prime ops t) := by
  induction ops generalizing s t with
  | nil => exact ⟨.ok true, [], s, t, rfl, rfl, hst⟩
  | cons op ops ih =>
    obtain ⟨hop, hrest⟩ := List.forall_mem_cons.1 hops
    rw [prime, prime]
    by_cases hcached : op.cached.isSome = true
    · -- a digit that holds a value is passed over on both sides
      obtain ⟨answer, later, s', t', hs, ht, hst'⟩ := ih hrest hst
      rw [if_pos hcached, if_pos hcached, hs, ht]
      exact ⟨answer, op :: later, s', t', rfl, rfl, hst'⟩
    · -- the next digit is asked on both sides, and they answer alike
      obtain ⟨answer, s', t', hs, ht, hst'⟩ := h.advance op s t hop hst
      rw [if_neg hcached, if_neg hcached, hs, ht]
      rcases answer with error | text | _
      · exact ⟨.error error, op :: ops, s', t', rfl, rfl, hst'⟩
      · obtain ⟨answer, later, s'', t'', hs, ht, hst''⟩ := ih hrest hst'
        simp only [hs, ht]
        exact ⟨answer, op.withValue text :: later, s'', t'', rfl, rfl, hst''⟩
      · exact ⟨.ok false, op :: ops, s', t', rfl, rfl, hst'⟩

theorem primeRest_level (h : driver.Abreast known R other) {ops : List Operation}
    (hops : ∀ op ∈ ops, op.asRead ∈ known) (hst : R s t) :
    Level R (driver.primeRest ops s) (other.primeRest ops t) := by
  cases ops with
  | nil => exact ⟨.ok true, [], s, t, rfl, rfl, hst⟩
  | cons op ops =>
    obtain ⟨answer, later, s', t', hs, ht, hst'⟩ :=
      prime_level h (List.forall_mem_cons.1 hops).2 hst
    rw [primeRest, primeRest, hs, ht]
    exact ⟨answer, op :: later, s', t', rfl, rfl, hst'⟩

theorem count_level (h : driver.Abreast known R other) {ops : List Operation}
    (hops : ∀ op ∈ ops, op.asRead ∈ known) (hst : R s t) :
    Level R (driver.count ops s) (other.count ops t) := by
  induction ops generalizing s t with
  | nil => exact ⟨.ok false, [], s, t, rfl, rfl, hst⟩
  | cons op ops ih =>
    obtain ⟨hop, hrest⟩ := List.forall_mem_cons.1 hops
    obtain ⟨answer, s₁, t₁, hs, ht, hst₁⟩ := h.advance op s t hop hst
    rw [count, count, hs, ht]
    rcases answer with error | text | _
    · exact ⟨.error error, op :: ops, s₁, t₁, rfl, rfl, hst₁⟩
    · exact ⟨.ok true, op.withValue text :: ops, s₁, t₁, rfl, rfl, hst₁⟩
    · -- a carry: the digit is started and asked once more before the next digit moves
      obtain ⟨answer, s₂, t₂, hs, ht, hst₂⟩ := h.init op s₁ t₁ hop hst₁
      simp only [hs, ht]
      rcases answer with error | ⟨⟩
      · exact ⟨.error error, op :: ops, s₂, t₂, rfl, rfl, hst₂⟩
      · obtain ⟨answer, s₃, t₃, hs, ht, hst₃⟩ := h.advance op s₂ t₂ hop hst₂
        simp only [hs, ht]
        rcases answer with error | text | _
        · exact ⟨.error error, op :: ops, s₃, t₃, rfl, rfl, hst₃⟩
        · obtain ⟨answer, later, s₄, t₄, hs, ht, hst₄⟩ := ih hrest hst₃
          simp only [hs, ht]
          exact ⟨answer, op.withValue text :: later, s₄, t₄, rfl, rfl, hst₄⟩
        · exact ⟨.ok false, op :: ops, s₃, t₃, rfl, rfl, hst₃⟩

end Driver

/-- Two steps that differ in nothing but related states. -/
structure Step.Level (R : σ → τ → Prop) (step : Step σ) (other : Step τ) : Prop where
  /-- They have the same answer. -/
  answer : step.answer = other.answer
  /-- They leave the same place in the sequence. -/
  sequence : step.sequence = other.sequence
  /-- They leave the same operations. -/
  operations : step.operations = other.operations
  /-- They leave related states. -/
  state : R step.state other.state

namespace Sequence

variable {known : List Operation} {R : σ → τ → Prop} {driver : Driver σ} {other : Driver τ}
  {operations : List Operation} {s : σ} {t : τ}

theorem settle_level (sequence : Sequence) {outcome : Except RunError Bool × List Operation × σ}
    {outcome' : Except RunError Bool × List Operation × τ} (h : Driver.Level R outcome outcome') :
    (sequence.settle outcome).Level R (sequence.settle outcome') := by
  obtain ⟨answer, ops, s, t, rfl, rfl, hst⟩ := h
  rcases answer with error | _ | _
  · exact ⟨rfl, rfl, rfl, hst⟩
  · exact ⟨rfl, rfl, rfl, hst⟩
  · exact ⟨rfl, rfl, rfl, hst⟩

theorem stepSingle_level (h : driver.Abreast known R other) (sequence : Sequence)
    (hknown : ∀ op ∈ operations, op.asRead ∈ known) (hst : R s t) :
    (sequence.stepSingle driver operations s).Level R
      (sequence.stepSingle other operations t) := by
  obtain ⟨answer, active, s', t', hs, ht, hst'⟩ := Driver.seek_level h sequence.active
    (fun op hop => hknown op (List.mem_of_mem_drop hop)) hst
  rw [stepSingle, stepSingle, hs, ht]
  rcases answer with error | _ | text
  · exact ⟨rfl, rfl, rfl, hst'⟩
  · exact ⟨rfl, rfl, rfl, hst'⟩
  · exact ⟨rfl, rfl, rfl, hst'⟩

theorem next_level (h : driver.Abreast known R other) (sequence : Sequence)
    (hknown : ∀ op ∈ operations, op.asRead ∈ known) (hst : R s t) :
    (sequence.next driver operations s).Level R (sequence.next other operations t) := by
  unfold next
  cases sequence.mode with
  | none => exact ⟨rfl, rfl, rfl, hst⟩
  | single => exact stepSingle_level h sequence hknown hst
  | lockstep => exact settle_level sequence (Driver.round_level h hknown hst)
  | cross => exact settle_level sequence (Driver.count_level h hknown hst)

theorem start_level (h : driver.Abreast known R other) (sequence : Sequence)
    (hknown : ∀ op ∈ operations, op.asRead ∈ known) (hst : R s t) :
    (sequence.start driver operations s).Level R (sequence.start other operations t) := by
  unfold start
  generalize { sequence with active := 0 } = sequence
  simp only
  have hfirst : ∀ op ∈ (if sequence.mode = .single then operations.take 1 else operations),
      op.asRead ∈ known := by
    intro op hop
    split at hop
    · exact hknown op (List.mem_of_mem_take hop)
    · exact hknown op hop
  obtain ⟨answer, s₁, t₁, hs, ht, hst₁⟩ := Driver.initAll_level h hfirst hst
  rw [hs, ht]
  rcases answer with error | ⟨⟩
  · exact ⟨rfl, rfl, rfl, hst₁⟩
  · by_cases hcross : sequence.mode = .cross
    · simp only [if_pos hcross]
      -- the digits that are primed are still the known ones
      have hkeeps : Driver.Keeps (fun _ _ _ => True) False operations s₁
          (driver.primeRest operations s₁).2.1 (driver.primeRest operations s₁).2.2 :=
        (Driver.primeRest_keeps driver.tells_nothing operations s₁).1
      have hprimed : ∀ op ∈ (driver.primeRest operations s₁).2.1, op.asRead ∈ known := by
        intro op hop
        have hread : op.asRead ∈ operations.map Operation.asRead := by
          rw [← hkeeps.map_asRead_eq]
          exact List.mem_map_of_mem hop
        obtain ⟨op', hop', heq⟩ := List.mem_map.1 hread
        rw [← heq]
        exact hknown op' hop'
      obtain ⟨answer, ops, s₂, t₂, hs, ht, hst₂⟩ := Driver.primeRest_level h hknown hst₁
      rw [hs] at hprimed
      rw [hs, ht]
      rcases answer with error | _ | _
      · exact ⟨rfl, rfl, rfl, hst₂⟩
      · exact ⟨rfl, rfl, rfl, hst₂⟩
      · exact next_level h sequence hprimed hst₂
    · simp only [if_neg hcross]
      exact next_level h sequence hknown hst₁

/-- A step comes out the same with `driver` and `other`, which go side by side. -/
theorem step_level (h : driver.Abreast known R other) (sequence : Sequence)
    (hknown : ∀ op ∈ operations, op.asRead ∈ known) (hst : R s t) :
    (sequence.step driver operations s).Level R (sequence.step other operations t) := by
  unfold step
  cases sequence.phase with
  | finished => exact ⟨rfl, rfl, rfl, hst⟩
  | fresh =>
    simp only
    split
    · exact ⟨rfl, rfl, rfl, hst⟩
    · exact start_level h sequence hknown hst
  | running =>
    simp only
    split
    · exact ⟨rfl, rfl, rfl, hst⟩
    · exact next_level h sequence hknown hst

/-- A step preserves `P`, if every request about one of `operations` does. -/
theorem step_preserves {P : σ → Prop} (sequence : Sequence) (operations : List Operation)
    (hinit : ∀ op s, op.asRead ∈ operations.map Operation.asRead → P s → P (driver.init op s).2)
    (hadvance : ∀ op s, op.asRead ∈ operations.map Operation.asRead → P s →
      P (driver.advance op s).2)
    (hs : P s) : P (sequence.step driver operations s).state := by
  -- the driver goes beside itself
  have hself : driver.Abreast (operations.map Operation.asRead) (fun s t => s = t ∧ P s)
      driver := by
    refine ⟨fun op s _ hop hst => ?_, fun op s _ hop hst => ?_⟩
    · obtain ⟨rfl, hs⟩ := hst
      exact ⟨_, _, _, rfl, rfl, rfl, hinit op s hop hs⟩
    · obtain ⟨rfl, hs⟩ := hst
      exact ⟨_, _, _, rfl, rfl, rfl, hadvance op s hop hs⟩
  have hknown : ∀ op ∈ operations, op.asRead ∈ operations.map Operation.asRead :=
    fun op hop => List.mem_map_of_mem hop
  exact (step_level hself sequence hknown ⟨rfl, hs⟩).state.2

end Sequence

end Stencil
