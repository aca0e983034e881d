import Stencil.Proofs.Sequence.Listing

/-!
# Lockstep runs

In lockstep mode the lists of all operations are read side by side. Before round `k` every
operation has given its first `k` values, so all of them stand at the same place, and the round
shows the values at this place. The run ends with the first round in which some list is at its
end; that round asks every operation as well, and what it gave is dropped.

Main definitions:

* `Listing.afterRound`: an operation after a round.
* `Listing.roundCalls`: the calls that a round makes.

Main statements:

* `round_eq`: what a round answers and leaves behind.
* `lockstep_run`: the substitutions and the calls of a whole run.
-/

namespace Stencil

namespace Listing

variable {σ : Type} {driver : Driver σ} {names : List String}

/-- The operation after round `k`: it holds its value of this round, if it has one. -/
def afterRound (listing : Listing driver names) (k : Nat) (op : Operation) : Operation :=
  match (listing.values op)[k]? with
  | none => op
  | some text => op.withValue text

/-- The calls that round `k` makes. -/
def roundCalls (listing : Listing driver names) (k : Nat) (operations : List Operation) :
    List Call :=
  operations.map fun op => .advance op.transform (.ok (.ofList ((listing.values op).drop k)))

variable (listing : Listing driver names) {operations : List Operation} {op : Operation}

@[simp]
theorem transform_afterRound (k : Nat) (op : Operation) :
    (listing.afterRound k op).transform = op.transform := by
  rw [afterRound]
  split <;> rfl

@[simp]
theorem values_afterRound (k : Nat) (op : Operation) :
    listing.values (listing.afterRound k op) = listing.values op := by
  rw [afterRound]
  split
  · rfl
  · rw [listing.values_withValue]

@[simp]
theorem left_afterRound (s : σ) (k : Nat) (op : Operation) :
    listing.left s (listing.afterRound k op) = listing.left s op := by
  rw [afterRound]
  split
  · rfl
  · rw [listing.left_withValue]

theorem exists_value {k : Nat} (h : k < listing.size op) :
    ∃ text, (listing.values op)[k]? = some text :=
  ⟨_, List.getElem?_eq_getElem h⟩

theorem afterRound_of_value {k : Nat} {text : String}
    (h : (listing.values op)[k]? = some text) : listing.afterRound k op = op.withValue text := by
  rw [afterRound, h]

/-- Round `k`, in which `op` gives a value, leaves nothing of the rounds before. -/
theorem afterRound_afterRound {k : Nat} (j : Nat) (h : k < listing.size op) :
    listing.afterRound k (listing.afterRound j op) = listing.afterRound k op := by
  obtain ⟨text, htext⟩ := listing.exists_value h
  have hlater : (listing.values (listing.afterRound j op))[k]? = some text := by
    rw [values_afterRound, htext]
  rw [listing.afterRound_of_value htext, listing.afterRound_of_value hlater, afterRound]
  split <;> rfl

theorem serves_map_afterRound (k : Nat) (h : Serves names operations) :
    Serves names (operations.map (listing.afterRound k)) := by
  refine ⟨fun op hop => ?_, ?_⟩
  · obtain ⟨base, hbase, rfl⟩ := List.mem_map.1 hop
    rw [transform_afterRound]
    exact h.mem base hbase
  · simpa [Function.comp_def] using h.distinct

/-- When the first operation was asked in round `k`, the others still stand at its place. -/
theorem left_advance_head (hserves : Serves names (op :: operations)) {k : Nat} {s : σ}
    (hleft : ∀ other ∈ op :: operations,
      listing.left s other = (listing.values other).drop k) :
    ∀ other ∈ operations,
      listing.left (driver.advance op s).2 other = (listing.values other).drop k := by
  intro other hother
  rw [listing.left_advance_of_ne op other s hserves.head (hserves.ne_head hother)]
  exact hleft other (List.mem_cons_of_mem _ hother)

/-- Round `k` asks every operation once. It gives substitutions if all lists are longer than `k`,
and it leaves every list at its next place. -/
theorem round_eq (hserves : Serves names operations) (k : Nat) (s : σ)
    (hleft : ∀ op ∈ operations, listing.left s op = (listing.values op).drop k) :
    ∃ s', driver.round operations s =
        (.ok (operations.all fun op => k < listing.size op),
          operations.map (listing.afterRound k), s') ∧
      (∀ op ∈ operations, listing.left s' op = (listing.values op).drop (k + 1)) ∧
      listing.Untouched operations s s' := by
  -- along the operations, from the state that the first one leaves to the others
  induction operations generalizing s with
  | nil => exact ⟨s, rfl, by simp, fun _ _ => rfl⟩
  | cons op operations ih =>
    have hadvance := listing.advance_eq s hserves.head
    have hhead := hleft op List.mem_cons_self
    have htail := listing.left_advance_head hserves hleft
    obtain ⟨s', hrun, hnext, hframe⟩ := ih hserves.tail (driver.advance op s).2 htail
    refine ⟨s', ?_, ?_, hframe.cons fun other => listing.left_advance_of_ne op other s hserves.head⟩
    · rw [Driver.round, hadvance, hhead]
      by_cases hk : k < listing.size op
      · have hvalue := listing.afterRound_of_value (List.getElem?_eq_getElem hk)
        rw [List.drop_eq_getElem_cons hk]
        simp only [Advance.ofList, hrun, List.map_cons, List.all_cons, hk, decide_true,
          Bool.true_and, hvalue]
      · -- this list is at its end, and the others are asked all the same
        have hend : (listing.values op).drop k = [] := List.drop_eq_nil_of_le (Nat.not_lt.1 hk)
        have hnone : (listing.values op)[k]? = none :=
          List.getElem?_eq_none (Nat.not_lt.1 hk)
        simp only [hend, Advance.ofList, hrun, List.map_cons, List.all_cons, hk, decide_false,
          Bool.false_and, afterRound, hnone]
    · intro other hother
      rcases List.mem_cons.1 hother with rfl | hother
      · rw [hframe _ hserves.head_notMem, listing.left_advance _ s hserves.head, hhead,
          List.tail_drop]
      · exact hnext other hother

/-- Round `k` calls each of `operations` once, in order, also behind one whose list is at its
end. -/
theorem round_journal (hserves : Serves names operations) (k : Nat) (s : σ) (log : List Call)
    (hleft : ∀ op ∈ operations, listing.left s op = (listing.values op).drop k) :
    (driver.journaled.round operations (s, log)).2.2.2 =
      log ++ listing.roundCalls k operations := by
  induction operations generalizing s log with
  | nil => simp [Driver.round, roundCalls]
  | cons op operations ih =>
    have htail := listing.left_advance_head hserves hleft
    have hrest := ih hserves.tail (driver.advance op s).2
      (log ++ [.advance op.transform (driver.advance op s).1]) htail
    have hanswer : (driver.advance op s).1 = .ok (.ofList ((listing.values op).drop k)) := by
      rw [listing.advance_fst op s hserves.head, hleft op List.mem_cons_self]
    have hcalls : log ++ listing.roundCalls k (op :: operations) =
        log ++ [.advance op.transform (driver.advance op s).1] ++
          listing.roundCalls k operations := by
      simp [roundCalls, hanswer]
    -- the round asks the other operations even where this one is exhausted
    rw [hcalls, ← hrest, Driver.round]
    simp only [Driver.journaled, hanswer]
    cases (listing.values op).drop k with
    | nil =>
      simp only [Advance.ofList]
      split <;> simp_all
    | cons text later => rfl

/-- The operations as round `k` finds them: as they were given, or as the round before has left
them. -/
def beforeRound (listing : Listing driver names) (operations : List Operation) :
    Nat → List Operation
  | 0 => operations
  | k + 1 => operations.map (listing.afterRound k)

theorem serves_beforeRound (h : Serves names operations) (k : Nat) :
    Serves names (listing.beforeRound operations k) := by
  cases k with
  | zero => exact h
  | succ k => exact listing.serves_map_afterRound k h

/-- Round `k`, in which each of `operations` gives a value, leaves nothing of the rounds before. -/
theorem map_afterRound_beforeRound {k : Nat} (h : ∀ op ∈ operations, k < listing.size op) :
    (listing.beforeRound operations k).map (listing.afterRound k) =
      operations.map (listing.afterRound k) := by
  cases k with
  | zero => rfl
  | succ j =>
    rw [beforeRound, List.map_map]
    exact List.map_congr_left fun op hop => listing.afterRound_afterRound j (h op hop)

@[simp]
theorem size_afterRound (k : Nat) (op : Operation) :
    listing.size (listing.afterRound k op) = listing.size op := by
  rw [size, values_afterRound, size]

theorem all_size_beforeRound (k n : Nat) :
    ((listing.beforeRound operations k).all fun op => n < listing.size op) =
      operations.all fun op => n < listing.size op := by
  cases k with
  | zero => rfl
  | succ k => simp [beforeRound, List.all_map, Function.comp_def]

theorem left_beforeRound_iff {k n : Nat} {s : σ} :
    (∀ op ∈ listing.beforeRound operations k,
      listing.left s op = (listing.values op).drop n) ↔
      ∀ op ∈ operations, listing.left s op = (listing.values op).drop n := by
  cases k with
  | zero => rfl
  | succ k => simp [beforeRound]

theorem roundCalls_beforeRound (k n : Nat) :
    listing.roundCalls n (listing.beforeRound operations k) = listing.roundCalls n operations := by
  cases k with
  | zero => rfl
  | succ k => simp [roundCalls, beforeRound, Function.comp_def]

/-- The substitutions after round `k` show the values at `k`. -/
theorem shows_afterRound {k : Nat} (h : ∀ op ∈ operations, k < listing.size op) :
    listing.Shows operations (fun _ _ => k)
      ((operations.map (listing.afterRound k)).map Operation.current) := by
  refine ⟨by simp, fun i op hop => ?_⟩
  obtain ⟨text, htext⟩ := listing.exists_value (h op (List.mem_of_getElem? hop))
  refine ⟨text, htext, ?_⟩
  rw [List.getElem?_map, List.getElem?_map, hop, Option.map_some, Option.map_some,
    listing.afterRound_of_value htext]
  rfl

section Step

variable {τ : Type} {source : Driver τ} {ops : List Operation}

/-- The first step of a lockstep run starts all of `ops` and makes a round. -/
theorem step_fresh_lockstep {s s' : τ} (hne : ops ≠ [])
    (hinit : source.initAll ops s = (.ok (), s')) :
    Sequence.step { mode := .lockstep } source ops s =
      Sequence.settle ⟨.lockstep, .fresh, 0⟩ (source.round ops s') := by
  simp [Sequence.step, Sequence.start, Sequence.next, hne, hinit]

/-- A later step of a lockstep run makes a round of `ops`. -/
theorem step_running_lockstep (s : τ) (hne : ops ≠ []) :
    Sequence.step ⟨.lockstep, .running, 0⟩ source ops s =
      Sequence.settle ⟨.lockstep, .running, 0⟩ (source.round ops s) := by
  simp [Sequence.step, Sequence.next, hne]

@[simp]
theorem state_settle (sequence : Sequence) (outcome : Except RunError Bool × List Operation × τ) :
    (sequence.settle outcome).state = outcome.2.2 := by
  rcases outcome with ⟨_ | all, ops, s⟩
  · rfl
  · cases all <;> rfl

end Step

/-- Round `k`, in which each of `operations` gives a value, makes substitutions of these values. -/
theorem settle_round_of_lt (hserves : Serves names operations) (phase : Phase) {k : Nat} {s : σ}
    (hleft : ∀ op ∈ operations, listing.left s op = (listing.values op).drop k)
    (hk : ∀ op ∈ operations, k < listing.size op) :
    ∃ s', Sequence.settle ⟨.lockstep, phase, 0⟩
          (driver.round (listing.beforeRound operations k) s) =
        ⟨.ok (some ((operations.map (listing.afterRound k)).map Operation.current)),
          ⟨.lockstep, .running, 0⟩, listing.beforeRound operations (k + 1), s'⟩ ∧
      ∀ op ∈ operations, listing.left s' op = (listing.values op).drop (k + 1) := by
  obtain ⟨s', hround, hnext, -⟩ :=
    listing.round_eq (listing.serves_beforeRound hserves k) k s
      ((listing.left_beforeRound_iff).2 hleft)
  refine ⟨s', ?_, (listing.left_beforeRound_iff).1 hnext⟩
  have hall : (operations.all fun op => k < listing.size op) = true := by
    simpa using hk
  rw [hround, all_size_beforeRound, hall, listing.map_afterRound_beforeRound hk]
  rfl

/-- Round `k`, which finds the list of `op` at its end, gives nothing and ends the sequence. -/
theorem settle_round_of_le (hserves : Serves names operations) (phase : Phase) {k : Nat} {s : σ}
    (hleft : ∀ op ∈ operations, listing.left s op = (listing.values op).drop k)
    (hop : op ∈ operations) (hend : listing.size op ≤ k) :
    (Sequence.settle ⟨.lockstep, phase, 0⟩
        (driver.round (listing.beforeRound operations k) s)).answer = .ok none ∧
      (Sequence.settle ⟨.lockstep, phase, 0⟩
        (driver.round (listing.beforeRound operations k) s)).sequence.isFinished = true := by
  obtain ⟨s', hround, -, -⟩ :=
    listing.round_eq (listing.serves_beforeRound hserves k) k s
      ((listing.left_beforeRound_iff).2 hleft)
  have hall : (operations.all fun op => k < listing.size op) = false := by
    rw [List.all_eq_false]
    exact ⟨op, hop, by simpa using hend⟩
  rw [hround, all_size_beforeRound, hall]
  exact ⟨rfl, rfl⟩

/-- As long as no list is at its end, step `k` of a lockstep run is round `k`. Before it every
operation has given `k` values. -/
theorem stepAt_lockstep (hserves : Serves names operations) (hne : operations ≠ []) (s : σ)
    {k : Nat} (hk : ∀ op ∈ operations, k ≤ listing.size op) :
    ∃ phase s',
      Sequence.stepAt { mode := .lockstep } driver operations s k =
        Sequence.settle ⟨.lockstep, phase, 0⟩
          (driver.round (listing.beforeRound operations k) s') ∧
      (∀ op ∈ operations, listing.left s' op = (listing.values op).drop k) ∧
      Sequence.callsAt { mode := .lockstep } driver operations s k =
        (if k = 0 then startCalls operations else []) ++ listing.roundCalls k operations := by
  -- along the rounds; the invariant is that every list is at the place of the round
  induction k with
  | zero =>
    obtain ⟨s', hinit, hstarted, -⟩ := listing.initAll_eq hserves s
    obtain ⟨⟨t, log⟩, hnoted, hbegun, -⟩ := listing.journaled.initAll_eq hserves (s, [])
    have hlog : log = startCalls operations := by
      have hjournal := listing.initAll_journal hserves s []
      rw [hnoted] at hjournal
      simpa using hjournal
    refine ⟨.fresh, s', step_fresh_lockstep hne hinit, hstarted, ?_⟩
    rw [Sequence.callsAt, step_fresh_lockstep hne hnoted, state_settle,
      listing.round_journal hserves 0 t log hbegun, hlog, if_pos rfl]
  | succ k ih =>
    obtain ⟨phase, s', hstep, hleft, -⟩ := ih fun op hop => Nat.le_of_succ_le (hk op hop)
    obtain ⟨s'', hsettle, hnext⟩ := listing.settle_round_of_lt hserves phase hleft hk
    have hlast := hstep.trans hsettle
    have hne' : listing.beforeRound operations (k + 1) ≠ [] := by
      simpa [beforeRound] using hne
    refine ⟨.running, s'', ?_, hnext, ?_⟩
    · rw [Sequence.stepAt_succ, hlast]
      exact step_running_lockstep s'' hne'
    · have hcalls := listing.round_journal (listing.serves_beforeRound hserves (k + 1)) (k + 1)
        s'' [] ((listing.left_beforeRound_iff).2 hnext)
      rw [Sequence.callsAt, hlast]
      rw [step_running_lockstep _ hne', state_settle, hcalls, roundCalls_beforeRound]
      rfl

end Listing

/-- A lockstep run makes as many lists of substitutions as the shortest list of values is long,
which is `rounds`: list `k` gives every operation its own value at place `k`, and from `rounds` on
the run gives nothing. The first step starts the operations; every step `k ≤ rounds`, the one that
finds a list at its end included, asks every operation once, in order; and no later step makes a
call. -/
theorem lockstep_run {σ : Type} {driver : Driver σ} {operations : List Operation}
    (listing : Listing driver (operations.map (·.transform))) (hne : operations ≠ [])
    (hdistinct : (operations.map (·.transform)).Nodup) (s : σ) :
    ∃ rounds, (operations.map listing.size).min? = some rounds ∧
      (∀ k < rounds, ∃ subs,
        (Sequence.stepAt { mode := .lockstep } driver operations s k).answer = .ok (some subs) ∧
          listing.Shows operations (fun _ _ => k) subs) ∧
      (∀ k, rounds ≤ k →
        (Sequence.stepAt { mode := .lockstep } driver operations s k).answer = .ok none) ∧
      (∀ k ≤ rounds, Sequence.callsAt { mode := .lockstep } driver operations s k =
        (if k = 0 then Listing.startCalls operations else []) ++
          listing.roundCalls k operations) ∧
      ∀ k, rounds < k → Sequence.callsAt { mode := .lockstep } driver operations s k = [] := by
  have hserves : Listing.Serves (operations.map (·.transform)) operations :=
    ⟨fun op hop => List.mem_map_of_mem hop, hdistinct⟩
  have hsizes : operations.map listing.size ≠ [] := mt List.map_eq_nil_iff.1 hne
  obtain ⟨rounds, hrounds⟩ := Option.isSome_iff_exists.1 (List.isSome_min?_of_ne_nil hsizes)
  obtain ⟨hmem, hleast⟩ := List.min?_eq_some_iff.1 hrounds
  obtain ⟨shortest, hshortest, hsize⟩ := List.mem_map.1 hmem
  have hle : ∀ op ∈ operations, rounds ≤ listing.size op :=
    fun op hop => hleast _ (List.mem_map_of_mem hop)
  -- the round that finds the shortest list at its end
  obtain ⟨phase, s', hstep, hleft, hcalls⟩ := listing.stepAt_lockstep hserves hne s hle
  obtain ⟨hanswer, hfinished⟩ :=
    listing.settle_round_of_le hserves phase hleft hshortest (Nat.le_of_eq hsize)
  rw [← hstep] at hanswer hfinished
  refine ⟨rounds, hrounds, fun k hk => ?_, fun k hk => ?_, fun k hk => ?_, fun k hk => ?_⟩
  · -- every list is longer than `k`
    have hlt : ∀ op ∈ operations, k < listing.size op :=
      fun op hop => Nat.lt_of_lt_of_le hk (hle op hop)
    obtain ⟨phase, s', hstep, hleft, -⟩ :=
      listing.stepAt_lockstep hserves hne s fun op hop => Nat.le_of_lt (hlt op hop)
    obtain ⟨s'', hsettle, -⟩ := listing.settle_round_of_lt hserves phase hleft hlt
    refine ⟨_, ?_, listing.shows_afterRound hlt⟩
    rw [hstep, hsettle]
  · rcases Nat.eq_or_lt_of_le hk with rfl | hlt
    · exact hanswer
    · exact (Sequence.stepAt_of_isFinished hlt hfinished).1
  · obtain ⟨-, -, -, -, hmade⟩ :=
      listing.stepAt_lockstep hserves hne s fun op hop => Nat.le_trans hk (hle op hop)
    exact hmade
  · exact Sequence.callsAt_of_isFinished hk hfinished

/-- Of a list of three values and one of two, the third round asks both and shows nothing. -/
theorem lockstep_run_unequal_lists :
    let operations : List Operation := [⟨"a", "A", "", none⟩, ⟨"b", "B", "", none⟩]
    let values := fun name => if name = "a" then ["1", "2", "3"] else ["x", "y"]
    let driver := Driver.ofLists values
    operations ≠ [] ∧ (operations.map (·.transform)).Nodup ∧
      (Sequence.stepAt { mode := .lockstep } driver operations (fun _ => []) 2).answer =
        .ok none ∧
      Sequence.callsAt { mode := .lockstep } driver operations (fun _ => []) 2 =
        [.advance "a" (.ok (.value "3")), .advance "b" (.ok .exhausted)] := by
  intro operations values driver
  have hne : operations ≠ [] := by decide
  have hdistinct : (operations.map (·.transform)).Nodup := by decide
  obtain ⟨rounds, hrounds, -, hend, hcalls, -⟩ :=
    lockstep_run (Listing.ofLists values _) hne hdistinct fun _ => []
  have htwo : rounds = 2 := (Option.some.inj hrounds).symm
  subst htwo
  exact ⟨hne, hdistinct, hend 2 (Nat.le_refl 2), hcalls 2 (Nat.le_refl 2)⟩

end Stencil
