import Stencil.Proofs.Sequence.Cross
import Stencil.Proofs.Sequence.Lockstep
import Stencil.Proofs.Sequence.Simulation

/-!
# Restarts in cross-product runs

In cross mode an operation is read out over and over. It is started in the first step, and again by
every carry out of its digit, the carry that ends the run included. So it is started once more than
the operations behind it have combinations, and whatever a transform does when it is started is done
as often: a wordlist is read, a list is put into a random order, a step function is set up.

Main definitions:

* `Listing.countCalls`: the calls by which the counter moves on.
* `Listing.readings`: the calls to an operation until its digit has moved some times.
* `Listing.Recorded`: a journal of what was asked of each operation.

Main statements:

* `count_journal`: the calls of a count are these.
* `Recorded.count`: a count keeps the journal.
* `Sequence.meter_stepAt`: what is done at each start is done as often as there are starts.
* `cross_restarts`: the calls to an operation in a whole run.
-/

namespace Stencil

open Odometer

/-- The calls in `calls` that have reached the transform `name`. -/
def callsTo (name : String) (calls : List Call) : List Call :=
  calls.filter (·.transform = name)

/-- How often `calls` start the transform `name`. -/
def startsOf (name : String) (calls : List Call) : Nat :=
  (calls.filterMap Call.started?).count name

@[simp]
theorem callsTo_append (name : String) (calls more : List Call) :
    callsTo name (calls ++ more) = callsTo name calls ++ callsTo name more :=
  List.filter_append ..

@[simp]
theorem startsOf_append (name : String) (calls more : List Call) :
    startsOf name (calls ++ more) = startsOf name calls + startsOf name more := by
  rw [startsOf, List.filterMap_append, List.count_append, startsOf, startsOf]

theorem callsTo_eq_self {name : String} {calls : List Call}
    (h : ∀ call ∈ calls, call.transform = name) : callsTo name calls = calls :=
  List.filter_eq_self.2 fun call hcall => decide_eq_true (h call hcall)

theorem callsTo_eq_nil {name : String} {calls : List Call}
    (h : ∀ call ∈ calls, call.transform ≠ name) : callsTo name calls = [] :=
  List.filter_eq_nil_iff.2 fun call hcall => by simpa using h call hcall

/-- To start an operation is to start its transform. -/
theorem startsOf_init (name transform : String) (answer : Except RunError Unit) :
    startsOf name [.init transform answer] = if transform = name then 1 else 0 := by
  simp [startsOf, Call.started?, List.count_singleton]

/-- To ask an operation is to start nothing. -/
theorem startsOf_advance (name transform : String) (answer : Except RunError Advance) :
    startsOf name [.advance transform answer] = 0 := rfl

/-- The transform `name` is started by calls to it. -/
theorem startsOf_callsTo (name : String) (calls : List Call) :
    startsOf name (callsTo name calls) = startsOf name calls := by
  induction calls with
  | nil => rfl
  | cons call calls ih =>
    rw [← List.singleton_append, callsTo_append, startsOf_append, startsOf_append, ih]
    congr 1
    by_cases hcall : call.transform = name
    · rw [callsTo_eq_self (by simpa using hcall)]
    · rw [callsTo_eq_nil (by simpa using hcall)]
      cases call with
      | init transform answer =>
        exact ((startsOf_init name transform answer).trans (if_neg hcall)).symm
      | advance transform answer => rfl

/-- If `operations` have different transforms, one of their calls is to each of them. -/
theorem callsTo_map {f : Operation → Call} (hf : ∀ op, (f op).transform = op.transform)
    {operations : List Operation} (hdistinct : (operations.map (·.transform)).Nodup)
    {op : Operation} (hop : op ∈ operations) :
    callsTo op.transform (operations.map f) = [f op] := by
  induction operations with
  | nil => cases hop
  | cons first operations ih =>
    rw [List.map_cons, List.nodup_cons] at hdistinct
    obtain ⟨hapart, hdistinct⟩ := hdistinct
    rw [List.map_cons, ← List.singleton_append, callsTo_append]
    rcases List.mem_cons.1 hop with rfl | hop
    · -- no other operation has the same transform
      have hothers : callsTo op.transform (operations.map f) = [] := by
        refine callsTo_eq_nil fun call hcall heq => hapart ?_
        obtain ⟨other, hother, rfl⟩ := List.mem_map.1 hcall
        rw [← heq, hf]
        exact List.mem_map_of_mem hother
      rw [hothers, callsTo_eq_self (by simp [hf])]
      rfl
    · have hne : first.transform ≠ op.transform := by
        intro heq
        exact hapart (heq ▸ List.mem_map_of_mem hop)
      rw [ih hdistinct hop, callsTo_eq_nil (by simpa [hf] using hne)]
      rfl

namespace Listing

variable {σ : Type} {driver : Driver σ} {names : List String}

/-- The calls to the digit `op` when it is at its end: it is found to be there, started afresh and
asked for its first value. -/
def carryCalls (listing : Listing driver names) (op : Operation) : List Call :=
  .advance op.transform (.ok .exhausted) :: .init op.transform (.ok ()) ::
    listing.roundCalls 0 [op]

/-- The calls by which the counter moves on from `n`: the digits at their end are carried, and the
next one is asked for its next value. -/
def countCalls (listing : Listing driver names) : Nat → List Operation → List Call
  | _, [] => []
  | n, op :: operations =>
    if n % listing.size op + 1 < listing.size op then
      listing.roundCalls (n % listing.size op + 1) [op]
    else
      listing.carryCalls op ++ listing.countCalls (n / listing.size op) operations

/-- The calls to an operation until its digit has moved `n` times: whole turns, and then the values
of a turn that has begun. -/
def readings (listing : Listing driver names) (op : Operation) (n : Nat) : List Call :=
  (List.replicate (n / listing.size op) (turnCalls listing.values op)).flatten ++
    .init op.transform (.ok ()) ::
      ((listing.values op).take (n % listing.size op + 1)).map fun text =>
        .advance op.transform (.ok (.value text))

/-- The journal of a run that has counted up to `n`. -/
def Recorded (listing : Listing driver names) (log : List Call) : Nat → List Operation → Prop
  | _, [] => True
  | n, op :: operations =>
    callsTo op.transform log = listing.readings op n ∧
      Recorded listing log (n / listing.size op) operations

variable (listing : Listing driver names) {operations : List Operation} {op : Operation}

/-! ### The calls to one operation -/

/-- At `n` the digit `op` has values to come, or it is at its end. -/
theorem succ_mod_lt_or_eq (hsize : 0 < listing.size op) (n : Nat) :
    n % listing.size op + 1 < listing.size op ∨ n % listing.size op + 1 = listing.size op := by
  have hlt := Nat.mod_lt n hsize
  omega

theorem countCalls_of_lt {n : Nat} (h : n % listing.size op + 1 < listing.size op) :
    listing.countCalls n (op :: operations) =
      listing.roundCalls (n % listing.size op + 1) [op] := by
  rw [countCalls, if_pos h]

theorem countCalls_of_eq {n : Nat} (h : n % listing.size op + 1 = listing.size op) :
    listing.countCalls n (op :: operations) =
      listing.carryCalls op ++ listing.countCalls (n / listing.size op) operations := by
  rw [countCalls, if_neg (by omega)]

/-- The value that `op` shows has no part in the calls that carry it. -/
theorem carryCalls_withValue (op : Operation) (text : String) :
    listing.carryCalls (op.withValue text) = listing.carryCalls op := by
  rw [carryCalls, carryCalls, roundCalls, roundCalls, List.map_singleton, List.map_singleton,
    listing.values_withValue]
  rfl

/-- If `op` has values to come behind `k` of them, to ask it is to be given the next one. -/
theorem roundCalls_of_lt {k : Nat} (h : k < listing.size op) :
    listing.roundCalls k [op] = [.advance op.transform (.ok (.value (listing.values op)[k]))] := by
  rw [roundCalls, List.map_singleton, List.drop_eq_getElem_cons h]
  rfl

/-- If the digit `op` has values to come, it moves on within its turn. -/
theorem readings_succ_of_lt {n : Nat} (h : n % listing.size op + 1 < listing.size op) :
    listing.readings op (n + 1) =
      listing.readings op n ++ listing.roundCalls (n % listing.size op + 1) [op] := by
  obtain ⟨hquotient, hremainder⟩ := succ_div_mod_of_lt h
  rw [readings, readings, hquotient, hremainder, listing.roundCalls_of_lt h, List.take_add_one,
    List.getElem?_eq_getElem h]
  simp

/-- If the digit `op` is at its end, it ends its turn, and another one begins. -/
theorem readings_succ_of_eq {n : Nat} (h : n % listing.size op + 1 = listing.size op) :
    listing.readings op (n + 1) = listing.readings op n ++ listing.carryCalls op := by
  have hpos : 0 < listing.size op := by omega
  obtain ⟨hquotient, hremainder⟩ := succ_div_mod_of_eq h
  -- the reading was at its last value
  have hall : (listing.values op).take (n % listing.size op + 1) = listing.values op :=
    List.take_of_length_le (Nat.le_of_eq h.symm)
  have hfirst : (listing.values op).take (0 + 1) = [(listing.values op)[0]] := by
    rw [List.take_add_one, List.take_zero, List.nil_append, List.getElem?_eq_getElem hpos]
    rfl
  rw [readings, readings, hquotient, hremainder, hall, hfirst, carryCalls,
    listing.roundCalls_of_lt hpos, List.replicate_succ', List.flatten_append]
  simp [turnCalls, readCalls]

/-- To give values is to start nothing. -/
theorem startsOf_values (name : String) (texts : List String) :
    startsOf name (texts.map fun text => .advance op.transform (.ok (.value text))) = 0 := by
  simp [startsOf, Call.started?, List.filterMap_map, Function.comp_def]

/-- In as many turns as `rounds` the operation `op` is started as often. -/
theorem startsOf_turns (values : Operation → List String) (op : Operation) (rounds : Nat) :
    startsOf op.transform (List.replicate rounds (turnCalls values op)).flatten = rounds := by
  have hturn : startsOf op.transform (turnCalls values op) = 1 := by
    rw [turnCalls, readCalls, ← List.singleton_append, startsOf_append, startsOf_append,
      startsOf_init, if_pos rfl, startsOf_values, startsOf_advance]
  induction rounds with
  | zero => rfl
  | succ rounds ih =>
    rw [List.replicate_succ', List.flatten_append, startsOf_append, ih, List.flatten_singleton,
      hturn]

/-- Up to `n`, `op` was started once for each of its whole turns, and once more. -/
theorem startsOf_readings (op : Operation) (n : Nat) :
    startsOf op.transform (listing.readings op n) = n / listing.size op + 1 := by
  rw [readings, ← List.singleton_append, startsOf_append, startsOf_append, startsOf_turns,
    startsOf_init, if_pos rfl, startsOf_values]

/-! ### The journal -/

namespace Recorded

variable {listing} {log more : List Call} {n : Nat}

/-- The calls of `more`, to other transforms, do not matter. -/
theorem behind (h : listing.Recorded log n operations)
    (hmore : ∀ call ∈ more, call.transform ∉ operations.map (·.transform)) :
    listing.Recorded (log ++ more) n operations := by
  induction operations generalizing n with
  | nil => trivial
  | cons op operations ih =>
    have hapart : ∀ call ∈ more, call.transform ≠ op.transform := by
      intro call hcall heq
      exact hmore call hcall (heq ▸ List.mem_cons_self)
    refine ⟨?_, ih h.2 fun call hcall hmem => hmore call hcall (List.mem_cons_of_mem _ hmem)⟩
    rw [callsTo_append, callsTo_eq_nil hapart, List.append_nil, h.1]

/-- At first each of `operations` was started and has begun its first turn. -/
theorem zero (h : ∀ op ∈ operations, callsTo op.transform log = listing.readings op 0) :
    listing.Recorded log 0 operations := by
  induction operations with
  | nil => trivial
  | cons op operations ih =>
    refine ⟨h op List.mem_cons_self, ?_⟩
    rw [Nat.zero_div]
    exact ih fun other hother => h other (List.mem_cons_of_mem _ hother)

/-- The calls to `op`, the operation at `i`, are those of its digit. -/
theorem callsTo_eq (h : listing.Recorded log n operations) {i : Nat}
    (hop : operations[i]? = some op) :
    callsTo op.transform log =
      listing.readings op (n / ((operations.take i).map listing.size).prod) := by
  induction operations generalizing n i with
  | nil => cases hop
  | cons first operations ih =>
    cases i with
    | zero =>
      obtain rfl : first = op := by simpa using hop
      simpa using h.1
    | succ i =>
      rw [List.getElem?_cons_succ] at hop
      rw [ih h.2 hop, Nat.div_div_eq_div_mul, List.take_succ_cons, List.map_cons, List.prod_cons]

end Recorded

/-- To ask `op` is to call its transform. -/
theorem transform_of_mem_roundCalls {k : Nat} {call : Call}
    (h : call ∈ listing.roundCalls k [op]) : call.transform = op.transform := by
  rw [roundCalls, List.map_singleton, List.mem_singleton] at h
  rw [h, Call.transform]

/-- To carry the digit `op` is to call its transform. -/
theorem transform_of_mem_carryCalls {call : Call} (h : call ∈ listing.carryCalls op) :
    call.transform = op.transform := by
  rcases List.mem_cons.1 h with rfl | h
  · rfl
  · rcases List.mem_cons.1 h with rfl | h
    · rfl
    · exact listing.transform_of_mem_roundCalls h

/-- A count at `n` calls none but the transforms of `operations`. -/
theorem transform_of_mem_countCalls {n : Nat} {call : Call}
    (h : call ∈ listing.countCalls n operations) :
    call.transform ∈ operations.map (·.transform) := by
  induction operations generalizing n with
  | nil => cases h
  | cons op operations ih =>
    rw [List.map_cons, List.mem_cons]
    rw [countCalls] at h
    split at h
    · exact .inl (listing.transform_of_mem_roundCalls h)
    · rcases List.mem_append.1 h with h | h
      · exact .inl (listing.transform_of_mem_carryCalls h)
      · exact .inr (ih h)

/-- A count at `n` keeps the journal: the digits at their end go on to their next turns, and the
next one goes on within its own. -/
theorem Recorded.count {listing : Listing driver names} {log : List Call} {n : Nat}
    (h : listing.Recorded log n operations) (hserves : Serves names operations)
    (hpos : ∀ op ∈ operations, 0 < listing.size op) :
    listing.Recorded (log ++ listing.countCalls n operations) (n + 1) operations := by
  induction operations generalizing log n with
  | nil => trivial
  | cons op operations ih =>
    obtain ⟨hhead, hrest⟩ := h
    -- what is asked of the first digit is nothing to the others
    have hapart : ∀ calls : List Call, (∀ call ∈ calls, call.transform = op.transform) →
        listing.Recorded (log ++ calls) (n / listing.size op) operations := by
      intro calls hcalls
      refine hrest.behind fun call hcall => ?_
      rw [hcalls call hcall]
      exact hserves.head_notMem
    rcases listing.succ_mod_lt_or_eq (hpos op List.mem_cons_self) n with hlt | heq
    · have hround : ∀ call ∈ listing.roundCalls (n % listing.size op + 1) [op],
          call.transform = op.transform := fun call => listing.transform_of_mem_roundCalls
      rw [listing.countCalls_of_lt hlt]
      refine ⟨?_, ?_⟩
      · rw [callsTo_append, hhead, callsTo_eq_self hround, listing.readings_succ_of_lt hlt]
      · rw [(succ_div_mod_of_lt hlt).1]
        exact hapart _ hround
    · have hcarry : ∀ call ∈ listing.carryCalls op, call.transform = op.transform :=
        fun call => listing.transform_of_mem_carryCalls
      have hothers : callsTo op.transform
          (listing.countCalls (n / listing.size op) operations) = [] := by
        refine callsTo_eq_nil fun call hcall hsame => hserves.head_notMem ?_
        exact hsame ▸ listing.transform_of_mem_countCalls hcall
      rw [listing.countCalls_of_eq heq, ← List.append_assoc]
      refine ⟨?_, ?_⟩
      · rw [callsTo_append, callsTo_append, hhead, callsTo_eq_self hcarry, hothers, List.append_nil,
          listing.readings_succ_of_eq heq]
      · rw [(succ_div_mod_of_eq heq).1]
        exact ih (hapart _ hcarry) hserves.tail
          fun other hother => hpos other (List.mem_cons_of_mem _ hother)

/-! ### The calls of a step -/

/-- If the digit `op` is at its end, it is carried, and those of `rest` count one further. -/
theorem count_journal_of_end (h : op.transform ∈ names) {s : σ} (log : List Call)
    (hleft : listing.left s op = []) (hsize : 0 < listing.size op) (rest : List Operation) :
    ∃ s', (driver.journaled.count (op :: rest) (s, log)).2.2 =
        (driver.journaled.count rest (s', log ++ listing.carryCalls op)).2.2 ∧
      ∀ other : Operation, other.transform ≠ op.transform →
        listing.left s' other = listing.left s other := by
  obtain ⟨text, later, hvalues⟩ := List.exists_cons_of_length_pos hsize
  have hwound : listing.left (driver.init op (driver.advance op s).2).2 op = text :: later := by
    rw [listing.left_init _ _ h, hvalues]
  have hcarry : listing.carryCalls op = [.advance op.transform (.ok .exhausted),
      .init op.transform (.ok ()), .advance op.transform (.ok (.value text))] := by
    rw [carryCalls, roundCalls, List.map_singleton, List.drop_zero, hvalues]
    rfl
  -- the digit is exhausted, started again and asked for its first value
  refine ⟨(driver.advance op (driver.init op (driver.advance op s).2).2).2, ?_, ?_⟩
  · rw [Driver.count, Driver.advance_journaled, listing.advance_eq s h, hleft]
    simp only [Advance.ofList]
    rw [Driver.init_journaled, listing.init_eq _ h]
    simp only
    rw [Driver.advance_journaled, listing.advance_eq _ h, hwound, hcarry]
    simp [Advance.ofList]
  · intro other hne
    rw [listing.left_advance_of_ne _ _ _ h hne, listing.left_init_of_ne _ _ _ h hne,
      listing.left_advance_of_ne _ _ _ h hne]

/-- The calls of a count at `n` are `listing.countCalls n operations`. -/
theorem count_journal (hserves : Serves names operations)
    (hpos : ∀ op ∈ operations, 0 < listing.size op) {n : Nat} {s : σ} (log : List Call)
    (hturned : listing.Turned s n operations) :
    (driver.journaled.count (listing.shown n operations) (s, log)).2.2.2 =
      log ++ listing.countCalls n operations := by
  induction operations generalizing n s log with
  | nil => simp [shown, Driver.count, countCalls]
  | cons op operations ih =>
    obtain ⟨hleft, hothers⟩ := hturned
    set held := (listing.values op).getD (n % listing.size op) "" with hheld
    have hhead : (op.withValue held).transform ∈ names := hserves.head
    rw [← listing.left_withValue s op held] at hleft
    rw [shown, ← hheld]
    rcases listing.succ_mod_lt_or_eq (hpos op List.mem_cons_self) n with hlt | heq
    · rw [List.drop_eq_getElem_cons hlt] at hleft
      have hcount := listing.journaled.count_of_left hhead (s := (s, log)) hleft
        (listing.shown (n / listing.size op) operations)
      rw [listing.countCalls_of_lt hlt, listing.roundCalls_of_lt hlt, hcount,
        Driver.advance_journaled, listing.advance_eq s hhead, hleft]
      rfl
    · rw [List.drop_eq_nil_of_le (Nat.le_of_eq heq.symm)] at hleft
      have hsize : 0 < listing.size (op.withValue held) := by
        rw [size, listing.values_withValue]
        exact hpos op List.mem_cons_self
      -- the carry leaves the others as they were, so they count on from where they stand
      obtain ⟨s', hcount, hframe⟩ := listing.count_journal_of_end hhead log hleft hsize
        (listing.shown (n / listing.size op) operations)
      have hrest := ih hserves.tail (fun other hother => hpos other (List.mem_cons_of_mem _ hother))
        (log ++ listing.carryCalls op) (hothers.congr listing fun other hother =>
          hframe other (hserves.ne_head hother))
      rw [listing.countCalls_of_eq heq, hcount, listing.carryCalls_withValue, hrest,
        List.append_assoc]

/-- To prime `operations` that hold no values is to ask each of them once, if all of them have
values. -/
theorem prime_journal (hserves : Serves names operations)
    (hfresh : ∀ op ∈ operations, op.cached = none)
    (hpos : ∀ op ∈ operations, 0 < listing.size op) {s : σ} (log : List Call)
    (hleft : ∀ op ∈ operations, listing.left s op = listing.values op) :
    (driver.journaled.prime operations (s, log)).2.2.2 =
      log ++ listing.roundCalls 0 operations := by
  induction operations generalizing s log with
  | nil => simp [Driver.prime, roundCalls]
  | cons op operations ih =>
    -- a fresh operation is not passed over
    have hnone : op.cached.isSome = false := by
      rw [hfresh op List.mem_cons_self, Option.isSome_none]
    have hvalues := hleft op List.mem_cons_self
    obtain ⟨text, later, hlist⟩ := List.exists_cons_of_length_pos (hpos op List.mem_cons_self)
    have hrest := ih hserves.tail (fun other hother => hfresh other (List.mem_cons_of_mem _ hother))
      (fun other hother => hpos other (List.mem_cons_of_mem _ hother))
      (s := (driver.advance op s).2) (log ++ [.advance op.transform (.ok (.value text))])
      fun other hother => by
        rw [listing.left_advance_of_ne op other s hserves.head (hserves.ne_head hother)]
        exact hleft other (List.mem_cons_of_mem _ hother)
    rw [Driver.prime, hnone, Driver.advance_journaled, listing.advance_eq s hserves.head, hvalues,
      hlist]
    simp only [Advance.ofList, Bool.false_eq_true, if_false]
    rw [hrest]
    simp [roundCalls, hlist, Advance.ofList]

/-- The first step of a cross run starts `op` and the operations of `rest`, primes the latter, and
counts. -/
theorem step_fresh_of_primed {τ : Type} {source : Driver τ} {rest primed : List Operation}
    {s s₁ s₂ : τ} (hinit : source.initAll (op :: rest) s = (.ok (), s₁))
    (hprime : source.prime rest s₁ = (.ok true, primed, s₂)) :
    Sequence.step { mode := .cross } source (op :: rest) s =
      Sequence.settle ⟨.cross, .fresh, 0⟩ (source.count (op :: primed) s₂) := by
  simp [Sequence.step, Sequence.start, Sequence.next, Driver.primeRest, hinit, hprime]

/-- The calls of the first step of a cross run, if all operations have values: `op` and those of
`rest` are started, the latter are primed, and the count asks `op`. -/
theorem callsAt_cross_zero {rest : List Operation} (hserves : Serves names (op :: rest))
    (hfresh : ∀ other ∈ rest, other.cached = none)
    (hpos : ∀ other ∈ op :: rest, 0 < listing.size other) (s : σ) :
    Sequence.callsAt { mode := .cross } driver (op :: rest) s 0 =
      startCalls (op :: rest) ++ listing.roundCalls 0 (rest ++ [op]) := by
  have hrest : ∀ other ∈ rest, 0 < listing.size other :=
    fun other hother => hpos other (List.mem_cons_of_mem _ hother)
  -- the journal after all were started
  obtain ⟨⟨s₁, log₁⟩, hinit, hstarted, -⟩ := listing.journaled.initAll_eq hserves (s, [])
  have hlog₁ := listing.initAll_journal hserves s []
  rw [hinit, List.nil_append] at hlog₁
  obtain rfl : log₁ = _ := hlog₁
  -- and after all but the first were primed
  obtain ⟨primed, ⟨s₂, log₂⟩, hprime, -, hframe⟩ :=
    listing.journaled.prime_shown hserves.tail hfresh (s := (s₁, startCalls (op :: rest)))
      fun other hother => hstarted other (List.mem_cons_of_mem _ hother)
  have hlog₂ := listing.prime_journal hserves.tail hfresh hrest (s := s₁) (startCalls (op :: rest))
    fun other hother => hstarted other (List.mem_cons_of_mem _ hother)
  rw [hprime] at hlog₂
  obtain rfl : log₂ = _ := hlog₂
  -- the first one has not been asked so far, so the count does not carry
  obtain ⟨text, later, hvalues⟩ := List.exists_cons_of_length_pos (hpos op List.mem_cons_self)
  have hleft : listing.left s₂ op = text :: later := by
    have hopen := hframe op hserves.head_notMem
    rw [hstarted op List.mem_cons_self] at hopen
    exact hopen.trans hvalues
  have hcount := listing.journaled.count_of_left hserves.head
    (s := (s₂, startCalls (op :: rest) ++ listing.roundCalls 0 rest)) hleft primed
  have hall : (rest.all fun other => 0 < listing.journaled.size other) = true :=
    List.all_eq_true.2 fun other hother => decide_eq_true (hrest other hother)
  rw [hall] at hprime
  rw [Sequence.callsAt, step_fresh_of_primed hinit hprime, state_settle, hcount,
    Driver.advance_journaled, listing.advance_eq s₂ hserves.head, hleft]
  simp [roundCalls, hvalues, Advance.ofList]

/-- The calls of step `n + 1` of a cross run are those of a count at `n`. -/
theorem callsAt_cross_succ (hserves : Serves names operations) (hne : operations ≠ [])
    (hfresh : ∀ op ∈ operations, op.cached = none)
    (hpos : ∀ op ∈ operations, 0 < listing.size op) (s : σ) {n : Nat}
    (hn : n < listing.volume operations) :
    Sequence.callsAt { mode := .cross } driver operations s (n + 1) =
      listing.countCalls n operations := by
  obtain ⟨s', hlast, hturned⟩ := listing.stepAt_cross hserves hne hfresh hpos s hn
  have hcount := listing.count_journal hserves hpos [] hturned
  rw [Sequence.callsAt, hlast]
  simp only
  rw [step_running_cross _ (listing.shown_ne_nil n hne), state_settle, hcount, List.nil_append]

/-! ### Whole runs -/

/-- The first step of a cross run starts `operations` and begins their first turns. -/
theorem recorded_callsAt_zero (hserves : Serves names operations) (hne : operations ≠ [])
    (hfresh : ∀ op ∈ operations, op.cached = none)
    (hpos : ∀ op ∈ operations, 0 < listing.size op) (s : σ) :
    listing.Recorded (Sequence.callsAt { mode := .cross } driver operations s 0) 0 operations := by
  cases operations with
  | nil => exact absurd rfl hne
  | cons first rest =>
    -- all digits are started in order, but the first one is asked last
    have hperm : (rest ++ [first]).Perm (first :: rest) := List.perm_append_singleton first rest
    have hdistinct : ((rest ++ [first]).map (·.transform)).Nodup :=
      (hperm.map _).nodup_iff.2 hserves.distinct
    refine .zero fun op hop => ?_
    have hsize := hpos op hop
    have hstart : callsTo op.transform (startCalls (first :: rest)) =
        [.init op.transform (.ok ())] :=
      callsTo_map (fun _ => rfl) hserves.distinct hop
    have hround : callsTo op.transform (listing.roundCalls 0 (rest ++ [first])) =
        listing.roundCalls 0 [op] :=
      callsTo_map (fun _ => rfl) hdistinct (hperm.mem_iff.2 hop)
    rw [listing.callsAt_cross_zero hserves
      (fun other hother => hfresh other (List.mem_cons_of_mem _ hother)) hpos s, callsTo_append,
      hstart, hround, listing.roundCalls_of_lt hsize, readings, Nat.zero_div, Nat.zero_mod,
      List.take_add_one, List.getElem?_eq_getElem hsize]
    simp

/-- After step `n` of a cross run the journal has counted up to `n`, also after the step that ends
the run. -/
theorem recorded_run (hserves : Serves names operations) (hne : operations ≠ [])
    (hfresh : ∀ op ∈ operations, op.cached = none)
    (hpos : ∀ op ∈ operations, 0 < listing.size op) (s : σ) {n : Nat}
    (hn : n ≤ listing.volume operations) :
    listing.Recorded ((List.range (n + 1)).flatMap
      (Sequence.callsAt { mode := .cross } driver operations s)) n operations := by
  induction n with
  | zero =>
    have hfirst := listing.recorded_callsAt_zero hserves hne hfresh hpos s
    simpa using hfirst
  | succ n ih =>
    have hcounted := (ih (Nat.le_of_succ_le hn)).count hserves hpos
    rw [List.range_succ, List.flatMap_append, List.flatMap_singleton,
      listing.callsAt_cross_succ hserves hne hfresh hpos s hn]
    exact hcounted

/-- When the counter has run over, the digit `op` has gone through all its values once for each
combination of the operations behind it. -/
theorem volume_div_prod_take (hpos : ∀ op ∈ operations, 0 < listing.size op) {i : Nat}
    (hop : operations[i]? = some op) :
    listing.volume operations / ((operations.take i).map listing.size).prod =
      listing.size op * ((operations.drop (i + 1)).map listing.size).prod := by
  obtain ⟨hlt, rfl⟩ := List.getElem?_eq_some_iff.1 hop
  have hbefore : 0 < listing.volume (operations.take i) :=
    (listing.volume_pos_iff).2 fun other hother => hpos other (List.mem_of_mem_take hother)
  have hsplit : listing.volume operations = listing.volume (operations.take i) *
      (listing.size operations[i] * ((operations.drop (i + 1)).map listing.size).prod) := by
    rw [volume, volume, ← List.prod_cons, ← List.map_cons, ← List.drop_eq_getElem_cons hlt,
      ← List.prod_append, ← List.map_append, List.take_append_drop]
  rw [hsplit, volume]
  exact Nat.mul_div_cancel_left _ hbefore

/-- After as many whole turns as `rounds`, `op` was started once more and has given its first
value. -/
theorem readings_mul (hsize : 0 < listing.size op) (rounds : Nat) :
    listing.readings op (listing.size op * rounds) =
      (List.replicate rounds (turnCalls listing.values op)).flatten ++
        .init op.transform (.ok ()) :: ((listing.values op).take 1).map fun text =>
          .advance op.transform (.ok (.value text)) := by
  rw [readings, Nat.mul_div_cancel_left _ hsize, Nat.mul_mod_right]

end Listing

namespace Sequence

/-- If `meter` counts the starts of the transform `name`, and nothing else, it counts in a step as
many as the step makes. -/
theorem meter_step {σ : Type} {driver : Driver σ} {name : String} {meter : σ → Nat}
    (hinit : ∀ op s, meter (driver.init op s).2 =
      meter s + if op.transform = name then 1 else 0)
    (hadvance : ∀ op s, meter (driver.advance op s).2 = meter s) (sequence : Sequence)
    (operations : List Operation) (s : σ) :
    meter (sequence.step driver operations s).state =
      meter s + startsOf name (sequence.calls driver operations s) := by
  -- beside a journal, the meter shows how many starts are written down
  have hmetered : meter (sequence.step driver.journaled operations (s, [])).state.1 =
      meter s + startsOf name (sequence.step driver.journaled operations (s, [])).state.2 := by
    refine step_preserves
      (P := fun state : σ × List Call => meter state.1 = meter s + startsOf name state.2)
      sequence operations ?_ ?_ rfl
    · rintro op ⟨state, log⟩ - hstate
      rw [Driver.init_journaled, startsOf_append, hinit, hstate, Nat.add_assoc, startsOf_init]
    · rintro op ⟨state, log⟩ - hstate
      rw [Driver.advance_journaled, startsOf_append, hadvance, hstate, startsOf_advance,
        Nat.add_zero]
  rw [step_journaled] at hmetered
  exact hmetered

/-- If `meter` counts the starts of the transform `name`, and nothing else, it counts up to step `n`
as many as the run makes. -/
theorem meter_stepAt {σ : Type} {driver : Driver σ} {name : String} {meter : σ → Nat}
    (hinit : ∀ op s, meter (driver.init op s).2 =
      meter s + if op.transform = name then 1 else 0)
    (hadvance : ∀ op s, meter (driver.advance op s).2 = meter s) (sequence : Sequence)
    (operations : List Operation) (s : σ) (n : Nat) :
    meter (sequence.stepAt driver operations s n).state = meter s + startsOf name
      ((List.range (n + 1)).flatMap (sequence.callsAt driver operations s)) := by
  induction n with
  | zero =>
    have hfirst := meter_step hinit hadvance sequence operations s
    simpa [stepAt, callsAt, calls] using hfirst
  | succ n ih =>
    rw [stepAt_succ, meter_step hinit hadvance, ih, List.range_succ (n := n + 1),
      List.flatMap_append, List.flatMap_singleton, startsOf_append, callsAt_succ, Nat.add_assoc]

end Sequence

/-- How often a cross product reads out its operations. Let `last` be the number of combinations, so
that step `last` is the first to answer `none`, and let `calls` be the calls of all steps up to that
one. The operation at `i` is started once more than the operations behind it have combinations,
which is `1 + rounds`. Each of its turns but the last one is read to its end before the next one
begins (`turnCalls`), and the last one has come to its first value. So if a `meter` counts what is
done at each start of the transform, be it that a wordlist is read, that a list is put into a random
order or that a step function is set up, it has counted `1 + rounds`. -/
theorem cross_restarts {σ : Type} {driver : Driver σ} {operations : List Operation}
    (listing : Listing driver (operations.map (·.transform))) (hne : operations ≠ [])
    (hdistinct : (operations.map (·.transform)).Nodup)
    (hfresh : ∀ op ∈ operations, op.cached = none)
    (hpos : ∀ op ∈ operations, 0 < listing.size op) (s : σ) :
    let last := (operations.map listing.size).prod
    let calls := (List.range (last + 1)).flatMap
      (Sequence.callsAt { mode := .cross } driver operations s)
    (∀ n < last, ∃ subs,
      (Sequence.stepAt { mode := .cross } driver operations s n).answer = .ok (some subs)) ∧
    (Sequence.stepAt { mode := .cross } driver operations s last).answer = .ok none ∧
    ∀ i op, operations[i]? = some op →
      let rounds := ((operations.drop (i + 1)).map listing.size).prod
      startsOf op.transform calls = 1 + rounds ∧
      callsTo op.transform calls =
        (List.replicate rounds (turnCalls listing.values op)).flatten ++
          .init op.transform (.ok ()) :: (((listing.values op).take 1).map fun text =>
            .advance op.transform (.ok (.value text))) ∧
      ∀ meter : σ → Nat,
        (∀ other s, meter (driver.init other s).2 =
          meter s + if other.transform = op.transform then 1 else 0) →
        (∀ other s, meter (driver.advance other s).2 = meter s) →
        meter (Sequence.stepAt { mode := .cross } driver operations s last).state =
          meter s + (1 + rounds) := by
  intro last calls
  have hserves : Listing.Serves (operations.map (·.transform)) operations :=
    ⟨fun op hop => List.mem_map_of_mem hop, hdistinct⟩
  refine ⟨fun n hn => ?_, (listing.stepAt_volume hserves hne hfresh s).1, fun i op hop => ?_⟩
  · obtain ⟨s', hstep, -⟩ := listing.stepAt_cross hserves hne hfresh hpos s hn
    exact ⟨_, congrArg Step.answer hstep⟩
  · intro rounds
    have hsize := hpos op (List.mem_of_getElem? hop)
    -- the record of the whole run, for one operation
    have hcalls : callsTo op.transform calls =
        listing.readings op (listing.size op * rounds) := by
      have hrecorded : listing.Recorded calls (listing.volume operations) operations :=
        listing.recorded_run hserves hne hfresh hpos s (Nat.le_refl _)
      rw [hrecorded.callsTo_eq hop, listing.volume_div_prod_take hpos hop]
    have hstarts : startsOf op.transform calls = 1 + rounds := by
      rw [← startsOf_callsTo, hcalls, listing.startsOf_readings, Nat.mul_div_cancel_left _ hsize,
        Nat.add_comm]
    refine ⟨hstarts, hcalls.trans (listing.readings_mul hsize rounds), ?_⟩
    intro meter hinit hadvance
    rw [Sequence.meter_stepAt hinit hadvance, ← hstarts]

/-- Of two values and three, the first list is read four times and the second one twice, the last
time when the run ends. What meters the reading of the first list is a journal of its starts. -/
theorem cross_restarts_two_by_three :
    let operations : List Operation := [⟨"x", "X", "", none⟩, ⟨"y", "Y", "", none⟩]
    let values := fun name => if name = "x" then ["1", "2"] else ["a", "b", "c"]
    let driver := (Driver.ofLists values).journaled
    let calls := (List.range 7).flatMap
      (Sequence.callsAt { mode := .cross } driver operations (fun _ => [], []))
    operations ≠ [] ∧ (operations.map (·.transform)).Nodup ∧
      (∀ op ∈ operations, op.cached = none) ∧ startsOf "x" calls = 4 ∧ startsOf "y" calls = 2 ∧
      callsTo "y" calls = [.init "y" (.ok ()), .advance "y" (.ok (.value "a")),
        .advance "y" (.ok (.value "b")), .advance "y" (.ok (.value "c")),
        .advance "y" (.ok .exhausted), .init "y" (.ok ()), .advance "y" (.ok (.value "a"))] ∧
      startsOf "x" (Sequence.stepAt { mode := .cross } driver operations
        (fun _ => [], []) 6).state.2 = 4 := by
  intro operations values driver calls
  have hne : operations ≠ [] := by decide
  have hdistinct : (operations.map (·.transform)).Nodup := by decide
  have hfresh : ∀ op ∈ operations, op.cached = none := by decide
  let listing : Listing driver (operations.map (·.transform)) :=
    (Listing.ofLists values _).journaled
  have hpos : ∀ op ∈ operations, 0 < listing.size op := by decide
  have hlast : (operations.map listing.size).prod = 6 := by decide
  obtain ⟨-, -, hrun⟩ := cross_restarts listing hne hdistinct hfresh hpos (fun _ => [], [])
  rw [hlast] at hrun
  obtain ⟨hfirst, -, hmeter⟩ := hrun 0 _ rfl
  obtain ⟨hsecond, hcalls, -⟩ := hrun 1 _ rfl
  -- `x` is read to its end for each value of `y`, and `y` once
  have hx : ((operations.drop 1).map listing.size).prod = 3 := by decide
  have hy : ((operations.drop 2).map listing.size).prod = 1 := by decide
  rw [hx] at hfirst hmeter
  rw [hy] at hsecond hcalls
  refine ⟨hne, hdistinct, hfresh, hfirst, hsecond, hcalls, ?_⟩
  refine hmeter (fun state => startsOf "x" state.2) (fun op state => ?_) (fun op state => ?_)
  · exact (startsOf_append ..).trans (congrArg _ (startsOf_init ..))
  · exact (startsOf_append ..).trans (congrArg _ (startsOf_advance ..))

end Stencil
