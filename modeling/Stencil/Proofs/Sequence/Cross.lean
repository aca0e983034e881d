import Stencil.Proofs.Sequence.Listing
import Stencil.Proofs.Sequence.Odometer

/-!
# Cross-product runs

In cross mode the operations are the digits of a counter: the radix of a digit is the number of
values of its operation. After step `k` every operation holds the value at the digit of `k` that
belongs to it, and the values behind that one are still to come. So a run counts from 0 up to the
product of the numbers of values, and the step that would reach this product carries out of the
last digit and ends the run.

Main definitions:

* `Listing.shown`: the operations after step `k`.
* `Listing.Turned`: what is still to come for them.

Main statements:

* `count_shown`: a step adds one to the counter.
* `cross_run`: the substitutions of a whole run.
-/

namespace Stencil

open Odometer

namespace Listing

variable {σ : Type} {driver : Driver σ} {names : List String}

/-- How many combinations of values `operations` have. -/
def volume (listing : Listing driver names) (operations : List Operation) : Nat :=
  (operations.map listing.size).prod

/-- The operations with the values at the digits of `n`. -/
def shown (listing : Listing driver names) : Nat → List Operation → List Operation
  | _, [] => []
  | n, op :: operations =>
    op.withValue ((listing.values op).getD (n % listing.size op) "") ::
      shown listing (n / listing.size op) operations

/-- The values behind the digits of `n` are still to come. -/
def Turned (listing : Listing driver names) (s : σ) : Nat → List Operation → Prop
  | _, [] => True
  | n, op :: operations =>
    listing.left s op = (listing.values op).drop (n % listing.size op + 1) ∧
      Turned listing s (n / listing.size op) operations

variable (listing : Listing driver names) {operations : List Operation} {op : Operation}

@[simp]
theorem volume_nil : listing.volume [] = 1 := rfl

@[simp]
theorem volume_cons (op : Operation) (operations : List Operation) :
    listing.volume (op :: operations) = listing.size op * listing.volume operations := by
  rw [volume, List.map_cons, List.prod_cons, volume]

/-- There are combinations exactly if each of `operations` has values. -/
theorem volume_pos_iff :
    0 < listing.volume operations ↔ ∀ op ∈ operations, 0 < listing.size op := by
  induction operations with
  | nil => simp
  | cons op operations ih =>
    rw [volume_cons, List.forall_mem_cons, ← ih]
    exact ⟨fun h => ⟨Nat.pos_of_mul_pos_right h, Nat.pos_of_mul_pos_left h⟩,
      fun h => Nat.mul_pos h.1 h.2⟩

/-- What is still to come for `operations` depends only on the lists that are left of these. -/
theorem Turned.congr {s s' : σ} {n : Nat} (h : listing.Turned s n operations)
    (heq : ∀ op ∈ operations, listing.left s' op = listing.left s op) :
    listing.Turned s' n operations := by
  induction operations generalizing n with
  | nil => trivial
  | cons op operations ih =>
    refine ⟨?_, ih h.2 fun other hother => heq other (List.mem_cons_of_mem _ hother)⟩
    rw [heq op List.mem_cons_self, h.1]

/-- The substitutions of step `n` show the values at the digits of `n`. -/
theorem shows_shown (h : ∀ op ∈ operations, 0 < listing.size op) (n : Nat) :
    listing.Shows operations
      (fun i op => n / ((operations.map listing.size).take i).prod % listing.size op)
      ((listing.shown n operations).map Operation.current) := by
  induction operations generalizing n with
  | nil => exact ⟨rfl, by simp⟩
  | cons op operations ih =>
    have hpos := h op List.mem_cons_self
    obtain ⟨hlength, hvalues⟩ :=
      ih (fun other hother => h other (List.mem_cons_of_mem _ hother)) (n / listing.size op)
    refine ⟨by simpa [shown] using hlength, fun i other hother => ?_⟩
    cases i with
    | zero =>
      simp only [List.getElem?_cons_zero, Option.some.injEq] at hother
      subst hother
      have hlt : n % listing.size op < (listing.values op).length := Nat.mod_lt _ hpos
      refine ⟨(listing.values op)[n % listing.size op], ?_, ?_⟩
      · simp [List.getElem?_eq_getElem hlt]
      · simp [shown, Operation.current, List.getD_eq_getElem?_getD, List.getElem?_eq_getElem hlt]
    | succ i =>
      -- the digits behind the first one show the quotient
      rw [List.getElem?_cons_succ] at hother
      obtain ⟨text, htext, hsub⟩ := hvalues i other hother
      refine ⟨text, ?_, by simpa [shown] using hsub⟩
      simpa [Nat.div_div_eq_div_mul] using htext

/-- If the digit `op` has values to come, it moves on to `text`, and those of `rest` stand still. -/
theorem count_of_left (h : op.transform ∈ names) {s : σ} {text : String} {later : List String}
    (hleft : listing.left s op = text :: later) (rest : List Operation) :
    driver.count (op :: rest) s =
      (.ok true, op.withValue text :: rest, (driver.advance op s).2) := by
  rw [Driver.count, listing.advance_eq s h, hleft]
  rfl

/-- If the digit `op` is at its end, it goes back to `text`, its first value, and those of `rest`
count one further. -/
theorem count_of_end (h : op.transform ∈ names) {s : σ} {text : String} {later : List String}
    (hleft : listing.left s op = []) (hvalues : listing.values op = text :: later)
    (rest : List Operation) :
    ∃ s', driver.count (op :: rest) s =
        ((driver.count rest s').1, op.withValue text :: (driver.count rest s').2.1,
          (driver.count rest s').2.2) ∧
      listing.left s' op = later ∧
      ∀ other : Operation, other.transform ≠ op.transform →
        listing.left s' other = listing.left s other := by
  have hwound : listing.left (driver.init op (driver.advance op s).2).2 op = text :: later := by
    rw [listing.left_init _ _ h, hvalues]
  -- the end is met, the digit is started again and asked for its first value
  refine ⟨(driver.advance op (driver.init op (driver.advance op s).2).2).2, ?_, ?_, ?_⟩
  · rw [Driver.count, listing.advance_eq s h, hleft]
    simp only [Advance.ofList]
    rw [listing.init_eq _ h]
    simp only
    rw [listing.advance_eq _ h, hwound]
    rfl
  · rw [listing.left_advance _ _ h, hwound, List.tail_cons]
  · intro other hne
    rw [listing.left_advance_of_ne _ _ _ h hne, listing.left_init_of_ne _ _ _ h hne,
      listing.left_advance_of_ne _ _ _ h hne]

/-- If the digit `op` has no values at all, it stops the counter. -/
theorem count_of_empty (h : op.transform ∈ names) {s : σ} (hleft : listing.left s op = [])
    (hvalues : listing.values op = []) (rest : List Operation) :
    ∃ s', driver.count (op :: rest) s = (.ok false, op :: rest, s') := by
  have hwound : listing.left (driver.init op (driver.advance op s).2).2 op = [] := by
    rw [listing.left_init _ _ h, hvalues]
  refine ⟨(driver.advance op (driver.init op (driver.advance op s).2).2).2, ?_⟩
  rw [Driver.count, listing.advance_eq s h, hleft]
  simp only [Advance.ofList]
  rw [listing.init_eq _ h]
  simp only
  rw [listing.advance_eq _ h, hwound]
  rfl

/-- Whether the counter stays below the volume is up to `operations`, the digits behind the first
one. -/
theorem succ_lt_volume_cons_iff (hsize : 0 < listing.size op) (n : Nat) :
    n + 1 < listing.volume (op :: operations) ↔
      (n + 1) / listing.size op < listing.volume operations := by
  rw [volume_cons, Nat.div_lt_iff_lt_mul hsize, Nat.mul_comm]

/-- To count where the first digit `op` has values to come is to move this digit. -/
theorem count_shown_of_lt (hserves : Serves names (op :: operations)) {n : Nat} {s : σ}
    (hturned : listing.Turned s n (op :: operations))
    (hn : n < listing.volume (op :: operations)) (hlt : n % listing.size op + 1 < listing.size op) :
    ∃ s', driver.count (listing.shown n (op :: operations)) s =
        (.ok (decide (n + 1 < listing.volume (op :: operations))),
          listing.shown (n + 1) (op :: operations), s') ∧
      listing.Turned s' (n + 1) (op :: operations) ∧
      listing.Untouched (op :: operations) s s' := by
  -- the first digit has a value left, so nothing is carried
  have hsize : 0 < listing.size op := Nat.zero_lt_of_lt hlt
  obtain ⟨hleft, hrest⟩ := hturned
  obtain ⟨hquotient, hremainder⟩ := succ_div_mod_of_lt hlt
  set held := (listing.values op).getD (n % listing.size op) "" with hheld
  have hhead : (op.withValue held).transform ∈ names := hserves.head
  have hframe : ∀ other : Operation, other.transform ≠ op.transform →
      listing.left (driver.advance (op.withValue held) s).2 other = listing.left s other :=
    fun other => listing.left_advance_of_ne _ other s hhead
  rw [← listing.left_withValue s op held, List.drop_eq_getElem_cons hlt] at hleft
  refine ⟨(driver.advance (op.withValue held) s).2, ?_, ⟨?_, ?_⟩, .of_head _ hframe⟩
  · have hnext : (listing.values op).getD (n % listing.size op + 1) "" =
        (listing.values op)[n % listing.size op + 1] := by
      rw [List.getD_eq_getElem?_getD, List.getElem?_eq_getElem hlt, Option.getD_some]
    have hbelow : n + 1 < listing.volume (op :: operations) := by
      rw [listing.succ_lt_volume_cons_iff hsize, hquotient]
      exact Nat.div_lt_of_lt_mul (by rwa [volume_cons] at hn)
    rw [shown, ← hheld, listing.count_of_left hhead hleft, decide_eq_true hbelow, shown, hquotient,
      hremainder, hnext, Operation.withValue_withValue]
  · rw [hremainder, ← listing.left_withValue _ op held, listing.left_advance _ _ hhead, hleft,
      List.tail_cons]
  · rw [hquotient]
    exact hrest.congr listing fun other hother => hframe other (hserves.ne_head hother)

/-- To count where the first digit `op` is at its end is to turn it back and to count
`operations`. -/
theorem count_shown_of_eq (hserves : Serves names (op :: operations))
    (hsize : 0 < listing.size op) {n : Nat} {s : σ}
    (hturned : listing.Turned s n (op :: operations))
    (heq : n % listing.size op + 1 = listing.size op)
    (hrest : ∀ s₁, listing.Turned s₁ (n / listing.size op) operations →
      ∃ s₂, driver.count (listing.shown (n / listing.size op) operations) s₁ =
          (.ok (decide (n / listing.size op + 1 < listing.volume operations)),
            listing.shown (n / listing.size op + 1) operations, s₂) ∧
        listing.Turned s₂ (n / listing.size op + 1) operations ∧
        listing.Untouched operations s₁ s₂) :
    ∃ s', driver.count (listing.shown n (op :: operations)) s =
        (.ok (decide (n + 1 < listing.volume (op :: operations))),
          listing.shown (n + 1) (op :: operations), s') ∧
      listing.Turned s' (n + 1) (op :: operations) ∧
      listing.Untouched (op :: operations) s s' := by
  obtain ⟨hleft, hothers⟩ := hturned
  obtain ⟨hquotient, hremainder⟩ := succ_div_mod_of_eq heq
  set held := (listing.values op).getD (n % listing.size op) "" with hheld
  have hhead : (op.withValue held).transform ∈ names := hserves.head
  obtain ⟨text, later, hvalues⟩ := List.exists_cons_of_length_pos hsize
  have hvalues' : listing.values (op.withValue held) = text :: later := by
    rw [listing.values_withValue, hvalues]
  rw [← listing.left_withValue s op held, List.drop_eq_nil_of_le (Nat.le_of_eq heq.symm)] at hleft
  -- the digit goes back to its first value
  obtain ⟨s₁, hcount, hwound, hframe⟩ :=
    listing.count_of_end hhead hleft hvalues' (listing.shown (n / listing.size op) operations)
  -- and the others count one further
  obtain ⟨s₂, hcounted, hturned, huntouched⟩ :=
    hrest s₁ (hothers.congr listing fun other hother => hframe other (hserves.ne_head hother))
  refine ⟨s₂, ?_, ⟨?_, ?_⟩, huntouched.cons hframe⟩
  · have hbelow : decide (n + 1 < listing.volume (op :: operations)) =
        decide (n / listing.size op + 1 < listing.volume operations) := by
      rw [decide_eq_decide, listing.succ_lt_volume_cons_iff hsize, hquotient]
    rw [shown, ← hheld, hcount, hcounted, hbelow, shown, hquotient, hremainder, hvalues,
      Operation.withValue_withValue]
    rfl
  · rw [hremainder, huntouched op hserves.head_notMem, ← listing.left_withValue _ op held, hwound,
      hvalues]
    rfl
  · rw [hquotient]
    exact hturned

/-- To count is to go from `n` to `n + 1`: the first digits that are at their end go back to their
first value, and the next one moves on. The answer is whether there was a next one. -/
theorem count_shown (hserves : Serves names operations)
    (hpos : ∀ op ∈ operations, 0 < listing.size op) {n : Nat} {s : σ}
    (hturned : listing.Turned s n operations) (hn : n < listing.volume operations) :
    ∃ s', driver.count (listing.shown n operations) s =
        (.ok (decide (n + 1 < listing.volume operations)), listing.shown (n + 1) operations, s') ∧
      listing.Turned s' (n + 1) operations ∧ listing.Untouched operations s s' := by
  induction operations generalizing n s with
  | nil =>
    refine ⟨s, ?_, trivial, fun _ _ => rfl⟩
    simp [shown, Driver.count]
  | cons op operations ih =>
    have hsize := hpos op List.mem_cons_self
    -- the first digit goes on, or it is carried to the ones behind
    rcases Nat.lt_or_eq_of_le (Nat.succ_le_of_lt (Nat.mod_lt n hsize)) with hlt | heq
    · exact listing.count_shown_of_lt hserves hturned hn hlt
    · refine listing.count_shown_of_eq hserves hsize hturned heq fun s₁ hturned₁ => ?_
      have hdiv : n / listing.size op < listing.volume operations :=
        Nat.div_lt_of_lt_mul (by rwa [volume_cons] at hn)
      exact ih hserves.tail (fun other hother => hpos other (List.mem_cons_of_mem _ hother))
        hturned₁ hdiv

/-- To prime `operations` that hold no values is to give each of them its first one, if all of them
have values. -/
theorem prime_shown (hserves : Serves names operations)
    (hfresh : ∀ op ∈ operations, op.cached = none) {s : σ}
    (hleft : ∀ op ∈ operations, listing.left s op = listing.values op) :
    ∃ primed s', driver.prime operations s =
        (.ok (operations.all fun op => 0 < listing.size op), primed, s') ∧
      ((∀ op ∈ operations, 0 < listing.size op) →
        primed = listing.shown 0 operations ∧ listing.Turned s' 0 operations) ∧
      listing.Untouched operations s s' := by
  induction operations generalizing s with
  | nil => exact ⟨[], s, rfl, fun _ => ⟨rfl, trivial⟩, fun _ _ => rfl⟩
  | cons op operations ih =>
    have hhead := hserves.head
    have hnone : op.cached.isSome = false := by
      rw [hfresh op List.mem_cons_self, Option.isSome_none]
    have hvalues := hleft op List.mem_cons_self
    have hadvance := listing.advance_eq s hhead
    have hapart : ∀ other : Operation, other.transform ≠ op.transform →
        listing.left (driver.advance op s).2 other = listing.left s other :=
      fun other => listing.left_advance_of_ne op other s hhead
    cases hlist : listing.values op with
    | nil =>
      -- an operation without values ends the priming, and the others are not asked
      have hsize : listing.size op = 0 := by rw [size, hlist, List.length_nil]
      refine ⟨op :: operations, (driver.advance op s).2, ?_, ?_, .of_head _ hapart⟩
      · rw [Driver.prime, hnone, hadvance, hvalues, hlist]
        simp [Advance.ofList, hsize]
      · intro hpos
        exact absurd (hpos op List.mem_cons_self) (by omega)
    | cons text later =>
      have hsize : 0 < listing.size op := by rw [size, hlist]; exact Nat.succ_pos _
      have hrest : ∀ other ∈ operations,
          listing.left (driver.advance op s).2 other = listing.values other := by
        intro other hother
        rw [hapart other (hserves.ne_head hother)]
        exact hleft other (List.mem_cons_of_mem _ hother)
      obtain ⟨primed, s', hprime, hshown, hframe⟩ :=
        ih hserves.tail (fun other hother => hfresh other (List.mem_cons_of_mem _ hother)) hrest
      refine ⟨op.withValue text :: primed, s', ?_, ?_, hframe.cons hapart⟩
      · rw [Driver.prime, hnone, hadvance, hvalues, hlist]
        simp [Advance.ofList, hprime, hsize]
      · intro hpos
        obtain ⟨rfl, hturned⟩ :=
          hshown fun other hother => hpos other (List.mem_cons_of_mem _ hother)
        refine ⟨?_, ?_, ?_⟩
        · simp [shown, hlist]
        · rw [hframe op hserves.head_notMem, listing.left_advance op s hhead, hvalues, Nat.zero_mod,
            List.drop_one]
        · rw [Nat.zero_div]
          exact hturned

/-- The first step of a cross run starts all operations, primes those of `rest`, and counts, if
those of `rest` have values. -/
theorem step_fresh_cross {rest : List Operation} (hserves : Serves names (op :: rest))
    (hfresh : ∀ other ∈ rest, other.cached = none) (s : σ) :
    ∃ primed s', Sequence.step { mode := .cross } driver (op :: rest) s =
        (if rest.all fun other => 0 < listing.size other then
          Sequence.settle ⟨.cross, .fresh, 0⟩ (driver.count (op :: primed) s')
        else Sequence.stop ⟨.cross, .fresh, 0⟩ (op :: primed) s') ∧
      listing.left s' op = listing.values op ∧
      ((∀ other ∈ rest, 0 < listing.size other) →
        primed = listing.shown 0 rest ∧ listing.Turned s' 0 rest) := by
  obtain ⟨s₁, hinit, hstarted, -⟩ := listing.initAll_eq hserves s
  obtain ⟨primed, s₂, hprime, hshown, hframe⟩ := listing.prime_shown hserves.tail hfresh
    fun other hother => hstarted other (List.mem_cons_of_mem _ hother)
  refine ⟨primed, s₂, ?_, ?_, hshown⟩
  · cases hall : rest.all fun other => 0 < listing.size other <;>
      simp [Sequence.step, Sequence.start, Sequence.next, Driver.primeRest, hinit, hprime, hall]
  · rw [hframe op hserves.head_notMem, hstarted op List.mem_cons_self]

/-- A later step of a cross run counts the digits of `ops`. -/
theorem step_running_cross {ops : List Operation} (s : σ) (hne : ops ≠ []) :
    Sequence.step ⟨.cross, .running, 0⟩ driver ops s =
      Sequence.settle ⟨.cross, .running, 0⟩ (driver.count ops s) := by
  simp [Sequence.step, Sequence.next, hne]

theorem shown_ne_nil (n : Nat) (h : operations ≠ []) : listing.shown n operations ≠ [] := by
  cases operations with
  | nil => exact absurd rfl h
  | cons op operations => simp [shown]

/-- If each of `operations` has values, the first step shows the first value of each of them. -/
theorem step_first_of_pos (hserves : Serves names operations) (hne : operations ≠ [])
    (hfresh : ∀ op ∈ operations, op.cached = none)
    (hpos : ∀ op ∈ operations, 0 < listing.size op) (s : σ) :
    ∃ s', Sequence.step { mode := .cross } driver operations s =
        ⟨.ok (some ((listing.shown 0 operations).map Operation.current)), ⟨.cross, .running, 0⟩,
          listing.shown 0 operations, s'⟩ ∧
      listing.Turned s' 0 operations := by
  cases operations with
  | nil => exact absurd rfl hne
  | cons op rest =>
    have hhead := hserves.head
    have hrest : ∀ other ∈ rest, 0 < listing.size other :=
      fun other hother => hpos other (List.mem_cons_of_mem _ hother)
    obtain ⟨primed, s', hstep, hleft, hprimed⟩ := listing.step_fresh_cross hserves
      (fun other hother => hfresh other (List.mem_cons_of_mem _ hother)) s
    obtain ⟨rfl, hturned⟩ := hprimed hrest
    obtain ⟨text, later, hvalues⟩ := List.exists_cons_of_length_pos (hpos op List.mem_cons_self)
    rw [hvalues] at hleft
    have hall : (rest.all fun other => 0 < listing.size other) = true := by
      simpa using hrest
    -- the first digit has not moved yet: to count is to show its first value
    refine ⟨(driver.advance op s').2, ?_, ?_, ?_⟩
    · rw [hstep, hall, if_pos rfl, listing.count_of_left hhead hleft, shown, Nat.zero_mod,
        Nat.zero_div, hvalues]
      rfl
    · rw [listing.left_advance op s' hhead, hleft, Nat.zero_mod, hvalues]
      rfl
    · rw [Nat.zero_div]
      refine hturned.congr listing fun other hother => ?_
      exact listing.left_advance_of_ne op other s' hhead (hserves.ne_head hother)

/-- If some `op` of `operations` has no values, the first step gives nothing and ends the
sequence. -/
theorem step_first_of_empty (hserves : Serves names operations)
    (hfresh : ∀ op ∈ operations, op.cached = none) (hop : op ∈ operations)
    (hempty : listing.size op = 0) (s : σ) :
    (Sequence.step { mode := .cross } driver operations s).answer = .ok none ∧
      (Sequence.step { mode := .cross } driver operations s).sequence.isFinished = true := by
  cases operations with
  | nil => cases hop
  | cons first rest =>
    obtain ⟨primed, s', hstep, hleft, -⟩ := listing.step_fresh_cross hserves
      (fun other hother => hfresh other (List.mem_cons_of_mem _ hother)) s
    rw [hstep]
    rcases List.mem_cons.1 hop with rfl | hop
    · -- the first digit turns out to be empty when it is asked
      have hvalues : listing.values op = [] := List.eq_nil_of_length_eq_zero hempty
      rw [hvalues] at hleft
      obtain ⟨s'', hcount⟩ := listing.count_of_empty hserves.head hleft hvalues primed
      split
      · rw [hcount]
        exact ⟨rfl, rfl⟩
      · exact ⟨rfl, rfl⟩
    · -- another one does when it is primed
      have hall : (rest.all fun other => 0 < listing.size other) = false := by
        rw [List.all_eq_false]
        exact ⟨op, hop, by simp [hempty]⟩
      rw [hall]
      exact ⟨rfl, rfl⟩

/-- Up to the number of combinations, step `n` shows the values at the digits of `n`. -/
theorem stepAt_cross (hserves : Serves names operations) (hne : operations ≠ [])
    (hfresh : ∀ op ∈ operations, op.cached = none)
    (hpos : ∀ op ∈ operations, 0 < listing.size op) (s : σ) {n : Nat}
    (hn : n < listing.volume operations) :
    ∃ s', Sequence.stepAt { mode := .cross } driver operations s n =
        ⟨.ok (some ((listing.shown n operations).map Operation.current)), ⟨.cross, .running, 0⟩,
          listing.shown n operations, s'⟩ ∧
      listing.Turned s' n operations := by
  induction n with
  | zero => exact listing.step_first_of_pos hserves hne hfresh hpos s
  | succ n ih =>
    -- the counter stands at `n` and is moved to `n + 1`
    obtain ⟨s', hlast, hturned⟩ := ih (Nat.lt_of_succ_lt hn)
    obtain ⟨s'', hcount, hturned', -⟩ :=
      listing.count_shown hserves hpos hturned (Nat.lt_of_succ_lt hn)
    refine ⟨s'', ?_, hturned'⟩
    rw [Sequence.stepAt_succ, hlast]
    simp only
    rw [step_running_cross _ (listing.shown_ne_nil n hne), hcount, decide_eq_true hn]
    rfl

/-- The step at `listing.volume operations` gives nothing and ends the sequence. -/
theorem stepAt_volume (hserves : Serves names operations) (hne : operations ≠ [])
    (hfresh : ∀ op ∈ operations, op.cached = none) (s : σ) :
    (Sequence.stepAt { mode := .cross } driver operations s
        (listing.volume operations)).answer = .ok none ∧
      (Sequence.stepAt { mode := .cross } driver operations s
        (listing.volume operations)).sequence.isFinished = true := by
  by_cases hpos : ∀ op ∈ operations, 0 < listing.size op
  · -- the step before shows the last combination, and the carry runs out of the last digit
    obtain ⟨n, hn⟩ := Nat.exists_eq_succ_of_ne_zero
      (Nat.pos_iff_ne_zero.1 ((listing.volume_pos_iff).2 hpos))
    have hlt : n < listing.volume operations := by omega
    obtain ⟨s', hlast, hturned⟩ := listing.stepAt_cross hserves hne hfresh hpos s hlt
    obtain ⟨s'', hcount, -, -⟩ := listing.count_shown hserves hpos hturned hlt
    rw [hn, Sequence.stepAt_succ, hlast]
    simp only
    rw [step_running_cross _ (listing.shown_ne_nil n hne), hcount, hn, decide_eq_false (by omega)]
    exact ⟨rfl, rfl⟩
  · -- there is no combination, so this is the first step
    have hzero : listing.volume operations = 0 := by
      rw [← listing.volume_pos_iff] at hpos
      omega
    obtain ⟨op, hop⟩ := not_forall.1 hpos
    obtain ⟨hop, hempty⟩ := Classical.not_imp.1 hop
    rw [hzero]
    exact listing.step_first_of_empty hserves hfresh hop (Nat.eq_zero_of_not_pos hempty) s

end Listing

/-- A cross run makes one list of substitutions for each combination of values, the first operation
moving fastest: with `sizes` the numbers of values of the operations, list `n` shows for the
operation at `i` the value at place `n / (sizes.take i).prod % sizes[i]`. So each row of `places`
below `sizes` comes up for exactly one `n < sizes.prod`. If some operation has no values, there are
no combinations. From `sizes.prod` on the run gives nothing. -/
theorem cross_run {σ : Type} {driver : Driver σ} {operations : List Operation}
    (listing : Listing driver (operations.map (·.transform))) (hne : operations ≠ [])
    (hdistinct : (operations.map (·.transform)).Nodup)
    (hfresh : ∀ op ∈ operations, op.cached = none) (s : σ) :
    let sizes := operations.map listing.size
    (∀ n < sizes.prod, ∃ subs,
      (Sequence.stepAt { mode := .cross } driver operations s n).answer = .ok (some subs) ∧
        listing.Shows operations (fun i op => n / (sizes.take i).prod % listing.size op) subs) ∧
      (∀ n, sizes.prod ≤ n →
        (Sequence.stepAt { mode := .cross } driver operations s n).answer = .ok none) ∧
      (∀ places, List.Forall₂ (· < ·) places sizes → ∃! n, n < sizes.prod ∧
        ∀ i op, operations[i]? = some op →
          places[i]? = some (n / (sizes.take i).prod % listing.size op)) ∧
      ((∃ op ∈ operations, listing.size op = 0) → ∀ n,
        (Sequence.stepAt { mode := .cross } driver operations s n).answer = .ok none) := by
  intro sizes
  have hserves : Listing.Serves (operations.map (·.transform)) operations :=
    ⟨fun op hop => List.mem_map_of_mem hop, hdistinct⟩
  have hend : ∀ n, sizes.prod ≤ n →
      (Sequence.stepAt { mode := .cross } driver operations s n).answer = .ok none := by
    intro n hn
    obtain ⟨hanswer, hfinished⟩ := listing.stepAt_volume hserves hne hfresh s
    rcases Nat.eq_or_lt_of_le hn with rfl | hlt
    · exact hanswer
    · exact (Sequence.stepAt_of_isFinished hlt hfinished).1
  refine ⟨fun n hn => ?_, hend, fun places hplaces => ?_, ?_⟩
  · have hpos := (listing.volume_pos_iff).1 (Nat.zero_lt_of_lt hn)
    obtain ⟨s', hstep, -⟩ := listing.stepAt_cross hserves hne hfresh hpos s hn
    refine ⟨_, ?_, listing.shows_shown hpos n⟩
    rw [hstep]
  · -- places below the numbers of values are the digits of one number
    have hlength : places.length = sizes.length := hplaces.length_eq
    have hdigits : ∀ n, digits sizes n = places ↔ ∀ i op, operations[i]? = some op →
        places[i]? = some (n / (sizes.take i).prod % listing.size op) := by
      intro n
      rw [digits_eq_iff hlength]
      simp [sizes]
    simpa only [hdigits] using existsUnique_digits hplaces
  · rintro ⟨op, hop, hempty⟩ n
    refine hend n (Nat.le_of_not_lt fun hn => ?_)
    have hpos := (listing.volume_pos_iff).1 (Nat.zero_lt_of_lt hn) op hop
    omega

/-- Of two values and three, the third step after the first shows the second of each, and there is
no seventh. -/
theorem cross_run_two_by_three :
    let operations : List Operation := [⟨"x", "X", "", none⟩, ⟨"y", "Y", "", none⟩]
    let values := fun name => if name = "x" then ["1", "2"] else ["a", "b", "c"]
    let driver := Driver.ofLists values
    operations ≠ [] ∧ (operations.map (·.transform)).Nodup ∧
      (∀ op ∈ operations, op.cached = none) ∧
      (∃ subs, (Sequence.stepAt { mode := .cross } driver operations (fun _ => []) 3).answer =
          .ok (some subs) ∧ subs[0]? = some ⟨"X", "2"⟩ ∧ subs[1]? = some ⟨"Y", "b"⟩) ∧
      (Sequence.stepAt { mode := .cross } driver operations (fun _ => []) 6).answer =
        .ok none := by
  intro operations values driver
  have hne : operations ≠ [] := by decide
  have hdistinct : (operations.map (·.transform)).Nodup := by decide
  have hfresh : ∀ op ∈ operations, op.cached = none := by decide
  obtain ⟨hshown, hend, -, -⟩ :=
    cross_run (Listing.ofLists values _) hne hdistinct hfresh fun _ => []
  obtain ⟨subs, hanswer, -, hsubs⟩ := hshown 3 (by decide)
  refine ⟨hne, hdistinct, hfresh, ⟨subs, hanswer, ?_, ?_⟩, hend 6 (Nat.le_refl 6)⟩
  · obtain ⟨text, htext, hsub⟩ := hsubs 0 _ rfl
    have htwo : "2" = text := by
      simpa [Listing.ofLists, Listing.size, values, operations] using htext
    rw [hsub, htwo]
  · obtain ⟨text, htext, hsub⟩ := hsubs 1 _ rfl
    have hb : "b" = text := by
      simpa [Listing.ofLists, Listing.size, values, operations] using htext
    rw [hsub, hb]

end Stencil
