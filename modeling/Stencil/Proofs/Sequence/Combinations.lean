import Mathlib.Data.List.Nodup
import Mathlib.Data.List.Sections
import Stencil.Proofs.Sequence.Cross
import Stencil.Proofs.Sequence.Dealing

/-!
# Combinations in any order

In cross mode the first digit shows all its values for each combination of the values of the other
digits. Each time a carry starts a digit afresh its values may come in another order, so there is no
formula for the place of a combination. But when the others show a combination, the first digit
shows all its values before they move on. So every combination comes up once, whatever the orders.

Main definitions:

* `Dealing.combinations`: the combinations of values.
* `Dealing.Rows`: the combinations that are still to come.
* `Dealing.cross`: the account of a run in cross mode.

Main statements:

* `counts_prime`: to prime operations is to take one of all their combinations.
* `counts_count`: to count is to take one of the combinations to come.
-/

namespace Stencil

namespace Dealing

variable {σ : Type} {driver : Driver σ} {names : List String} (dealing : Dealing driver names)
  {op : Operation} {operations rest : List Operation} {s s' : σ}
  {texts : List String} {rows tails : List (List Substitution)}

/-- The substitutions that show the values of `op`. -/
def offers (op : Operation) : List Substitution :=
  (dealing.values op).map fun text => ⟨op.aliasName, text⟩

/-- All combinations of values, one for each of `operations`. -/
def combinations (operations : List Operation) : List (List Substitution) :=
  (operations.map dealing.offers).sections

/-- The combinations to come for `op` and the operations behind it: the values `texts` are before it
while the others show what is `shown`, and then all its values come for each of their `tails`. -/
def spread (op : Operation) (texts : List String) (shown : List Substitution)
    (tails : List (List Substitution)) : List (List Substitution) :=
  texts.map (fun text => ⟨op.aliasName, text⟩ :: shown) ++
    tails.flatMap fun tail => (dealing.offers op).map (· :: tail)

/-- The combinations `rows` are to come for operations that each hold a value, or have none and are
the first. -/
def Rows (s : σ) : List Operation → List (List Substitution) → Prop
  | [], rows => rows = []
  | op :: rest, rows =>
    ∃ texts tails, dealing.Ahead s op texts ∧ Rows s rest tails ∧
      rows = dealing.spread op texts (rest.map Operation.current) tails

theorem combinations_cons (op : Operation) (operations : List Operation) :
    dealing.combinations (op :: operations) =
      (dealing.combinations operations).flatMap fun tail => (dealing.offers op).map (· :: tail) :=
  rfl

@[simp]
theorem spread_withValue (op : Operation) (value : String) :
    dealing.spread (op.withValue value) = dealing.spread op := by
  have hvalues : dealing.values (op.withValue value) = dealing.values op :=
    dealing.values_held op (some value)
  funext texts shown tails
  simp [spread, offers, hvalues]

/-- An operation `op` without values has nothing to come. -/
theorem spread_nil_of_values (h : dealing.values op = []) (shown : List Substitution)
    (tails : List (List Substitution)) : dealing.spread op [] shown tails = [] := by
  simp [spread, offers, h]

/-- When the operations behind `op` come to what is `shown`, their next combination, `op` shows all
its values with it before they move on to those that are `later`, in whatever order. -/
theorem flatMap_offers_perm {shown : List Substitution} {later : List (List Substitution)}
    (htails : tails.Perm (shown :: later)) (htexts : texts.Perm (dealing.values op)) :
    (tails.flatMap fun tail => (dealing.offers op).map (· :: tail)).Perm
      (dealing.spread op texts shown later) := by
  refine (htails.flatMap_right _).trans ?_
  rw [List.flatMap_cons, spread, offers, List.map_map]
  exact (htexts.symm.map _).append_right _

/-- What is to come for `operations` depends only on what is before these. -/
theorem Rows.of_forall (h : dealing.Rows s operations rows)
    (hsame : ∀ op ∈ operations, ∀ texts, dealing.Ahead s op texts → dealing.Ahead s' op texts) :
    dealing.Rows s' operations rows := by
  induction operations generalizing rows with
  | nil => exact h
  | cons op operations ih =>
    obtain ⟨hhead, hothers⟩ := List.forall_mem_cons.1 hsame
    obtain ⟨texts, tails, hahead, hrest, rfl⟩ := h
    exact ⟨texts, tails, hhead texts hahead, ih hrest hothers, rfl⟩

/-- What a count makes of `rows`, the combinations to come: it takes one of them, or there is
none. -/
def Counts (operations : List Operation) (rows : List (List Substitution)) (s : σ)
    (outcome : Except RunError Bool × List Operation × σ) : Prop :=
  (rows = [] ∧ outcome.1 = .ok false) ∨
    ∃ operations' later s', outcome = (.ok true, operations', s') ∧
      operations'.map (·.transform) = operations.map (·.transform) ∧
      rows.Perm (operations'.map Operation.current :: later) ∧
      dealing.Rows s' operations' later ∧ dealing.Untouched operations s s'

/-- A digit `op` at its end is started afresh. If it has values it shows one, and those of `rest`
move on. -/
theorem exists_carry (h : op.transform ∈ names) (hahead : dealing.Ahead s op [])
    (rest : List Operation) :
    (dealing.values op = [] ∧ (driver.count (op :: rest) s).1 = .ok false) ∨
      ∃ text later s', (text :: later).Perm (dealing.values op) ∧
        driver.count (op :: rest) s =
          ((driver.count rest s').1, op.withValue text :: (driver.count rest s').2.1,
            (driver.count rest s').2.2) ∧
        dealing.Ahead s' op later ∧ dealing.Untouched [op] s s' := by
  -- a first request finds the digit at its end, and after the start a second one shows a value
  obtain ⟨-, dealt, hperm, hdealt⟩ := dealing.init h (driver.advance op s).2
  have hinit := dealing.init_eq h (driver.advance op s).2
  have hagain := dealing.advance_eq hdealt
  cases dealt with
  | nil =>
    refine .inl ⟨hperm.symm.eq_nil, ?_⟩
    rw [Driver.count, dealing.advance_eq hahead]
    simp only [Advance.ofList]
    rw [hinit]
    simp only
    rw [hagain]
    rfl
  | cons text later =>
    refine .inr ⟨text, later, _, hperm, ?_, (dealing.advance hdealt).2, ?_⟩
    · rw [Driver.count, dealing.advance_eq hahead]
      simp only [Advance.ofList]
      rw [hinit]
      simp only
      rw [hagain]
      rfl
    · exact ((dealing.untouched_advance op s).trans (dealing.untouched_init op _)).trans
        (dealing.untouched_advance op _)

/-- To count is to take one of `rows`, the combinations to come. -/
theorem counts_count (hserves : Listing.Serves names operations)
    (hrows : dealing.Rows s operations rows) :
    dealing.Counts operations rows s (driver.count operations s) := by
  induction operations generalizing s rows with
  | nil => exact .inl ⟨hrows, rfl⟩
  | cons op rest ih =>
    obtain ⟨texts, tails, hahead, hrest, rfl⟩ := hrows
    have hhead := hserves.head
    cases texts with
    | cons text texts =>
      -- the digit has a value before it, and the others stand still
      have hframe := dealing.untouched_advance op s
      refine .inr ⟨op.withValue text :: rest,
        dealing.spread op texts (rest.map Operation.current) tails, (driver.advance op s).2,
        ?_, rfl, .rfl,
        ⟨texts, tails, dealing.ahead_withValue (dealing.advance hahead).2 text, ?_, ?_⟩, ?_⟩
      · rw [Driver.count, dealing.advance_eq hahead]
        rfl
      · exact hrest.of_forall dealing (hframe.ahead_tail hserves)
      · rw [spread_withValue]
      · exact hframe.cons (dealing.untouched_refl rest _)
    | nil =>
      rcases dealing.exists_carry hhead hahead rest with
        ⟨hvalues, hcount⟩ | ⟨text, later, s₁, hperm, hcount, hlater, hframe⟩
      · exact .inl ⟨dealing.spread_nil_of_values hvalues _ _, hcount⟩
      · rcases ih hserves.tail (hrest.of_forall dealing (hframe.ahead_tail hserves)) with
          ⟨rfl, hnone⟩ | ⟨rest', others, s₂, hcounted, hsame, htails, hothers, huntouched⟩
        · -- the carry runs out of the last digit
          exact .inl ⟨rfl, by rw [hcount, hnone]⟩
        · refine .inr ⟨op.withValue text :: rest',
            dealing.spread op later (rest'.map Operation.current) others, s₂, ?_, ?_, ?_,
            ⟨later, others, ?_, hothers, ?_⟩, hframe.cons huntouched⟩
          · rw [hcount, hcounted]
          · rw [List.map_cons, hsame]
            rfl
          · exact dealing.flatMap_offers_perm htails hperm
          · exact dealing.ahead_withValue (huntouched op later hserves.head_notMem hlater) text
          · rw [spread_withValue]

/-- To prime `operations` that hold no values is to take one of their combinations. -/
theorem counts_prime (hserves : Listing.Serves names operations)
    (hfresh : ∀ op ∈ operations, op.cached = none) {lists : List (List String)}
    (hahead : List.Forall₂ (dealing.Ahead s) operations lists)
    (hperm : List.Forall₂ (fun op texts => texts.Perm (dealing.values op)) operations lists) :
    dealing.Counts operations (dealing.combinations operations) s (driver.prime operations s) := by
  induction operations generalizing s lists with
  | nil => exact .inr ⟨[], [], s, rfl, rfl, .rfl, rfl, dealing.untouched_refl [] s⟩
  | cons op rest ih =>
    cases hahead with
    | @cons _ texts _ lists hhead hrest =>
      obtain ⟨hvalues, hothers⟩ := List.forall₂_cons.1 hperm
      obtain ⟨hnone, hunset⟩ := List.forall_mem_cons.1 hfresh
      have hframe := dealing.untouched_advance op s
      cases texts with
      | nil =>
        -- an operation without values leaves no combination, and priming stops at it
        have hempty : dealing.offers op = [] := by
          rw [offers, hvalues.symm.eq_nil, List.map_nil]
        refine .inl ⟨?_, ?_⟩
        · simp [combinations_cons, hempty]
        · rw [Driver.prime, hnone, dealing.advance_eq hhead]
          rfl
      | cons text texts =>
        have hprime : driver.prime (op :: rest) s =
            ((driver.prime rest (driver.advance op s).2).1,
              op.withValue text :: (driver.prime rest (driver.advance op s).2).2.1,
              (driver.prime rest (driver.advance op s).2).2.2) := by
          rw [Driver.prime, hnone, dealing.advance_eq hhead]
          rfl
        rcases ih hserves.tail hunset (hframe.forall₂_tail hserves hrest) hothers with
          ⟨hcombinations, hstopped⟩ |
            ⟨rest', others, s', hprimed, hsame, htails, hrows, huntouched⟩
        · refine .inl ⟨?_, ?_⟩
          · rw [combinations_cons, hcombinations, List.flatMap_nil]
          · rw [hprime, hstopped]
        · refine .inr ⟨op.withValue text :: rest',
            dealing.spread op texts (rest'.map Operation.current) others, s', ?_, ?_, ?_,
            ⟨texts, others, ?_, hrows, ?_⟩, hframe.cons huntouched⟩
          · rw [hprime, hprimed]
          · rw [List.map_cons, hsame]
            rfl
          · exact dealing.flatMap_offers_perm htails hvalues
          · exact dealing.ahead_withValue
              (huntouched op texts hserves.head_notMem (dealing.advance hhead).2) text
          · rw [spread_withValue]

/-- What is `due` in a run in cross mode: at first all combinations, then those to come. -/
def CrossDue (due : List (List Substitution)) (sequence : Sequence) (operations : List Operation)
    (s : σ) : Prop :=
  Listing.Serves names operations ∧ operations ≠ [] ∧
    ((sequence = { mode := .cross } ∧ (∀ op ∈ operations, op.cached = none) ∧
        due = dealing.combinations operations) ∨
      sequence = ⟨.cross, .running, 0⟩ ∧ dealing.Rows s operations due)

/-- To count takes from `rows`, which are due. -/
theorem draws_settle_count (hserves : Listing.Serves names operations) (hne : operations ≠ [])
    (phase : Phase) (hrows : dealing.Rows s operations rows) :
    Sequence.Draws id dealing.CrossDue rows
      (Sequence.settle ⟨.cross, phase, 0⟩ (driver.count operations s)) := by
  -- the count comes to its end, or it turns to one of the rows that are due
  rcases dealing.counts_count hserves hrows with
    ⟨rfl, hnone⟩ | ⟨operations', later, s', hcount, hsame, hperm, hlater, -⟩
  · refine .inl ⟨rfl, ?_⟩
    generalize driver.count operations s = outcome at hnone
    obtain ⟨answer, operations', s'⟩ := outcome
    cases hnone
    rfl
  · rw [hcount]
    exact .inr ⟨_, later, rfl, hperm, serves_of_map_eq hsame hserves, ne_nil_of_map_eq hsame hne,
      .inr ⟨rfl, hlater⟩⟩

/-- The first step primes all of `operations` but the first, and counts. -/
theorem draws_first (hserves : Listing.Serves names operations) (hne : operations ≠ [])
    (hfresh : ∀ op ∈ operations, op.cached = none) (s : σ) :
    Sequence.Draws id dealing.CrossDue (dealing.combinations operations)
      (Sequence.step { mode := .cross } driver operations s) := by
  obtain ⟨op, rest, rfl⟩ := List.exists_cons_of_ne_nil hne
  obtain ⟨lists, s₁, hinit, hdealt, -⟩ := dealing.exists_initAll hserves s
  cases hdealt with
  | @cons _ texts _ lists hhead hrest =>
    have hothers := List.forall_mem_cons.1 hfresh
    rcases dealing.counts_prime hserves.tail hothers.2 (hrest.imp fun _ _ h => h.1)
        (hrest.imp fun _ _ h => h.2) with
      ⟨hnone, hstopped⟩ | ⟨rest', others, s', hprimed, hsame, htails, hothers, huntouched⟩
    · refine .inl ⟨?_, ?_⟩
      · rw [combinations_cons, hnone, List.flatMap_nil]
      · generalize hprime : driver.prime rest s₁ = outcome at hstopped
        obtain ⟨answer, rest', s'⟩ := outcome
        cases hstopped
        simp [Sequence.step, Sequence.start, Driver.primeRest, hinit, hprime, Sequence.stop]
    · have hstep : Sequence.step { mode := .cross } driver (op :: rest) s =
          Sequence.settle ⟨.cross, .fresh, 0⟩ (driver.count (op :: rest') s') := by
        simp [Sequence.step, Sequence.start, Sequence.next, Driver.primeRest, hinit, hprimed]
      have hserves' : Listing.Serves names (op :: rest') :=
        serves_of_map_eq (by rw [List.map_cons, hsame, List.map_cons]) hserves
      rw [hstep]
      -- the first digit has not moved yet, so all its values are to come
      refine (dealing.draws_settle_count hserves' (List.cons_ne_nil _ _) .fresh
        ⟨texts, others, ?_, hothers, rfl⟩).of_perm (dealing.flatMap_offers_perm htails hhead.2)
      exact huntouched op texts hserves.head_notMem hhead.1

/-- The account of a run in cross mode. -/
def cross : Prospect driver (List Substitution) dealing.Same where
  view := id
  Due := dealing.CrossDue
  draws_step := by
    rintro due sequence operations s ⟨hserves, hne, ⟨rfl, hfresh, rfl⟩ | ⟨rfl, hrows⟩⟩
    · exact dealing.draws_first hserves hne hfresh s
    · rw [Listing.step_running_cross s hne]
      exact dealing.draws_settle_count hserves hne .running hrows
  due_same := by
    rintro due sequence operations s s' ⟨hserves, hne, hfresh | ⟨hsequence, hrows⟩⟩ hsame
    · exact ⟨hserves, hne, .inl hfresh⟩
    · exact ⟨hserves, hne, .inr ⟨hsequence, hrows.of_forall dealing fun op _ => hsame op⟩⟩

/-! ### Places of values -/

/-- All choices of one place for each of some lists, `sizes` telling how long these are. -/
def placings (sizes : List Nat) : List (List Nat) :=
  (sizes.map List.range).sections

/-- The substitutions that show for each of `operations` the value at the place chosen for it in
`places`. -/
def showAt (values : Operation → List String) (operations : List Operation) (places : List Nat) :
    List Substitution :=
  List.zipWith (fun op place => ⟨op.aliasName, (values op).getD place ""⟩) operations places

theorem mem_placings {sizes places : List Nat} :
    places ∈ placings sizes ↔ List.Forall₂ (· < ·) places sizes := by
  rw [placings, List.mem_sections, List.forall₂_map_right_iff]
  simp only [List.mem_range]

/-- Choices of places below `sizes` are made once each. -/
theorem nodup_placings (sizes : List Nat) : (placings sizes).Nodup := by
  induction sizes with
  | nil => exact List.nodup_singleton _
  | cons size sizes ih =>
    have hcons : placings (size :: sizes) =
        (placings sizes).flatMap fun tail => (List.range size).map (· :: tail) := rfl
    rw [hcons, List.nodup_flatMap]
    refine ⟨fun tail _ => List.nodup_range.map fun _ _ heq => (List.cons.inj heq).1, ?_⟩
    -- choices that agree in nothing but the first place have the same tail
    refine ih.imp fun {tail tail'} hne => ?_
    refine List.disjoint_left.2 fun places hplaces hplaces' => ?_
    obtain ⟨_, -, rfl⟩ := List.mem_map.1 hplaces
    obtain ⟨_, -, heq⟩ := List.mem_map.1 hplaces'
    exact hne (List.cons.inj heq).2.symm

/-- The combinations of values of `operations` are those at all choices of places. -/
theorem combinations_eq_map (operations : List Operation) :
    dealing.combinations operations =
      (placings (operations.map dealing.size)).map (showAt dealing.values operations) := by
  induction operations with
  | nil => rfl
  | cons op operations ih =>
    -- the values of the operation are those at all its places
    have hoffers : dealing.offers op = (List.range (dealing.size op)).map fun place =>
        ⟨op.aliasName, (dealing.values op).getD place ""⟩ := by
      apply List.ext_getElem
      · simp [offers, size]
      · intro i hleft hright
        have hlt : i < (dealing.values op).length := by simpa [offers] using hleft
        simp [offers, List.getElem?_eq_getElem hlt]
    have hcons : placings ((op :: operations).map dealing.size) =
        (placings (operations.map dealing.size)).flatMap fun tail =>
          (List.range (dealing.size op)).map (· :: tail) := rfl
    rw [combinations_cons, ih, hcons, List.map_flatMap, List.flatMap_map]
    congr 1
    funext tail
    rw [hoffers, List.map_map, List.map_map]
    rfl

end Dealing

end Stencil
