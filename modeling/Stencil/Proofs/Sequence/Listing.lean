import Stencil.Proofs.Sequence.Run

/-!
# Drivers that read out lists

A driver reads out lists if it never fails and each operation has a list of values of its own: to
start the operation is to go back to the head of its list, to ask it for a value is to take the
next one, and at the end of the list the operation is exhausted. The state of such a driver
matters only through the values that are still to come for each operation.

Main definitions:

* `Listing`: the lists behind a driver.
* `Driver.ofLists`: a driver whose state is nothing but the values to come.
* `Listing.Shows`: substitutions that show values at given places of the lists.
* `Listing.Untouched`: states between which other operations see no difference.

Main statements:

* `initAll_eq`: operations that are started afresh have their whole lists before them.
-/

namespace Stencil

/-- The answer of an operation that has some values to come. -/
def Advance.ofList : List String → Advance
  | [] => .exhausted
  | text :: _ => .value text

/-- The lists that a driver reads out for the transforms `names`. -/
structure Listing {σ : Type} (driver : Driver σ) (names : List String) where
  /-- The values of an operation. -/
  values : Operation → List String
  /-- The values that are still to come for an operation. -/
  left : σ → Operation → List String
  /-- The value that an operation holds has no part in the values that it is given. -/
  values_withValue : ∀ op text, values (op.withValue text) = values op
  /-- The value that an operation holds has no part in the values to come. -/
  left_withValue : ∀ s op text, left s (op.withValue text) = left s op
  /-- An operation can be started. -/
  init_fst : ∀ op s, op.transform ∈ names → (driver.init op s).1 = .ok ()
  /-- An operation that was started has all its values before it. -/
  left_init : ∀ op s, op.transform ∈ names → left (driver.init op s).2 op = values op
  /-- To start an operation is nothing to the operations of other transforms. -/
  left_init_of_ne : ∀ op other s, op.transform ∈ names → other.transform ≠ op.transform →
    left (driver.init op s).2 other = left s other
  /-- An operation gives the next value to come. -/
  advance_fst : ∀ op s, op.transform ∈ names →
    (driver.advance op s).1 = .ok (.ofList (left s op))
  /-- The value that was given is no longer to come. -/
  left_advance : ∀ op s, op.transform ∈ names →
    left (driver.advance op s).2 op = (left s op).tail
  /-- To ask an operation is nothing to the operations of other transforms. -/
  left_advance_of_ne : ∀ op other s, op.transform ∈ names → other.transform ≠ op.transform →
    left (driver.advance op s).2 other = left s other

/-- A driver that keeps, for each transform, which of its `values` are still to come. -/
def Driver.ofLists (values : String → List String) : Driver (String → List String) where
  init op s :=
    (.ok (), fun name => if name = op.transform then values op.transform else s name)
  advance op s :=
    (.ok (.ofList (s op.transform)),
      fun name => if name = op.transform then (s op.transform).tail else s name)

namespace Listing

/-- The lists behind a driver that keeps nothing else. -/
def ofLists (values : String → List String) (names : List String) :
    Listing (Driver.ofLists values) names where
  values op := values op.transform
  left s op := s op.transform
  values_withValue _ _ := rfl
  left_withValue _ _ _ := rfl
  init_fst _ _ _ := rfl
  left_init op s _ := by simp [Driver.ofLists]
  left_init_of_ne op other s _ hne := by simp [Driver.ofLists, hne]
  advance_fst _ _ _ := rfl
  left_advance op s _ := by simp [Driver.ofLists]
  left_advance_of_ne op other s _ hne := by simp [Driver.ofLists, hne]

variable {σ : Type} {driver : Driver σ} {names : List String}

/-- A journal changes nothing about the lists of `listing`. -/
def journaled (listing : Listing driver names) : Listing driver.journaled names where
  values := listing.values
  left s := listing.left s.1
  values_withValue := listing.values_withValue
  left_withValue s := listing.left_withValue s.1
  init_fst op s := listing.init_fst op s.1
  left_init op s := listing.left_init op s.1
  left_init_of_ne op other s := listing.left_init_of_ne op other s.1
  advance_fst op s := listing.advance_fst op s.1
  left_advance op s := listing.left_advance op s.1
  left_advance_of_ne op other s := listing.left_advance_of_ne op other s.1

theorem init_eq (listing : Listing driver names) {op : Operation} (s : σ)
    (h : op.transform ∈ names) : driver.init op s = (.ok (), (driver.init op s).2) :=
  Prod.ext (listing.init_fst op s h) rfl

theorem advance_eq (listing : Listing driver names) {op : Operation} (s : σ)
    (h : op.transform ∈ names) :
    driver.advance op s = (.ok (.ofList (listing.left s op)), (driver.advance op s).2) :=
  Prod.ext (listing.advance_fst op s h) rfl

/-- How many values `op` has. -/
def size (listing : Listing driver names) (op : Operation) : Nat :=
  (listing.values op).length

/-- The substitutions show for each operation a value of its own: for `op`, the `i`-th operation,
the value at `position i op`. -/
def Shows (listing : Listing driver names) (operations : List Operation)
    (position : Nat → Operation → Nat) (subs : List Substitution) : Prop :=
  subs.length = operations.length ∧
    ∀ i op, operations[i]? = some op →
      ∃ text, (listing.values op)[position i op]? = some text ∧
        subs[i]? = some ⟨op.aliasName, text⟩

/-- Operations that a driver serves, each through a transform of its own. -/
structure Serves (names : List String) (operations : List Operation) : Prop where
  /-- The transforms are served. -/
  mem : ∀ op ∈ operations, op.transform ∈ names
  /-- No two operations share a transform. -/
  distinct : (operations.map (·.transform)).Nodup

namespace Serves

variable {op : Operation} {operations : List Operation}

theorem head (h : Serves names (op :: operations)) : op.transform ∈ names :=
  h.mem op List.mem_cons_self

theorem tail (h : Serves names (op :: operations)) : Serves names operations :=
  ⟨fun other hother => h.mem other (List.mem_cons_of_mem _ hother),
    (List.nodup_cons.1 h.distinct).2⟩

/-- The first operation `op` shares its transform with none of `operations`. -/
theorem head_notMem (h : Serves names (op :: operations)) :
    op.transform ∉ operations.map (·.transform) :=
  (List.nodup_cons.1 h.distinct).1

theorem ne_head (h : Serves names (op :: operations)) {other : Operation}
    (hother : other ∈ operations) : other.transform ≠ op.transform := by
  intro heq
  exact h.head_notMem (heq ▸ List.mem_map_of_mem hother)

end Serves

/-- Between two states nothing changes for the operations of other transforms than those of
`operations`. -/
def Untouched (listing : Listing driver names) (operations : List Operation) (s s' : σ) : Prop :=
  ∀ other : Operation, other.transform ∉ operations.map (·.transform) →
    listing.left s' other = listing.left s other

/-- What leaves the operations of other transforms than that of `op` alone does so in front of
`operations`. -/
theorem Untouched.of_head {listing : Listing driver names} {op : Operation}
    (operations : List Operation) {s s' : σ}
    (h : ∀ other : Operation, other.transform ≠ op.transform →
      listing.left s' other = listing.left s other) :
    listing.Untouched (op :: operations) s s' := by
  intro other hother
  exact h other (not_or.1 (mt List.mem_cons.2 hother)).1

/-- What is done for `op` and then for `operations` leaves alone all but these. -/
theorem Untouched.cons {listing : Listing driver names} {op : Operation}
    {operations : List Operation} {s s₁ s₂ : σ}
    (hhead : ∀ other : Operation, other.transform ≠ op.transform →
      listing.left s₁ other = listing.left s other)
    (hrest : listing.Untouched operations s₁ s₂) : listing.Untouched (op :: operations) s s₂ := by
  intro other hother
  obtain ⟨hne, hapart⟩ := not_or.1 (mt List.mem_cons.2 hother)
  rw [hrest other hapart, hhead other hne]

/-- If `operations` are started afresh, they have all their values before them, and nothing changes
for the operations of other transforms. -/
theorem initAll_eq (listing : Listing driver names) {operations : List Operation}
    (hserves : Serves names operations) (s : σ) :
    ∃ s', driver.initAll operations s = (.ok (), s') ∧
      (∀ op ∈ operations, listing.left s' op = listing.values op) ∧
      listing.Untouched operations s s' := by
  induction operations generalizing s with
  | nil => exact ⟨s, rfl, by simp, fun _ _ => rfl⟩
  | cons op operations ih =>
    obtain ⟨s', hrun, hstarted, hframe⟩ := ih hserves.tail (driver.init op s).2
    refine ⟨s', ?_, ?_, hframe.cons fun other => listing.left_init_of_ne op other s hserves.head⟩
    · rw [Driver.initAll, listing.init_eq s hserves.head]
      exact hrun
    · intro other hother
      rcases List.mem_cons.1 hother with rfl | hother
      · -- the operations behind the first one leave it alone
        rw [hframe _ hserves.head_notMem, listing.left_init _ s hserves.head]
      · exact hstarted other hother

/-- The calls that start `operations` afresh. -/
def startCalls (operations : List Operation) : List Call :=
  operations.map fun op => .init op.transform (.ok ())

/-- To start `operations` is to call each of them once, in order. -/
theorem initAll_journal (listing : Listing driver names) {operations : List Operation}
    (hserves : Serves names operations) (s : σ) (log : List Call) :
    (driver.journaled.initAll operations (s, log)).2.2 = log ++ startCalls operations := by
  induction operations generalizing s log with
  | nil => simp [Driver.initAll, startCalls]
  | cons op operations ih =>
    have hanswer := listing.init_fst op s hserves.head
    have hrest := ih hserves.tail (driver.init op s).2 (log ++ [.init op.transform (.ok ())])
    rw [Driver.initAll]
    simp only [Driver.journaled, hanswer] at hrest ⊢
    rw [hrest]
    simp [startCalls]

end Listing

end Stencil
