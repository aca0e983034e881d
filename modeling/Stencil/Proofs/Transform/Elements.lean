import Stencil.Transform

/-!
# The elements of a strategy

What a strategy presents can be told without a cursor: the text of the region as often as it is
counted, the integers of a range in decimal form, or the list that is gathered. The cursor of the
strategy presents exactly these elements and is then at its end. A range stops at the ends of the
64-bit integers instead of passing them. Nothing of it is lost there, because no integer beyond
them lies before its end.

Main definitions:

* `Cursor.integers`: the integers of a range.
* `Cursor.Presents`: the elements that a cursor presents.
* `Strategy.elements`, `Strategy.Ready`: the elements of a strategy, and whether they can be
  gathered.
* `Transforms.showing`, `Supplies.nothing`: transforms and supplies to run small templates with.

Main statements:

* `presents_range`: a range presents its integers.
* `presents_cursor`: the cursor of a strategy presents its elements.
-/

namespace Stencil

namespace Cursor

/-! ### The integers of a range -/

/-- Whether `n` lies before `stop`, the end of a range. -/
def Precedes (n stop step : Int) : Prop :=
  if 0 < step then n < stop else stop < n

instance (n stop step : Int) : Decidable (Precedes n stop step) :=
  inferInstanceAs (Decidable (if 0 < step then n < stop else stop < n))

/-- How many integers a range from `start` to `stop` has: the distance, in steps, rounded up. -/
def count (start stop step : Int) : Nat :=
  (-(start - stop).fdiv step).toNat

/-- The integers of a range, from `start` on, `step` apart, up to the last one before `stop`. -/
def integers (start stop step : Int) : List Int :=
  (List.range (count start stop step)).map fun k : Nat => start + k * step

variable {start stop step : Int}

theorem fdiv_neg_iff_of_pos {n d : Int} (h : 0 < d) : n.fdiv d < 0 ↔ n < 0 := by
  rw [Int.fdiv_eq_ediv_of_nonneg n (Int.le_of_lt h), Int.ediv_lt_iff_lt_mul h, Int.zero_mul]

theorem fdiv_neg_iff_precedes (hstep : step ≠ 0) :
    (start - stop).fdiv step < 0 ↔ Precedes start stop step := by
  rw [Precedes]
  split
  · rename_i hpos
    rw [fdiv_neg_iff_of_pos hpos]
    omega
  · -- a range that falls is one that rises, seen from the other side
    rw [← Int.neg_fdiv_neg, fdiv_neg_iff_of_pos (by omega)]
    omega

/-- If `start` does not lie before `stop`, the range is empty. -/
theorem integers_of_not_precedes (hstep : step ≠ 0) (h : ¬Precedes start stop step) :
    integers start stop step = [] := by
  rw [← fdiv_neg_iff_precedes hstep] at h
  have hcount : count start stop step = 0 := by
    rw [count]
    omega
  rw [integers, hcount, List.range_zero, List.map_nil]

/-- Otherwise the range is `start` and the range from `start + step` on. -/
theorem integers_of_precedes (hstep : step ≠ 0) (h : Precedes start stop step) :
    integers start stop step = start :: integers (start + step) stop step := by
  rw [← fdiv_neg_iff_precedes hstep] at h
  -- a step ahead the distance is one step less
  have hdistance : (start + step - stop).fdiv step = (start - stop).fdiv step + 1 := by
    have hsum : start + step - stop = start - stop + 1 * step := by omega
    rw [hsum, Int.add_mul_fdiv_right _ _ hstep]
  have hcount : count start stop step = count (start + step) stop step + 1 := by
    rw [count, count, hdistance]
    omega
  rw [integers, hcount, List.range_succ_eq_map, List.map_cons, List.map_map, integers]
  congr 1
  · simp
  · apply List.map_congr_left
    intro k _
    simp only [Function.comp_apply, Nat.succ_eq_add_one, Int.natCast_add, Int.add_mul]
    omega

/-- Where `addWithin` stops at an end of the 64-bit integers, the range would have ended anyway. -/
theorem integers_addWithin {start stop step : Int64} (hstep : step.toInt ≠ 0) :
    integers (addWithin start step).toInt stop.toInt step.toInt =
      integers (start.toInt + step.toInt) stop.toInt step.toInt := by
  have hstop := stop.le_toInt
  have hstop' := stop.toInt_le
  have hstart := start.le_toInt
  have hstart' := start.toInt_le
  have hmin : Int64.minValue.toInt = -2 ^ 63 := by decide
  have hmax : Int64.maxValue.toInt = 2 ^ 63 - 1 := by decide
  rw [toInt_addWithin, hmin, hmax]
  by_cases hwithin : -2 ^ 63 ≤ start.toInt + step.toInt ∧ start.toInt + step.toInt ≤ 2 ^ 63 - 1
  · congr 1
    omega
  · -- neither the sum nor the end of the integers lies before the end of the range
    rw [integers_of_not_precedes hstep, integers_of_not_precedes hstep]
    · rw [Precedes]
      split <;> omega
    · rw [Precedes]
      split <;> omega

/-! ### What a cursor presents -/

/-- A cursor presents some elements, one after the other, and is then at its end. -/
def Presents (literal : String) : Cursor → List String → Prop
  | cursor, [] => cursor.next? literal = none
  | cursor, element :: elements =>
    ∃ cursor', cursor.next? literal = some (element, cursor') ∧ cursor'.Presents literal elements

variable {literal : String}

theorem presents_list (elements remaining : List String) :
    (list elements remaining).Presents literal remaining := by
  induction remaining with
  | nil => rfl
  | cons element remaining ih => exact ⟨_, rfl, ih⟩

theorem presents_counted (shown more : Nat) :
    (counted shown (shown + more)).Presents literal (List.replicate more literal) := by
  induction more generalizing shown with
  | zero => simp [Presents, next?]
  | succ more ih =>
    refine ⟨counted (shown + 1) (shown + (more + 1)), ?_, ?_⟩
    · rw [next?, if_pos (by omega)]
    · have hmore := ih (shown + 1)
      rwa [Nat.add_right_comm, Nat.add_assoc] at hmore

theorem before_iff_precedes (n stop step : Int64) :
    before n stop step = true ↔ Precedes n.toInt stop.toInt step.toInt := by
  rw [before, Precedes]
  split <;> simp

/-- A range whose `step` is not zero presents its integers. -/
theorem presents_range {start stop step : Int64} (hstep : step.toInt ≠ 0) :
    (range start stop step).Presents literal
      ((integers start.toInt stop.toInt step.toInt).map toString) := by
  -- along the integers of the range, each of which is the start of what is left of it
  generalize hall : integers start.toInt stop.toInt step.toInt = all
  induction all generalizing start with
  | nil =>
    have hend : before start stop step = false := by
      rw [← Bool.not_eq_true, before_iff_precedes]
      intro hbefore
      rw [integers_of_precedes hstep hbefore] at hall
      cases hall
    rw [List.map_nil, Presents, next?, hend, if_neg Bool.false_ne_true]
  | cons first later ih =>
    by_cases hbefore : Precedes start.toInt stop.toInt step.toInt
    · rw [integers_of_precedes hstep hbefore, List.cons.injEq] at hall
      obtain ⟨rfl, hlater⟩ := hall
      refine ⟨range (addWithin start step) stop step, ?_, ih ?_⟩
      · rw [next?, if_pos ((before_iff_precedes _ _ _).2 hbefore)]
        rfl
      · rw [integers_addWithin hstep, hlater]
    · rw [integers_of_not_precedes hstep hbefore] at hall
      cases hall

end Cursor

namespace Strategy

/-- The elements that a strategy presents for the text `literal`. -/
def elements (supplies : Supplies) (literal : String) : Strategy → List String
  | counted limit => List.replicate limit literal
  | range start stop step =>
    (Cursor.integers start.toInt stop.toInt step.toInt).map toString
  | list elements => elements
  | files paths | corpus _ paths => (Wordlist.readAll supplies.files paths).toOption.getD []
  | observed =>
    match supplies.words with
    | none => []
    | some source => (source 0).toOption.getD []

/-- A strategy can be registered, and what its elements are gathered from in `supplies` is there,
the same each time. -/
def Ready (supplies : Supplies) : Strategy → Prop
  | counted _ | list _ => True
  | range _ _ step => step.toInt ≠ 0
  | files paths | corpus _ paths => ∃ words, Wordlist.readAll supplies.files paths = .ok words
  | observed => ∃ source words, supplies.words = some source ∧ ∀ request, source request = .ok words

variable {supplies : Supplies} {strategy : Strategy}

/-- From a `strategy` that is ready something is `gathered`, and its cursor presents the elements of
the strategy. If these are a list, they are what is gathered, and when they are `arranged` in
another order the cursor presents them in this order. -/
theorem presents_cursor (hready : strategy.Ready supplies) :
    ∃ gathered,
      (∀ transform request, strategy.gather transform supplies request = .ok gathered) ∧
      ∀ literal arranged,
        (strategy.isListBased = true → gathered = strategy.elements supplies literal ∧
          (strategy.cursor arranged).Presents literal arranged) ∧
        (strategy.isListBased = false →
          (strategy.cursor arranged).Presents literal (strategy.elements supplies literal)) := by
  cases strategy with
  | counted limit =>
    refine ⟨[], fun _ _ => rfl, fun literal arranged =>
      ⟨fun hlist => Bool.noConfusion hlist, fun _ => ?_⟩⟩
    simpa [cursor, elements] using Cursor.presents_counted 0 limit
  | range start stop step =>
    exact ⟨[], fun _ _ => rfl, fun literal arranged =>
      ⟨fun hlist => Bool.noConfusion hlist, fun _ => Cursor.presents_range hready⟩⟩
  | list given =>
    exact ⟨given, fun _ _ => rfl, fun literal arranged =>
      ⟨fun _ => ⟨rfl, Cursor.presents_list arranged arranged⟩, fun hlist => Bool.noConfusion hlist⟩⟩
  | files | corpus =>
    -- the words of the files are the elements
    obtain ⟨words, hwords⟩ := hready
    refine ⟨words, fun _ _ => ?_, fun literal arranged =>
      ⟨fun _ => ⟨?_, Cursor.presents_list arranged arranged⟩, fun hlist => Bool.noConfusion hlist⟩⟩
    · rw [gather, hwords]
      rfl
    · rw [elements, hwords]
      rfl
  | observed =>
    obtain ⟨source, words, hsource, hwords⟩ := hready
    refine ⟨words, fun _ request => ?_, fun literal arranged =>
      ⟨fun _ => ⟨?_, Cursor.presents_list arranged arranged⟩, fun hlist => Bool.noConfusion hlist⟩⟩
    · simp only [gather, hsource, hwords]
      rfl
    · simp only [elements, hsource, hwords]
      rfl

end Strategy

/-- Iterative transforms that show the elements of `lists` as they are. -/
def Transforms.showing (lists : List (String × List String)) : Transforms where
  iterative := lists.foldr
    (fun list rest => rest.insert list.1
      ⟨list.1, .list list.2, fun element _ memory => (.value element, memory)⟩) .empty
  persistent := .empty

/-- No files and no observed words. -/
def Supplies.nothing : Supplies where
  files := ⟨fun _ => .error .notFound⟩

end Stencil
