import Mathlib.Data.Rat.Floor
import Stencil.Proofs.Transform.Elements

/-!
# Asking a cursor again and again

A cursor is asked for one element after the other, also when it is at its end: then it stays where
it is. So what it presents can be read off from its answers by their number. A range answers with
the integers that it would have without bounds, as many as the distance to its end in steps, and
from then on with nothing, even if the last step leads beyond the 64-bit integers.

Main definitions:

* `Cursor.after`: the cursor after some requests.
* `Cursor.answer`: what a request is answered with.

Main statements:

* `answer_of_presents`: the answers of a cursor are the elements that it presents.
* `lt_count_iff`, `count_eq_ceil`: how many integers a range has.
* `range_answers`: what a range answers.
-/

namespace Stencil

namespace Cursor

variable {literal : String}

/-! ### Answers by their number -/

/-- The cursor after some requests for an element, with `literal` as the text of the region. At its
end it stays where it is. -/
def after (literal : String) : Nat → Cursor → Cursor
  | 0, cursor => cursor
  | requests + 1, cursor =>
    match cursor.next? literal with
    | none => after literal requests cursor
    | some (_, cursor') => after literal requests cursor'

/-- What `cursor` answers after `requests`: the next element, if there is one. -/
def answer (literal : String) (cursor : Cursor) (requests : Nat) : Option String :=
  ((cursor.after literal requests).next? literal).map Prod.fst

/-- A `cursor` that has ended stays where it is. -/
theorem after_of_next?_eq_none {cursor : Cursor} (h : cursor.next? literal = none)
    (requests : Nat) : cursor.after literal requests = cursor := by
  induction requests with
  | zero => rfl
  | succ requests ih => rw [after, h, ih]

/-- The answers of `cursor` are the `elements` that it presents, and then nothing. -/
theorem answer_of_presents {cursor : Cursor} {elements : List String}
    (h : cursor.Presents literal elements) (requests : Nat) :
    cursor.answer literal requests = elements[requests]? := by
  induction elements generalizing cursor requests with
  | nil => rw [answer, after_of_next?_eq_none h, h, Option.map_none, List.getElem?_nil]
  | cons element elements ih =>
    obtain ⟨cursor', hnext, hrest⟩ := h
    cases requests with
    | zero => rw [answer, after, hnext, Option.map_some, List.getElem?_cons_zero]
    | succ requests =>
      -- the first request leads to the cursor behind the first element
      have hrequest : cursor.answer literal (requests + 1) = cursor'.answer literal requests := by
        rw [answer, after, hnext, answer]
      rw [hrequest, ih hrest, List.getElem?_cons_succ]

/-! ### How many integers a range has -/

section Count

variable {start stop step : Int}

/-- A range has more than `k` integers exactly if `start + k * step` lies before `stop`. -/
theorem lt_count_iff (hstep : step ≠ 0) (k : Nat) :
    k < count start stop step ↔ Precedes (start + k * step) stop step := by
  have hdistance : (start + k * step - stop).fdiv step = (start - stop).fdiv step + k := by
    have hsum : start + k * step - stop = start - stop + k * step := by omega
    rw [hsum, Int.add_mul_fdiv_right _ _ hstep]
  rw [← fdiv_neg_iff_precedes hstep, hdistance, count]
  omega

/-- The integer `start + k * step` lies before `stop` exactly when `k` is less than the distance to
`stop`, in steps. -/
theorem lt_div_iff_precedes (hstep : step ≠ 0) (k : Nat) :
    (k : ℚ) < (stop - start : ℤ) / (step : ℚ) ↔ Precedes (start + k * step) stop step := by
  rw [Precedes]
  split
  · rename_i hpos
    rw [lt_div_iff₀ (by exact_mod_cast hpos)]
    norm_cast
    omega
  · -- the division by a negative step turns the order round
    have hneg : (step : ℚ) < 0 := by exact_mod_cast (by omega : step < 0)
    rw [lt_div_iff_of_neg hneg]
    norm_cast
    omega

/-- A range has as many integers as there are steps from `start` to `stop`, rounded up, or none if
`stop` lies the other way. -/
theorem count_eq_ceil (hstep : step ≠ 0) :
    count start stop step = ⌈((stop - start : ℤ) : ℚ) / step⌉.toNat := by
  refine eq_of_forall_lt_iff fun k => ?_
  rw [lt_count_iff hstep, ← lt_div_iff_precedes hstep, Int.lt_toNat, Int.lt_ceil, Int.cast_natCast]

theorem getElem?_integers (start stop step : Int) (k : Nat) :
    (integers start stop step)[k]? =
      if k < count start stop step then some (start + k * step) else none := by
  rw [integers, List.getElem?_map]
  by_cases hk : k < count start stop step
  · rw [if_pos hk, List.getElem?_range hk, Option.map_some]
  · rw [if_neg hk, List.getElem?_eq_none (by simpa using hk), Option.map_none]

end Count

end Cursor

open Cursor in
/-- A range whose `step` is not zero is a strategy. Its cursor answers request `k` with the decimal
form of `start + k * step`, reckoned without bounds, as long as this lies before `stop`, which it
does for `⌈(stop - start) / step⌉` requests. From then on it answers with nothing. -/
theorem range_answers (start stop step : Int64) (hstep : step ≠ 0) (literal : String)
    (gathered : List String) :
    ∃ strategy, Strategy.range? start stop step = .ok strategy ∧
      ∀ k : Nat,
        (strategy.cursor gathered).answer literal k =
            (if k < ⌈((stop.toInt - start.toInt : ℤ) : ℚ) / step.toInt⌉.toNat then
              some (toString (start.toInt + k * step.toInt)) else none) ∧
          (k < ⌈((stop.toInt - start.toInt : ℤ) : ℚ) / step.toInt⌉.toNat ↔
            if 0 < step.toInt then start.toInt + k * step.toInt < stop.toInt
            else stop.toInt < start.toInt + k * step.toInt) := by
  -- a step that is not zero moves the range
  have hmoves : step.toInt ≠ 0 := fun h => hstep (Int64.toInt_inj.1 h)
  have hstrategy : Strategy.range? start stop step = .ok (.range start stop step) := by
    rw [Strategy.range?, Strategy.isStuck, if_neg (by simpa using hmoves)]
  refine ⟨_, hstrategy, fun k => ⟨?_, ?_⟩⟩
  · have hpresents : (range start stop step).Presents literal
        ((integers start.toInt stop.toInt step.toInt).map toString) := presents_range hmoves
    rw [Strategy.cursor, answer_of_presents hpresents, List.getElem?_map, getElem?_integers,
      count_eq_ceil hmoves]
    split <;> rfl
  · rw [← count_eq_ceil hmoves]
    exact lt_count_iff hmoves k

/-- A range whose second step leads beyond the 64-bit integers: it stops at the last one of them,
which is its end and so is not shown, and does not come round. -/
theorem range_answers_past_least :
    (-2 : Int64) ≠ 0 ∧
      ∀ k, (Cursor.range (-9223372036854775805) (-9223372036854775808) (-2)).answer "x" k =
        ["-9223372036854775805", "-9223372036854775807"][k]? := by
  have hstep : (-2 : Int64) ≠ 0 := by decide
  obtain ⟨strategy, hstrategy, hanswers⟩ :=
    range_answers (-9223372036854775805) (-9223372036854775808) (-2) hstep "x" []
  obtain rfl : Strategy.range _ _ _ = strategy := Except.ok.inj hstrategy
  -- the end is one step and a half away
  have hdistance :
      Int64.toInt (-9223372036854775808) - Int64.toInt (-9223372036854775805) = -3 := by
    decide
  have hmove : Int64.toInt (-2) = -2 := by decide
  have hceil : ⌈((-3 : ℤ) : ℚ) / (-2 : ℤ)⌉ = 2 := by
    rw [Int.ceil_eq_iff]
    norm_num
  refine ⟨hstep, fun k => ?_⟩
  have hanswer := (hanswers k).1
  rw [hdistance, hmove, hceil] at hanswer
  refine hanswer.trans ?_
  rcases k with _ | _ | k
  · decide
  · decide
  · simp

end Stencil
