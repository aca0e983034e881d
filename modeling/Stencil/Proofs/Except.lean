/-!
# Outcomes that are no errors

An outcome is `.ok a` or `.error e`. What is known of an outcome after `map`, `mapError` or
`toOption` tells what the outcome was before.

Main statements:

* `exists_of_map_eq_ok`, `eq_error_of_map_eq_error`, `exists_of_toOption_map`, `eq_ok_of_toOption`:
  the outcome that was mapped.
* `exists_map_eq_ok_iff`, `exists_mapError_eq_ok_iff`: neither map makes or takes away an error.
-/

namespace Except

variable {ε ε' α β : Type} {outcome : Except ε α}

/-- If `outcome.map f` is `.ok b`, then `outcome` was some `.ok a`, and `b` is `f a`. -/
theorem exists_of_map_eq_ok {f : α → β} {b : β} (h : outcome.map f = .ok b) :
    ∃ a, outcome = .ok a ∧ f a = b := by
  cases outcome with
  | error e => cases h
  | ok a => exact ⟨a, rfl, Except.ok.inj h⟩

/-- If `outcome.map f` is an error, then `outcome` was this error. -/
theorem eq_error_of_map_eq_error {f : α → β} {e : ε} (h : outcome.map f = .error e) :
    outcome = .error e := by
  cases outcome with
  | error e' => exact congrArg Except.error (Except.error.inj h)
  | ok a => cases h

/-- If something, namely `f a = b`, is seen of `outcome`, then `outcome` is `.ok a`. -/
theorem exists_of_toOption_map {f : α → β} {b : β} (h : outcome.toOption.map f = some b) :
    ∃ a, outcome = .ok a ∧ f a = b := by
  cases outcome with
  | error e => cases h
  | ok a => exact ⟨a, rfl, Option.some.inj h⟩

/-- If `outcome.toOption` is `some a`, then `outcome` is `.ok a`. -/
theorem eq_ok_of_toOption {a : α} (h : outcome.toOption = some a) : outcome = .ok a := by
  cases outcome with
  | error e => cases h
  | ok b => exact congrArg Except.ok (Option.some.inj h)

/-- `outcome.map f` is no error exactly when `outcome` is none. -/
theorem exists_map_eq_ok_iff {f : α → β} :
    (∃ b, outcome.map f = .ok b) ↔ ∃ a, outcome = .ok a := by
  constructor
  · rintro ⟨b, h⟩
    obtain ⟨a, ha, -⟩ := exists_of_map_eq_ok h
    exact ⟨a, ha⟩
  · rintro ⟨a, rfl⟩
    exact ⟨f a, rfl⟩

/-- `outcome.mapError f` is no error exactly when `outcome` is none. -/
theorem exists_mapError_eq_ok_iff {f : ε → ε'} :
    (∃ a, outcome.mapError f = .ok a) ↔ ∃ a, outcome = .ok a := by
  cases outcome with
  | error e =>
    constructor
    · rintro ⟨a, h⟩
      cases h
    · rintro ⟨a, h⟩
      cases h
  | ok a => exact ⟨fun _ => ⟨a, rfl⟩, fun _ => ⟨a, rfl⟩⟩

end Except
