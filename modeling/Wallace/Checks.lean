import Mathlib.Tactic.Common

/-!
Computations that may be refused: what a result says about the parts.
-/

namespace Wallace.Checks

variable {ε α β : Type}

lemma bind_ok {x : Except ε α} {g : α → Except ε β} {b : β} (h : (x >>= g) = .ok b) :
    ∃ a, x = .ok a ∧ g a = .ok b := by
  cases x with
  | ok a => exact ⟨a, rfl, h⟩
  | error e => cases h

lemma map_ok {x : Except ε α} {g : α → β} {b : β} (h : (g <$> x) = .ok b) :
    ∃ a, x = .ok a ∧ g a = b := by
  cases x with
  | ok a => exact ⟨a, rfl, Except.ok.inj h⟩
  | error e => cases h

/-- A result that passes a test is there. -/
lemma exists_ok_of_any {x : Except ε α} {p : α → Bool} (h : x.toOption.any p = true) :
    ∃ a, x = .ok a ∧ p a = true := by
  cases x with
  | ok a => exact ⟨a, rfl, h⟩
  | error e => cases h

end Wallace.Checks
