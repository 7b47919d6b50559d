import Mathlib.Tactic.Common

/-!
Bit masks: a source is enabled in a word when the two share a bit.
-/

namespace Wallace.Masks

variable {w : ℕ}

@[simp] lemma clear_and_self (m t : BitVec w) : m &&& ~~~t &&& t = 0 := by
  ext i
  simp

/-- Setting other bits. -/
lemma set_and {t r : BitVec w} (m : BitVec w) (h : r &&& t = 0) :
    (m ||| r) &&& t = m &&& t := by
  rw [BitVec.and_or_distrib_right, h]
  simp

lemma set_and_self (m t : BitVec w) : (m ||| t) &&& t = t := by
  ext i hi
  rw [BitVec.getElem_and, BitVec.getElem_or]
  cases t[i] <;> simp

/-- Clearing other bits. -/
lemma clear_and {t x : BitVec w} (m : BitVec w) (h : x &&& t = 0) :
    m &&& ~~~x &&& t = m &&& t := by
  ext i hi
  have h0 : (x &&& t)[i] = false := by
    rw [h]
    exact BitVec.getElem_zero hi
  rw [BitVec.getElem_and] at h0
  simp only [BitVec.getElem_and, BitVec.getElem_not]
  revert h0
  cases x[i] <;> cases t[i] <;> simp

/-- Clearing leaves no bit that was not there. -/
lemma and_ne_of_clear {m t x : BitVec w} (h : m &&& ~~~x &&& t ≠ 0) : m &&& t ≠ 0 := by
  intro h0
  refine h ?_
  rw [BitVec.and_assoc, BitVec.and_comm (~~~x), ← BitVec.and_assoc, h0]
  simp

end Wallace.Masks
