import Mathlib.Data.List.Basic
import Mathlib.Data.Nat.ModEq
import Mathlib.Logic.Function.Basic
import Mathlib.Tactic.Common

/-!
A ring of cells with a phase bit: one side writes them in turn, with a bit that changes each time
round, and the other side tells by the bit whether the cell it has come to is new.

Against the cells stands the log of all that was ever written. As long as the reader is no more
than a round behind, the bit says exactly whether there is something in the log that it has not
seen.
-/

namespace Wallace.PhaseRing

variable {α : Type*} {n k : ℕ}

/-- A place in a ring, with the phase of this round. -/
structure Cursor where
  index : ℕ := 0
  phase : Bool := true
  deriving DecidableEq

/-- One place further. -/
def Cursor.next (n : ℕ) (c : Cursor) : Cursor :=
  if c.index + 1 = n then ⟨0, !c.phase⟩ else ⟨c.index + 1, c.phase⟩

/-- The place after `k` steps. -/
def cursorAt (n k : ℕ) : Cursor := ⟨k % n, decide (k / n % 2 = 0)⟩

lemma cursorAt_zero : cursorAt n 0 = {} := by
  simp [cursorAt]

lemma next_cursorAt (hn : 0 < n) (k : ℕ) : (cursorAt n k).next n = cursorAt n (k + 1) := by
  have hlt := Nat.mod_lt k hn
  have hk := Nat.div_add_mod k n
  by_cases hend : k % n + 1 = n
  · rw [Cursor.next, if_pos (show (cursorAt n k).index + 1 = n from hend)]
    simp only [cursorAt]
    have hmul : k + 1 = n * (k / n + 1) := by
      rw [Nat.mul_add, Nat.mul_one]
      omega
    have hdiv : (k + 1) / n = k / n + 1 := by
      rw [hmul, Nat.mul_div_cancel_left _ hn]
    have hmod : (k + 1) % n = 0 := by
      rw [hmul, Nat.mul_mod_right]
    rw [hdiv, hmod]
    congr 1
    simp only [← decide_not, decide_eq_decide]
    omega
  · rw [Cursor.next, if_neg (show ¬ (cursorAt n k).index + 1 = n from hend)]
    simp only [cursorAt]
    have hlt' : k % n + 1 < n := by omega
    have hsplit : k + 1 = k % n + 1 + n * (k / n) := by omega
    have hdiv : (k + 1) / n = k / n := by
      rw [hsplit, Nat.add_mul_div_left _ _ hn, Nat.div_eq_of_lt hlt', Nat.zero_add]
    have hmod : (k + 1) % n = k % n + 1 := by
      rw [hsplit, Nat.add_mul_mod_self_left, Nat.mod_eq_of_lt hlt']
    rw [hdiv, hmod]

/-- A round later the place is the same and the phase is not. -/
lemma cursorAt_add_self (hn : 0 < n) (k : ℕ) :
    cursorAt n (k + n) = ⟨(cursorAt n k).index, !(cursorAt n k).phase⟩ := by
  simp only [cursorAt, Nat.add_mod_right, Nat.add_div_right k hn]
  congr 1
  simp only [← decide_not, decide_eq_decide]
  omega

structure Cell (α : Type*) where
  phase : Bool
  val : α
  deriving DecidableEq

/-- What the writer does. -/
def post (cells : ℕ → Cell α) (c : Cursor) (v : α) : ℕ → Cell α :=
  Function.update cells c.index ⟨c.phase, v⟩

/-- What the reader asks. -/
def pending (cells : ℕ → Cell α) (c : Cursor) : Bool := (cells c.index).phase == c.phase

/-- The cells hold the end of the log, and nothing where there was none yet. -/
structure Holds (n : ℕ) (cells : ℕ → Cell α) (log : List α) : Prop where
  new : ∀ k v, log[k]? = some v → log.length ≤ k + n →
    cells (k % n) = ⟨(cursorAt n k).phase, v⟩
  old : ∀ i < n, log.length ≤ i → (cells i).phase = false

variable {cells : ℕ → Cell α} {log : List α}

lemma holds_nil (h : ∀ i, (cells i).phase = false) : Holds n cells [] where
  new k v hv := by simp at hv
  old i _ _ := h i

/-- A cell is written over only by the entry a round later. -/
lemma Holds.post (h : Holds n cells log) (v : α) :
    Holds n (post cells (cursorAt n log.length) v) (log ++ [v]) where
  new k w hw hk := by
    rw [List.length_append, List.length_singleton] at hk
    rcases Nat.lt_or_ge k log.length with hlt | hge
    · rw [List.getElem?_append_left hlt] at hw
      have hne : k % n ≠ log.length % n := by
        intro heq
        have := (Nat.modEq_iff_dvd' (Nat.le_of_lt hlt)).mp heq
        have := Nat.le_of_dvd (by omega) this
        omega
      rw [PhaseRing.post, cursorAt, Function.update_of_ne hne]
      exact h.new k w hw (by omega)
    · have hlen : k < log.length + 1 := by
        simpa using (List.getElem?_eq_some_iff.mp hw).1
      obtain rfl : k = log.length := by omega
      obtain rfl : v = w := by simpa using hw
      simp [PhaseRing.post, cursorAt]
  old i hi hle := by
    rw [List.length_append, List.length_singleton] at hle
    have hne : i ≠ log.length % n := by
      rw [Nat.mod_eq_of_lt (by omega)]
      omega
    rw [PhaseRing.post, cursorAt, Function.update_of_ne hne]
    exact h.old i hi (by omega)

/-- What the reader finds at the place of an entry. -/
lemma Holds.val (h : Holds n cells log) {v : α} (hv : log[k]? = some v)
    (hle : log.length ≤ k + n) : (cells (cursorAt n k).index).val = v := by
  rw [cursorAt, h.new k v hv hle]

/-- **The phase bit tells what is new**, to a reader that is at most a round behind. -/
lemma Holds.pending_iff (hn : 0 < n) (h : Holds n cells log) (hk : k ≤ log.length)
    (hle : log.length ≤ k + n) : pending cells (cursorAt n k) = true ↔ k < log.length := by
  rw [pending, beq_iff_eq]
  constructor
  · intro hp
    by_contra hge
    obtain rfl : k = log.length := by omega
    rcases Nat.lt_or_ge log.length n with hlt | hlong
    · -- the first round
      have hmod := Nat.mod_eq_of_lt hlt
      have hz : (cursorAt n log.length).phase = true := by
        simp [cursorAt, Nat.div_eq_of_lt hlt]
      rw [hz, cursorAt, hmod, h.old _ hlt le_rfl] at hp
      cases hp
    · -- the entry a round ago
      obtain ⟨j, hj⟩ : ∃ j, log.length = j + n := ⟨log.length - n, by omega⟩
      have hget := List.getElem?_eq_getElem (l := log) (i := j) (by omega)
      have hcell := h.new j _ hget (by omega)
      rw [hj, cursorAt_add_self hn, cursorAt, hcell] at hp
      simp [cursorAt] at hp
  · intro hlt
    have hget := List.getElem?_eq_getElem hlt
    rw [cursorAt, h.new k _ hget hle]
    rfl

end Wallace.PhaseRing
