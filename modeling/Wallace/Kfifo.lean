import Mathlib.Algebra.Order.Ring.Int
import Mathlib.Data.List.Basic
import Mathlib.Logic.Function.Basic
import Mathlib.Tactic.Common

/-!
A kernel FIFO: a ring of `N` cells with free-running indices.

The indices are kept unwrapped; what the operations use of them are their difference in
32-bit arithmetic and their residues modulo the size, and neither depends on the wrap.
Nothing stops `out` from passing `inn`: then the difference wraps, the FIFO reports an
enormous length, and a peek returns stale cells.

Against this stands the log of everything ever put in: as long as `out` has not passed
`inn` and at most `N` elements are queued, the cells between the indices are the end of
the log.
-/

namespace Wallace.Kfifo

variable {β : Type*}

structure Fifo (β : Type*) where
  data : ℕ → β
  inn : ℕ
  out : ℕ

/-- `in - out`, in 32-bit arithmetic. -/
def Fifo.len (k : Fifo β) : ℕ := (((k.inn : ℤ) - k.out) % 2 ^ 32).toNat

def Fifo.isEmpty (k : Fifo β) : Bool := k.len = 0

/-- `size - (in - out)`, in 32-bit arithmetic. -/
def Fifo.unused (N : ℕ) (k : Fifo β) : ℕ := (((N : ℤ) - k.len) % 2 ^ 32).toNat

/-- Elements stored one after another from a position on. -/
def copyIn (N : ℕ) : (ℕ → β) → ℕ → List β → ℕ → β
  | data, _, [] => data
  | data, i, b :: bs => copyIn N (Function.update data (i % N) b) (i + 1) bs

/-- `kfifo_in`: as much as fits. -/
def Fifo.put (N : ℕ) (k : Fifo β) (bs : List β) : Fifo β where
  data := copyIn N k.data k.inn (bs.take (k.unused N))
  inn := k.inn + (bs.take (k.unused N)).length
  out := k.out

/-- `kfifo_out_peek`: at most `n` elements, none consumed. -/
def Fifo.peek (N : ℕ) (k : Fifo β) (n : ℕ) : List β :=
  (List.range (min n k.len)).map fun i => k.data ((k.out + i) % N)

/-- `kfifo_skip_count`: unconditional. -/
def Fifo.skip (k : Fifo β) (n : ℕ) : Fifo β := { k with out := k.out + n }

/-- `kfifo_reset_out`. -/
def Fifo.resetOut (k : Fifo β) : Fifo β := { k with out := k.inn }

/-- What is queued is the end of the log. -/
structure Holds (N : ℕ) (k : Fifo β) (log : List β) : Prop where
  inn : k.inn = log.length
  le : k.out ≤ k.inn
  fits : k.inn ≤ k.out + N
  cell : ∀ i, k.out ≤ i → i < k.inn → log[i]? = some (k.data (i % N))

variable {N : ℕ} {k : Fifo β} {log : List β}

lemma Holds.len (h : Holds N k log) (hN : N < 2 ^ 32) : k.len = k.inn - k.out := by
  have h1 := h.le
  have h2 := h.fits
  unfold Fifo.len
  omega

lemma Holds.unused (h : Holds N k log) (hN : N < 2 ^ 32) :
    k.unused N = N - (k.inn - k.out) := by
  have h1 := h.le
  have h2 := h.fits
  unfold Fifo.unused
  rw [h.len hN]
  omega

lemma residues_ne {a b : ℕ} (hab : a < b) (hb : b < a + N) : b % N ≠ a % N := by
  intro h
  have h0 := Nat.sub_mod_eq_zero_of_mod_eq h
  rw [Nat.mod_eq_of_lt (by omega)] at h0
  omega

/-- Storing leaves the other cells alone. -/
lemma copyIn_other (data : ℕ → β) (i j : ℕ) (bs : List β)
    (h : ∀ k, i ≤ k → k < i + bs.length → k % N ≠ j % N) :
    copyIn N data i bs (j % N) = data (j % N) := by
  induction bs generalizing data i with
  | nil => rfl
  | cons b bs ih =>
    rw [copyIn, ih _ _ fun k hk hk' => h k (by omega) (by simp; omega)]
    exact Function.update_of_ne (h i (by omega) (by simp)).symm _ _

lemma copyIn_cell (data : ℕ → β) (i : ℕ) (bs : List β) (hlen : bs.length ≤ N) (j : ℕ)
    (hj : j < bs.length) : bs[j]? = some (copyIn N data i bs ((i + j) % N)) := by
  induction bs generalizing data i j with
  | nil => simp at hj
  | cons b bs ih =>
    simp only [List.length_cons] at hlen hj
    rcases j with _ | j
    · rw [copyIn, copyIn_other]
      · simp
      · intro k hk hk'
        exact residues_ne (by omega) (by omega)
    · rw [copyIn, show i + (j + 1) = i + 1 + j by omega, ← ih _ _ (by omega) j (by omega)]
      simp

/-- Putting extends the log by what fitted. -/
lemma Holds.put (h : Holds N k log) (hN : N < 2 ^ 32) (bs : List β) :
    Holds N (k.put N bs) (log ++ bs.take (k.unused N)) := by
  have hle := h.le
  have hfits := h.fits
  have hlen : (bs.take (k.unused N)).length ≤ N - (k.inn - k.out) := by
    rw [List.length_take, h.unused hN]
    exact Nat.min_le_left _ _
  refine ⟨?_, ?_, ?_, ?_⟩
  · simp only [Fifo.put, List.length_append, h.inn]
  · simp only [Fifo.put]
    omega
  · simp only [Fifo.put]
    omega
  · intro i hi hi'
    simp only [Fifo.put] at hi hi' ⊢
    by_cases hold : i < k.inn
    · -- an old cell: the new ones are less than a turn ahead of it
      rw [List.getElem?_append_left (h.inn ▸ hold), h.cell i hi hold, copyIn_other]
      intro j hj hj'
      exact residues_ne (by omega) (by omega)
    · rw [List.getElem?_append_right (by rw [← h.inn]; omega), ← h.inn,
        copyIn_cell (N := N) k.data k.inn _ (by omega) (i - k.inn) (by omega)]
      rw [show k.inn + (i - k.inn) = i by omega]

/-- A peek shows the oldest part of what is queued. -/
lemma Holds.peek (h : Holds N k log) (hN : N < 2 ^ 32) (n : ℕ) :
    k.peek N n = (log.drop k.out).take (min n (k.inn - k.out)) := by
  have hin := h.inn
  unfold Fifo.peek
  rw [h.len hN]
  apply List.ext_getElem?
  intro i
  rw [List.getElem?_map, List.getElem?_take, List.getElem?_drop]
  by_cases hi : i < min n (k.inn - k.out)
  · rw [if_pos hi, List.getElem?_range hi, h.cell (k.out + i) (by omega) (by omega)]
    rfl
  · rw [if_neg hi, List.getElem?_eq_none (by simp; omega)]
    rfl

lemma Holds.skip (h : Holds N k log) {n : ℕ} (hn : k.out + n ≤ k.inn) :
    Holds N (k.skip n) log := by
  have hfits := h.fits
  refine ⟨h.inn, hn, ?_, ?_⟩
  · simp only [Fifo.skip]
    omega
  · intro i hi hi'
    simp only [Fifo.skip] at hi hi'
    exact h.cell i (by omega) hi'

lemma Holds.resetOut (h : Holds N k log) : Holds N k.resetOut log := by
  refine ⟨h.inn, Nat.le_refl _, Nat.le_add_right _ _, ?_⟩
  intro i hi hi'
  simp only [Fifo.resetOut] at hi hi'
  omega

end Wallace.Kfifo
