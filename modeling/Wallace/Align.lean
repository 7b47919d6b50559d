import Mathlib.Algebra.Order.Ring.Int
import Mathlib.Tactic.Common

/-!
Rounding to a power of two, on machine words and on the numbers they stand for.
-/

namespace Wallace.Align

/-! ### Numbers -/

/-- The last multiple of `c` up to `n`. -/
def floorTo (c n : ℕ) : ℕ := n / c * c

/-- The first multiple of `c` from `n` on. -/
def ceilTo (c n : ℕ) : ℕ := (n + (c - 1)) / c * c

section Numbers

variable {c n m : ℕ}

lemma dvd_floorTo (c n : ℕ) : c ∣ floorTo c n := Nat.dvd_mul_left ..

lemma floorTo_le (c n : ℕ) : floorTo c n ≤ n := Nat.div_mul_le_self ..

lemma lt_floorTo_add (hc : 0 < c) (n : ℕ) : n < floorTo c n + c := Nat.lt_div_mul_add hc

lemma le_floorTo (hm : c ∣ m) (h : m ≤ n) : m ≤ floorTo c n := by
  obtain ⟨q, rfl⟩ := hm
  rcases Nat.eq_zero_or_pos c with rfl | hc
  · simp
  rw [floorTo, Nat.mul_comm c q]
  refine Nat.mul_le_mul_right c ((Nat.le_div_iff_mul_le hc).mpr ?_)
  rwa [Nat.mul_comm]

lemma dvd_ceilTo (c n : ℕ) : c ∣ ceilTo c n := Nat.dvd_mul_left ..

lemma le_ceilTo (hc : 0 < c) (n : ℕ) : n ≤ ceilTo c n := by
  have h := lt_floorTo_add hc (n + (c - 1))
  rw [floorTo] at h
  rw [ceilTo]
  omega

lemma ceilTo_lt (hc : 0 < c) (n : ℕ) : ceilTo c n < n + c := by
  have h := floorTo_le c (n + (c - 1))
  rw [floorTo] at h
  rw [ceilTo]
  omega

lemma ceilTo_le (hc : 0 < c) (hm : c ∣ m) (h : n ≤ m) : ceilTo c n ≤ m := by
  refine Nat.le_of_lt_add_of_dvd ?_ (dvd_ceilTo c n) hm
  have := ceilTo_lt hc n
  omega

/-- Rounding up commutes with taking off a multiple. -/
lemma ceilTo_sub_of_dvd (hm : c ∣ m) (h : m ≤ n) : ceilTo c (n - m) = ceilTo c n - m := by
  obtain ⟨q, rfl⟩ := hm
  rw [ceilTo, ceilTo, Nat.sub_add_comm h |>.symm, Nat.sub_mul_div, Nat.sub_mul, Nat.mul_comm q c]

/-- Between multiples there is room for a whole step. -/
lemma add_le_of_dvd_of_lt (hn : c ∣ n) (hm : c ∣ m) (h : n < m) : n + c ≤ m := by
  obtain ⟨p, rfl⟩ := hn
  obtain ⟨q, rfl⟩ := hm
  have hpq : p < q := Nat.lt_of_mul_lt_mul_left h
  calc c * p + c = c * (p + 1) := (Nat.mul_succ c p).symm
    _ ≤ c * q := Nat.mul_le_mul_left c hpq

end Numbers

/-! ### Words -/

section Words

variable {w : ℕ}

/-- `ALIGN_DOWN(x, 1 << k)`. -/
def alignDown (k : ℕ) (x : BitVec w) : BitVec w := x &&& ~~~BitVec.ofNat w (2 ^ k - 1)

/-- `ALIGN_UP(x, 1 << k)`. -/
def alignUp (k : ℕ) (x : BitVec w) : BitVec w := alignDown k (x + BitVec.ofNat w (2 ^ k - 1))

variable {k : ℕ}

lemma toNat_alignDown (k : ℕ) (x : BitVec w) :
    (alignDown k x).toNat = floorTo (2 ^ k) x.toNat := by
  refine Nat.eq_of_testBit_eq fun i => ?_
  rw [floorTo, Nat.testBit_mul_two_pow, Nat.testBit_div_two_pow, alignDown, BitVec.toNat_and,
    Nat.testBit_and, BitVec.testBit_toNat (~~~_), BitVec.getLsbD_not, BitVec.getLsbD_ofNat,
    Nat.testBit_two_pow_sub_one]
  by_cases hk : k ≤ i
  · rw [Nat.sub_add_cancel hk]
    rcases Nat.lt_or_ge i w with hw | hw
    · simp [hw, hk]
    · rw [BitVec.testBit_toNat, BitVec.getLsbD_of_ge x i hw, Bool.false_and, Bool.and_false]
  · simp [hk, Nat.not_le.mp hk]

lemma toNat_mask (hk : k ≤ w) : (BitVec.ofNat w (2 ^ k - 1)).toNat = 2 ^ k - 1 := by
  have h1 := Nat.pow_le_pow_right (Nat.two_pos) hk
  have h2 := Nat.two_pow_pos k
  rw [BitVec.toNat_ofNat]
  exact Nat.mod_eq_of_lt (by omega)

/-- Rounding up does not wrap if the multiple is a word. -/
lemma toNat_alignUp (hk : k ≤ w) {x : BitVec w} (h : ceilTo (2 ^ k) x.toNat < 2 ^ w) :
    (alignUp k x).toNat = ceilTo (2 ^ k) x.toNat := by
  have hroom := add_le_of_dvd_of_lt (dvd_ceilTo (2 ^ k) x.toNat) (Nat.pow_dvd_pow 2 hk) h
  have hle := le_ceilTo (Nat.two_pow_pos k) x.toNat
  have hpos := Nat.two_pow_pos k
  rw [alignUp, toNat_alignDown, BitVec.toNat_add, toNat_mask hk, Nat.mod_eq_of_lt (by omega)]
  rfl

/-- And if it is not, what remains is zero. -/
lemma alignUp_of_wrap (hk : k ≤ w) {x : BitVec w} (h : 2 ^ w ≤ ceilTo (2 ^ k) x.toNat) :
    (alignUp k x).toNat = 0 := by
  have hsum : 2 ^ w ≤ x.toNat + (2 ^ k - 1) := by
    refine Nat.le_trans h ?_
    have := ceilTo_lt (Nat.two_pow_pos k) x.toNat
    omega
  have hx := x.isLt
  have hpos := Nat.two_pow_pos k
  have hle := Nat.pow_le_pow_right Nat.two_pos hk
  have hmod : (x.toNat + (2 ^ k - 1)) % 2 ^ w = x.toNat + (2 ^ k - 1) - 2 ^ w := by
    rw [Nat.mod_eq_sub_mod hsum, Nat.mod_eq_of_lt (by omega)]
  rw [alignUp, toNat_alignDown, BitVec.toNat_add, toNat_mask hk, hmod, floorTo,
    Nat.div_eq_of_lt (by omega), Nat.zero_mul]

end Words

end Wallace.Align
