import Mathlib.Algebra.Order.Ring.Int
import Mathlib.Data.List.Basic
import Mathlib.Tactic.Common

/-!
Byte strings: little-endian numbers, slices of an image, and the CRC-32.
-/

namespace Wallace.Bytes

/-- Whether a text is in a list of texts is decided with this instance. -/
instance instLawfulBEqText : LawfulBEq (List Char) := inferInstance

/-- The little-endian number of some bytes. -/
def leNat : List UInt8 → ℕ
  | [] => 0
  | b :: l => b.toNat + 256 * leNat l

/-- The big-endian number of some bytes. -/
def beNat (l : List UInt8) : ℕ := leNat l.reverse

/-- A number below `256 ^ n` in `n` bytes, little end first. -/
def toLe : ℕ → ℕ → List UInt8
  | 0, _ => []
  | n + 1, v => UInt8.ofNat (v % 256) :: toLe n (v / 256)

/-- `n` bytes of an image from `off` on. -/
def slice (img : ℕ → UInt8) (off n : ℕ) : List UInt8 :=
  (List.range n).map fun i => img (off + i)

/-- `n` bytes of a buffer from `off` on. -/
def sub (b : List UInt8) (off n : ℕ) : List UInt8 := (b.drop off).take n

/-- One bit of the CRC, as the C code masks it. -/
def crcBit (c : BitVec 32) : BitVec 32 :=
  (c >>> 1) ^^^ (0xedb88320 &&& (0 - (c &&& 1)))

def crcByte (c : BitVec 32) (b : UInt8) : BitVec 32 :=
  Nat.repeat crcBit 8 (c ^^^ b.toBitVec.setWidth 32)

/-- CRC-32, reflected, with all ones at both ends. -/
def crc32 (p : List UInt8) : BitVec 32 := ~~~p.foldl crcByte (BitVec.allOnes 32)

@[simp] lemma length_toLe (n v : ℕ) : (toLe n v).length = n := by
  induction n generalizing v with
  | zero => rfl
  | succ n ih => rw [toLe, List.length_cons, ih]

lemma leNat_toLe (n v : ℕ) (h : v < 256 ^ n) : leNat (toLe n v) = v := by
  induction n generalizing v with
  | zero =>
    rw [Nat.pow_zero] at h
    rw [toLe, leNat]
    omega
  | succ n ih =>
    have hv : v / 256 < 256 ^ n := by
      rw [Nat.pow_succ] at h
      omega
    have hb : (UInt8.ofNat (v % 256)).toNat = v % 256 := by
      rw [UInt8.toNat_ofNat']
      omega
    rw [toLe, leNat, ih _ hv, hb]
    omega

lemma toLe_leNat (l : List UInt8) : toLe l.length (leNat l) = l := by
  induction l with
  | nil => rfl
  | cons b l ih =>
    have hb := b.toNat_lt
    have hmod : (b.toNat + 256 * leNat l) % 256 = b.toNat := by omega
    have hdiv : (b.toNat + 256 * leNat l) / 256 = leNat l := by omega
    rw [List.length_cons, toLe, leNat, hmod, hdiv, ih, UInt8.ofNat_toNat]

lemma leNat_lt (l : List UInt8) : leNat l < 256 ^ l.length := by
  induction l with
  | nil => simp [leNat]
  | cons b l ih =>
    have hb := b.toNat_lt
    rw [leNat, List.length_cons, Nat.pow_succ]
    omega

@[simp] lemma length_slice (img : ℕ → UInt8) (off n : ℕ) : (slice img off n).length = n := by
  simp [slice]

lemma slice_add (img : ℕ → UInt8) (off k n : ℕ) :
    slice img off (k + n) = slice img off k ++ slice img (off + k) n := by
  unfold slice
  rw [List.range_add, List.map_append, List.map_map]
  congr 1
  refine List.map_congr_left fun i _ => ?_
  simp [Nat.add_assoc]

lemma length_sub {b : List UInt8} {off n : ℕ} (h : off + n ≤ b.length) :
    (sub b off n).length = n := by
  rw [sub, List.length_take, List.length_drop]
  omega

lemma sub_append_left {b : List UInt8} (t : List UInt8) {off n : ℕ} (h : off + n ≤ b.length) :
    sub (b ++ t) off n = sub b off n := by
  unfold sub
  rw [List.drop_append_of_le_length (by omega), List.take_append_of_le_length]
  rw [List.length_drop]
  omega

lemma sub_append_right (b t : List UInt8) (off n : ℕ) :
    sub (b ++ t) (b.length + off) n = sub t off n := by
  rw [sub, sub, List.drop_append, List.drop_eq_nil_of_le (by omega), List.nil_append,
    Nat.add_sub_cancel_left]

lemma sub_length_append (b t : List UInt8) (n : ℕ) : sub (b ++ t) b.length n = t.take n := by
  rw [sub, List.drop_left]

/-- The part between two others. -/
lemma sub_middle (a m t : List UInt8) : sub (a ++ (m ++ t)) a.length m.length = m := by
  rw [sub_length_append, List.take_left]

/-- A part of a part is a part. -/
lemma sub_of_sub (b : List UInt8) {o n o' n' : ℕ} (h : o' + n' ≤ n) :
    sub (sub b o n) o' n' = sub b (o + o') n' := by
  unfold sub
  rw [List.drop_take, List.take_take, List.drop_drop, Nat.min_eq_left (by omega)]

lemma mem_of_mem_sub {b : List UInt8} {x : UInt8} (off n : ℕ) (h : x ∈ sub b off n) : x ∈ b :=
  List.mem_of_mem_drop (List.mem_of_mem_take h)

lemma leNat_sub_lt (b : List UInt8) (off n : ℕ) : leNat (sub b off n) < 256 ^ n := by
  have h := leNat_lt (sub b off n)
  have hn : (sub b off n).length ≤ n := List.length_take_le _ _
  exact Nat.lt_of_lt_of_le h (Nat.pow_le_pow_right (by omega) hn)

/-- A part of a slice is a slice. -/
lemma sub_slice (img : ℕ → UInt8) {off n o k : ℕ} (h : o + k ≤ n) :
    sub (slice img off n) o k = slice img (off + o) k := by
  apply List.ext_getElem?
  intro i
  unfold sub slice
  rw [List.getElem?_take, List.getElem?_drop, List.getElem?_map, List.getElem?_map]
  by_cases hi : i < k
  · rw [if_pos hi, List.getElem?_range (by omega), List.getElem?_range hi]
    simp [Nat.add_assoc]
  · rw [if_neg hi, List.getElem?_eq_none (by simp; omega)]
    rfl

end Wallace.Bytes
