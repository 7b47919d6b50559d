import Mathlib.Data.List.Basic
import Mathlib.Logic.Function.Iterate
import Mathlib.Tactic.Common

/-!
Reflected cyclic redundancy checks over any width and any polynomial.

The remainder is a word that is shifted to its low end; a message bit is added there before
the shift. Both are linear in exclusive or, and the shift loses nothing if the polynomial has
its highest bit, so that what two messages differ in shows in the remainder as long as it
fits in one word.
-/

namespace Wallace.Crc

variable {w : ℕ} (poly : BitVec w)

/-- One shift of the remainder. -/
def shift (c : BitVec w) : BitVec w := (c >>> 1) ^^^ if c.getLsbD 0 then poly else 0#w

/-- A message bit, at the low end of a word. -/
def low (b : Bool) : BitVec w := (BitVec.ofBool b).setWidth w

/-- The remainder after some bits of the message. -/
def feed (c : BitVec w) (l : List Bool) : BitVec w :=
  l.foldl (fun c b => shift poly (c ^^^ low b)) c

/-- Some bits in one word, the first at the low end. -/
def word : List Bool → BitVec w
  | [] => 0#w
  | b :: l => low b ^^^ (word l <<< 1)

@[simp] lemma feed_nil (c : BitVec w) : feed poly c [] = c := rfl

@[simp] lemma feed_cons (c : BitVec w) (b : Bool) (l : List Bool) :
    feed poly c (b :: l) = feed poly (shift poly (c ^^^ low b)) l := rfl

lemma feed_append (c : BitVec w) (l l' : List Bool) :
    feed poly c (l ++ l') = feed poly (feed poly c l) l' := by
  simp [feed, List.foldl_append]

/-! ### Linearity -/

lemma xor_xor_xor_comm (a b c d : BitVec w) : a ^^^ b ^^^ (c ^^^ d) = a ^^^ c ^^^ (b ^^^ d) := by
  rw [BitVec.xor_assoc, ← BitVec.xor_assoc b, BitVec.xor_comm b, BitVec.xor_assoc c,
    ← BitVec.xor_assoc a]

lemma shift_xor (a b : BitVec w) : shift poly (a ^^^ b) = shift poly a ^^^ shift poly b := by
  unfold shift
  rw [xor_xor_xor_comm, ← BitVec.ushiftRight_xor_distrib, BitVec.getLsbD_xor]
  congr 1
  cases a.getLsbD 0 <;> cases b.getLsbD 0 <;> simp

@[simp] lemma shift_zero : shift poly 0#w = 0#w := by
  simp [shift]

lemma iterate_shift_zero (n : ℕ) : (shift poly)^[n] 0#w = 0#w :=
  Function.iterate_fixed (shift_zero poly) n

lemma low_false : low false = 0#w := by
  simp [low]

lemma low_xor (a b : Bool) : low (a ^^ b) = (low a ^^^ low b : BitVec w) := by
  cases a <;> cases b <;> simp [low]

/-- **Two messages side by side**: the difference of the remainders is the remainder of the
difference. -/
lemma feed_xor (a b : BitVec w) {l l' : List Bool} (h : l.length = l'.length) :
    feed poly a l ^^^ feed poly b l' = feed poly (a ^^^ b) (l.zipWith xor l') := by
  induction l generalizing a b l' with
  | nil =>
    cases l' with
    | nil => rfl
    | cons y l' => cases h
  | cons x l ih =>
    cases l' with
    | nil => cases h
    | cons y l' =>
      rw [feed_cons, feed_cons, ih _ _ (Nat.succ.inj h), List.zipWith_cons_cons, feed_cons,
        ← shift_xor, low_xor, xor_xor_xor_comm]

/-! ### Shifting loses nothing -/

lemma shift_eq_zero (hp : poly.msb = true) {c : BitVec w} (h : shift poly c = 0#w) : c = 0#w := by
  have hw : 0 < w := by
    rcases Nat.eq_zero_or_pos w with rfl | hw
    · simp [BitVec.eq_nil poly] at hp
    · exact hw
  rw [BitVec.msb_eq_getLsbD_last] at hp
  have hc : c >>> 1 = if c.getLsbD 0 then poly else 0#w := BitVec.xor_eq_zero_iff.mp h
  -- the shifted word has no highest bit, so the polynomial was not added
  have htop : (c >>> 1).getLsbD (w - 1) = false := by
    rw [BitVec.getLsbD_ushiftRight]
    exact BitVec.getLsbD_of_ge _ _ (by omega)
  have hlow : c.getLsbD 0 = false := by
    by_contra hne
    rw [if_pos (by simpa using hne)] at hc
    rw [hc, hp] at htop
    cases htop
  rw [hlow, if_neg (by simp)] at hc
  refine BitVec.eq_of_getLsbD_eq fun i hi => ?_
  cases i with
  | zero => rw [hlow, BitVec.getLsbD_zero]
  | succ i =>
    have hbit := congrArg (fun x => x.getLsbD i) hc
    simp only [BitVec.getLsbD_ushiftRight, BitVec.getLsbD_zero] at hbit
    rw [BitVec.getLsbD_zero, ← hbit, Nat.add_comm]

lemma iterate_shift_eq_zero (hp : poly.msb = true) (n : ℕ) {c : BitVec w}
    (h : (shift poly)^[n] c = 0#w) : c = 0#w := by
  induction n generalizing c with
  | zero => exact h
  | succ n ih => exact shift_eq_zero poly hp (ih h)

/-! ### Bits of one word -/

@[simp] lemma getLsbD_low (b : Bool) (i : ℕ) :
    (low b : BitVec w).getLsbD i = (decide (i < w) && (decide (i = 0) && b)) := by
  unfold low
  rw [BitVec.getLsbD_setWidth, BitVec.getLsbD_ofBool]

lemma getLsbD_word (l : List Bool) (i : ℕ) :
    (word l : BitVec w).getLsbD i = (decide (i < w) && l.getD i false) := by
  induction l generalizing i with
  | nil => simp [word]
  | cons b l ih =>
    rw [word, BitVec.getLsbD_xor, getLsbD_low, BitVec.getLsbD_shiftLeft]
    cases i with
    | zero => simp
    | succ i =>
      rw [Nat.add_sub_cancel, ih]
      by_cases hi : i + 1 < w
      · simp [hi, show i < w by omega]
      · simp [hi]

/-- A word that leaves the highest bit free comes back from one place up. -/
lemma shift_word_shiftLeft {l : List Bool} (h : l.length < w) :
    shift poly (word l <<< 1) = word l := by
  have hlow : (word l <<< 1 : BitVec w).getLsbD 0 = false := by
    simp [BitVec.getLsbD_shiftLeft]
  rw [shift, hlow, if_neg (by simp)]
  refine BitVec.eq_of_getLsbD_eq fun i hi => ?_
  rw [BitVec.getLsbD_xor, BitVec.getLsbD_ushiftRight, BitVec.getLsbD_shiftLeft, getLsbD_word,
    getLsbD_word]
  by_cases hi' : 1 + i < w
  · simp [hi, hi']
  · -- the highest place, beyond the bits of the word
    have hnone : l[i]? = none := List.getElem?_eq_none (by omega)
    simp [hi', hnone]

/-- **Up to a word of bits** can be added at once, before the shifts. -/
lemma feed_eq_iterate (c : BitVec w) {l : List Bool} (h : l.length ≤ w) :
    feed poly c l = (shift poly)^[l.length] (c ^^^ word l) := by
  induction l generalizing c with
  | nil => simp [word]
  | cons b l ih =>
    have hl : l.length < w := h
    calc feed poly c (b :: l)
        = (shift poly)^[l.length] (shift poly (c ^^^ low b) ^^^ word l) := by
          rw [feed_cons, ih _ (by omega)]
      _ = (shift poly)^[l.length] (shift poly (c ^^^ low b) ^^^ shift poly (word l <<< 1)) := by
          rw [shift_word_shiftLeft poly hl]
      _ = (shift poly)^[l.length] (shift poly (c ^^^ word (b :: l))) := by
          rw [← shift_xor, BitVec.xor_assoc, word]
      _ = (shift poly)^[(b :: l).length] (c ^^^ word (b :: l)) := rfl

/-! ### Bursts -/

lemma feed_false (c : BitVec w) {l : List Bool} (h : ∀ b ∈ l, b = false) :
    feed poly c l = (shift poly)^[l.length] c := by
  induction l generalizing c with
  | nil => rfl
  | cons b l ih =>
    obtain ⟨rfl, hl⟩ := List.forall_mem_cons.mp h
    rw [feed_cons, ih _ hl, low_false, BitVec.xor_zero]
    rfl

/-- A difference that fits in one word shows in the remainder. -/
lemma feed_burst_ne_zero (hp : poly.msb = true) {pre mid post : List Bool}
    (hpre : ∀ b ∈ pre, b = false) (hmid : mid.length ≤ w) (hne : true ∈ mid)
    (hpost : ∀ b ∈ post, b = false) : feed poly 0#w (pre ++ (mid ++ post)) ≠ 0#w := by
  intro h
  rw [feed_append, feed_append, feed_false poly _ hpre, iterate_shift_zero,
    feed_false poly _ hpost, feed_eq_iterate poly _ hmid] at h
  have hzero : word mid = 0#w := by
    have hw := iterate_shift_eq_zero poly hp _ (iterate_shift_eq_zero poly hp _ h)
    rwa [BitVec.zero_xor] at hw
  obtain ⟨i, hi, hbit⟩ := List.getElem_of_mem hne
  have hget := congrArg (fun x => x.getLsbD i) hzero
  simp only [getLsbD_word, BitVec.getLsbD_zero] at hget
  simp [show i < w by omega, List.getElem?_eq_getElem hi, hbit] at hget

/-- The bits outside a window are all false if the true ones are inside. -/
lemma false_outside {e : List Bool} {k n : ℕ} (h : ∀ i : ℕ, e[i]? = some true → k ≤ i ∧ i < k + n) :
    (∀ b ∈ e.take k, b = false) ∧ ∀ b ∈ (e.drop k).drop n, b = false := by
  constructor
  · intro b hb
    obtain ⟨i, hi⟩ := List.mem_iff_getElem?.mp hb
    rw [List.getElem?_take] at hi
    split_ifs at hi with hik
    cases b with
    | false => rfl
    | true =>
      have := h i hi
      omega
  · intro b hb
    obtain ⟨i, hi⟩ := List.mem_iff_getElem?.mp hb
    rw [List.getElem?_drop, List.getElem?_drop] at hi
    cases b with
    | false => rfl
    | true =>
      have := h _ hi
      omega

/-- **Burst errors**: two messages of one length that differ, and only inside a window of one
word, have different remainders. -/
theorem feed_ne_of_burst (hp : poly.msb = true) (c : BitVec w) {l l' : List Bool}
    (hlen : l.length = l'.length) (hne : l ≠ l') {k : ℕ}
    (hwin : ∀ i : ℕ, l[i]? ≠ l'[i]? → k ≤ i ∧ i < k + w) : feed poly c l ≠ feed poly c l' := by
  intro heq
  have hdiff : feed poly 0#w (l.zipWith xor l') = 0#w := by
    have hx := feed_xor poly c c hlen
    rwa [heq, BitVec.xor_self, BitVec.xor_self, eq_comm] at hx
  generalize he : l.zipWith xor l' = e at hdiff
  have htrue : ∀ i : ℕ, e[i]? = some true ↔ l[i]? ≠ l'[i]? := by
    intro i
    rw [← he, List.getElem?_zipWith]
    by_cases hi : i < l.length
    · rw [List.getElem?_eq_getElem hi, List.getElem?_eq_getElem (hlen ▸ hi)]
      simp
    · rw [List.getElem?_eq_none (by omega), List.getElem?_eq_none (by omega)]
      simp
  have hin : ∀ i : ℕ, e[i]? = some true → k ≤ i ∧ i < k + w := fun i hi => hwin i ((htrue i).mp hi)
  obtain ⟨hpre, hpost⟩ := false_outside hin
  have hmid : true ∈ (e.drop k).take w := by
    obtain ⟨i, hi⟩ : ∃ i : ℕ, l[i]? ≠ l'[i]? := by
      by_contra hall
      push Not at hall
      exact hne (List.ext_getElem? hall)
    obtain ⟨hle, hlt⟩ := hwin i hi
    refine List.mem_iff_getElem?.mpr ⟨i - k, ?_⟩
    rw [List.getElem?_take, if_pos (by omega), List.getElem?_drop, Nat.add_sub_cancel' hle]
    exact (htrue i).mpr hi
  refine feed_burst_ne_zero poly hp hpre (List.length_take_le _ _) hmid hpost ?_
  rw [List.take_append_drop, List.take_append_drop]
  exact hdiff

end Wallace.Crc
