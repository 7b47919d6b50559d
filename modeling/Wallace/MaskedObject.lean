import Mathlib.Data.List.Infix
import Mathlib.Data.List.TakeWhile
import Mathlib.Tactic.Common

/-!
A boot object whose payload is masked: `t6040-build-masked-object.sh`, which looks for a key that
leaves nothing recognisable, and the loop of `m1n1-payload-unmask` that takes the mask off again.

The key is one byte with its highest bit set, so that no text stays text. Which magics must not
appear and what counts as a legible string is as in the script.
-/

namespace Wallace.MaskedObject

abbrev Bytes := List UInt8

/-- `bytes(b ^ key for b in payload)`. -/
def mask (key : UInt8) (b : Bytes) : Bytes := b.map (· ^^^ key)

/-- What the payload is made of. -/
structure Inputs where
  bootargs : Bytes
  kernel : Bytes
  dtb : Bytes
  initramfs : Bytes

/-- `f"chosen.bootargs={ba}\n"`. -/
def Inputs.text (i : Inputs) : Bytes :=
  [0x63, 0x68, 0x6f, 0x73, 0x65, 0x6e, 0x2e, 0x62, 0x6f, 0x6f, 0x74, 0x61, 0x72, 0x67, 0x73,
      0x3d] ++
    i.bootargs ++ [0x0a]

def Inputs.payload (i : Inputs) : Bytes :=
  i.text ++ (i.kernel ++ i.dtb ++ i.initramfs ++ [0, 0, 0, 0])

/-- `MAGICS`. -/
def magics : List Bytes :=
  [[0xfd, 0x37, 0x7a, 0x58, 0x5a, 0x00], [0xd0, 0x0d, 0xfe, 0xed],
    -- "070701", "070702", "chosen.", "m1n1_sig"
    [0x30, 0x37, 0x30, 0x37, 0x30, 0x31], [0x30, 0x37, 0x30, 0x37, 0x30, 0x32],
    [0x63, 0x68, 0x6f, 0x73, 0x65, 0x6e, 0x2e], [0x6d, 0x31, 0x6e, 0x31, 0x5f, 0x73, 0x69, 0x67],
    [0x16, 0x04, 0x49, 0x4d, 0x47, 0x34]]

/-- `[ -~]`. -/
def printable (b : UInt8) : Bool := 0x20 ≤ b && b ≤ 0x7e

/-- `LONG_RUN.search(m)`. -/
def longRun (m : Bytes) : Bool := m.tails.any fun t => 24 ≤ (t.takeWhile printable).length

/-- Neither `continue` is taken for a key. -/
def suits (b : Bytes) (key : UInt8) : Bool :=
  !(magics.any fun g => g <:+: mask key b) && !longRun (mask key b)

/-- `range(0x80, 0x100)`. -/
def keys : List UInt8 := (List.range' 0x80 0x80).map UInt8.ofNat

/-- `chosen`; without one the script ends. -/
def chooseKey (b : Bytes) : Option UInt8 := keys.find? (suits b)

structure Built where
  key : UInt8
  len : ℕ
  object : Bytes

/-- `m1n1` is the loader built with the key and the length. -/
def build (m1n1 : UInt8 → ℕ → Bytes) (i : Inputs) : Option Built :=
  (chooseKey i.payload).map fun key =>
    ⟨key, i.payload.length, m1n1 key i.payload.length ++ mask key i.payload⟩

/-- `for (i = 0; i < PAYLOAD_MASK_LEN; i++) pm[i] ^= PAYLOAD_MASK_KEY`, from the turn `i` on. -/
def unmaskLoop (key : UInt8) (pm : ℕ) : ℕ → ℕ → (ℕ → UInt8) → ℕ → UInt8
  | 0, _, mem => mem
  | n + 1, i, mem =>
    unmaskLoop key pm n (i + 1) (Function.update mem (pm + i) (mem (pm + i) ^^^ key))

/-- `_payload_start` is behind the loader. -/
def unmask (loader : Bytes) (base : ℕ) (key : UInt8) (len : ℕ) (mem : ℕ → UInt8) : ℕ → UInt8 :=
  unmaskLoop key (base + loader.length) len 0 mem

/-- Some bytes are in memory at an address. -/
def At (mem : ℕ → UInt8) (a : ℕ) (b : Bytes) : Prop := ∀ i (h : i < b.length), mem (a + i) = b[i]

/-! ### The mask -/

@[simp] lemma length_mask (key : UInt8) (b : Bytes) : (mask key b).length = b.length := by
  simp [mask]

lemma xor_xor_key (x key : UInt8) : x ^^^ key ^^^ key = x := by
  rw [UInt8.xor_assoc, UInt8.xor_self, UInt8.xor_zero]

/-- What the loop does to each byte. -/
lemma unmaskLoop_apply (key : UInt8) (pm n i : ℕ) (mem : ℕ → UInt8) (a : ℕ) :
    unmaskLoop key pm n i mem a =
      if pm + i ≤ a ∧ a < pm + i + n then mem a ^^^ key else mem a := by
  induction n generalizing i mem with
  | zero => rw [unmaskLoop, if_neg (by omega)]
  | succ n ih =>
    rw [unmaskLoop, ih]
    rcases eq_or_ne a (pm + i) with rfl | hne
    · rw [Function.update_self, if_neg (by omega), if_pos (by omega)]
    · rw [Function.update_of_ne hne]
      congr 1
      simp only [eq_iff_iff]
      omega

/-! ### Text -/

/-- The highest bit. -/
def high (b : UInt8) : Bool := b.toBitVec.msb

lemma high_eq (b : UInt8) : high b = decide (128 ≤ b.toNat) := by
  rw [high, BitVec.msb_eq_decide]
  rfl

lemma high_xor (b key : UInt8) : high (b ^^^ key) = (high b ^^ high key) := by
  rw [high, UInt8.toBitVec_xor, BitVec.msb_xor]
  rfl

lemma high_of_printable {b : UInt8} (h : printable b = true) : high b = false := by
  simp only [printable, Bool.and_eq_true, decide_eq_true_eq, UInt8.le_iff_toNat_le] at h
  have h126 : b.toNat ≤ 126 := h.2
  rw [high_eq, decide_eq_false_iff_not]
  omega

lemma high_of_mem_keys {key : UInt8} (h : key ∈ keys) : high key = true := by
  obtain ⟨n, hn, rfl⟩ := List.mem_map.mp h
  rw [List.mem_range'_1] at hn
  have hlt : n < UInt8.size := hn.2
  rw [high_eq, decide_eq_true_eq, UInt8.toNat_ofNat_of_lt' hlt]
  exact hn.1

/-- The keys that are tried are all those with the highest bit. -/
lemma mem_keys {key : UInt8} : key ∈ keys ↔ high key = true := by
  refine ⟨high_of_mem_keys, fun h => List.mem_map.mpr ⟨key.toNat, ?_, UInt8.ofNat_toNat⟩⟩
  rw [high_eq, decide_eq_true_eq] at h
  rw [List.mem_range'_1]
  exact ⟨h, key.toNat_lt⟩

/-- A legible string. -/
def Legible (m : Bytes) : Prop :=
  ∃ w, w <:+: m ∧ 24 ≤ w.length ∧ ∀ b ∈ w, printable b = true

lemma longRun_iff {m : Bytes} : longRun m = true ↔ Legible m := by
  simp only [longRun, List.any_eq_true, List.mem_tails, decide_eq_true_eq]
  constructor
  · rintro ⟨t, ht, hl⟩
    refine ⟨t.takeWhile printable, ?_, hl, fun b hb => List.mem_takeWhile_imp hb⟩
    exact (List.takeWhile_prefix printable).isInfix.trans ht.isInfix
  · rintro ⟨w, ⟨a, c, rfl⟩, hl, hw⟩
    refine ⟨w ++ c, ⟨a, by simp⟩, ?_⟩
    rw [List.takeWhile_append_of_pos hw, List.length_append]
    omega

/-- Nothing recognisable is left. -/
structure Hidden (m : Bytes) : Prop where
  magic : ∀ g ∈ magics, ¬ g <:+: m
  legible : ¬ Legible m

lemma suits_iff {b : Bytes} {key : UInt8} : suits b key = true ↔ Hidden (mask key b) := by
  refine ⟨fun h => ?_, fun ⟨hm, hl⟩ => ?_⟩
  · simp only [suits, Bool.and_eq_true, Bool.not_eq_true', List.any_eq_false,
      decide_eq_true_eq] at h
    exact ⟨h.1, by simp [← longRun_iff, h.2]⟩
  · rw [← longRun_iff, Bool.not_eq_true] at hl
    simpa [suits] using ⟨hm, hl⟩

/-- Text is not text behind the mask. -/
lemma not_printable_mask {b : Bytes} {key : UInt8} (hb : ∀ x ∈ b, high x = false)
    (hk : high key = true) : ∀ x ∈ mask key b, printable x = false := by
  intro x hx
  obtain ⟨y, hy, rfl⟩ := List.mem_map.mp hx
  by_contra hp
  have := high_of_printable (Bool.not_eq_false _ ▸ hp)
  rw [high_xor, hb y hy, hk] at this
  cases this

/-! ### The choice -/

lemma keys_sorted : keys.Pairwise (· < ·) := by
  decide +kernel

lemma chooseKey_none {b : Bytes} :
    chooseKey b = none ↔ ∀ key, high key = true → ¬ Hidden (mask key b) := by
  simp only [chooseKey, List.find?_eq_none, mem_keys, suits_iff]

/-- The first key that hides the payload is chosen. -/
lemma chooseKey_some {b : Bytes} {key : UInt8} (h : chooseKey b = some key) :
    high key = true ∧ Hidden (mask key b) ∧
      ∀ k, high k = true → k < key → ¬ Hidden (mask k b) := by
  obtain ⟨hs, before, after, hk, hb⟩ := List.find?_eq_some_iff_append.mp h
  refine ⟨mem_keys.mp (List.mem_of_find?_eq_some h), suits_iff.mp hs, fun k hh hlt hid => ?_⟩
  have hmem := mem_keys.mpr hh
  have hsort := keys_sorted
  rw [hk] at hmem hsort
  rcases List.mem_append.mp hmem with hm | hm
  · have := hb k hm
    rw [suits_iff.mpr hid] at this
    cases this
  · have hafter := (List.pairwise_append.mp hsort).2.1
    rcases List.mem_cons.mp hm with rfl | hm
    · exact absurd hlt (by simp)
    · exact absurd ((List.pairwise_cons.mp hafter).1 k hm) (by simpa using UInt8.le_of_lt hlt)

/-! ### The object in memory -/

lemma at_unmask {mem : ℕ → UInt8} {base : ℕ} {loader b : Bytes} {key : UInt8}
    (h : At mem base (loader ++ mask key b)) :
    At (unmask loader base key b.length mem) base (loader ++ b) := by
  intro i hi
  rw [List.length_append] at hi
  have hmem := h i (by simpa using hi)
  rw [unmask, unmaskLoop_apply, hmem]
  rcases Nat.lt_or_ge i loader.length with hl | hl
  · rw [if_neg (by omega), List.getElem_append_left hl, List.getElem_append_left hl]
  · rw [if_pos (by omega), List.getElem_append_right hl, List.getElem_append_right hl]
    simp only [mask, List.getElem_map]
    exact xor_xor_key _ _

lemma high_text {i : Inputs} (h : ∀ x ∈ i.bootargs, high x = false) :
    ∀ x ∈ i.text, high x = false := by
  simp only [Inputs.text, List.forall_mem_append]
  exact ⟨⟨by decide +kernel, h⟩, by decide +kernel⟩

/-- **The mask hides the payload, and comes off.** For all boot arguments and files: there is no
object only if under every key with the highest bit a magic or a legible string would show. Else
the first key that hides the payload is taken, and of boot arguments in ASCII not one byte can be
printed. In memory, wherever the object was loaded, the loader's loop leaves the loader and the
payload as they were built and touches nothing else. -/
theorem masked_payload_restored (m1n1 : UInt8 → ℕ → Bytes) (i : Inputs) :
    (build m1n1 i = none ↔ ∀ key, high key = true → ¬ Hidden (mask key i.payload)) ∧
      ∀ r, build m1n1 i = some r →
        (high r.key = true ∧ Hidden (r.object.drop (m1n1 r.key r.len).length) ∧
          ∀ key, high key = true → key < r.key → ¬ Hidden (mask key i.payload)) ∧
        ((∀ x ∈ i.bootargs, high x = false) →
          ∀ x ∈ (r.object.drop (m1n1 r.key r.len).length).take i.text.length,
            printable x = false) ∧
        ∀ mem base, At mem base r.object →
          At (unmask (m1n1 r.key r.len) base r.key r.len mem) base
              (m1n1 r.key r.len ++ i.payload) ∧
            ∀ a, a < base + (m1n1 r.key r.len).length ∨ base + r.object.length ≤ a →
              unmask (m1n1 r.key r.len) base r.key r.len mem a = mem a := by
  refine ⟨?_, fun r hr => ?_⟩
  · rw [build, Option.map_eq_none_iff, chooseKey_none]
  · obtain ⟨key, hk, rfl⟩ := Option.map_eq_some_iff.mp hr
    obtain ⟨hh, hid, hmin⟩ := chooseKey_some hk
    refine ⟨⟨hh, ?_, hmin⟩, fun ht => ?_, fun mem base hat => ⟨at_unmask hat, fun a ha => ?_⟩⟩
    · rw [List.drop_left]
      exact hid
    · have htake : (mask key i.payload).take i.text.length = mask key i.text := by
        rw [mask, Inputs.payload, List.map_append, List.take_left' (by simp)]
        rfl
      rw [List.drop_left, htake]
      exact not_printable_mask (high_text ht) hh
    · simp only [List.length_append, length_mask] at ha
      simp only [unmask, unmaskLoop_apply]
      rw [if_neg (by omega)]

end Wallace.MaskedObject
