import Mathlib.Data.List.Basic
import Mathlib.Tactic.Common
import Wallace.Checks
import Wallace.GptModel

/-!
What the parts of the metadata gate do, on any medium.

Each part is specified once: its arithmetic is exact and its accesses are inside their
buffers whenever the part is entered with what the earlier checks have established, and
its result is what the medium holds, with the checks it has passed.
-/

namespace Wallace.GptSafe

open Trail Bytes Checks GptModel

/-- Exact arithmetic, and accesses inside the medium and the buffers. -/
def Safe : Event → Prop
  | .fits v w => 0 ≤ v ∧ v < 2 ^ w
  | .divisor d => d ≠ 0
  | .pread n off mediaBytes => 0 < n ∧ off + n ≤ mediaBytes
  | .access off n size => off + n ≤ size
  | .alloc n => 128 ≤ n ∧ n ≤ 1048576

/-! ### Arithmetic and buffers -/

lemma uadd_meets {w a b : ℕ} (h : a + b < 2 ^ w) : Meets Safe (uadd w a b) (· = a + b) := by
  refine (Meets.note ?_).bind fun _ _ => .pure (Nat.mod_eq_of_lt h)
  constructor
  · omega
  · exact_mod_cast h

lemma usub_meets {w a b : ℕ} (h : b ≤ a) (ha : a < 2 ^ w) :
    Meets Safe (usub w a b) (· = a - b) := by
  refine (Meets.note ?_).bind fun _ _ => .pure ?_
  · constructor
    · omega
    · have ha' : (a : ℤ) < 2 ^ w := by exact_mod_cast ha
      omega
  · rw [show a + 2 ^ w - b = (a - b) + 2 ^ w by omega, Nat.add_mod_right]
    exact Nat.mod_eq_of_lt (by omega)

lemma umul_meets {w a b : ℕ} (h : a * b < 2 ^ w) : Meets Safe (umul w a b) (· = a * b) := by
  refine (Meets.note ?_).bind fun _ _ => .pure (Nat.mod_eq_of_lt h)
  constructor
  · exact_mod_cast Nat.zero_le _
  · exact_mod_cast h

lemma ushl_meets {w a k : ℕ} (h : a * 2 ^ k < 2 ^ w) :
    Meets Safe (ushl w a k) (· = a * 2 ^ k) := by
  refine (Meets.note ?_).bind fun _ _ => .pure (Nat.mod_eq_of_lt h)
  constructor
  · exact Int.natCast_nonneg _
  · exact_mod_cast h

lemma udiv_meets (a : ℕ) {b : ℕ} (h : b ≠ 0) : Meets Safe (udiv a b) (· = a / b) :=
  (Meets.note (show Safe (.divisor b) from h)).bind fun _ _ => .pure rfl

lemma bytes_meets {b : List UInt8} {off n : ℕ} (h : off + n ≤ b.length) :
    Meets Safe (bytes b off n) (· = sub b off n) :=
  (Meets.note (show Safe (.access off n b.length) from h)).bind fun _ _ => .pure rfl

lemma access_meets {off n size : ℕ} (h : off + n ≤ size) :
    Meets Safe (note (.access off n size) : Gate Unit) fun _ => True :=
  .note (show Safe (.access off n size) from h)

lemma le16_meets {b : List UInt8} {off : ℕ} (h : off + 2 ≤ b.length) :
    Meets Safe (le16 b off) (· = leNat (sub b off 2)) :=
  ((bytes_meets h).mono fun _ ha => congrArg leNat ha).map

lemma le32_meets {b : List UInt8} {off : ℕ} (h : off + 4 ≤ b.length) :
    Meets Safe (le32 b off) (· = leNat (sub b off 4)) :=
  ((bytes_meets h).mono fun _ ha => congrArg leNat ha).map

lemma le64_meets {b : List UInt8} {off : ℕ} (h : off + 8 ≤ b.length) :
    Meets Safe (le64 b off) (· = leNat (sub b off 8)) :=
  ((bytes_meets h).mono fun _ ha => congrArg leNat ha).map

lemma zero_meets {b : List UInt8} {off n : ℕ} (h : off + n ≤ b.length) :
    Meets Safe (zero b off n) (· = (sub b off n).all (· = 0)) :=
  (bytes_meets h).bind fun _ ha => .pure (by rw [ha])

/-! ### Reading -/

lemma asked_safe {mediaBytes size n off len : ℕ} (hn : n ≠ 0) (hoff : off + n ≤ mediaBytes)
    (hsize : len + n = size) :
    ∀ e ∈ [Event.pread n off mediaBytes, .access len n size], Safe e := by
  intro e he
  rcases List.mem_cons.mp he with rfl | he
  · exact ⟨Nat.pos_of_ne_zero hn, hoff⟩
  · rw [List.mem_singleton.mp he]
    exact Nat.le_of_eq hsize

/-- The loop asks only for what is missing, and what it has and what is missing stay
together the slice of the medium that was asked for. -/
lemma readLoop_spec (img : ℕ → UInt8) {mediaBytes size : ℕ} (hm : mediaBytes < 2 ^ 64)
    (answers : List Pread) (n off : ℕ) (buf : List UInt8) (hoff : off + n ≤ mediaBytes)
    (hsize : buf.length + n = size) :
    (∀ e ∈ (readLoop img mediaBytes size n off buf answers).trail, Safe e) ∧
      ∀ r, (readLoop img mediaBytes size n off buf answers).fin = .done r →
        r = buf ++ slice img off n := by
  induction answers generalizing n off buf with
  | nil =>
    rw [readLoop]
    split_ifs with h0
    · subst h0
      exact ⟨fun e he => absurd he List.not_mem_nil, fun r hr => by cases hr; simp [slice]⟩
    · exact ⟨asked_safe h0 hoff hsize, fun r hr => by cases hr⟩
  | cons a answers ih =>
    rw [readLoop]
    split_ifs with h0
    · subst h0
      exact ⟨fun e he => absurd he List.not_mem_nil, fun r hr => by cases hr; simp [slice]⟩
    · have hasked := asked_safe h0 hoff hsize
      cases a with
      | intr =>
        obtain ⟨h1, h2⟩ := ih n off buf hoff hsize
        exact ⟨fun e he => (List.mem_append.mp he).elim (hasked e) (h1 e), h2⟩
      | fail => exact ⟨hasked, fun r hr => by cases hr⟩
      | got k =>
        dsimp only
        generalize hk : min k n = k'
        split_ifs with hk0
        · exact ⟨hasked, fun r hr => by cases hr⟩
        · have hn : (n + 2 ^ 64 - k') % 2 ^ 64 = n - k' := by omega
          have ho : (off + k') % 2 ^ 64 = off + k' := by omega
          rw [hn, ho]
          have hlen : (buf ++ slice img off k').length + (n - k') = size := by
            rw [List.length_append, length_slice]
            omega
          obtain ⟨h1, h2⟩ := ih (n - k') (off + k') (buf ++ slice img off k') (by omega) hlen
          refine ⟨fun e he => ?_, fun r hr => ?_⟩
          · rcases List.mem_append.mp he with he | he
            · rcases List.mem_append.mp he with he | he
              · exact hasked e he
              · rcases List.mem_cons.mp he with rfl | he
                · constructor <;> omega
                · rw [List.mem_singleton.mp he]
                  constructor <;> omega
            · exact h1 e he
          · rw [h2 r hr, List.append_assoc, ← slice_add, show k' + (n - k') = n by omega]

lemma readAt_meets (img : ℕ → UInt8) {mediaBytes : ℕ} (hm : mediaBytes < 2 ^ 64) (n off : ℕ) :
    Meets Safe (readAt img mediaBytes n off)
      fun b => b = slice img off n ∧ off + n ≤ mediaBytes := by
  refine (Meets.stopIf _ _).bind fun _ hoff => ?_
  refine (usub_meets (Nat.le_of_not_lt hoff) hm).bind ?_
  rintro _ rfl
  refine (Meets.stopIf _ _).bind fun _ hroom => ?_
  have hin : off + n ≤ mediaBytes := by omega
  intro answers
  obtain ⟨h1, h2⟩ := readLoop_spec img hm answers n off [] hin (Nat.zero_add n)
  exact ⟨h1, fun b hb => ⟨h2 b hb, hin⟩⟩

/-! ### The table -/

/-- The header that a sector holds, whatever it holds. -/
def headerOf (b : List UInt8) : Header where
  current := leNat (sub b 24 8)
  backup := leNat (sub b 32 8)
  first := leNat (sub b 40 8)
  last := leNat (sub b 48 8)
  table := leNat (sub b 72 8)
  count := leNat (sub b 80 4)
  entrySize := leNat (sub b 84 4)
  arrayCrc := leNat (sub b 88 4)
  guid := sub b 56 16

/-- A sector of the medium. -/
def sector (img : ℕ → UInt8) (lba : ℕ) : List UInt8 := slice img (lba * 512) 512

/-- The sectors of the entry array of a header. -/
def arrayLen (h : Header) : ℕ := (h.count * h.entrySize + 511) / 512

/-- What the geometry checks establish. -/
structure Geometry (h : Header) (lba S : ℕ) : Prop where
  current : h.current = lba
  first : 3 ≤ h.first
  usable : h.first ≤ h.last
  last : h.last < S - 1
  count : 0 < h.count
  entrySize : 128 ≤ h.entrySize
  small : h.count * h.entrySize ≤ 1048576

/-- What the placement checks establish. -/
structure Placement (h : Header) (lba S : ℕ) : Prop where
  table : 2 ≤ h.table
  inside : h.table + arrayLen h ≤ S
  primary : lba = 1 → h.backup = S - 1 ∧ h.table = 2 ∧ h.table + arrayLen h ≤ h.first
  backup : lba ≠ 1 → h.backup = 1 ∧ h.last < h.table ∧ h.table + arrayLen h = lba

/-- The CRC over the declared size, with its own field zeroed. -/
structure Checked (b : List UInt8) : Prop where
  signature : sub b 0 8 = signature
  size : 92 ≤ leNat (sub b 12 4) ∧ leNat (sub b 12 4) ≤ 512
  crc : (crc32 (crcCopy b (leNat (sub b 12 4)))).toNat = leNat (sub b 16 4)

lemma geometry_meets {h : Header} {lba S : ℕ} (hS : 68 ≤ S) (hS' : S < 2 ^ 64)
    (hes : h.entrySize < 2 ^ 32) :
    Meets Safe (geometry h lba S) fun _ => Geometry h lba S := by
  refine (Meets.stopIf _ _).bind fun _ h1 => ?_
  refine (usub_meets (by omega) hS').bind ?_
  rintro _ rfl
  refine (Meets.stopIf _ _).bind fun _ h2 => ?_
  refine (udiv_meets _ (by omega)).bind ?_
  rintro _ rfl
  refine (usub_meets (by omega) (by omega)).bind ?_
  rintro _ rfl
  refine (Meets.stopIf _ _).bind fun _ _ => ?_
  refine (udiv_meets _ (by omega)).bind ?_
  rintro _ rfl
  refine (Meets.stopIf _ _).mono fun _ h3 => ?_
  have hsmall : h.count * h.entrySize ≤ maxArray :=
    (Nat.le_div_iff_mul_le (by omega)).mp (Nat.le_of_not_lt h3)
  exact ⟨by omega, by omega, by omega, by omega, by omega, by omega, hsmall⟩

lemma arraySectors_meets {h : Header} (hsmall : h.count * h.entrySize ≤ 1048576) :
    Meets Safe (arraySectors h) (· = arrayLen h) := by
  refine (umul_meets (by omega)).bind ?_
  rintro _ rfl
  refine (uadd_meets (by omega)).bind ?_
  rintro _ rfl
  refine (usub_meets (by omega) (by omega)).bind ?_
  rintro _ rfl
  refine (udiv_meets _ (by omega)).mono ?_
  rintro _ rfl
  rfl

lemma placement_meets {h : Header} {lba S : ℕ} (hS : 68 ≤ S) (hS' : S < 2 ^ 63)
    (hsmall : h.count * h.entrySize ≤ 1048576) :
    Meets Safe (placement h lba S) fun _ => Placement h lba S := by
  have hlen : arrayLen h ≤ 2048 := by
    unfold arrayLen
    omega
  refine (arraySectors_meets hsmall).bind ?_
  rintro _ rfl
  refine (Meets.stopIf _ _).bind fun _ h1 => ?_
  refine (usub_meets (by omega) (by omega)).bind ?_
  rintro _ rfl
  refine (Meets.stopIf _ _).bind fun _ h2 => ?_
  refine (uadd_meets (by omega)).bind ?_
  rintro _ rfl
  split_ifs with hlba
  · refine (usub_meets (by omega) (by omega)).bind ?_
    rintro _ rfl
    refine (Meets.stopIf _ _).mono fun _ h3 => ?_
    exact ⟨by omega, by omega, fun _ => by omega, fun h => absurd hlba h⟩
  · refine (Meets.stopIf _ _).mono fun _ h3 => ?_
    exact ⟨by omega, by omega, fun h => absurd h hlba, fun _ => by omega⟩

/-- A header that passed. -/
structure Accepted (img : ℕ → UInt8) (lba S : ℕ) (h : Header) : Prop where
  fields : h = headerOf (sector img lba)
  checked : Checked (sector img lba)
  geometry : Geometry h lba S
  placement : Placement h lba S

lemma header_meets (img : ℕ → UInt8) {mediaBytes lba S : ℕ} (hm : mediaBytes < 2 ^ 63)
    (hS : 68 ≤ S) (hSm : S * 512 ≤ mediaBytes) (hlba : lba < S) :
    Meets Safe (header img mediaBytes lba S) (Accepted img lba S) := by
  refine (umul_meets (by omega)).bind ?_
  rintro _ rfl
  refine (readAt_meets img (by omega) _ _).bind ?_
  rintro b ⟨hb, -⟩
  have hlen : b.length = 512 := by rw [hb, length_slice]
  refine (bytes_meets (by omega)).bind ?_
  rintro _ rfl
  refine (le32_meets (by omega)).bind ?_
  rintro _ rfl
  refine (le32_meets (by omega)).bind ?_
  rintro _ rfl
  refine (Meets.stopIf _ _).bind fun _ hsig => ?_
  refine (le32_meets (by omega)).bind ?_
  rintro _ rfl
  refine (Meets.stopIf _ _).bind fun _ hsize => ?_
  refine (access_meets (by omega)).bind fun _ _ => ?_
  refine (le32_meets (by omega)).bind ?_
  rintro _ rfl
  refine (Meets.stopIf _ _).bind fun _ hcrc => ?_
  refine (le64_meets (by omega)).bind ?_
  rintro _ rfl
  refine (le64_meets (by omega)).bind ?_
  rintro _ rfl
  refine (le64_meets (by omega)).bind ?_
  rintro _ rfl
  refine (le64_meets (by omega)).bind ?_
  rintro _ rfl
  refine (bytes_meets (by omega)).bind ?_
  rintro _ rfl
  refine (le64_meets (by omega)).bind ?_
  rintro _ rfl
  refine (le32_meets (by omega)).bind ?_
  rintro _ rfl
  refine (le32_meets (by omega)).bind ?_
  rintro _ rfl
  refine (le32_meets (by omega)).bind ?_
  rintro _ rfl
  refine (geometry_meets hS (by omega) (leNat_sub_lt _ _ _)).bind fun _ hg => ?_
  refine (placement_meets hS (by omega) hg.small).bind fun _ hp => .pure ?_
  have hb' : sector img lba = b := hb.symm
  refine ⟨by rw [hb']; rfl, ?_, hg, hp⟩
  rw [hb']
  push Not at hsig hsize hcrc
  exact ⟨hsig.1, ⟨by omega, by omega⟩, hcrc⟩

/-- The bytes of the entry array of a header. -/
def entries (img : ℕ → UInt8) (h : Header) : List UInt8 :=
  slice img (h.table * 512) (h.count * h.entrySize)

lemma Geometry.size {h : Header} {lba S : ℕ} (hg : Geometry h lba S) :
    128 ≤ h.count * h.entrySize := by
  have h1 := hg.count
  have h2 := hg.entrySize
  calc 128 ≤ 1 * h.entrySize := by omega
    _ ≤ h.count * h.entrySize := Nat.mul_le_mul_right _ h1

lemma array_meets (img : ℕ → UInt8) {mediaBytes lba S : ℕ} (hm : mediaBytes < 2 ^ 63)
    (hSm : S * 512 ≤ mediaBytes) (malloc : Bool) {h : Header} (hg : Geometry h lba S)
    (hp : Placement h lba S) :
    Meets Safe (array img mediaBytes malloc h)
      fun p => p = entries img h ∧ (crc32 p).toNat = h.arrayCrc := by
  have hsmall := hg.small
  have hinside := hp.inside
  refine (umul_meets (by omega)).bind ?_
  rintro _ rfl
  refine (Meets.note (show Safe (.alloc _) from ⟨hg.size, hsmall⟩)).bind fun _ _ => ?_
  refine (Meets.stopIf _ _).bind fun _ _ => ?_
  refine (umul_meets (by omega)).bind ?_
  rintro _ rfl
  refine (readAt_meets img (by omega) _ _).bind ?_
  rintro p ⟨hp, -⟩
  have hlen : p.length = h.count * h.entrySize := by rw [hp, length_slice]
  refine (access_meets (by omega)).bind fun _ _ => ?_
  refine (Meets.stopIf _ _).bind fun _ hcrc => .pure ⟨hp, ?_⟩
  push Not at hcrc
  exact hcrc

lemma checkMbr_meets (img : ℕ → UInt8) {mediaBytes S : ℕ} (hm : mediaBytes < 2 ^ 63)
    (hS : 68 ≤ S) (hSm : S * 512 ≤ mediaBytes) :
    Meets Safe (checkMbr img mediaBytes S) fun _ => True := by
  refine (readAt_meets img (by omega) _ _).bind ?_
  rintro b ⟨hb, -⟩
  have hlen : b.length = 512 := by rw [hb, length_slice]
  refine (bytes_meets (by omega)).bind fun _ _ => ?_
  refine (bytes_meets (by omega)).bind fun _ _ => ?_
  refine (bytes_meets (by omega)).bind fun _ _ => ?_
  refine (le32_meets (by omega)).bind fun _ _ => ?_
  refine (le32_meets (by omega)).bind fun _ _ => ?_
  refine (usub_meets (by omega) (by omega)).bind fun _ _ => ?_
  refine (zero_meets (by omega)).bind fun _ _ => ?_
  exact (Meets.stopIf _ _).mono fun _ _ => trivial

/-- Two copies of the table that passed and agree. -/
structure Copies (img : ℕ → UInt8) (S : ℕ) (diskGuid : List UInt8) (a b : Header) : Prop where
  primary : Accepted img 1 S a
  backup : Accepted img (S - 1) S b
  guid : a.guid = diskGuid ∧ b.guid = diskGuid
  usable : a.first = b.first ∧ a.last = b.last
  shape : a.count = b.count ∧ a.entrySize = b.entrySize
  arrayCrc : a.arrayCrc = b.arrayCrc
  arrays : entries img a = entries img b
  crc : (crc32 (entries img a)).toNat = a.arrayCrc

lemma checkCopies_meets (img : ℕ → UInt8) {mediaBytes S : ℕ} (hm : mediaBytes < 2 ^ 63)
    (hS : 68 ≤ S) (hSm : S * 512 ≤ mediaBytes) (malloc : Bool × Bool) (diskGuid : List UInt8) :
    Meets Safe (checkCopies img mediaBytes S malloc diskGuid)
      fun r => r.2 = entries img r.1 ∧ ∃ b, Copies img S diskGuid r.1 b := by
  refine (header_meets img hm hS hSm (by omega)).bind fun a ha => ?_
  refine (usub_meets (by omega) (by omega)).bind ?_
  rintro _ rfl
  refine (header_meets img hm hS hSm (by omega)).bind fun b hb => ?_
  refine (Meets.stopIf _ _).bind fun _ hagree => ?_
  push Not at hagree
  obtain ⟨h1, h2, h3, h4, h5, h6, h7⟩ := hagree
  refine (array_meets img hm hSm _ ha.geometry ha.placement).bind ?_
  rintro pa ⟨hpa, hcrc⟩
  refine (array_meets img hm hSm _ hb.geometry hb.placement).bind ?_
  rintro pb ⟨hpb, -⟩
  have hsmall := ha.geometry.small
  refine (umul_meets (by omega)).bind ?_
  rintro _ rfl
  have hla : pa.length = a.count * a.entrySize := by rw [hpa, entries, length_slice]
  have hlb : pb.length = a.count * a.entrySize := by rw [hpb, entries, length_slice, h5, h6]
  refine (access_meets (by omega)).bind fun _ _ => ?_
  refine (access_meets (by omega)).bind fun _ _ => ?_
  refine (Meets.stopIf _ _).bind fun _ heq => .pure ⟨hpa, b, ?_⟩
  push Not at heq
  exact ⟨ha, hb, ⟨h1, h2⟩, ⟨h3, h4⟩, ⟨h5, h6⟩, h7, by rw [← hpa, ← hpb, heq], by rw [← hpa, hcrc]⟩

/-- One partition: the pinned root at the first entry, and nothing at the others. -/
structure OneRoot (a : Header) (pa type partGuid : List UInt8) (first last : ℕ) : Prop where
  type : sub pa 0 16 = type
  partGuid : sub pa 16 16 = partGuid
  others : ∀ i, 1 ≤ i → i < a.count → ∀ x ∈ sub pa (i * a.entrySize) a.entrySize, x = 0
  firstLba : leNat (sub pa 32 8) = first
  lastLba : leNat (sub pa 40 8) = last
  attributes : leNat (sub pa 48 8) = 0
  start : first = 2048
  extent : a.first ≤ first ∧ first ≤ last ∧ last ≤ a.last

lemma checkEntries_meets {a : Header} {lba S : ℕ} (hg : Geometry a lba S) {pa : List UInt8}
    (hlen : pa.length = a.count * a.entrySize) (type partGuid : List UInt8) :
    Meets Safe (checkEntries a pa type partGuid)
      fun r => OneRoot a pa type partGuid r.1 r.2 := by
  have hsize := hg.size
  have hsmall := hg.small
  refine (bytes_meets (by omega)).bind ?_
  rintro _ rfl
  refine (bytes_meets (by omega)).bind ?_
  rintro _ rfl
  refine (Meets.stopIf _ _).bind fun _ hids => ?_
  push Not at hids
  have hturn : ∀ i ∈ List.range' 1 (a.count - 1), (i + 1) * a.entrySize ≤ pa.length := by
    intro i hi
    rw [List.mem_range'_1] at hi
    rw [hlen]
    exact Nat.mul_le_mul_right _ (by omega)
  refine (Meets.forEach (R := fun i => ∀ x ∈ sub pa (i * a.entrySize) a.entrySize, x = 0)
    fun i hi => ?_).bind fun _ hothers => ?_
  · have hi' := hturn i hi
    rw [Nat.add_mul, Nat.one_mul] at hi'
    refine (umul_meets (by omega)).bind ?_
    rintro _ rfl
    refine (zero_meets hi').bind ?_
    rintro _ rfl
    refine (Meets.stopIf _ _).mono fun _ hz => ?_
    simpa using hz
  refine (le64_meets (by omega)).bind ?_
  rintro _ rfl
  refine (le64_meets (by omega)).bind ?_
  rintro _ rfl
  refine (le64_meets (by omega)).bind ?_
  rintro _ rfl
  refine (Meets.stopIf _ _).bind fun _ hext => ?_
  push Not at hext
  obtain ⟨h1, h2, h3, h4, h5⟩ := hext
  refine (Meets.forEach (R := fun _ => True) fun i hi => ?_).bind fun _ _ => .pure ?_
  · rw [List.mem_range] at hi
    refine (le16_meets (by omega)).bind fun _ _ => ?_
    exact (Meets.stopIf _ _).mono fun _ _ => trivial
  · refine ⟨hids.1, hids.2, fun i hi hi' => hothers i ?_, rfl, rfl, h5, h1, ⟨?_, ?_, ?_⟩⟩
    · rw [List.mem_range'_1]
      omega
    all_goals
      dsimp only
      omega

/-- The superblock of a filesystem that starts at sector `first`. -/
def superblock (img : ℕ → UInt8) (first : ℕ) : List UInt8 := slice img (first * 512 + 1024) 1024

/-- Whether the filesystem counts its blocks in 64 bits. -/
def Has64bit (sb : List UInt8) : Prop := leNat (sub sb 96 4) &&& 0x80 ≠ 0

instance (sb : List UInt8) : Decidable (Has64bit sb) := inferInstanceAs (Decidable (_ ≠ _))

/-- The block count of a superblock: the low word, and the high word if it counts. -/
def blockCount (sb : List UInt8) : ℕ :=
  leNat (sub sb 4 4) + (if Has64bit sb then leNat (sub sb 0x150 4) else 0) * 2 ^ 32

def blockSize (sb : List UInt8) : ℕ := 1024 * 2 ^ leNat (sub sb 24 4)

/-- What the gate makes sure of in the superblock: the UUID, and that the blocks fit the
partition. -/
structure Ext4 (img : ℕ → UInt8) (first last : ℕ) (fsUuid : List UInt8) : Prop where
  fsUuid : slice img (first * 512 + 1024 + 104) 16 = fsUuid
  fits : blockCount (superblock img first) * blockSize (superblock img first) ≤
    (last - first + 1) * 512

/-- Two words side by side. -/
lemma or_shift {low : ℕ} (h : low < 2 ^ 32) (high : ℕ) :
    low ||| high * 2 ^ 32 = low + high * 2 ^ 32 := by
  rw [Nat.or_comm, Nat.mul_comm, Nat.add_comm, Nat.two_pow_add_eq_or_of_lt h]

lemma checkExt4_meets (img : ℕ → UInt8) {mediaBytes first last : ℕ} (hm : mediaBytes < 2 ^ 63)
    (hfirst : first ≤ last) (hlast : last < 2 ^ 54) (fsUuid : List UInt8) :
    Meets Safe (checkExt4 img mediaBytes first last fsUuid)
      fun _ => Ext4 img first last fsUuid := by
  refine (umul_meets (by omega)).bind ?_
  rintro _ rfl
  refine (uadd_meets (by omega)).bind ?_
  rintro _ rfl
  refine (readAt_meets img (by omega) _ _).bind ?_
  rintro sb ⟨hsb, -⟩
  have hlen : sb.length = 1024 := by rw [hsb, length_slice]
  refine (le16_meets (by omega)).bind fun _ _ => ?_
  refine (le32_meets (by omega)).bind fun _ _ => ?_
  refine (bytes_meets (by omega)).bind ?_
  rintro _ rfl
  refine (Meets.stopIf _ _).bind fun _ hids => ?_
  push Not at hids
  refine (bytes_meets (by omega)).bind fun _ _ => ?_
  refine (Meets.stopIf _ _).bind fun _ _ => ?_
  refine (le16_meets (by omega)).bind fun _ _ => ?_
  refine (le32_meets (by omega)).bind ?_
  rintro _ rfl
  refine (Meets.stopIf _ _).bind fun _ _ => ?_
  refine (le32_meets (by omega)).bind fun shift hval => ?_
  refine (Meets.stopIf _ _).bind fun _ hshift => ?_
  have hpow : 2 ^ shift ≤ 2 ^ 6 := Nat.pow_le_pow_right (by omega) (by omega)
  have hpos : 0 < 2 ^ shift := Nat.two_pow_pos shift
  refine (ushl_meets (by omega)).bind ?_
  rintro _ rfl
  refine (le32_meets (by omega)).bind fun low hlow => ?_
  have hlow' : low < 2 ^ 32 := hlow ▸ leNat_sub_lt _ _ _
  refine (le32_meets (by omega)).bind fun high hhigh => ?_
  have hlt : high < 2 ^ 32 := hhigh ▸ leNat_sub_lt _ _ _
  have hfit : ∀ c : Prop, ∀ [Decidable c], (if c then high else 0) * 2 ^ 32 < 2 ^ 64 := by
    intro c _
    have hc : (if c then high else 0) < 2 ^ 32 := by split_ifs <;> omega
    calc (if c then high else 0) * 2 ^ 32
        < 2 ^ 32 * 2 ^ 32 := Nat.mul_lt_mul_of_pos_right hc (Nat.two_pow_pos 32)
      _ = 2 ^ 64 := by rw [← Nat.pow_add]
  refine (ushl_meets (hfit _)).bind ?_
  rintro _ rfl
  refine (usub_meets hfirst (by omega)).bind ?_
  rintro _ rfl
  refine (uadd_meets (by omega)).bind ?_
  rintro _ rfl
  refine (umul_meets (by omega)).bind ?_
  rintro _ rfl
  refine (udiv_meets _ (by omega)).bind ?_
  rintro _ rfl
  refine (Meets.stopIf _ _).mono fun _ hsize => ⟨?_, ?_⟩
  · rw [← hids.2.2, hsb, sub_slice img (by omega)]
  · rw [not_or, or_shift hlow' _, hlow, hhigh, hval] at hsize
    have hcount : blockCount sb ≤ (last - first + 1) * 512 / blockSize sb := Nat.not_lt.mp hsize.2
    rw [superblock, ← hsb]
    exact Nat.le_trans (Nat.mul_le_mul_right _ hcount) (Nat.div_mul_le_self _ _)

/-! ### The whole gate -/

lemma dieIf_ok {c : Prop} [Decidable c] {why : String} {u : Unit} (h : dieIf c why = .ok u) :
    ¬ c := by
  intro hc
  rw [dieIf, if_pos hc] at h
  cases h

/-- The pinned lengths are in order. -/
structure Lengths (p : Pins) : Prop where
  sectors : p.layoutBytes % 512 = 0
  least : 68 * 512 ≤ p.layoutBytes
  inside : p.layoutBytes ≤ p.expectedMedia
  most : p.expectedMedia < 2 ^ 63

lemma pinned_lengths {argv : List String} {p : Pins} (h : pinned argv = .ok p) : Lengths p := by
  obtain ⟨o, -, h⟩ := bind_ok h
  unfold pins at h
  split at h
  · obtain ⟨-, -, h⟩ := bind_ok h
    obtain ⟨_, hc, h⟩ := bind_ok h
    have hc := dieIf_ok hc
    simp only [int64Max] at hc
    cases h
    constructor <;> dsimp only <;> omega
  · cases h

lemma openMedia_eq {env : Env} {p : Pins} {n : ℕ} (h : openMedia env p = .ok n) :
    n = p.expectedMedia := by
  unfold openMedia at h
  split at h
  · cases h
  · obtain ⟨-, -, h⟩ := bind_ok h
    obtain ⟨-, -, h⟩ := bind_ok h
    obtain ⟨-, -, h⟩ := bind_ok h
    obtain ⟨-, -, h⟩ := bind_ok h
    split at h
    · cases h
    · obtain ⟨-, -, h⟩ := bind_ok h
      obtain ⟨m, -, h⟩ := bind_ok h
      obtain ⟨_, hc, h⟩ := bind_ok h
      have hc := dieIf_ok hc
      cases h
      exact not_not.mp hc

/-- What the medium holds when the gate has passed. -/
structure Passed (img : ℕ → UInt8) (S : ℕ) (diskGuid partGuid fsUuid type : List UInt8)
    (a b : Header) (first last : ℕ) : Prop where
  copies : Copies img S diskGuid a b
  root : OneRoot a (entries img a) type partGuid first last
  fsUuid : slice img (first * 512 + 1024 + 104) 16 = fsUuid

lemma gate_meets (img : ℕ → UInt8) (env : Env) {p : Pins} (hp : Lengths p)
    (diskGuid partGuid fsUuid type : List UInt8) :
    Meets Safe (gate img env p p.expectedMedia diskGuid partGuid fsUuid type)
      fun r => Ext4 img r.1 r.2 fsUuid ∧ ∃ a b,
        Passed img (p.layoutBytes / 512) diskGuid partGuid fsUuid type a b r.1 r.2 := by
  have h1 := hp.least
  have h2 := hp.inside
  have hm := hp.most
  have hS : 68 ≤ p.layoutBytes / 512 := by omega
  have hSm : p.layoutBytes / 512 * 512 ≤ p.expectedMedia :=
    Nat.le_trans (Nat.div_mul_le_self _ _) hp.inside
  refine (udiv_meets _ (by omega)).bind ?_
  rintro _ rfl
  refine (checkMbr_meets img hm hS hSm).bind fun _ _ => ?_
  refine (checkCopies_meets img hm hS hSm _ _).bind ?_
  rintro ⟨a, pa⟩ ⟨hpa, b, hcopies⟩
  dsimp only at hpa hcopies ⊢
  have hg := hcopies.primary.geometry
  refine (checkEntries_meets hg (by rw [hpa, entries, length_slice]) _ _).bind ?_
  rintro ⟨first, last⟩ hroot
  dsimp only at hroot ⊢
  have hlast := hg.last
  have hext := hroot.extent
  refine (checkExt4_meets img hm hext.2.1 (by omega) _).bind fun _ hfs => .pure ?_
  exact ⟨hfs, a, b, hcopies, hpa ▸ hroot, hfs.fsUuid⟩

/-- The lines of the report with the extent of the partition. -/
structure Reports (out : List String) (first last : ℕ) : Prop where
  first : out[5]? = some ("partition_first_lba=" ++ toString first)
  last : out[6]? = some ("partition_last_lba=" ++ toString last)

/-- **The gate, whole**: its arithmetic and accesses are safe in every run, and when it
passes the medium holds what it should. -/
theorem main_meets (env : Env) (img : ℕ → UInt8) (argv : List String) :
    Meets Safe (main env img argv) fun out =>
      ∃ p diskGuid partGuid fsUuid type a b first last,
        pinned argv = .ok p ∧ openMedia env p = .ok p.expectedMedia ∧
        uuid p.diskId true = .ok diskGuid ∧ uuid p.partId true = .ok partGuid ∧
        uuid p.fsId false = .ok fsUuid ∧ uuid linuxFs true = .ok type ∧
        Passed img (p.layoutBytes / 512) diskGuid partGuid fsUuid type a b first last ∧
        Ext4 img first last fsUuid ∧ Reports out first last := by
  refine (Meets.ofExcept _).bind fun p hp => ?_
  refine (Meets.ofExcept _).bind fun diskGuid hd => ?_
  refine (Meets.ofExcept _).bind fun partGuid hpg => ?_
  refine (Meets.ofExcept _).bind fun fsUuid hf => ?_
  refine (Meets.ofExcept _).bind fun type ht => ?_
  refine (Meets.ofExcept _).bind fun mediaBytes hmedia => ?_
  have hlen := pinned_lengths hp
  have hm := openMedia_eq hmedia
  subst hm
  refine (gate_meets img env hlen _ _ _ _).bind ?_
  rintro ⟨first, last⟩ ⟨hfs, a, b, hpass⟩
  exact .pure ⟨p, diskGuid, partGuid, fsUuid, type, a, b, first, last, hp, hmedia, hd, hpg, hf,
    ht, hpass, hfs, rfl, rfl⟩

end Wallace.GptSafe
