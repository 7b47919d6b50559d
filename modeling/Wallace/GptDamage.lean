import Mathlib.Data.List.Basic
import Wallace.Crc
import Wallace.GptReads
import Wallace.GptSound

/-!
Damage to a partition table that the metadata gate would notice.

The CRC of the gate tells any two byte strings apart that differ only within 32 consecutive
bits. So an image that passes does not pass any more when a burst of that length hits one of
the arrays, or one of the headers where its CRC covers it.
-/

namespace Wallace.GptDamage

open Trail Bytes GptModel GptSafe GptReads GptSound

/-! ### The CRC of the gate -/

/-- The polynomial of the CRC-32, reflected. -/
def poly : BitVec 32 := 0xedb88320

/-- The bits of a byte, low end first: the order in which they enter the CRC. -/
def bits (b : UInt8) : List Bool := (List.range 8).map fun i => b.toBitVec.getLsbD i

/-- The bits of a byte string. -/
def messageBits (p : List UInt8) : List Bool := p.flatMap bits

@[simp] lemma length_bits (b : UInt8) : (bits b).length = 8 := by
  simp [bits]

lemma crcBit_eq_shift (c : BitVec 32) : crcBit c = Crc.shift poly c := by
  have hone : c &&& 1#32 = (BitVec.ofBool (c.getLsbD 0)).setWidth 32 :=
    BitVec.and_one_eq_setWidth_ofBool_getLsbD
  unfold crcBit Crc.shift
  rw [show c &&& 1 = c &&& 1#32 from rfl, hone]
  cases c.getLsbD 0 with
  | false => simp
  | true =>
    have hall : (0 - BitVec.setWidth 32 (BitVec.ofBool true) : BitVec 32) = BitVec.allOnes 32 := by
      decide
    rw [hall, BitVec.and_allOnes, if_pos rfl]
    rfl

lemma word_bits (b : UInt8) : (Crc.word (bits b) : BitVec 32) = b.toBitVec.setWidth 32 := by
  refine BitVec.eq_of_getLsbD_eq fun i hi => ?_
  rw [Crc.getLsbD_word, BitVec.getLsbD_setWidth]
  congr 1
  rw [List.getD_eq_getElem?_getD, bits, List.getElem?_map]
  by_cases h8 : i < 8
  · rw [List.getElem?_range h8]
    rfl
  · rw [List.getElem?_eq_none (by simp; omega), BitVec.getLsbD_of_ge _ _ (by omega)]
    rfl

/-- A byte enters the CRC bit by bit. -/
lemma crcByte_eq_feed (c : BitVec 32) (b : UInt8) : crcByte c b = Crc.feed poly c (bits b) := by
  rw [Crc.feed_eq_iterate poly c (by simp), length_bits, word_bits]
  simp only [crcByte, Nat.repeat, crcBit_eq_shift]
  rfl

lemma foldl_crcByte (c : BitVec 32) (p : List UInt8) :
    p.foldl crcByte c = Crc.feed poly c (messageBits p) := by
  induction p generalizing c with
  | nil => rfl
  | cons b p ih =>
    rw [List.foldl_cons, ih, crcByte_eq_feed, ← Crc.feed_append]
    rfl

/-! ### Bursts in byte strings -/

/-- Bit `i` of a byte string, in the order of the CRC. -/
def bitOf (p : List UInt8) (i : ℕ) : Option Bool :=
  p[i / 8]?.map fun b => b.toBitVec.getLsbD (i % 8)

lemma getElem?_messageBits (p : List UInt8) (i : ℕ) : (messageBits p)[i]? = bitOf p i := by
  induction p generalizing i with
  | nil => rfl
  | cons b p ih =>
    rw [messageBits, List.flatMap_cons]
    by_cases hi : i < 8
    · have hq : i / 8 = 0 := by omega
      have hr : i % 8 = i := by omega
      rw [List.getElem?_append_left (by simpa using hi), bitOf, hq, hr, bits, List.getElem?_map,
        List.getElem?_range hi]
      rfl
    · have hq : i / 8 = (i - 8) / 8 + 1 := by omega
      have hr : i % 8 = (i - 8) % 8 := by omega
      rw [List.getElem?_append_right (by simpa using hi), length_bits, bitOf, hq, hr,
        List.getElem?_cons_succ]
      exact ih (i - 8)

lemma length_messageBits (p : List UInt8) : (messageBits p).length = 8 * p.length := by
  induction p with
  | nil => rfl
  | cons b p ih =>
    have hcons : messageBits (b :: p) = bits b ++ messageBits p := rfl
    rw [hcons, List.length_append, length_bits, ih, List.length_cons]
    omega

lemma eq_of_bitOf {p q : List UInt8} (h : ∀ i, bitOf p i = bitOf q i) : p = q := by
  refine List.ext_getElem? fun j => ?_
  have hbit : ∀ r, r < 8 → bitOf p (8 * j + r) = bitOf q (8 * j + r) := fun r _ => h _
  have hq : ∀ r, r < 8 → (8 * j + r) / 8 = j := fun r hr => by omega
  have hr : ∀ r, r < 8 → (8 * j + r) % 8 = r := fun r hr => by omega
  cases hp : p[j]? with
  | none =>
    have h0 := hbit 0 (by omega)
    rw [bitOf, bitOf, hq 0 (by omega), hp, Option.map_none, eq_comm, Option.map_eq_none_iff] at h0
    exact h0.symm
  | some b =>
    have h0 := hbit 0 (by omega)
    rw [bitOf, bitOf, hq 0 (by omega), hp, Option.map_some, eq_comm, Option.map_eq_some_iff] at h0
    obtain ⟨b', hb', -⟩ := h0
    rw [hb']
    congr 1
    refine UInt8.toBitVec_inj.mp (BitVec.eq_of_getLsbD_eq fun r hr8 => ?_)
    have hb := hbit r hr8
    rw [bitOf, bitOf, hq r hr8, hr r hr8, hp, hb'] at hb
    exact Option.some.inj hb

/-- **Bursts**: byte strings of one length that differ, and only within 32 consecutive bits,
have different CRCs. -/
theorem crc32_ne_of_burst {p q : List UInt8} (hlen : p.length = q.length) (hne : p ≠ q) {k : ℕ}
    (hwin : ∀ i, bitOf p i ≠ bitOf q i → k ≤ i ∧ i < k + 32) : crc32 p ≠ crc32 q := by
  have hfeed : Crc.feed poly (BitVec.allOnes 32) (messageBits p) ≠
      Crc.feed poly (BitVec.allOnes 32) (messageBits q) := by
    refine Crc.feed_ne_of_burst poly (by decide) _ ?_ (fun heq => hne (eq_of_bitOf fun i => ?_))
      (k := k) fun i hi => hwin i ?_
    · rw [length_messageBits, length_messageBits, hlen]
    · rw [← getElem?_messageBits, ← getElem?_messageBits, heq]
    · rwa [getElem?_messageBits, getElem?_messageBits] at hi
  intro heq
  unfold crc32 at heq
  rw [foldl_crcByte, foldl_crcByte] at heq
  exact hfeed (BitVec.not_inj.mp heq)

/-! ### Bursts in images -/

/-- Bit `i` of a medium. -/
def bitAt (img : ℕ → UInt8) (i : ℕ) : Bool := (img (i / 8)).toBitVec.getLsbD (i % 8)

/-- Two media that differ, and only within 32 consecutive bits. -/
structure Burst (img img' : ℕ → UInt8) : Prop where
  differs : img ≠ img'
  window : ∃ k, ∀ i, bitAt img i ≠ bitAt img' i → k ≤ i ∧ i < k + 32

variable {img img' : ℕ → UInt8}

/-- Byte strings whose bits stand at fixed places of two such media have different CRCs if
they differ at all. -/
lemma Burst.crc32_ne (h : Burst img img') (off : ℕ) {p q : List UInt8}
    (hlen : p.length = q.length) (hne : p ≠ q)
    (hbits : ∀ i, bitOf p i ≠ bitOf q i → bitAt img (off * 8 + i) ≠ bitAt img' (off * 8 + i)) :
    crc32 p ≠ crc32 q := by
  obtain ⟨k, hk⟩ := h.window
  refine crc32_ne_of_burst hlen hne (k := k - off * 8) fun i hi => ?_
  have := hk _ (hbits i hi)
  omega

lemma getElem?_slice (img : ℕ → UInt8) (off n j : ℕ) :
    (slice img off n)[j]? = if j < n then some (img (off + j)) else none := by
  rw [slice, List.getElem?_map]
  split_ifs with hj
  · rw [List.getElem?_range hj]
    rfl
  · rw [List.getElem?_eq_none (by simpa using hj)]
    rfl

lemma bitAt_of_byte (img : ℕ → UInt8) (off i : ℕ) :
    bitAt img (off * 8 + i) = (img (off + i / 8)).toBitVec.getLsbD (i % 8) := by
  rw [bitAt, show (off * 8 + i) / 8 = off + i / 8 by omega,
    show (off * 8 + i) % 8 = i % 8 by omega]

lemma slice_congr {off n : ℕ} (h : ∀ j, off ≤ j → j < off + n → img j = img' j) :
    slice img off n = slice img' off n := by
  refine List.map_congr_left fun i hi => ?_
  rw [List.mem_range] at hi
  exact h _ (by omega) (by omega)

lemma slice_ne {off n j : ℕ} (h : img j ≠ img' j) (hle : off ≤ j) (hlt : j < off + n) :
    slice img off n ≠ slice img' off n := by
  intro heq
  have hj := congrArg (fun l => l[j - off]?) heq
  simp only [getElem?_slice, if_pos (show j - off < n by omega), Nat.add_sub_cancel' hle] at hj
  exact h (Option.some.inj hj)

/-- A slice that the burst hits has another CRC. -/
lemma Burst.crc32_slice_ne (h : Burst img img') {off n : ℕ}
    (hne : slice img off n ≠ slice img' off n) :
    crc32 (slice img off n) ≠ crc32 (slice img' off n) := by
  refine h.crc32_ne off (by simp) hne fun i hi => ?_
  rw [bitOf, bitOf, getElem?_slice, getElem?_slice] at hi
  rw [bitAt_of_byte, bitAt_of_byte]
  split_ifs at hi with hlt
  · simpa using hi
  · exact absurd rfl hi

/-! ### What the CRCs cover -/

/-- The bytes of the array of a header. -/
def arrayBytes (h : Header) : Set ℕ :=
  Set.Ico (h.table * 512) (h.table * 512 + h.count * h.entrySize)

/-- The declared size of the header in a sector. -/
def headerSize (img : ℕ → UInt8) (lba : ℕ) : ℕ := leNat (sub (sector img lba) 12 4)

/-- The bytes of a header under its CRC, without the fields for the size and the CRC. -/
def crcBytes (img : ℕ → UInt8) (lba : ℕ) : Set ℕ :=
  { j | ∃ o, o < headerSize img lba ∧ (o < 12 ∨ 20 ≤ o) ∧ j = lba * 512 + o }

/-- The two arrays and the two headers of a layout of `S` sectors. -/
def covered (img : ℕ → UInt8) (S : ℕ) : List (Set ℕ) :=
  [arrayBytes (primary img), arrayBytes (backup img S), crcBytes img 1, crcBytes img (S - 1)]

lemma getElem?_sub (b : List UInt8) (off n j : ℕ) :
    (sub b off n)[j]? = if j < n then b[off + j]? else none := by
  rw [sub, List.getElem?_take, List.getElem?_drop]

/-- The copy that the CRC is taken of, byte by byte. -/
lemma getElem?_crcCopy {b : List UInt8} (hb : b.length = 512) {n : ℕ} (hn : 92 ≤ n) (j : ℕ) :
    (crcCopy b n)[j]? = if 16 ≤ j ∧ j < 20 then some 0 else if j < n then b[j]? else none := by
  have h16 : (sub b 0 16).length = 16 := length_sub (by omega)
  have hzeros : ∀ i, i < 4 → ([0, 0, 0, 0] : List UInt8)[i]? = some 0 := by decide
  unfold crcCopy
  rw [List.append_assoc]
  rcases Nat.lt_or_ge j 16 with h1 | h1
  · rw [List.getElem?_append_left (by omega), getElem?_sub, if_pos h1, if_neg (by omega),
      if_pos (by omega), Nat.zero_add]
  rw [List.getElem?_append_right (by omega), h16]
  rcases Nat.lt_or_ge j 20 with h2 | h2
  · rw [List.getElem?_append_left (by simp; omega), hzeros _ (by omega), if_pos ⟨h1, h2⟩]
  · have h4 : ([0, 0, 0, 0] : List UInt8).length = 4 := rfl
    rw [List.getElem?_append_right (by omega), h4, getElem?_sub,
      if_neg (show ¬ (16 ≤ j ∧ j < 20) by omega)]
    by_cases h3 : j < n
    · rw [if_pos (by omega), if_pos h3, show 20 + (j - 16 - 4) = j by omega]
    · rw [if_neg (by omega), if_neg h3]

lemma length_crcCopy {b : List UInt8} (hb : b.length = 512) {n : ℕ} (hn : 92 ≤ n ∧ n ≤ 512) :
    (crcCopy b n).length = n := by
  unfold crcCopy
  rw [List.length_append, List.length_append, length_sub (by omega), length_sub (by omega)]
  simp only [List.length_cons, List.length_nil]
  omega

/-! ### A hit -/

/-- A burst in the array of a header shows in the CRC of the array. -/
lemma Burst.array_hit (h : Burst img img') {H : Header}
    (hin : ∀ j, img j ≠ img' j → j ∈ arrayBytes H) :
    crc32 (entries img H) ≠ crc32 (entries img' H) := by
  obtain ⟨j, hj⟩ := Function.ne_iff.mp h.differs
  obtain ⟨hle, hlt⟩ := Set.mem_Ico.mp (hin j hj)
  exact h.crc32_slice_ne (slice_ne hj hle hlt)

lemma length_sector (img : ℕ → UInt8) (lba : ℕ) : (sector img lba).length = 512 :=
  length_slice img _ _

lemma getElem?_sector (img : ℕ → UInt8) (lba : ℕ) {o : ℕ} (ho : o < 512) :
    (sector img lba)[o]? = some (img (lba * 512 + o)) := by
  rw [sector, getElem?_slice, if_pos ho]

/-- The size and the CRC field are as they were. -/
lemma field_eq_of_hit {lba o : ℕ} (hin : ∀ j, img j ≠ img' j → j ∈ crcBytes img lba)
    (ho : 12 ≤ o) (ho' : o + 4 ≤ 20) : sub (sector img lba) o 4 = sub (sector img' lba) o 4 := by
  unfold sector
  rw [sub_slice img (by omega), sub_slice img' (by omega)]
  refine slice_congr fun j hle hlt => ?_
  by_contra hne
  obtain ⟨o', -, hout, rfl⟩ := hin j hne
  omega

/-- A byte of the copy that differs is a byte of the image that differs, at the same place. -/
lemma bitAt_ne_of_crcCopy {lba n i : ℕ} (hn : 92 ≤ n ∧ n ≤ 512)
    (hi : bitOf (crcCopy (sector img lba) n) i ≠ bitOf (crcCopy (sector img' lba) n) i) :
    bitAt img (lba * 512 * 8 + i) ≠ bitAt img' (lba * 512 * 8 + i) := by
  rw [bitOf, bitOf, getElem?_crcCopy (length_sector img lba) hn.1,
    getElem?_crcCopy (length_sector img' lba) hn.1] at hi
  rw [bitAt_of_byte, bitAt_of_byte]
  split_ifs at hi with hzero hlt
  · exact absurd rfl hi
  · rw [getElem?_sector img lba (by omega), getElem?_sector img' lba (by omega)] at hi
    simpa using hi
  · exact absurd rfl hi

/-- A byte of the header that was hit stands in the copy. -/
lemma crcCopy_ne {lba n o : ℕ} (hn : 92 ≤ n ∧ n ≤ 512) (ho : o < n) (hout : o < 16 ∨ 20 ≤ o)
    (hne : img (lba * 512 + o) ≠ img' (lba * 512 + o)) :
    crcCopy (sector img lba) n ≠ crcCopy (sector img' lba) n := by
  intro heq
  have hget := congrArg (fun l => l[o]?) heq
  simp only [getElem?_crcCopy (length_sector img lba) hn.1,
    getElem?_crcCopy (length_sector img' lba) hn.1, if_neg (show ¬ (16 ≤ o ∧ o < 20) by omega),
    if_pos ho, getElem?_sector img lba (show o < 512 by omega),
    getElem?_sector img' lba (show o < 512 by omega)] at hget
  exact hne (Option.some.inj hget)

/-- A burst in a header, outside the two fields, is not in order with its CRC any more. -/
lemma Burst.header_hit (h : Burst img img') {lba : ℕ}
    (hin : ∀ j, img j ≠ img' j → j ∈ crcBytes img lba) (hc : Checked (sector img lba)) :
    ¬ Checked (sector img' lba) := by
  intro hc'
  have hsize : leNat (sub (sector img' lba) 12 4) = headerSize img lba := by
    rw [headerSize, field_eq_of_hit hin (by omega) (by omega)]
  have hn : 92 ≤ headerSize img lba ∧ headerSize img lba ≤ 512 := hc.size
  -- both copies have the CRC that the header asks for
  have hcrc : crc32 (crcCopy (sector img lba) (headerSize img lba)) =
      crc32 (crcCopy (sector img' lba) (headerSize img lba)) := by
    apply BitVec.eq_of_toNat_eq
    have h1 := hc.crc
    have h2 := hc'.crc
    rw [hsize] at h2
    rw [h2, ← field_eq_of_hit hin (by omega) (by omega)]
    exact h1
  refine h.crc32_ne (lba * 512) ?_ ?_ (fun i => bitAt_ne_of_crcCopy hn) hcrc
  · rw [length_crcCopy (length_sector img lba) hn, length_crcCopy (length_sector img' lba) hn]
  · obtain ⟨j, hj⟩ := Function.ne_iff.mp h.differs
    obtain ⟨o, ho, hout, rfl⟩ := hin j hj
    exact crcCopy_ne hn ho (by omega) hj

/-! ### Tables -/

variable {mediaBytes S : ℕ} {diskGuid partGuid fsUuid type : List UInt8}

/-- Both arrays have the CRC of the primary header. -/
lemma crc_of_table (t : RootTable img mediaBytes S diskGuid partGuid fsUuid type) {H : Header}
    (hH : H = primary img ∨ H = backup img S) :
    (crc32 (entries img H)).toNat = (primary img).arrayCrc := by
  rcases hH with rfl | rfl
  · exact t.arrayCrc.2
  · rw [← t.arrays]
    exact t.arrayCrc.2

/-- The sectors of the headers are none of an array. -/
lemma header_not_mem_array (t : RootTable img mediaBytes S diskGuid partGuid fsUuid type)
    {H : Header} (hH : H = primary img ∨ H = backup img S) {lba : ℕ}
    (hlba : lba = 1 ∨ lba = S - 1) : lba ∉ Set.Ico H.table (H.table + arrayLen H) := by
  have hord := t.ordered
  simp only [regions, List.pairwise_cons, List.mem_cons, List.not_mem_nil, or_false,
    forall_eq_or_imp, forall_eq, Before, Set.mem_singleton_iff] at hord
  obtain ⟨-, ⟨h1a, -, h1b, -⟩, ⟨-, -, haS⟩, -, hbS, -⟩ := hord
  intro hmem
  rcases hH with rfl | rfl
  · rcases hlba with rfl | rfl
    · exact Nat.lt_irrefl _ (h1a _ hmem)
    · exact Nat.lt_irrefl _ (haS _ hmem)
  · rcases hlba with rfl | rfl
    · exact Nat.lt_irrefl _ (h1b _ hmem)
    · exact Nat.lt_irrefl _ (hbS _ hmem)

/-- What hits an array leaves the headers alone. -/
lemma sector_eq_of_array_hit (t : RootTable img mediaBytes S diskGuid partGuid fsUuid type)
    {H : Header} (hH : H = primary img ∨ H = backup img S)
    (hin : ∀ j, img j ≠ img' j → j ∈ arrayBytes H) {lba : ℕ} (hlba : lba = 1 ∨ lba = S - 1) :
    sector img' lba = sector img lba := by
  refine slice_congr fun j hle hlt => ?_
  by_contra hne
  obtain ⟨h1, h2⟩ := Set.mem_Ico.mp (hin j (Ne.symm hne))
  have hsectors : H.count * H.entrySize ≤ arrayLen H * 512 := by
    unfold arrayLen
    omega
  have hend : (H.table + arrayLen H) * 512 = H.table * 512 + arrayLen H * 512 := Nat.add_mul ..
  exact header_not_mem_array t hH hlba (Set.mem_Ico.mpr ⟨by omega, by omega⟩)

/-- **Damage to a table** by a burst where a CRC covers it is no table any more. -/
lemma Burst.not_rootTable (h : Burst img img')
    (t : RootTable img mediaBytes S diskGuid partGuid fsUuid type) {X : Set ℕ}
    (hX : X ∈ covered img S) (hin : ∀ j, img j ≠ img' j → j ∈ X) :
    ¬ RootTable img' mediaBytes S diskGuid partGuid fsUuid type := by
  intro t'
  -- an array: the headers are as they were, and so is the CRC they ask for
  have harray : ∀ H, H = primary img ∨ H = backup img S → X = arrayBytes H → False := by
    rintro H hH rfl
    have hp : primary img' = primary img := by
      rw [primary, sector_eq_of_array_hit t hH hin (.inl rfl)]
      rfl
    have hb : backup img' S = backup img S := by
      rw [backup, sector_eq_of_array_hit t hH hin (.inr rfl)]
      rfl
    have hH' : H = primary img' ∨ H = backup img' S := by rwa [hp, hb]
    refine h.array_hit hin (BitVec.eq_of_toNat_eq ?_)
    rw [crc_of_table t hH, crc_of_table t' hH', hp]
  simp only [covered, List.mem_cons, List.not_mem_nil, or_false] at hX
  rcases hX with rfl | rfl | rfl | rfl
  · exact harray _ (.inl rfl) rfl
  · exact harray _ (.inr rfl) rfl
  · exact h.header_hit hin t.headers.1 t'.headers.1
  · exact h.header_hit hin t.headers.2 t'.headers.2

/-- After damage to an image that passes, no run passes. -/
lemma Burst.not_done (h : Burst img img') {env : Env} {argv : List String}
    {answers : List Pread} {out : List String}
    (hpass : (main env img argv answers).fin = .done out) {p : Pins} (hp : pinned argv = .ok p)
    {X : Set ℕ} (hX : X ∈ covered img (p.layoutBytes / 512))
    (hin : ∀ j, img j ≠ img' j → j ∈ X) (env' : Env) (answers' : List Pread)
    (out' : List String) : (main env' img' argv answers').fin ≠ .done out' := by
  intro hpass'
  obtain ⟨p₁, dg, pg, fu, ty, hp₁, -, hdg, hpg, hfu, hty, t⟩ := rootTable_of_done hpass
  obtain ⟨p₂, dg', pg', fu', ty', hp₂, -, hdg', hpg', hfu', hty', t'⟩ := rootTable_of_done hpass'
  -- the arguments are the same, and so is everything pinned by them
  obtain rfl : p = p₁ := Except.ok.inj (hp.symm.trans hp₁)
  obtain rfl : p = p₂ := Except.ok.inj (hp.symm.trans hp₂)
  obtain rfl : dg = dg' := Except.ok.inj (hdg.symm.trans hdg')
  obtain rfl : pg = pg' := Except.ok.inj (hpg.symm.trans hpg')
  obtain rfl : fu = fu' := Except.ok.inj (hfu.symm.trans hfu')
  obtain rfl : ty = ty' := Except.ok.inj (hty.symm.trans hty')
  exact h.not_rootTable t hX hin t'

/-- **Localised damage is caught.** Byte strings of one length that differ only within 32
consecutive bits have different CRCs; and once the gate passes an image, a burst of that length
inside an array, or inside a header where its CRC covers it, keeps every run from passing: it
stops as soon as enough of its reads get through. -/
theorem damage_caught :
    (∀ p q : List UInt8, p.length = q.length → p ≠ q →
      (∃ k, ∀ i, bitOf p i ≠ bitOf q i → k ≤ i ∧ i < k + 32) → crc32 p ≠ crc32 q) ∧
    ∀ (env : Env) (img : ℕ → UInt8) (argv : List String) (answers : List Pread)
      (out : List String) (p : Pins), (main env img argv answers).fin = .done out →
      pinned argv = .ok p → ∀ X ∈ covered img (p.layoutBytes / 512), ∀ img', Burst img img' →
      (∀ j, img j ≠ img' j → j ∈ X) → ∀ env',
        (∀ answers' out', (main env' img' argv answers').fin ≠ .done out') ∧
        ∀ σ, GetsThrough σ → ∃ m why, (main env' img' argv (firstAnswers σ m)).fin = .stop why := by
  refine ⟨?_, ?_⟩
  · rintro p q hlen hne ⟨k, hk⟩
    exact crc32_ne_of_burst hlen hne hk
  · intro env img argv answers out p hpass hp X hX img' h hin env'
    have hnot := h.not_done hpass hp hX hin env'
    refine ⟨hnot, fun σ hσ => ?_⟩
    obtain ⟨m, hm⟩ := main_ends env' img' argv hσ
    refine ⟨m, ?_⟩
    cases hfin : (main env' img' argv (firstAnswers σ m)).fin with
    | done out' => exact absurd hfin (hnot _ out')
    | stop why => exact ⟨why, rfl⟩
    | wait => exact absurd hfin hm

/-- Another value for one byte is a burst. -/
lemma burst_update (img : ℕ → UInt8) {j : ℕ} {b : UInt8} (h : img j ≠ b) :
    Burst img (Function.update img j b) := by
  refine ⟨fun heq => h ?_, j * 8, fun i hi => ?_⟩
  · rw [heq, Function.update_self]
  · by_cases hij : i / 8 = j
    · omega
    · rw [bitAt, bitAt, Function.update_of_ne hij] at hi
      exact absurd rfl hi

/-- A bit of padding at the end of the primary array of the image. -/
theorem damage_caught_image :
    ∀ answers out, (main imageEnv (Function.update image 1150 1) imageArgs answers).fin ≠
      .done out := by
  obtain ⟨out, hout⟩ := image_passes
  obtain ⟨p, -, -, -, -, hp, -⟩ := rootTable_of_done hout
  have hne : image 1150 ≠ 1 := by decide +kernel
  refine (damage_caught.2 _ _ _ _ _ p hout hp (arrayBytes (primary image)) (by simp [covered])
    (Function.update image 1150 1) (burst_update image hne) (fun j hj => ?_) imageEnv).1
  have hj' : j = 1150 := by
    by_contra hjne
    rw [Function.update_of_ne hjne] at hj
    exact hj rfl
  rw [hj', arrayBytes, Set.mem_Ico]
  decide +kernel

end Wallace.GptDamage
