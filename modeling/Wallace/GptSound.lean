import Mathlib.Data.List.Basic
import Mathlib.Data.Set.BooleanAlgebra
import Mathlib.Order.CompletePartialOrder
import Mathlib.Order.Interval.Set.Basic
import Mathlib.Tactic.Common
import Wallace.GptSafe

/-!
A medium that the metadata gate passes holds a well-formed partition table with the pinned
root partition and nothing else.
-/

namespace Wallace.GptSound

open Trail Bytes GptModel GptSafe

/-- The primary and the backup header of a layout of `S` sectors. -/
def primary (img : ℕ → UInt8) : Header := headerOf (sector img 1)

def backup (img : ℕ → UInt8) (S : ℕ) : Header := headerOf (sector img (S - 1))

/-- The sectors of the protective MBR, the primary header and array, the usable range, the
backup array and header. -/
def regions (S : ℕ) (a b : Header) : List (Set ℕ) :=
  [{0}, {1}, Set.Ico a.table (a.table + arrayLen a), Set.Icc a.first a.last,
    Set.Ico b.table (b.table + arrayLen b), {S - 1}]

def Before (X Y : Set ℕ) : Prop := ∀ x ∈ X, ∀ y ∈ Y, x < y

/-- Entry `i` of the array of a header. -/
def entry (img : ℕ → UInt8) (a : Header) (i : ℕ) : List UInt8 :=
  sub (entries img a) (i * a.entrySize) a.entrySize

/-- A partition table in order, with one partition: the pinned root. -/
structure RootTable (img : ℕ → UInt8) (mediaBytes S : ℕ)
    (diskGuid partGuid fsUuid type : List UInt8) : Prop where
  media : S * 512 ≤ mediaBytes
  ordered : (regions S (primary img) (backup img S)).Pairwise Before
  disjoint : (regions S (primary img) (backup img S)).Pairwise Disjoint
  inside : ∀ X ∈ regions S (primary img) (backup img S), ∀ x ∈ X, x < S
  headers : Checked (sector img 1) ∧ Checked (sector img (S - 1))
  current : (primary img).current = 1 ∧ (backup img S).current = S - 1
  pointers : (primary img).backup = S - 1 ∧ (backup img S).backup = 1
  guid : (primary img).guid = diskGuid ∧ (backup img S).guid = diskGuid
  usable : (primary img).first = (backup img S).first ∧ (primary img).last = (backup img S).last
  shape : (primary img).count = (backup img S).count ∧
    (primary img).entrySize = (backup img S).entrySize
  arrayCrc : (primary img).arrayCrc = (backup img S).arrayCrc ∧
    (crc32 (entries img (primary img))).toNat = (primary img).arrayCrc
  arrays : entries img (primary img) = entries img (backup img S)
  one : ∀ i < (primary img).count, (∃ x ∈ entry img (primary img) i, x ≠ 0) ↔ i = 0
  type : sub (entry img (primary img) 0) 0 16 = type
  partGuid : sub (entry img (primary img) 0) 16 16 = partGuid
  extent : leNat (sub (entry img (primary img) 0) 32 8) = 2048 ∧ (primary img).first ≤ 2048 ∧
    2048 ≤ leNat (sub (entry img (primary img) 0) 40 8) ∧
    leNat (sub (entry img (primary img) 0) 40 8) ≤ (primary img).last
  attributes : leNat (sub (entry img (primary img) 0) 48 8) = 0
  fsUuid : slice img (2048 * 512 + 1024 + 104) 16 = fsUuid

lemma disjoint_of_before {X Y : Set ℕ} (h : Before X Y) : Disjoint X Y := by
  rw [Set.disjoint_left]
  intro x hx hy
  exact absurd (h x hx x hy) (Nat.lt_irrefl x)

variable {img : ℕ → UInt8} {S : ℕ} {diskGuid partGuid fsUuid type : List UInt8} {a b : Header}

/-- The inequalities of the two header checks put the regions in a row. -/
lemma regions_ordered (h : Copies img S diskGuid a b) : (regions S a b).Pairwise Before := by
  have hga := h.primary.geometry
  have h1 := hga.first
  have h2 := hga.usable
  have h3 := hga.last
  have ha := h.primary.placement.primary rfl
  have hb := h.backup.placement.backup (by omega)
  have h4 := h.usable
  simp only [regions, List.pairwise_cons, List.mem_cons, List.not_mem_nil, or_false,
    forall_eq_or_imp, forall_eq, Before, Set.mem_singleton_iff, Set.mem_Ico, Set.mem_Icc]
  refine ⟨⟨?_, ?_, ?_, ?_, ?_⟩, ⟨?_, ?_, ?_, ?_⟩, ⟨?_, ?_, ?_⟩, ⟨?_, ?_⟩, ?_, nofun, .nil⟩
  all_goals
    intros
    omega

lemma regions_inside (h : Copies img S diskGuid a b) : ∀ X ∈ regions S a b, ∀ x ∈ X, x < S := by
  have hlast := h.primary.geometry.last
  have ha := h.primary.placement.inside
  have hb := h.backup.placement.inside
  simp only [regions, List.mem_cons, List.not_mem_nil, or_false, forall_eq_or_imp, forall_eq,
    Set.mem_singleton_iff, Set.mem_Ico, Set.mem_Icc]
  refine ⟨?_, ?_, ?_, ?_, ?_, ?_⟩
  all_goals
    intros
    omega

/-- The Linux type GUID in the byte order of a GPT. -/
lemma uuid_linuxFs : uuid linuxFs true = .ok
    [0xaf, 0x3d, 0xc6, 0x0f, 0x83, 0x84, 0x72, 0x47, 0x8e, 0x79, 0x3d, 0x69, 0xd8, 0x47, 0x7d,
      0xe4] := by
  decide +kernel

/-- The first entry is the only one that is not all zero. -/
lemma one_entry {first last : ℕ} (hg : Geometry a 1 S)
    (hr : OneRoot a (entries img a) type partGuid first last) (ht : uuid linuxFs true = .ok type)
    (i : ℕ) (hi : i < a.count) : (∃ x ∈ entry img a i, x ≠ 0) ↔ i = 0 := by
  refine ⟨?_, ?_⟩
  · rintro ⟨x, hx, hne⟩
    by_contra h0
    exact hne (hr.others i (by omega) hi x hx)
  · rintro rfl
    have hsize := hg.entrySize
    have hsub : sub (entry img a 0) 0 16 = type := by
      rw [entry, sub_of_sub _ (by omega), Nat.zero_mul]
      exact hr.type
    rw [uuid_linuxFs] at ht
    cases ht
    refine ⟨0xaf, mem_of_mem_sub 0 16 ?_, by decide⟩
    rw [hsub]
    simp

lemma rootTable_of_passed {mediaBytes first last : ℕ} (hmedia : S * 512 ≤ mediaBytes)
    (h : Passed img S diskGuid partGuid fsUuid type a b first last)
    (ht : uuid linuxFs true = .ok type) :
    RootTable img mediaBytes S diskGuid partGuid fsUuid type := by
  obtain ⟨hc, hr, hfs⟩ := h
  have hea : a = primary img := hc.primary.fields
  have heb : b = backup img S := hc.backup.fields
  subst hea heb
  have hg := hc.primary.geometry
  have h1 := hg.first
  have h2 := hg.usable
  have h3 := hg.last
  have hpp := hc.primary.placement.primary rfl
  have hpb := hc.backup.placement.backup (by omega)
  have hordered := regions_ordered hc
  -- the fields of the first entry are fields of the array
  have hentry : ∀ o n, o + n ≤ 128 →
      sub (entry img (primary img) 0) o n = sub (entries img (primary img)) o n := by
    intro o n hn
    have h128 := hg.entrySize
    rw [entry, sub_of_sub _ (by omega), Nat.zero_mul, Nat.zero_add]
  have hstart := hr.start
  subst hstart
  exact
    { media := hmedia
      ordered := hordered
      disjoint := hordered.imp fun h => disjoint_of_before h
      inside := regions_inside hc
      headers := ⟨hc.primary.checked, hc.backup.checked⟩
      current := ⟨hg.current, hc.backup.geometry.current⟩
      pointers := ⟨hpp.1, hpb.1⟩
      guid := hc.guid
      usable := hc.usable
      shape := hc.shape
      arrayCrc := ⟨hc.arrayCrc, hc.crc⟩
      arrays := hc.arrays
      one := fun i hi => one_entry hg hr ht i hi
      type := by rw [hentry 0 16 (by omega), hr.type]
      partGuid := by rw [hentry 16 16 (by omega), hr.partGuid]
      extent := by
        rw [hentry 32 8 (by omega), hentry 40 8 (by omega), hr.firstLba, hr.lastLba]
        exact ⟨rfl, hr.extent⟩
      attributes := by rw [hentry 48 8 (by omega), hr.attributes]
      fsUuid := hfs }

/-- What stands on the medium behind a pass. -/
lemma rootTable_of_done {env : Env} {argv : List String} {answers : List Pread}
    {out : List String} (h : (main env img argv answers).fin = .done out) :
    ∃ p diskGuid partGuid fsUuid type,
      pinned argv = .ok p ∧ openMedia env p = .ok p.expectedMedia ∧
      uuid p.diskId true = .ok diskGuid ∧ uuid p.partId true = .ok partGuid ∧
      uuid p.fsId false = .ok fsUuid ∧ uuid linuxFs true = .ok type ∧
      RootTable img p.expectedMedia (p.layoutBytes / 512) diskGuid partGuid fsUuid type := by
  obtain ⟨p, diskGuid, partGuid, fsUuid, type, a, b, first, last, hp, hm, hd, hpg, hf, ht, hpass,
    -⟩ := (main_meets env img argv answers).2 out h
  have hlen := pinned_lengths hp
  refine ⟨p, diskGuid, partGuid, fsUuid, type, hp, hm, hd, hpg, hf, ht, ?_⟩
  exact rootTable_of_passed (Nat.le_trans (Nat.div_mul_le_self _ _) hlen.inside) hpass ht

/-- **Soundness of the gate**: whatever the medium holds and however its reads go, if the gate
prints its pass the medium carries the partition table with the pinned root. -/
theorem gate_sound (env : Env) (img : ℕ → UInt8) (argv : List String) (answers : List Pread)
    {out : List String} (h : (main env img argv answers).fin = .done out) :
    ∃ p diskGuid partGuid fsUuid type,
      pinned argv = .ok p ∧ openMedia env p = .ok p.expectedMedia ∧
      uuid p.diskId true = .ok diskGuid ∧ uuid p.partId true = .ok partGuid ∧
      uuid p.fsId false = .ok fsUuid ∧ uuid linuxFs true = .ok type ∧
      RootTable img p.expectedMedia (p.layoutBytes / 512) diskGuid partGuid fsUuid type :=
  rootTable_of_done h

/-! ### An image that passes -/

/-- A number in eight bytes. -/
def le8 (n : ℕ) : List UInt8 := (List.range 8).map fun i => UInt8.ofNat (n / 256 ^ i)

/-- The type and partition GUIDs, and the extent from 2048 to 2051. -/
def rootEntry : List UInt8 :=
  [0xaf, 0x3d, 0xc6, 0x0f, 0x83, 0x84, 0x72, 0x47, 0x8e, 0x79, 0x3d, 0x69, 0xd8, 0x47, 0x7d, 0xe4,
    0x66, 0x66, 0x66, 0x66, 0x77, 0x77, 0x88, 0x88, 0x99, 0x99, 0xaa, 0xaa, 0xaa, 0xaa, 0xaa, 0xaa]
    ++ le8 2048 ++ le8 2051

/-- The label in sixteen-bit units. -/
def rootLabel : List UInt8 := label.flatMap fun c => [UInt8.ofNat c, 0]

/-- A header with its CRC, for one entry of 128 bytes and the usable range from 3 to 2051. -/
def headerBytes (crc : List UInt8) (current backup table : ℕ) : List UInt8 :=
  signature ++ [0, 0, 1, 0, 92, 0, 0, 0] ++ crc ++ [0, 0, 0, 0] ++ le8 current ++ le8 backup
    ++ le8 3 ++ le8 2051
    ++ [0x11, 0x11, 0x11, 0x11, 0x22, 0x22, 0x33, 0x33, 0x44, 0x44, 0x55, 0x55, 0x55, 0x55, 0x55,
      0x55]
    ++ le8 table ++ [1, 0, 0, 0, 128, 0, 0, 0, 0xe9, 0x10, 0x0f, 0x14]

/-- What there is on the medium of 2054 sectors, and where. -/
def pieces : List (ℕ × List UInt8) :=
  [(450, [0xee]), (454, [1]), (458, [5, 8]), (510, [0x55, 0xaa]),
    (512, headerBytes [0x85, 0x33, 0x6b, 0xe1] 1 2053 2),
    (1024, rootEntry), (1080, rootLabel),
    -- the superblock: two blocks of 1 KiB, magic, clean, revision 1, UUID and label
    (1049604, [2]), (1049656, [0x53, 0xef, 1]), (1049676, [1]),
    (1049704, [0xbb, 0xbb, 0xbb, 0xbb, 0xcc, 0xcc, 0xdd, 0xdd, 0xee, 0xee, 0xff, 0xff, 0xff, 0xff,
      0xff, 0xff] ++ label.map UInt8.ofNat),
    (1050624, rootEntry), (1050680, rootLabel),
    (1051136, headerBytes [0xee, 0xf7, 0x69, 0xf3] 2053 1 2052)]

def image (i : ℕ) : UInt8 :=
  match pieces.find? fun s => s.1 ≤ i ∧ i < s.1 + s.2.length with
  | some s => s.2.getD (i - s.1) 0
  | none => 0

def imageStat : Stat := ⟨.reg, 1, 1, 0, 0, 1051648⟩

def imageEnv : Env := ⟨some imageStat, true, some imageStat, none, none, (true, true)⟩

def imageArgs : List String :=
  ["--image", "root.img", "--disk-guid", "11111111-2222-3333-4444-555555555555",
    "--partuuid", "66666666-7777-8888-9999-aaaaaaaaaaaa",
    "--fsuuid", "bbbbbbbb-cccc-dddd-eeee-ffffffffffff",
    "--media-bytes", "1051648", "--layout-bytes", "1051648"]

/-- The reads of the image, one of them interrupted and one short. -/
def imageReads : List Pread :=
  [.got 512, .intr, .got 100, .got 512, .got 512, .got 128, .got 128, .got 1024]

lemma image_passes : ∃ out, (main imageEnv image imageArgs imageReads).fin = .done out :=
  End.exists_of_isDone (by decide +kernel)

/-- The gate passes the image, with one read interrupted and one short. -/
theorem gate_sound_image :
    ∃ out p diskGuid partGuid fsUuid type,
      (main imageEnv image imageArgs [.got 512, .intr, .got 100, .got 512, .got 512, .got 128,
        .got 128, .got 1024]).fin = .done out ∧
      pinned imageArgs = .ok p ∧ p.layoutBytes = 1051648 ∧
      RootTable image p.expectedMedia (p.layoutBytes / 512) diskGuid partGuid fsUuid type := by
  obtain ⟨out, hout⟩ := image_passes
  obtain ⟨p, dg, pg, fu, ty, hp, -, -, -, -, -, ht⟩ := gate_sound _ _ _ _ hout
  refine ⟨out, p, dg, pg, fu, ty, hout, hp, ?_, ht⟩
  have hpl : (pinned imageArgs).toOption.map Pins.layoutBytes = some 1051648 := by
    decide +kernel
  rw [hp] at hpl
  exact Option.some.inj hpl

end Wallace.GptSound
