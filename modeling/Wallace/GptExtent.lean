import Mathlib.Order.Interval.Set.LinearOrder
import Wallace.GptSound

/-!
Where the filesystem lies that the metadata gate has passed.

The gate bounds the blocks of the filesystem by the partition. The superblock itself stands
at a fixed place behind the start of the partition, and nothing else ties it to the end: one
block of 1 KiB fits a partition that ends before its superblock.
-/

namespace Wallace.GptExtent

open Trail Bytes GptModel GptSafe GptSound

/-- The last sector of the partition, as the first entry of the primary array has it. -/
def lastLba (img : ℕ → UInt8) : ℕ := leNat (sub (entry img (primary img) 0) 40 8)

/-- The bytes of the superblock are bytes of the partition, and so are those of the blocks it
counts. -/
structure Inside (img : ℕ → UInt8) (first last : ℕ) : Prop where
  itself : Set.Ico (first * 512 + 1024) (first * 512 + 1024 + 1024) ⊆
    Set.Ico (first * 512) ((last + 1) * 512)
  blocks : blockCount (superblock img first) * blockSize (superblock img first) ≤
    (last - first + 1) * 512

/-- A partition holds its superblock exactly if it has four sectors. -/
lemma superblock_subset_iff {first last : ℕ} :
    Set.Ico (first * 512 + 1024) (first * 512 + 1024 + 1024) ⊆
      Set.Ico (first * 512) ((last + 1) * 512) ↔ first + 3 ≤ last := by
  rw [Set.Ico_subset_Ico_iff (by omega)]
  omega

/-- What a pass says about the extent and the blocks. -/
lemma extent_of_pass {env : Env} {img : ℕ → UInt8} {argv : List String} {answers : List Pread}
    {out : List String} (h : (main env img argv answers).fin = .done out) :
    Reports out 2048 (lastLba img) ∧
      blockCount (superblock img 2048) * blockSize (superblock img 2048) ≤
        (lastLba img - 2048 + 1) * 512 := by
  obtain ⟨p, dg, pg, fu, ty, a, b, first, last, -, -, -, -, -, -, hpass, hfs, hout⟩ :=
    (main_meets env img argv answers).2 out h
  have hea : a = primary img := hpass.copies.primary.fields
  have hlast : last = lastLba img := by
    have hsize := hpass.copies.primary.geometry.entrySize
    rw [lastLba, entry, ← hea, sub_of_sub _ (by omega), Nat.zero_mul, hpass.root.lastLba]
  have hfits := hfs.fits
  rw [hlast, hpass.root.start] at hout hfits
  exact ⟨hout, hfits⟩

/-- **The extent of the root.** When the gate prints its pass, the extent it prints is that of
the first entry, the blocks fit the partition, and the whole filesystem lies inside exactly if
the partition has at least four sectors. -/
theorem inside_iff (env : Env) (img : ℕ → UInt8) (argv : List String) (answers : List Pread)
    {out : List String} (h : (main env img argv answers).fin = .done out) :
    Reports out 2048 (lastLba img) ∧
    blockCount (superblock img 2048) * blockSize (superblock img 2048) ≤
      (lastLba img - 2048 + 1) * 512 ∧
    (Inside img 2048 (lastLba img) ↔ 2048 + 4 ≤ lastLba img + 1) := by
  obtain ⟨hout, hfits⟩ := extent_of_pass h
  refine ⟨hout, hfits, fun hin => ?_, fun hle => ⟨?_, hfits⟩⟩
  · have hend := superblock_subset_iff.mp hin.itself
    omega
  · exact superblock_subset_iff.mpr (by omega)

/-- The image of the sound gate: a partition of four sectors. -/
theorem inside_image :
    ∃ out, (main imageEnv image imageArgs imageReads).fin = .done out ∧
      Inside image 2048 (lastLba image) := by
  obtain ⟨out, hout⟩ := image_passes
  exact ⟨out, hout, (inside_iff _ _ _ _ hout).2.2.mpr (by decide +kernel)⟩

/-! ### A partition that ends before its superblock -/

/-- The bytes that differ: the last sector 2049 in both arrays, their CRC and the CRC of the
header in both headers, and one block in the superblock. -/
def shortened : List (ℕ × UInt8) :=
  [(1064, 1), (1050664, 1), (1049604, 1),
    (528, 0xe7), (529, 0x75), (530, 0x5f), (531, 0xc1),
    (600, 0xdb), (601, 0x80), (602, 0x85), (603, 0xbb),
    (1051152, 0x8c), (1051153, 0xb1), (1051154, 0x5d), (1051155, 0xd3),
    (1051224, 0xdb), (1051225, 0x80), (1051226, 0x85), (1051227, 0xbb)]

def shortImage (i : ℕ) : UInt8 := (shortened.lookup i).getD (image i)

/-- The gate passes an image whose root partition has two sectors: the superblock it has
checked stands in the two sectors behind it. -/
theorem superblock_outside :
    ∃ out, (main imageEnv shortImage imageArgs imageReads).fin = .done out ∧
      Reports out 2048 2049 ∧ ¬ Inside shortImage 2048 2049 := by
  obtain ⟨out, hout⟩ : ∃ out, (main imageEnv shortImage imageArgs imageReads).fin = .done out :=
    End.exists_of_isDone (by decide +kernel)
  have hlast : lastLba shortImage = 2049 := by decide +kernel
  have hreports := (extent_of_pass hout).1
  rw [hlast] at hreports
  exact ⟨out, hout, hreports, fun h => absurd (superblock_subset_iff.mp h.itself) (by decide)⟩

end Wallace.GptExtent
