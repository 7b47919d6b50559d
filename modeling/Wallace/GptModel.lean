import Mathlib.Data.Int.Notation
import Mathlib.Data.List.Basic
import Mathlib.Tactic.Common
import Wallace.Bytes
import Wallace.Trail

/-!
The metadata gate `t6040-usb-root-metadata.c`, on Linux.

The medium is an image of bytes; what the kernel says about the path is a record of its
answers, and each `pread` gets one answer from a list: it is interrupted, it fails, or it
returns some of the bytes asked for. An argument is the string of its bytes, one character
each.

Unsigned arithmetic wraps as in C. Every expression that is an offset, a length, a bound
or a quotient leaves a note of the exact value it should have, and so does every access to
a buffer, every allocation and every request to the medium. Conditions joined by `||` that
rely on earlier ones are separate checks with the same message, in their order.
-/

namespace Wallace.GptModel

open Trail Bytes

inductive Event
  /-- An expression of an unsigned type of `w` bits, and its exact value. -/
  | fits (v : ℤ) (w : ℕ)
  | divisor (d : ℕ)
  /-- A request for `n` bytes at `off` of a medium of `mediaBytes`. -/
  | pread (n off mediaBytes : ℕ)
  /-- An access to `n` bytes at `off` of a buffer of `size` bytes. -/
  | access (off n size : ℕ)
  | alloc (n : ℕ)
  deriving DecidableEq

/-- What one `pread` returns. -/
inductive Pread | intr | fail | got (k : ℕ)
  deriving DecidableEq

/-- A part of the gate that reads the medium. -/
abbrev Gate (α : Type) : Type := Prog Pread Event α

/-- A part of the gate that only decides. -/
abbrev Check (α : Type) : Type := Except String α

def die {α : Type} (why : String) : Check α := .error why

def dieIf (c : Prop) [Decidable c] (why : String) : Check Unit := if c then die why else pure ()

/-! ### Unsigned arithmetic and buffers -/

def uadd (w a b : ℕ) : Gate ℕ := do
  note (.fits (a + b) w)
  pure ((a + b) % 2 ^ w)

def usub (w a b : ℕ) : Gate ℕ := do
  note (.fits (a - b) w)
  pure ((a + 2 ^ w - b) % 2 ^ w)

def umul (w a b : ℕ) : Gate ℕ := do
  note (.fits (a * b) w)
  pure (a * b % 2 ^ w)

def ushl (w a k : ℕ) : Gate ℕ := do
  note (.fits (a * 2 ^ k : ℕ) w)
  pure (a * 2 ^ k % 2 ^ w)

def udiv (a b : ℕ) : Gate ℕ := do
  note (.divisor b)
  pure (a / b)

/-- `n` bytes at `off` of a buffer. -/
def bytes (b : List UInt8) (off n : ℕ) : Gate (List UInt8) := do
  note (.access off n b.length)
  pure (sub b off n)

def le16 (b : List UInt8) (off : ℕ) : Gate ℕ := leNat <$> bytes b off 2

def le32 (b : List UInt8) (off : ℕ) : Gate ℕ := leNat <$> bytes b off 4

def le64 (b : List UInt8) (off : ℕ) : Gate ℕ := leNat <$> bytes b off 8

/-- `zero(b + off, n)`. -/
def zero (b : List UInt8) (off n : ℕ) : Gate Bool := do
  let p ← bytes b off n
  pure (p.all (· = 0))

/-! ### Reading the medium -/

/-- The loop of `read_at`: `n` bytes are missing, from `off` on, and `buf` is what there is
of the `size` bytes. It goes through the answers, one for each call of `pread`. -/
def readLoop (img : ℕ → UInt8) (mediaBytes size n off : ℕ) (buf : List UInt8) :
    List Pread → Run Pread Event (List UInt8)
  | [] =>
    if n = 0 then ⟨[], .done buf, []⟩
    else ⟨[.pread n off mediaBytes, .access buf.length n size], .wait, []⟩
  | a :: answers =>
    if n = 0 then ⟨[], .done buf, a :: answers⟩
    else
      let asked := [.pread n off mediaBytes, .access buf.length n size]
      match a with
      | .intr =>
        let r := readLoop img mediaBytes size n off buf answers
        { r with trail := asked ++ r.trail }
      | .fail => ⟨asked, .stop "short or failed read", answers⟩
      | .got k =>
        let k := min k n
        if k = 0 then ⟨asked, .stop "short or failed read", answers⟩
        else
          let r := readLoop img mediaBytes size ((n + 2 ^ 64 - k) % 2 ^ 64) ((off + k) % 2 ^ 64)
            (buf ++ slice img off k) answers
          { r with trail := asked ++ [.fits (off + k) 64, .fits (n - k) 64] ++ r.trail }

/-- `INT64_MAX`. -/
def int64Max : ℕ := 2 ^ 63 - 1

def readAt (img : ℕ → UInt8) (mediaBytes n off : ℕ) : Gate (List UInt8) := do
  stopIf (mediaBytes < off) "read outside pinned media bounds"
  let room ← usub 64 mediaBytes off
  stopIf (room < n ∨ int64Max < off) "read outside pinned media bounds"
  ofRuns (readLoop img mediaBytes n n off [])

/-! ### Arguments -/

def number (s : String) : Check ℕ := do
  dieIf (s.toList = [] ∨ ¬ s.toList.all fun c => '0' ≤ c ∧ c ≤ '9') "invalid decimal argument"
  let n := s.toList.foldl (fun n c => 10 * n + (c.toNat - '0'.toNat)) 0
  -- `strtoull` reports `ERANGE` past 64 bits
  dieIf (2 ^ 64 ≤ n ∨ n = 0) "invalid numeric argument"
  pure n

def nibble (c : Char) : Option ℕ :=
  if '0' ≤ c ∧ c ≤ '9' then some (c.toNat - '0'.toNat)
  else if 'a' ≤ c ∧ c ≤ 'f' then some (c.toNat - 'a'.toNat + 10)
  else none

/-- The loop of `uuid`, at position `i` of the string. -/
def uuidLoop : ℕ → List Char → List UInt8 → Check (List UInt8)
  | _, [], b => pure b
  | i, [c], b =>
    if i = 8 ∨ i = 13 ∨ i = 18 ∨ i = 23 then do
      dieIf (c ≠ '-') "invalid UUID separator"
      pure b
    else die "invalid UUID digit"
  | i, c :: d :: l, b =>
    if i = 8 ∨ i = 13 ∨ i = 18 ∨ i = 23 then do
      dieIf (c ≠ '-') "invalid UUID separator"
      uuidLoop (i + 1) (d :: l) b
    else
      match nibble c, nibble d with
      | some x, some y => do
        dieIf (16 ≤ b.length) "invalid UUID digit"
        uuidLoop (i + 2) l (b ++ [UInt8.ofNat (x * 16 + y)])
      | _, _ => die "invalid UUID digit"

/-- The byte order of a GUID in a GPT. -/
def gptOrder : List ℕ := [3, 2, 1, 0, 5, 4, 7, 6, 8, 9, 10, 11, 12, 13, 14, 15]

def uuid (s : String) (gpt : Bool) : Check (List UInt8) := do
  dieIf (s.toList.length ≠ 36) "UUID must use lowercase canonical format"
  let b ← uuidLoop 0 s.toList []
  dieIf (b.length ≠ 16) "invalid UUID length"
  dieIf (b.all (· = 0)) "zero UUID is not an identity"
  pure (if gpt then gptOrder.map fun i => b.getD i 0 else b)

/-- `LINUX_FS`. -/
def linuxFs : String := "0fc63daf-8483-4772-8e79-3d69d8477de4"

structure Opts where
  path : Option String := none
  disk : Bool := false
  diskId : Option String := none
  partId : Option String := none
  fsId : Option String := none
  expectedMedia : ℕ := 0
  layoutBytes : ℕ := 0
  deviceNumber : Option String := none

/-- One option and its value. -/
def parseOption (o : Opts) (k v : String) : Check Opts :=
  if k = "--image" ∨ k = "--disk" then do
    dieIf (o.path ≠ none) "multiple input paths"
    pure { o with path := some v, disk := k = "--disk" }
  else if k = "--disk-guid" ∧ o.diskId = none then pure { o with diskId := some v }
  else if k = "--partuuid" ∧ o.partId = none then pure { o with partId := some v }
  else if k = "--fsuuid" ∧ o.fsId = none then pure { o with fsId := some v }
  else if k = "--media-bytes" ∧ o.expectedMedia = 0 then do
    let n ← number v
    pure { o with expectedMedia := n }
  else if k = "--layout-bytes" ∧ o.layoutBytes = 0 then do
    let n ← number v
    pure { o with layoutBytes := n }
  else if k = "--device-number" ∧ o.deviceNumber = none then
    pure { o with deviceNumber := some v }
  else die "unknown or repeated option"

def parseArgs (o : Opts) : List String → Check Opts
  | [] => pure o
  | [_] => die "option missing value"
  | k :: v :: argv => do
    let o ← parseOption o k v
    parseArgs o argv

/-- The pinned values. -/
structure Pins where
  diskId : String
  partId : String
  fsId : String
  layoutBytes : ℕ
  expectedMedia : ℕ
  disk : Bool
  deviceNumber : Option String

def pins (o : Opts) : Check Pins :=
  match o.path, o.diskId, o.partId, o.fsId with
  | some _, some diskId, some partId, some fsId => do
    dieIf (o.layoutBytes = 0 ∨ o.expectedMedia = 0)
      "require input mode, disk-guid, partuuid, fsuuid, media-bytes and layout-bytes"
    dieIf (o.layoutBytes % 512 ≠ 0 ∨ o.expectedMedia % 512 ≠ 0 ∨
        o.expectedMedia < o.layoutBytes ∨ o.layoutBytes < 68 * 512 ∨ int64Max < o.expectedMedia)
      "invalid pinned layout or media length"
    pure ⟨diskId, partId, fsId, o.layoutBytes, o.expectedMedia, o.disk, o.deviceNumber⟩
  | _, _, _, _ =>
    die "require input mode, disk-guid, partuuid, fsuuid, media-bytes and layout-bytes"

/-- The arguments after the program name, parsed and checked. -/
def pinned (argv : List String) : Check Pins := do
  let o ← parseArgs {} argv
  pins o

/-! ### Opening the medium -/

inductive Kind | reg | blk | other
  deriving DecidableEq

/-- The fields of `struct stat` that are read. -/
structure Stat where
  kind : Kind
  dev : ℕ
  ino : ℕ
  major : ℕ
  minor : ℕ
  size : ℤ

/-- What the kernel answers about the path; `none` is an error. -/
structure Env where
  lstat : Option Stat
  opens : Bool
  fstat : Option Stat
  /-- `BLKSSZGET` and `BLKGETSIZE64`. -/
  sectorSize : Option ℤ
  size64 : Option ℕ
  /-- Whether `malloc` succeeds for the primary and for the backup array. -/
  malloc : Bool × Bool

/-- The length that the open file or device reports. -/
def mediaLength (env : Env) (disk : Bool) (st : Stat) : Check ℕ :=
  if disk then do
    dieIf (st.kind ≠ .blk) "--disk requires a block device"
    match env.sectorSize, env.size64 with
    | some 512, some n => pure n
    | _, _ => die "unsupported block geometry"
  else do
    dieIf (st.kind ≠ .reg ∨ st.size < 0) "--image requires a regular file"
    pure st.size.toNat

/-- The length of the medium, once the path is known to be what was asked for. -/
def openMedia (env : Env) (p : Pins) : Check ℕ :=
  match env.lstat with
  | none => die "input has the wrong type or is a symlink"
  | some before => do
    dieIf ((¬ p.disk ∧ before.kind ≠ .reg) ∨ (p.disk ∧ before.kind ≠ .blk))
      "input has the wrong type or is a symlink"
    dieIf (p.disk ∧ p.deviceNumber ≠ some (toString before.major ++ ":" ++ toString before.minor))
      "device number differs from sysfs identity"
    dieIf (¬ p.disk ∧ p.deviceNumber ≠ none) "device-number is only valid in disk mode"
    dieIf (¬ env.opens) "cannot open input read-only"
    match env.fstat with
    | none => die "input identity changed during open"
    | some st => do
      dieIf (st.dev ≠ before.dev ∨ st.ino ≠ before.ino ∨ st.major ≠ before.major ∨
        st.minor ≠ before.minor) "input identity changed during open"
      let mediaBytes ← mediaLength env p.disk st
      dieIf (mediaBytes ≠ p.expectedMedia) "media length differs from pinned capacity"
      pure mediaBytes

/-! ### The partition table -/

structure Header where
  current : ℕ
  backup : ℕ
  first : ℕ
  last : ℕ
  table : ℕ
  count : ℕ
  entrySize : ℕ
  arrayCrc : ℕ
  guid : List UInt8
  deriving DecidableEq

/-- `EFI PART`. -/
def signature : List UInt8 := [0x45, 0x46, 0x49, 0x20, 0x50, 0x41, 0x52, 0x54]

/-- `MAX_ARRAY`. -/
def maxArray : ℕ := 1024 * 1024

/-- The sectors of the entry array. -/
def arraySectors (h : Header) : Gate ℕ := do
  let n ← umul 64 h.count h.entrySize
  let n ← uadd 64 n 512
  let n ← usub 64 n 1
  udiv n 512

/-- The checks of `header` on the geometry that do not depend on which copy it is. -/
def geometry (h : Header) (lba layoutSectors : ℕ) : Gate Unit := do
  let why := "invalid or excessive GPT geometry"
  stopIf (h.current ≠ lba ∨ layoutSectors ≤ h.backup ∨ h.last < h.first ∨ h.first < 3) why
  let lastLba ← usub 64 layoutSectors 1
  stopIf (lastLba ≤ h.last ∨ h.count = 0 ∨ h.entrySize < 128 ∨ h.entrySize % 128 ≠ 0) why
  let units ← udiv h.entrySize 128
  let below ← usub 32 units 1
  stopIf (units &&& below ≠ 0) why
  let most ← udiv maxArray h.entrySize
  stopIf (most < h.count) why

/-- The checks of `header` on the place of the array and of the other copy. -/
def placement (h : Header) (lba layoutSectors : ℕ) : Gate Unit := do
  let n ← arraySectors h
  let outside := "GPT array outside pinned layout"
  stopIf (h.table < 2 ∨ layoutSectors ≤ h.table) outside
  let room ← usub 64 layoutSectors h.table
  stopIf (room < n) outside
  let stop ← uadd 64 h.table n
  if lba = 1 then do
    let lastLba ← usub 64 layoutSectors 1
    stopIf (h.backup ≠ lastLba ∨ h.table ≠ 2 ∨ h.first < stop)
      "primary GPT overlaps usable sectors or wrong backup location"
  else
    stopIf (h.backup ≠ 1 ∨ h.table ≤ h.last ∨ stop ≠ lba)
      "backup GPT overlaps usable sectors or wrong primary location"

/-- The header with its CRC field zeroed, as far as its declared size goes. -/
def crcCopy (b : List UInt8) (n : ℕ) : List UInt8 :=
  sub b 0 16 ++ [0, 0, 0, 0] ++ sub b 20 (n - 20)

def header (img : ℕ → UInt8) (mediaBytes lba layoutSectors : ℕ) : Gate Header := do
  let off ← umul 64 lba 512
  let b ← readAt img mediaBytes 512 off
  let sig ← bytes b 0 8
  let revision ← le32 b 8
  let reserved ← le32 b 20
  stopIf (sig ≠ signature ∨ revision ≠ 0x10000 ∨ reserved ≠ 0)
    "invalid GPT signature, revision or reserved field"
  let n ← le32 b 12
  stopIf (n < 92 ∨ 512 < n) "invalid GPT header size"
  note (.access 0 n 512)
  let crc ← le32 b 16
  stopIf ((crc32 (crcCopy b n)).toNat ≠ crc) "GPT header CRC mismatch"
  let h : Header :=
    { current := ← le64 b 24
      backup := ← le64 b 32
      first := ← le64 b 40
      last := ← le64 b 48
      guid := ← bytes b 56 16
      table := ← le64 b 72
      count := ← le32 b 80
      entrySize := ← le32 b 84
      arrayCrc := ← le32 b 88 }
  geometry h lba layoutSectors
  placement h lba layoutSectors
  pure h

def array (img : ℕ → UInt8) (mediaBytes : ℕ) (malloc : Bool) (h : Header) :
    Gate (List UInt8) := do
  let n ← umul 64 h.count h.entrySize
  note (.alloc n)
  stopIf (¬ malloc) "allocation failed"
  let off ← umul 64 h.table 512
  let p ← readAt img mediaBytes n off
  note (.access 0 n p.length)
  stopIf ((crc32 p).toNat ≠ h.arrayCrc) "GPT partition-array CRC mismatch"
  pure p

/-- The protective MBR. -/
def checkMbr (img : ℕ → UInt8) (mediaBytes sectors : ℕ) : Gate Unit := do
  let mbr ← readAt img mediaBytes 512 0
  let magic ← bytes mbr 510 2
  let kind ← bytes mbr 450 1
  let boot ← bytes mbr 446 1
  let start ← le32 mbr 454
  let size ← le32 mbr 458
  let lastLba ← usub 64 sectors 1
  let others ← zero mbr 462 48
  stopIf (magic ≠ [0x55, 0xaa] ∨ kind ≠ [0xee] ∨ boot ≠ [0] ∨ start ≠ 1 ∨
      size ≠ (if 2 ^ 32 - 1 < lastLba then 2 ^ 32 - 1 else lastLba) ∨ others = false)
    "invalid protective MBR or hybrid partition table"

/-- The two copies of the table, and the array they agree on. -/
def checkCopies (img : ℕ → UInt8) (mediaBytes sectors : ℕ) (malloc : Bool × Bool)
    (diskGuid : List UInt8) : Gate (Header × List UInt8) := do
  let a ← header img mediaBytes 1 sectors
  let lastLba ← usub 64 sectors 1
  let b ← header img mediaBytes lastLba sectors
  stopIf (a.guid ≠ diskGuid ∨ b.guid ≠ diskGuid ∨ a.first ≠ b.first ∨ a.last ≠ b.last ∨
      a.count ≠ b.count ∨ a.entrySize ≠ b.entrySize ∨ a.arrayCrc ≠ b.arrayCrc)
    "GPT copies or disk GUID disagree"
  let pa ← array img mediaBytes malloc.1 a
  let pb ← array img mediaBytes malloc.2 b
  let n ← umul 64 a.count a.entrySize
  note (.access 0 n pa.length)
  note (.access 0 n pb.length)
  stopIf (pa ≠ pb) "GPT partition arrays disagree"
  pure (a, pa)

/-- The label of the partition, and of the filesystem. -/
def label : List ℕ := "t6040root".toList.map Char.toNat

/-- The entries: the root partition at the first, nothing at the others. It gives the
extent of the partition. -/
def checkEntries (a : Header) (pa type partGuid : List UInt8) : Gate (ℕ × ℕ) := do
  let t ← bytes pa 0 16
  let g ← bytes pa 16 16
  stopIf (t ≠ type ∨ g ≠ partGuid) "partition type or PARTUUID mismatch"
  forEach (List.range' 1 (a.count - 1)) fun i => do
    let off ← umul 64 i a.entrySize
    let z ← zero pa off a.entrySize
    stopIf (z = false) "unexpected additional GPT partition"
  let first ← le64 pa 32
  let last ← le64 pa 40
  let attributes ← le64 pa 48
  stopIf (first ≠ 2048 ∨ first < a.first ∨ last < first ∨ a.last < last ∨ attributes ≠ 0)
    "unexpected root extent or GPT attributes"
  forEach (List.range 36) fun i => do
    let c ← le16 pa (56 + i * 2)
    stopIf (c ≠ label.getD i 0) "GPT root label mismatch"
  pure (first, last)

/-- The superblock of the filesystem. -/
def checkExt4 (img : ℕ → UInt8) (mediaBytes first last : ℕ) (fsUuid : List UInt8) :
    Gate Unit := do
  let off ← umul 64 first 512
  let off ← uadd 64 off 1024
  let sb ← readAt img mediaBytes 1024 off
  let magic ← le16 sb 56
  let revision ← le32 sb 76
  let u ← bytes sb 104 16
  stopIf (magic ≠ 0xef53 ∨ revision ≠ 1 ∨ u ≠ fsUuid) "ext4 magic, revision or UUID mismatch"
  let name ← bytes sb 120 16
  stopIf (name.map UInt8.toNat ≠ label ++ List.replicate 7 0) "ext4 label mismatch"
  let state ← le16 sb 58
  let incompat ← le32 sb 96
  stopIf (state ≠ 1 ∨ incompat &&& 4 ≠ 0) "ext4 is dirty, errored or needs journal replay"
  let shift ← le32 sb 24
  stopIf (6 < shift) "unsupported ext4 block size"
  let blockSize ← ushl 64 1024 shift
  let low ← le32 sb 4
  let high ← le32 sb 0x150
  let high ← ushl 64 (if incompat &&& 0x80 ≠ 0 then high else 0) 32
  let blocks := low ||| high
  let n ← usub 64 last first
  let n ← uadd 64 n 1
  let partBytes ← umul 64 n 512
  let most ← udiv partBytes blockSize
  stopIf (blocks = 0 ∨ most < blocks) "ext4 size exceeds root partition"

/-- The checks on the medium, once its length is known. -/
def gate (img : ℕ → UInt8) (env : Env) (p : Pins) (mediaBytes : ℕ)
    (diskGuid partGuid fsUuid type : List UInt8) : Gate (ℕ × ℕ) := do
  let sectors ← udiv p.layoutBytes 512
  checkMbr img mediaBytes sectors
  let (a, pa) ← checkCopies img mediaBytes sectors env.malloc diskGuid
  let (first, last) ← checkEntries a pa type partGuid
  checkExt4 img mediaBytes first last fsUuid
  pure (first, last)

/-- `main`: the lines it prints before it returns 0. -/
def main (env : Env) (img : ℕ → UInt8) (argv : List String) : Gate (List String) := do
  let p ← ofExcept (pinned argv)
  let diskGuid ← ofExcept (uuid p.diskId true)
  let partGuid ← ofExcept (uuid p.partId true)
  let fsUuid ← ofExcept (uuid p.fsId false)
  let type ← ofExcept (uuid linuxFs true)
  let mediaBytes ← ofExcept (openMedia env p)
  let (first, last) ← gate img env p mediaBytes diskGuid partGuid fsUuid type
  pure
    ["format=t6040-usb-root-metadata-v1", "partition_number=1", "disk_guid=" ++ p.diskId,
      "partuuid=" ++ p.partId, "filesystem_uuid=" ++ p.fsId,
      "partition_first_lba=" ++ toString first, "partition_last_lba=" ++ toString last,
      "media_bytes=" ++ toString mediaBytes, "layout_bytes=" ++ toString p.layoutBytes,
      "gpt_copies=verified", "filesystem_type=ext4", "filesystem_label=t6040root",
      "ext4_state=clean", "metadata_gate=PASS"]

end Wallace.GptModel
