import Wallace.Gates
import Wallace.InstallModel
import Wallace.SdrootModel

/-!
The inits of the SD root and of the NVMe root, `t6040-sdroot-init` and `t6040-nvmeroot-init`, from
their first line to the mount of the root; the lines after it are in `SdrootModel`.

The two scripts are one but for the gates that find and pin the partition. Every external command,
pipeline and file test is a question to the environment, and `stop` does not return. Text that is
no number in an arithmetic expansion is as in `InstallModel`.
-/

namespace Wallace.DailyModel

open Wallace.Trail Wallace.History Wallace.Script Wallace.Gates
open Wallace.SdrootModel (Variant)
open Wallace.InstallModel (Sh dirty lastWord echo absent prints isController)

inductive Mode | ro | rw
  deriving DecidableEq

/-- The commands. `test` is a file test, `hex` is `dd` piped to `hexdump` and `word` is two bytes of
a device through `dd` and `od`. `fsck` is `fsck.exfat -y` of the partition, and `mountExfat` mounts
it at `/sd`; `losetup` attaches the image on it, and `mountRoot` mounts a loop device read-write at
`/newroot`. -/
inductive Cmd
  | mountVirtual (fs : String)
  | test (op : Char) (path : String)
  | loadkmap
  | sleep
  | cat (path : String)
  | readlink (path : String)
  | readlinkF (path : String)
  | basename (path : Text)
  | findfs (tag : String)
  | setro (dev : String)
  | hex (dev : String) (skip count : ℕ)
  | dd (dev : String) (skip count : ℕ)
  | word (dev : Text) (skip : ℕ)
  | writeThrough
  | fsck
  | mkdir
  | mountExfat (mode : Mode)
  | umount (point : String)
  | sync
  | stat
  | losetupFree
  | losetup (mode : Mode) (loop : Text)
  | losetupDetach (loop : Text)
  | mountRoot (loop : Text)
  deriving DecidableEq

/-! ### Text -/

/-- What C takes for a blank. -/
def isSpace (c : Char) : Bool := c = ' ' || ('\t' ≤ c && c ≤ '\r')

/-- `[ "$t" -eq 1 ]`: blanks around, a sign and leading zeros do not matter, and anything else that
is no number fails the test. -/
def equalsOne (t : Text) : Bool :=
  let t := (t.dropWhile isSpace).rdropWhile isSpace
  let t := if t.head? = some '+' then t.tail else t
  t.all Char.isDigit && t.dropWhile (· = '0') = ['1']

/-- `case "$below" in "$path"/*)`. -/
def isBelow (path below : Text) : Bool := (path ++ ['/']).isPrefixOf below

/-- `${t:-other}`. -/
def orElse (t : Text) (other : String) : String := if t = [] then other else String.ofList t

/-! ### The pinned partition -/

def part : Variant → String
  | .sd => "/dev/mmcblk0p1"
  | .nvme => "/dev/nvme0n1p3"

def rootUuid : Variant → String
  | .sd => "4c41b99c-7747-4688-85a5-397bc5d784a2"
  | .nvme => "988d97b4-06ba-40d7-8f70-7899bb6fa297"

def rootBytes : Variant → String
  | .sd => "6442450944"
  | .nvme => "17179869184"

def holds (c : Cmd) : ScriptM Cmd Bool := do
  let a ← ask c
  pure a.ok

def mountCore : ScriptM Cmd Unit := do
  orStop (.mountVirtual "proc") "cannot mount proc, sysfs, and devtmpfs"
  orStop (.mountVirtual "sysfs") "cannot mount proc, sysfs, and devtmpfs"
  orStop (.mountVirtual "devtmpfs") "cannot mount proc, sysfs, and devtmpfs"

/-- The keymap; without it the boot goes on. -/
def keymap : ScriptM Cmd Unit := do
  let f ← ask (.test 'f' "/etc/wallace-no.bmap")
  if f.ok = true then do
    let _ ← ask .loadkmap
    pure ()
  else pure ()

def afterSeconds (what : String) (n : ℕ) : String := what ++ " after " ++ toString n ++ "s"

def pciDev : String := "/sys/bus/pci/devices/0000:02:00.0"

def mmcDev : String := "/sys/class/block/mmcblk0/device"

def slotGates : List (Gate Cmd) :=
  [require (.cat (pciDev ++ "/vendor")) (prints "0x17a0") "wrong PCI vendor",
    require (.cat (pciDev ++ "/device")) (prints "0x9755") "wrong PCI device"]

def driverGates (link : Text) : List (Gate Cmd) :=
  [require (.basename link) (prints "sdhci-pci") "GL9755 is not bound to sdhci-pci",
    require (.test 'L' (pciDev ++ "/iommu_group")) Answer.ok "GL9755 lacks a DART/IOMMU group"]

def labelGate : Gate Cmd where
  cmd := .findfs "LABEL=SD64"
  test := prints (part .sd)
  undo := pure ()
  why a := "LABEL=SD64 resolved to '" ++ orElse a.out "nothing" ++ "', expected " ++ part .sd

/-- The card reader, the card below it and the label. -/
def pinSd : ScriptM Cmd Unit := do
  let n ← waitFor .sleep (holds (.test 'd' pciDev)) 0 25
  gates (require (.test 'd' pciDev) Answer.ok (afterSeconds "GL9755 0000:02:00.0 is absent" n) ::
    slotGates)
  let n ← waitFor .sleep (holds (.test 'L' (pciDev ++ "/driver"))) 0 25
  gates [require (.test 'L' (pciDev ++ "/driver")) Answer.ok
    (afterSeconds "GL9755 has no bound driver" n)]
  let link ← ask (.readlink (pciDev ++ "/driver"))
  gates (driverGates link.out)
  let n ← waitFor .sleep (holds (.test 'b' (part .sd))) 0 30
  gates [require (.test 'b' (part .sd)) Answer.ok (afterSeconds (part .sd ++ " did not appear") n),
    require (.test 'e' mmcDev) Answer.ok "mmcblk0 sysfs identity is missing"]
  let pci ← ask (.readlinkF pciDev)
  let mmc ← ask (.readlinkF mmcDev)
  haltIf (pci.out = [] ∨ mmc.out = []) (pure ()) "cannot resolve GL9755/MMC sysfs ancestry"
  haltIf (isBelow pci.out mmc.out = false) (pure ())
    "mmcblk0 is not a child of the reviewed GL9755 controller"
  gates [labelGate]

/-- Both further namespaces; the second is looked at if the first is there. -/
def namespaces : ScriptM Cmd Bool := do
  let b ← holds (.test 'b' "/dev/nvme0n2")
  if b = true then holds (.test 'b' "/dev/nvme0n3") else pure false

def topologyGates : List (Gate Cmd) :=
  let why := "unexpected NVMe namespace topology"
  [require (.test 'e' "/dev/nvme1") absent "unexpected second NVMe controller",
    require (.cat "/sys/block/nvme0n1/size") (prints "1954210120") why,
    require (.cat "/sys/block/nvme0n2/size") (prints "6144") why,
    require (.cat "/sys/block/nvme0n3/size") (prints "262144") why,
    require (.test 'e' "/dev/nvme0n4") absent why]

/-- Every other partition and namespace is set read-only. -/
def others : List String :=
  ["/dev/nvme0n1p1", "/dev/nvme0n1p2", "/dev/nvme0n1p4", "/dev/nvme0n2", "/dev/nvme0n3"]

def readOnlyGates : List (Gate Cmd) :=
  others.flatMap fun d =>
    [require (.test 'b' d) Answer.ok ("missing " ++ d),
      require (.setro d) Answer.ok ("cannot set " ++ d ++ " read-only")]

def pinGates : List (Gate Cmd) :=
  [require (.test 'e' "/dev/nvme0n1p5") absent "unexpected fifth partition",
    require (.cat "/sys/block/nvme0n1/nvme0n1p3/start") (prints "1586917376") "p3 start mismatch",
    require (.cat "/sys/block/nvme0n1/nvme0n1p3/size") (prints "356806656") "p3 size mismatch",
    require (.cat "/sys/block/nvme0n1/queue/logical_block_size") (prints "4096")
      "unexpected logical block size",
    require (.hex "/dev/nvme0n1" 8448 16) (prints "a2a0d0ebe5b9334487c068b6b72699c7")
      "p3 GPT type is not Microsoft Basic Data",
    require (.hex "/dev/nvme0n1" 8464 16) (prints "dba60dea3529cb49a996b982dd646f24")
      "p3 GPT unique GUID mismatch",
    require (.hex "/dev/nvme0n1" 8480 16) (prints "00ced20b00000000ff5b7b0e00000000")
      "p3 GPT LBA range mismatch",
    require (.dd (part .nvme) 3 8) (prints "EXFAT   ") "p3 is not exFAT",
    require (.hex (part .nvme) 100 4) (prints "af2cdd6a") "exFAT serial is not 0x6add2caf",
    require (.hex (part .nvme) 7733248 12) (prints "83056c0069006e0075007800")
      "exFAT label is not \"linux\""]

def cacheGate : Gate Cmd :=
  require (.cat "/sys/block/nvme0n1/queue/write_cache") (prints "write through")
    "cannot set the NVMe write cache to write through"

/-- The internal SSD, its third partition and the write cache. -/
def pinNvme : ScriptM Cmd Unit := do
  let n ← waitFor .sleep (holds (.test 'b' (part .nvme))) 0 30
  gates [require (.test 'b' (part .nvme)) Answer.ok
    (afterSeconds (part .nvme ++ " did not appear") n)]
  let _ ← waitFor .sleep namespaces 0 10
  gates topologyGates
  let transport ← ask (.cat "/sys/class/nvme/nvme0/transport")
  let model ← ask (.cat "/sys/class/nvme/nvme0/model")
  haltIf (isController transport.out model.out = false) (pure ())
    "unexpected NVMe controller identity"
  gates (readOnlyGates ++ pinGates)
  let _ ← ask .writeThrough
  gates [cacheGate]

def pin : Variant → ScriptM Cmd Unit
  | .sd => pinSd
  | .nvme => pinNvme

/-! ### The volume -/

/-- The name of the container in the messages about its flags. -/
def volume : Variant → String
  | .sd => "SD64 exFAT"
  | .nvme => "linux exFAT"

/-- `read_flags`. -/
def flagsOf (a : Answer) : Text := echo (lastWord a.out)

def readFlags (v : Variant) : ScriptM Cmd Text := do
  let a ← ask (.word (part v).toList 106)
  pure (flagsOf a)

/-- An error in an arithmetic expansion ends the script. -/
def orEnd {α : Type} : Option α → ScriptM Cmd α
  | some a => pure a
  | none => stop "arithmetic syntax error"

/-- The flags after a repair. -/
def repair (v : Variant) : ScriptM Cmd Text := do
  gates [require (.test 'x' "/sbin/fsck.exfat") Answer.ok
    "dirty exFAT but /sbin/fsck.exfat is missing"]
  let _ ← ask .fsck
  let flags ← readFlags v
  haltIf (flags = []) (pure ()) "could not re-read exFAT VolumeFlags after fsck"
  pure flags

def repairIf (v : Variant) (d : Bool) (flags : Text) : ScriptM Cmd Text :=
  if d = true then repair v else pure flags

def checkFlags (v : Variant) (sh : Sh) : ScriptM Cmd Unit := do
  let flags ← readFlags v
  haltIf (flags = []) (pure ()) "could not read exFAT VolumeFlags"
  let d ← orEnd (dirty sh flags)
  let flags ← repairIf v d flags
  let d ← orEnd (dirty sh flags)
  haltIf (d = true) (pure ())
    (volume v ++ " still dirty (VolumeFlags=" ++ String.ofList flags ++
      ") after repair; do not use RW")

/-! ### The image -/

def img : String := "/sd/wallace-root.img"

/-- `umount /sd 2>/dev/null || true`. -/
def umountSd : ScriptM Cmd Unit := do
  let _ ← ask (.umount "/sd")
  pure ()

def detach (loop : Text) : ScriptM Cmd Unit := do
  let _ ← ask (.losetupDetach loop)
  pure ()

def tryUmount (point : String) : ScriptM Cmd Unit := do
  let _ ← ask (.umount point)
  pure ()

/-- `[ -z "$LOOP" ] || losetup -d "$LOOP"`. -/
def detachSet (loop : Text) : ScriptM Cmd Unit := if loop = [] then pure () else detach loop

/-- `cleanup_root`. -/
def cleanupRoot (loop : Text) : ScriptM Cmd Unit := do
  let _ ← ask .sync
  forEach ["/newroot/mnt/sd", "/newroot/dev", "/newroot/proc", "/newroot/sys",
    "/newroot/run/initramfs/sd", "/newroot/run/initramfs", "/newroot/run", "/newroot"] tryUmount
  detachSet loop
  umountSd

def imageGates (v : Variant) : List (Gate Cmd) :=
  [⟨.test 'f' img, Answer.ok, umountSd, fun _ => img ++ " is missing"⟩,
    ⟨.stat, prints (rootBytes v), umountSd, fun a =>
      img ++ " has size '" ++ orElse a.out "unknown" ++ "', expected " ++ rootBytes v⟩]

/-- The image on a loop device, with the message for another device. -/
def uuidGate (v : Variant) (loop : Text) (undo : ScriptM Cmd Unit) (why : Answer → String) :
    Gate Cmd :=
  ⟨.findfs ("UUID=" ++ rootUuid v), Answer.prints loop, undo, why⟩

def viewGates (v : Variant) (loop : Text) : List (Gate Cmd) :=
  [⟨.losetup .ro loop, Answer.ok, umountSd, fun _ => "cannot attach " ++ img ++ " read-only"⟩,
    uuidGate v loop (do detach loop; umountSd) fun a =>
      "root UUID resolved to '" ++ orElse a.out "nothing" ++ "', expected " ++ String.ofList loop]

def roFailed : Variant → String
  | .sd => "SD64 did not mount as exFAT read-only"
  | .nvme => "linux exFAT did not mount read-only"

def unmountFailed : Variant → String
  | .sd => "SD64 read-only identity mount would not unmount"
  | .nvme => "linux exFAT read-only identity mount would not unmount"

def takeDownGates (v : Variant) (loop : Text) : List (Gate Cmd) :=
  [⟨.losetupDetach loop, Answer.ok, cleanupRoot loop, fun _ =>
      "cannot detach read-only " ++ String.ofList loop⟩,
    require (.umount "/sd") Answer.ok (unmountFailed v)]

/-- `LOOP=$(losetup -f)`. -/
def freeLoop : ScriptM Cmd Text := do
  let free ← ask .losetupFree
  haltIf (free.out = []) umountSd "no free loop device"
  pure free.out

/-- The ext4 state of the image. -/
def checkState (loop : Text) : ScriptM Cmd Unit := do
  let a ← ask (.word loop 1082)
  haltIf (lastWord a.out = []) (cleanupRoot loop) "could not read ext4 filesystem state"
  haltIf (equalsOne (lastWord a.out) = false) (cleanupRoot loop)
    ("ext4 root is not clean (s_state=" ++ String.ofList (lastWord a.out) ++
      "); inspect/repair before RW use")

/-- The image is looked at without a write. -/
def inspect (v : Variant) : ScriptM Cmd Unit := do
  let _ ← ask .mkdir
  gates (require (.mountExfat .ro) Answer.ok (roFailed v) :: imageGates v)
  let loop ← freeLoop
  gates (viewGates v loop)
  checkState loop
  gates (takeDownGates v loop)

/-! ### The root -/

/-- The read-write attach, up to the root. -/
def attach (v : Variant) : ScriptM Cmd Text := do
  let _ ← gate (require (.mountExfat .rw) Answer.ok v.mountFailed)
  let loop ← freeLoop
  let _ ← gate ⟨.losetup .rw loop, Answer.ok, umountSd, fun _ => "cannot attach " ++ img⟩
  let _ ← gate (uuidGate v loop (cleanupRoot loop) fun _ =>
    "ext4 UUID changed after read-write attach")
  let _ ← gate ⟨.mountRoot loop, Answer.ok, cleanupRoot loop, fun _ => "cannot mount the ext4 root"⟩
  pure loop

/-- The script up to the mount of the root, and the loop device that it is on. -/
def init (v : Variant) (sh : Sh) : ScriptM Cmd Text := do
  mountCore
  keymap
  pin v
  checkFlags v sh
  inspect v
  attach v

end Wallace.DailyModel
