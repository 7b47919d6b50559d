import Wallace.Shell

/-!
The installer of the NVMe root, `t6040-init-nvme-root-install`.

The script runs as the first process, without `set -e` and with `pipefail`. Every external
command, pipeline, file test and write to a control file is a question to the environment.
`park` detaches the loop device, unmounts and does not return. What the shell makes of
unquoted text with pattern characters, and of text that is no number in an arithmetic
expansion, is a parameter; an arithmetic expansion that is an error ends the script.
-/

namespace Wallace.InstallModel

open Wallace.Trail Wallace.History Wallace.Script

/-- The nodes of the controllers, namespaces and partitions under `/dev`. -/
inductive Disk
  | nvme1 | nvme0n1 | nvme0n1p1 | nvme0n1p2 | nvme0n1p3 | nvme0n1p4 | nvme0n1p5 | nvme0n2 | nvme0n3
  | nvme0n4
  deriving DecidableEq

def Disk.path : Disk → String
  | .nvme1 => "/dev/nvme1"
  | .nvme0n1 => "/dev/nvme0n1"
  | .nvme0n1p1 => "/dev/nvme0n1p1"
  | .nvme0n1p2 => "/dev/nvme0n1p2"
  | .nvme0n1p3 => "/dev/nvme0n1p3"
  | .nvme0n1p4 => "/dev/nvme0n1p4"
  | .nvme0n1p5 => "/dev/nvme0n1p5"
  | .nvme0n2 => "/dev/nvme0n2"
  | .nvme0n3 => "/dev/nvme0n3"
  | .nvme0n4 => "/dev/nvme0n4"

/-- The files of `/sys` that the script reads: those of a disk, and those of the controller. -/
inductive SysFile
  | size (d : Disk)
  | start (d : Disk)
  | ro (d : Disk)
  | stat (d : Disk)
  | logicalBlockSize
  | writeCache
  | transport
  | model
  deriving DecidableEq

/-- `$DST.partial` and `$DST`, on the mount at `/mnt/linux`. -/
inductive File | dstPartial | dst
  deriving DecidableEq

/-- `fsck.exfat -y` and `fsck.exfat -n`. -/
inductive Fsck | y | n
  deriving DecidableEq

/-- The commands. `digest` is `sha256sum` of its input, `hex` is `dd` piped to `hexdump`,
`volumeFlags` is `dd` piped to `od`, and `copy` is `xzcat | tee file | sha256sum`. The mount is
that of a disk, `rw`, at `/mnt/linux`. -/
inductive Cmd
  | mountVirtual (fs : String)
  | mkdir
  | loadkmap
  | testWatchdog
  | watchdog
  | cutExpected
  | testSource
  | sleep
  | testBlock (d : Disk)
  | testExists (d : Disk)
  | cat (f : SysFile)
  | setro (d : Disk)
  | digest (input : Text)
  | hex (d : Disk) (skip count : ℕ)
  | dd (d : Disk) (skip count : ℕ)
  | volumeFlags
  | writeThrough
  | fsck (mode : Fsck) (d : Disk)
  | mount (d : Disk)
  | umount
  | testFile (f : File)
  | rm (f : File)
  | copy (f : File)
  | sync
  | stat (f : File)
  | dropCaches
  | sha256sum (f : File)
  | losetupFree
  | losetupAttach (loop : Text) (f : File)
  | losetupDetach (loop : Text)
  | e2fsck (loop : Text)
  | findfs
  | getsize64 (loop : Text)
  | mv (f g : File)
  | sayPass
  | reboot
  deriving DecidableEq

/-! ### Text -/

/-- What unquoted text with a pattern in it expands into, and the values of `$((F))` and of
`$(( t - u ))` where the texts are no numbers. -/
structure Sh where
  glob : Text → List Text
  value : Text → Option ℤ
  minus : Text → Text → Option ℤ

section Expansion

variable (sh : Sh)

/-- Unquoted text. -/
def unquoted (t : Text) : List Text :=
  if t.any (fun c => c = '*' ∨ c = '?' ∨ c = '[') then sh.glob t else Shell.words t

/-- A number as the kernel and `od` write it. -/
def isDecimal (t : Text) : Bool :=
  t ≠ [] && t.all Char.isDigit && (t = ['0'] || t.head? ≠ some '0')

/-- An empty text counts as zero. -/
def isPlain (t : Text) : Bool := t = [] || isDecimal t

/-- `$((F))`, in 64 bits. -/
def value (t : Text) : Option ℤ :=
  if isPlain t then some (Int.bmod (Shell.number t) (2 ^ 64)) else sh.value t

/-- `$(( t - u ))`, in 64 bits. -/
def minus (t u : Text) : Option ℤ :=
  if isPlain t ∧ isPlain u then some (Int.bmod (Shell.number t - Shell.number u) (2 ^ 64))
  else sh.minus t u

/-- Bit 1 of the volume flags: `$((F & 2))` is not zero. -/
def dirty (flags : Text) : Option Bool := (value sh flags).map fun n => n / 2 % 2 ≠ 0

/-- `${F##* }`. -/
def lastWord (t : Text) : Text := t.rtakeWhile (· ≠ ' ')

/-- `${H%% *}`. -/
def firstWord (t : Text) : Text := t.takeWhile (· ≠ ' ')

/-- `$(echo "$t")` of one word: options are not printed. -/
def echo (t : Text) : Text :=
  if t.head? = some '-' ∧ t.tail ≠ [] ∧ t.tail.all (fun c => c = 'n' ∨ c = 'e' ∨ c = 'E') then []
  else t

/-- `$i`. -/
def parameter (ws : List Text) (i : ℕ) : Text := ws.getD (i - 1) []

/-- The line of `others` for one disk: fields 5 to 7 and 12 to 17 without 15. -/
def writeFields (ws : List Text) : Text :=
  [' '].intercalate ([5, 6, 7, 12, 13, 14, 16, 17].map (parameter ws)) ++ ['\n']

/-- What `others` gives to `sha256sum`. -/
def othersInput (stats : List Text) : Text :=
  stats.flatMap fun t => writeFields (unquoted sh t)

end Expansion

/-! ### Gates -/

/-- `[ -z "$LOOP" ] || losetup -d "$LOOP"`. -/
def detach (loop : Text) : ScriptM Cmd Unit :=
  if loop = [] then pure ()
  else do
    let _ ← ask (.losetupDetach loop)
    pure ()

/-- `park`, with the loop device of that time. -/
def park {α : Type} (loop : Text) (why : String) : ScriptM Cmd α := do
  detach loop
  let _ ← ask .umount
  stop why

def parkIf (c : Prop) [Decidable c] (loop : Text) (why : String) : ScriptM Cmd Unit :=
  if c then park loop why else pure ()

/-- `test || stop why`, where the test is one of the answer to a command. -/
structure Gate where
  cmd : Cmd
  test : Answer → Bool
  why : String

def Gate.check (g : Gate) : Check Cmd := (g.cmd, g.test)

def gate (loop : Text) (g : Gate) : ScriptM Cmd Answer := do
  let a ← ask g.cmd
  if g.test a = true then pure a else park loop g.why

def gates (loop : Text) : List Gate → ScriptM Cmd Unit
  | [] => pure ()
  | g :: gs => do
    let _ ← gate loop g
    gates loop gs

/-- `[ ! -e path ]`. -/
def absent (a : Answer) : Bool := !a.ok

def prints (s : String) : Answer → Bool := Answer.prints s.toList

/-! ### Before the first write -/

/-- Up to the embedded image; the pinned hash. -/
def bootstrap : ScriptM Cmd Text := do
  orStop (.mountVirtual "proc") "proc"
  orStop (.mountVirtual "sysfs") "sysfs"
  orStop (.mountVirtual "devtmpfs") "devtmpfs"
  orStop .mkdir "directories"
  orStop (.mountVirtual "tmpfs") "tmpfs"
  orStop .loadkmap "Norwegian keymap failed"
  let _ ← gate [] ⟨.testWatchdog, Answer.ok, "watchdog missing"⟩
  let _ ← ask .watchdog
  let expected ← ask .cutExpected
  let source ← ask .testSource
  if source.ok = true ∧ expected.out.length = 64 then pure expected.out
  else park [] "embedded root image or its hash is missing"

/-- `while [ ! ready ] && [ "$i" -lt n ]; do sleep 1; i=$((i+1)); done`. -/
def waitFor (ready : ScriptM Cmd Bool) : ℕ → ScriptM Cmd Unit
  | 0 => do
    let _ ← ready
    pure ()
  | n + 1 => do
    let r ← ready
    if r = true then pure ()
    else do
      let _ ← ask .sleep
      waitFor ready n

def isBlock (d : Disk) : ScriptM Cmd Bool := do
  let a ← ask (.testBlock d)
  pure a.ok

/-- Both further namespaces; the second is looked at if the first is there. -/
def namespaces : ScriptM Cmd Bool := do
  let b ← isBlock .nvme0n2
  if b = true then isBlock .nvme0n3 else pure false

def controllerGates : List Gate := [⟨.testExists .nvme1, absent, "unexpected second controller"⟩]

/-- One line of the script, joined by `&&`. -/
def topologyGates : List Gate :=
  let why := "unexpected namespace topology"
  [⟨.cat (.size .nvme0n1), prints "1954210120", why⟩, ⟨.cat (.size .nvme0n2), prints "6144", why⟩,
    ⟨.cat (.size .nvme0n3), prints "262144", why⟩, ⟨.testExists .nvme0n4, absent, why⟩]

/-- The pattern `apple-nvme:APPLE\ SSD\ AP1024Z*`. -/
def isController (transport model : Text) : Bool :=
  "apple-nvme:APPLE SSD AP1024Z".toList.isPrefixOf (transport ++ ':' :: model)

def identity : ScriptM Cmd Unit := do
  let transport ← ask (.cat .transport)
  let model ← ask (.cat .model)
  if isController transport.out model.out = true then pure ()
  else park [] "unexpected controller identity"

/-- The other partitions and namespaces. -/
def otherDisks : List Disk := [.nvme0n1p1, .nvme0n1p2, .nvme0n1p4, .nvme0n2, .nvme0n3]

def readOnlyGates : List Gate :=
  otherDisks.flatMap fun d =>
    [⟨.testBlock d, Answer.ok, "missing " ++ d.path⟩,
      ⟨.setro d, Answer.ok, "cannot set " ++ d.path ++ " read-only"⟩]

def readStats : List Disk → ScriptM Cmd (List Text)
  | [] => pure []
  | d :: ds => do
    let a ← ask (.cat (.stat d))
    let rest ← readStats ds
    pure (a.out :: rest)

/-- `$(others)`. -/
def others (sh : Sh) : ScriptM Cmd Text := do
  let stats ← readStats otherDisks
  let sum ← ask (.digest (othersInput sh stats))
  pure sum.out

/-- The fifth partition and the access to the third, before `others`. -/
def partitionGates : List Gate :=
  [⟨.testExists .nvme0n1p5, absent, "unexpected fifth partition"⟩,
    ⟨.cat (.ro .nvme0n1p3), prints "0", "nvme0n1p3 is read-only"⟩]

/-- The geometry, the GPT entry and the exFAT boot sector and label of the third partition. -/
def pinGates : List Gate :=
  [⟨.cat (.start .nvme0n1p3), prints "1586917376", "p3 start mismatch"⟩,
    ⟨.cat (.size .nvme0n1p3), prints "356806656", "p3 size mismatch"⟩,
    ⟨.cat .logicalBlockSize, prints "4096", "unexpected logical block size"⟩,
    ⟨.hex .nvme0n1 8448 16, prints "a2a0d0ebe5b9334487c068b6b72699c7",
      "p3 GPT type is not Microsoft Basic Data"⟩,
    ⟨.hex .nvme0n1 8464 16, prints "dba60dea3529cb49a996b982dd646f24",
      "p3 GPT unique GUID mismatch"⟩,
    ⟨.hex .nvme0n1 8480 16, prints "00ced20b00000000ff5b7b0e00000000",
      "p3 GPT LBA range mismatch"⟩,
    ⟨.dd .nvme0n1p3 3 8, prints "EXFAT   ", "p3 is not exFAT"⟩,
    ⟨.hex .nvme0n1p3 100 4, prints "af2cdd6a", "exFAT serial is not 0x6add2caf"⟩,
    ⟨.hex .nvme0n1p3 7733248 12, prints "83056c0069006e0075007800",
      "exFAT label is not \"linux\""⟩]

/-- `vflags`. -/
def vflags : ScriptM Cmd Text := do
  let a ← ask .volumeFlags
  pure (lastWord a.out)

/-- An error in an arithmetic expansion ends the script. -/
def orEnd {α : Type} : Option α → ScriptM Cmd α
  | some a => pure a
  | none => stop "arithmetic syntax error"

/-- The repair of a dirty volume. -/
def repair (sh : Sh) : ScriptM Cmd Unit := do
  let _ ← ask .writeThrough
  let _ ← ask (.fsck .y .nvme0n1p3)
  let flags ← vflags
  let d ← orEnd (dirty sh flags)
  parkIf (d = true) []
    ("p3 exFAT still dirty (VolumeFlags=" ++ String.ofList flags ++ ") after repair")

/-- The volume flags. -/
def checkFlags (sh : Sh) : ScriptM Cmd Unit := do
  let flags ← vflags
  parkIf (flags = []) [] "cannot read p3 VolumeFlags"
  let d ← orEnd (dirty sh flags)
  if d = true then repair sh else pure ()

/-- `fsck_n`. -/
def fsckGate (tag : String) : Gate :=
  ⟨.fsck .n .nvme0n1p3, Answer.ok, "p3 exFAT not clean (" ++ tag ++ ")"⟩

/-- `wsec`. -/
def wsec (sh : Sh) (d : Disk) : ScriptM Cmd Text := do
  let a ← ask (.cat (.stat d))
  pure (echo (parameter (unquoted sh a.out) 7))

/-! ### Copy, check, commit -/

def dstPath : String := "/mnt/linux/wallace-root.img"

def rootBytes : String := "17179869184"

/-- The copy, up to the second hash. -/
def copyImage (expected : Text) : ScriptM Cmd Unit := do
  let _ ← gate [] ⟨.testFile .dst, absent, dstPath ++ " already exists; nothing to install"⟩
  let _ ← ask (.rm .dstPartial)
  let copied ← gate [] ⟨.copy .dstPartial, Answer.ok, "copy failed"⟩
  let _ ← ask .sync
  let _ ← gate [] ⟨.stat .dstPartial, prints rootBytes, "copy has the wrong size"⟩
  parkIf (firstWord copied.out ≠ expected) [] "decompressed image differs from the pinned hash"
  gates [] [⟨.dropCaches, Answer.ok, "drop_caches failed"⟩,
    ⟨.sha256sum .dstPartial, fun a => firstWord a.out = expected,
      "copy on p3 differs from the pinned hash"⟩]

/-- The checks of the copy through a loop device. -/
def loopGates (loop : Text) : List Gate :=
  [⟨.losetupAttach loop .dstPartial, Answer.ok, "cannot attach the copy"⟩,
    ⟨.e2fsck loop, Answer.ok, "root image has ext4 errors"⟩,
    ⟨.findfs, Answer.prints loop, "root UUID not visible"⟩]

def checkImage : ScriptM Cmd Unit := do
  let free ← ask .losetupFree
  parkIf (free.ok = false) free.out "cannot attach the copy"
  gates free.out (loopGates free.out)
  let size ← ask (.getsize64 free.out)
  parkIf (prints rootBytes size = false) free.out ("loop size " ++ String.ofList size.out)
  gates free.out [⟨.losetupDetach free.out, Answer.ok, "cannot detach the copy"⟩]

/-- The rename, the unmount and the check of the volume. -/
def commit : ScriptM Cmd Unit := do
  let _ ← gate [] ⟨.mv .dstPartial .dst, Answer.ok, "rename failed"⟩
  let _ ← ask .sync
  gates [] [⟨.umount, Answer.ok, "p3 would not unmount"⟩, fsckGate "final"]

/-- The comparison of the counters, and the report. -/
def report (sh : Sh) (othersBefore diskBefore pBefore : Text) : ScriptM Cmd Unit := do
  let othersAfter ← others sh
  parkIf (othersAfter ≠ othersBefore) [] "a read-only partition or namespace saw I/O"
  let diskAfter ← wsec sh .nvme0n1
  let diskWritten ← orEnd (minus sh diskAfter diskBefore)
  let pAfter ← wsec sh .nvme0n1p3
  let pWritten ← orEnd (minus sh pAfter pBefore)
  parkIf (diskWritten ≠ pWritten) [] "writes outside p3 on nvme0n1"
  let _ ← ask .sayPass
  pure ()

/-- From the mount to the report. -/
def transfer (sh : Sh) (expected othersBefore diskBefore pBefore : Text) : ScriptM Cmd Unit := do
  let _ ← gate [] ⟨.mount .nvme0n1p3, Answer.ok, "p3 mount rw failed"⟩
  copyImage expected
  checkImage
  commit
  report sh othersBefore diskBefore pBefore

def install (sh : Sh) : ScriptM Cmd Unit := do
  let expected ← bootstrap
  waitFor (isBlock .nvme0n1p3) 30
  gates [] controllerGates
  waitFor namespaces 10
  gates [] topologyGates
  identity
  gates [] (readOnlyGates ++ partitionGates)
  let othersBefore ← others sh
  gates [] pinGates
  checkFlags sh
  let _ ← ask .writeThrough
  gates [] [⟨.cat .writeCache, prints "write through", "cannot set write-through"⟩,
    fsckGate "before"]
  let diskBefore ← wsec sh .nvme0n1
  let pBefore ← wsec sh .nvme0n1p3
  transfer sh expected othersBefore diskBefore pBefore
  let _ ← ask .sync
  let _ ← ask .reboot
  let _ ← ask .sleep
  park [] "reboot -f returned"

end Wallace.InstallModel
