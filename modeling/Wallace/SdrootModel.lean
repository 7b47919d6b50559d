import Wallace.Mounts

/-!
The inits of the SD root and of the NVMe root, `t6040-sdroot-init` and `t6040-nvmeroot-init`,
from the read-write mount of the exFAT container to `switch_root`.

Each line is a command whose failure stops the boot, with what is undone first. Commands whose
outcome the scripts do not look at touch no mount and are left out.
-/

namespace Wallace.SdrootModel

open Wallace.Mounts

inductive Variant | sd | nvme
  deriving DecidableEq

inductive Dir | sd | newroot | mnt | dev | proc | sys | run | initramfs
  deriving DecidableEq

abbrev Path := List Dir

inductive Fs | rootfs | exfat | ext4 | tmpfs | devtmpfs | proc | sysfs
  deriving DecidableEq

abbrev Mounts := Table Dir Fs

/-- The commands that decide how a line ends. `findfs` stands for the comparison of the device
that has the UUID of the root with the loop device. -/
inductive Cmd
  | mount (fs : Fs) (point : Path)
  | losetupFree
  | losetup
  | findfs
  | nonEmpty (file : String)
  | mkdir (dir : String)
  | cp (src dst : String)
  | chmod (file : String)
  | moveMount (src dst : Path)
  | bindMount (src dst : Path)
  | charDevice (file : String)
  deriving DecidableEq

/-- What a command that succeeds does to the mounts. The image that `losetup` attaches lies on
the container at `/sd`. -/
def effect : Cmd → Mounts → Mounts
  | .mount fs point, t => mount fs point t
  | .losetup, t => attach [.sd] t
  | .moveMount src dst, t => move src dst t
  | .bindMount src dst, t => bind src dst t
  | _, t => t

/-- `umount point 2>/dev/null || true`. -/
def tryUmount (point : Path) (t : Mounts) : Mounts := attempt (umount point) t

/-- `cleanup_root`, with `LOOP` set. -/
def cleanupRoot (t : Mounts) : Mounts :=
  let t := tryUmount [.newroot, .mnt, .sd] t
  let t := tryUmount [.newroot, .dev] t
  let t := tryUmount [.newroot, .proc] t
  let t := tryUmount [.newroot, .sys] t
  let t := tryUmount [.newroot, .run, .initramfs, .sd] t
  let t := tryUmount [.newroot, .run, .initramfs] t
  let t := tryUmount [.newroot, .run] t
  let t := tryUmount [.newroot] t
  let t := attempt (detach .ext4) t
  tryUmount [.sd] t

/-- What stands before `stop` in the braces of a line. -/
inductive Undo | nothing | umountSd | cleanupRoot
  deriving DecidableEq

def Undo.apply : Undo → Mounts → Mounts
  | .nothing, t => t
  | .umountSd, t => tryUmount [.sd] t
  | .cleanupRoot, t => SdrootModel.cleanupRoot t

structure Line where
  cmd : Cmd
  undo : Undo
  why : String

/-- `command || { cleanup_root; stop why; }`. -/
def checked (cmd : Cmd) (why : String) : Line := ⟨cmd, .cleanupRoot, why⟩

/-! ### The scripts -/

/-- `install_helper`, each of whose commands can make it fail. -/
def installHelper (dir dst src : String) : List Line :=
  let why := "cannot install " ++ dst ++ " onto the new root"
  let src := "/opt/wallace/" ++ src
  [checked (.nonEmpty src) why, checked (.mkdir ("/newroot" ++ dir)) why,
    checked (.cp src ("/newroot" ++ dst)) why, checked (.chmod ("/newroot" ++ dst)) why]

def helpers : List Line :=
  let sbin := "/usr/local/sbin"
  installHelper sbin "/usr/local/sbin/t6040-sdroot-early-console" "t6040-sdroot-early-console" ++
    installHelper sbin "/usr/local/sbin/t6040-sdroot-openrc" "t6040-sdroot-openrc" ++
    installHelper sbin "/usr/local/sbin/t6040-sdroot-powerctl" "t6040-sdroot-powerctl" ++
    installHelper sbin "/usr/local/sbin/t6040-startx" "t6040-sdroot-startx" ++
    installHelper sbin "/usr/local/sbin/t6040-sdroot-net" "t6040-sdroot-net" ++
    installHelper "/etc" "/etc/inittab" "t6040-sdroot-inittab"

def Variant.mountFailed : Variant → String
  | .sd => "SD64 did not mount as exFAT read-write"
  | .nvme => "linux exFAT did not mount read-write"

def Variant.container : Variant → String
  | .sd => "SD64"
  | .nvme => "the linux exFAT"

/-- The read-write attach. -/
def attachLines (v : Variant) : List Line :=
  [⟨.mount .exfat [.sd], .nothing, v.mountFailed⟩,
    ⟨.losetupFree, .umountSd, "no free loop device"⟩,
    ⟨.losetup, .umountSd, "cannot attach /sd/wallace-root.img"⟩,
    checked .findfs "ext4 UUID changed after read-write attach",
    checked (.mount .ext4 [.newroot]) "cannot mount the ext4 root"]

/-- The required files and the shutdown tmpfs. -/
def shutdownLines : List Line :=
  [checked (.nonEmpty "/newroot/sbin/init") "new root is missing /sbin/init",
    checked (.nonEmpty "/newroot/bin/busybox") "new root is missing /bin/busybox",
    checked (.mount .tmpfs [.newroot, .run]) "cannot mount /run",
    checked (.mount .tmpfs [.newroot, .run, .initramfs]) "cannot mount the shutdown tmpfs",
    checked (.cp "/bin/busybox" "/newroot/run/initramfs/bin/busybox")
      "cannot preserve busybox for shutdown",
    checked (.cp "/shutdown" "/newroot/run/initramfs/shutdown")
      "cannot preserve the shutdown program"]

def beforeMove (v : Variant) : List Line := attachLines v ++ helpers ++ shutdownLines

def moveLine (v : Variant) : Line :=
  checked (.moveMount [.sd] [.newroot, .run, .initramfs, .sd])
    ("cannot move " ++ v.container ++ " under the shutdown tmpfs")

def afterMove (v : Variant) : List Line :=
  [checked (.bindMount [.newroot, .run, .initramfs, .sd] [.newroot, .mnt, .sd])
      ("cannot expose " ++ v.container ++ " at /mnt/sd"),
    checked (.mount .devtmpfs [.newroot, .dev]) "newroot devtmpfs failed",
    checked (.mount .proc [.newroot, .proc]) "newroot proc failed",
    checked (.mount .sysfs [.newroot, .sys]) "newroot sysfs failed",
    checked (.charDevice "/newroot/dev/ttydc0") "newroot ttydc0 is missing"]

def lines (v : Variant) : List Line := beforeMove v ++ moveLine v :: afterMove v

/-! ### Boots -/

/-- How far a boot has come: to a line without an outcome yet, to `stop`, or to `switch_root`. -/
inductive Boot
  | waiting (t : Mounts)
  | stopped (undo : Undo) (why : String) (t : Mounts)
  | switched (t : Mounts)

/-- The lines in order, each of which succeeds or fails. -/
def boot : List Line → List Bool → Mounts → Boot
  | [], _, t => .switched t
  | _ :: _, [], t => .waiting t
  | l :: ls, ok :: oks, t =>
    if ok = true then boot ls oks (effect l.cmd t) else .stopped l.undo l.why (l.undo.apply t)

/-- Neither of the two file systems is mounted, and the loop device is detached. -/
def Clean (t : Mounts) : Prop := ∀ m ∈ t, m.fs ≠ .exfat ∧ m.fs ≠ .ext4 ∧ m.backs = false

instance (t : Mounts) : Decidable (Clean t) := List.decidableBAll _ _

end Wallace.SdrootModel
