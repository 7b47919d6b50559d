import Mathlib.Data.List.DropRight
import Wallace.Script

/-!
The init of the verified USB root, `t6040-init-usb-root-verified`.

The script runs as the first process, without `set -e`. Every external command, run of the
selector and file test is a question to the environment; `stop` and `early_stop` do not
return.
-/

namespace Wallace.InitModel

open Wallace.Trail Wallace.History Wallace.Script

inductive Point | proc | sys | dev | newroot | newrootDev | newrootProc | newrootSys
  deriving DecidableEq

inductive VirtualFs | devtmpfs | proc | sysfs
  deriving DecidableEq

/-- The options of the ext4 mounts: `ro,noload` and `rw`. -/
inductive Mode | ro | rw
  deriving DecidableEq

inductive FileTest | executable | readable | block
  deriving DecidableEq

/-- The commands of the script. A run of the selector keeps its errors in
`/tmp/usb-root-gate-error` or lets them through; `e2fsck` is run with `-f -n`. -/
inductive Cmd
  | mkdir (dirs : List String)
  | mount (fs : VirtualFs) (point : Point)
  | mountRoot (mode : Mode) (dev : Text)
  | remountRo
  | umount (point : Point)
  | sha256sum (digest path : String)
  | loadkmap
  | isPid1
  | test (op : FileTest) (path : Text)
  | cat (path : String)
  | readlink (path : String)
  | grep (flags pattern path : String)
  | usbRootSelect (errorsKept : Bool)
  | e2fsck (dev : Text)
  | sleep
  | switchRoot
  deriving DecidableEq

def bmapDigest : String := "606ecd98f83b72983f3cd35976df939dc9c7187283703736a81e89b65aee85a8"

def gateError : String := "/tmp/usb-root-gate-error"

def executable (path : String) : Cmd := .test .executable path.toList

/-! ### Text -/

/-- `printf '%s\n' "$result" | sed -n 's/^key//p'` in a command substitution. -/
def field (key result : Text) : Text :=
  let lines := (result.splitOn '\n').filterMap fun line =>
    if key.isPrefixOf line then some (line.drop key.length) else none
  (['\n'].intercalate lines).rdropWhile (· = '\n')

def device (result : Text) : Text := field "usb_root_device=".toList result

def partuuid (result : Text) : Text := field "partuuid=".toList result

/-! ### The phases -/

/-- The bootstrap, the keymap and the checks before discovery. -/
def bootstrap : ScriptM Cmd Unit := do
  orStop (.mkdir ["/proc", "/sys", "/dev", "/newroot", "/tmp"]) "bootstrap directories failed"
  orStop (.mount .devtmpfs .dev) "bootstrap devtmpfs failed"
  let keymap ← chain [(.sha256sum bmapDigest "/etc/wallace-no.bmap", Answer.ok),
    (.loadkmap, Answer.ok)]
  stopIf (keymap = false) "Norwegian keymap missing/mismatched/unloadable"
  orStop (.mount .proc .proc) "proc mount failed"
  orStop (.mount .sysfs .sys) "sysfs mount failed"
  orStop .isPid1 "not PID1"
  let online ← chain [(.cat "/sys/devices/system/cpu/online", Answer.prints ['0'])]
  stopIf (online = false) "one online CPU required"
  orStop (executable "/sbin/t6040-usb-root-metadata") "missing /sbin/t6040-usb-root-metadata"
  orStop (executable "/sbin/e2fsck") "missing /sbin/e2fsck"
  orStop (.test .readable "/opt/wallace/t6040-usb-root-select.sh".toList) "selector missing"

/-- The discovery loop, with `left = 30 - n`. -/
def discover (left : ℕ) : ScriptM Cmd Text := do
  let a ← ask (.usbRootSelect true)
  if a.status = 0 then pure a.out
  else if a.status = 3 then
    match left with
    | 0 => do
      let _ ← ask (.cat gateError)
      stop "stick discovery timed out"
    | left + 1 => do
      let _ ← ask .sleep
      discover left
  else do
    let _ ← ask (.cat gateError)
    stop "identity/metadata gate rejected root"

/-- The checks of the mounted root: a line of the script each, of tests joined by `&&`. -/
def inspection (partuuid : Text) : List (List (Check Cmd)) :=
  let conf := "/newroot/etc/X11/xorg.conf.d/00-keyboard.conf"
  let layout := "^[[:space:]]*Option[[:space:]]+\"XkbLayout\"[[:space:]]+\"no\"[[:space:]]*$"
  [[(executable "/newroot/bin/busybox", Answer.ok),
      (.readlink "/newroot/sbin/init", Answer.prints "/bin/busybox".toList),
      (executable "/newroot/sbin/openrc", Answer.ok),
      (executable "/newroot/sbin/openrc-run", Answer.ok),
      (.cat "/newroot/etc/wallace-root-partuuid", Answer.prints partuuid),
      (.cat "/newroot/etc/wallace-root-profile", Answer.prints "usb-daily-6005-v1".toList)],
    [(.sha256sum bmapDigest "/newroot/etc/wallace-no.bmap", Answer.ok)],
    [(executable "/newroot/etc/init.d/t6040-keymap", Answer.ok),
      (.readlink "/newroot/etc/runlevels/boot/t6040-keymap",
        Answer.prints "/etc/init.d/t6040-keymap".toList)],
    [(.grep "-Eq" "^keymap=\"no\"$" "/newroot/etc/conf.d/keymaps", Answer.ok)],
    [(.grep "-Eq" layout conf, Answer.ok)],
    [(.grep "-Fxq" "::sysinit:/sbin/openrc sysinit" "/newroot/etc/inittab", Answer.ok)],
    [(.grep "-Fxq" "::wait:/sbin/openrc default" "/newroot/etc/inittab", Answer.ok)],
    [(.grep "-Fxq" "::shutdown:/usr/local/sbin/t6040-usb-root-openrc shutdown"
      "/newroot/etc/inittab", Answer.ok)],
    [(executable "/newroot/usr/local/sbin/t6040-usb-root-openrc", Answer.ok)],
    [(executable "/newroot/etc/init.d/mount-ro", Answer.ok),
      (.readlink "/newroot/etc/runlevels/shutdown/mount-ro",
        Answer.prints "/etc/init.d/mount-ro".toList)]]

/-- The read-only view of the selected root and the second run of the selector. -/
def inspect (result : Text) : ScriptM Cmd Unit := do
  let block ← ask (.test .block (device result))
  stopIf (¬(block.ok = true ∧ partuuid result ≠ [])) "invalid selector output"
  orStop (.e2fsck (device result)) "read-only fsck failed"
  orStop (.mountRoot .ro (device result)) "read-only root inspection failed"
  let rootOk ← chains (inspection (partuuid result))
  orStop (.umount .newroot) "read-only root view stayed busy"
  stopIf (rootOk = false) "root OpenRC/keymap/shutdown contract failed"
  let again ← ask (.usbRootSelect false)
  stopIf (again.ok = false) "identity changed after inspection"
  stopIf (again.out ≠ result) "root identity changed during inspection"

/-- The directories and virtual file systems of the new root. -/
def virtualChecks : List (Check Cmd) :=
  [(.mkdir ["/newroot/dev", "/newroot/proc", "/newroot/sys"], Answer.ok),
    (.mount .devtmpfs .newrootDev, Answer.ok), (.mount .proc .newrootProc, Answer.ok),
    (.mount .sysfs .newrootSys, Answer.ok)]

/-- The way back from a failed handoff. -/
def retreat : ScriptM Cmd Unit := do
  let _ ← ask (.umount .newrootSys)
  let _ ← ask (.umount .newrootProc)
  let _ ← ask (.umount .newrootDev)
  orStop .remountRo "handoff failed and root did not become RO"
  orStop (.umount .newroot) "handoff failed and root stayed mounted"
  stop "virtual filesystem handoff failed"

/-- The read-write mount, the virtual file systems and `exec switch_root`. -/
def handoff (dev : Text) : ScriptM Cmd Unit := do
  orStop (.mountRoot .rw dev) "verified root RW mount failed"
  let ok ← chain virtualChecks
  if ok = true then do
    let _ ← ask .switchRoot
    pure ()
  else retreat

def init : ScriptM Cmd Unit := do
  bootstrap
  let result ← discover 30
  inspect result
  handoff (device result)

end Wallace.InitModel
