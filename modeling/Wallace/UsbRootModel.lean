import Mathlib.Data.List.Basic
import Mathlib.Tactic.Common
import Wallace.InitModel
import Wallace.Scan
import Wallace.Shell

/-!
The selector `t6040-usb-root-select.sh`.

The files do not change while it runs. What the kernel and the tools say about a path is a record
of functions on paths: any tree gives one. The working directory comes in only through the
pathname expansion of the words of the command line. The helper
`t6040-usb-root-metadata` either fails or prints its report.
-/

namespace Wallace.UsbRootModel

open Shell Scan
open Script (Text)
open InitModel (field)

/-! ### The environment -/

inductive Kind | regular | block | other
  deriving DecidableEq

/-- The numbers in the report of the helper, for an extent that it accepts. -/
structure Report where
  first : ℕ
  last : ℕ
  mediaBytes : ℕ
  layoutBytes : ℕ
  first_le : first ≤ last
  last_lt : last < 2 ^ 63

structure Env where
  /-- The names in a directory, in the order in which `*` enumerates them. -/
  list : Text → List Text
  list_nodup : ∀ dir, (list dir).Nodup
  /-- What is at the end of the links; `none` if `[ -e ]` fails. -/
  kind : Text → Option Kind
  /-- `[ -L ]`. -/
  symlink : Text → Bool
  /-- `[ -r ]`. -/
  readable : Text → Bool
  read : Text → Option Text
  /-- `readlink -f`. -/
  readlink : Text → Option Text
  /-- The major and the minor number of a node. -/
  stat : Text → Option (UInt32 × UInt32)
  /-- Pathname expansion of a word. -/
  glob : Text → List Text
  /-- The helper of that name, with its arguments. -/
  metadata : Text → List Text → Option Report

/-- `x=$(cat path)`, if it succeeds. -/
def Env.cat (env : Env) (path : Text) : Option Text := (env.read path).map subst

/-- `"$(cat path 2>/dev/null)"`, whether it succeeds or not. -/
def Env.text (env : Env) (path : Text) : Text := (env.cat path).getD []

/-- The status with which the script exits, and the message of `usb_root_fail`. -/
structure Stop where
  status : ℕ
  why : String
  deriving DecidableEq

abbrev Sel (α : Type) : Type := Except Stop α

def Sel.status {α : Type} : Sel α → ℕ
  | .ok _ => 0
  | .error e => e.status

/-- The selector prints nothing before it succeeds. -/
def Sel.stdout : Sel Text → Text
  | .ok out => out
  | .error _ => []

variable {α : Type}

/-- `usb_root_fail why; exit 1`. -/
def fail (why : String) : Sel α := .error ⟨1, why⟩

/-- `c || { usb_root_fail why; exit 1; }`. -/
def require (c : Prop) [Decidable c] (why : String) : Sel Unit :=
  if c then pure () else fail why

/-- `command || exit 1`. -/
def orExit : Option α → Sel α
  | some a => pure a
  | none => fail ""

/-! ### The patterns -/

def lowerHex (c : Char) : Bool := c.isDigit ∨ 'a' ≤ c ∧ c ≤ 'f'

/-- `^[0-9a-f]{8}-[0-9a-f]{4}-[0-9a-f]{4}-[0-9a-f]{4}-[0-9a-f]{12}$`. -/
def isUuid (t : Text) : Bool :=
  (t.splitOn '-').map List.length = [8, 4, 4, 4, 12] ∧ (t.splitOn '-').all (·.all lowerHex)

/-- `^[0-9a-f]{4}$`. -/
def isUsbId (t : Text) : Bool := t.length = 4 ∧ t.all lowerHex

/-- `^[1-9][0-9]*$`. -/
def isNumber : Text → Bool
  | [] => false
  | c :: t => '1' ≤ c ∧ c ≤ '9' ∧ t.all Char.isDigit

/-- `^sd[a-z]+$`. -/
def isDiskName : Text → Bool
  | 's' :: 'd' :: t => t ≠ [] ∧ t.all fun c => 'a' ≤ c ∧ c ≤ 'z'
  | _ => false

/-- `^[0-9]+:[0-9]+$`. -/
def isDevNumber (t : Text) : Bool :=
  match t.splitOn ':' with
  | [a, b] => a ≠ [] ∧ b ≠ [] ∧ a.all Char.isDigit ∧ b.all Char.isDigit
  | _ => false

/-! ### The identity file -/

inductive Key
  | format | diskGuid | partuuid | fsuuid | mediaBytes | layoutBytes
  | usbVendor | usbProduct | usbSerial | usbRoute | usbController | removable
  deriving DecidableEq

def Key.all : List Key :=
  [.format, .diskGuid, .partuuid, .fsuuid, .mediaBytes, .layoutBytes,
    .usbVendor, .usbProduct, .usbSerial, .usbRoute, .usbController, .removable]

def Key.text : Key → Text
  | .format => "format".toList
  | .diskGuid => "disk_guid".toList
  | .partuuid => "partuuid".toList
  | .fsuuid => "fsuuid".toList
  | .mediaBytes => "media_bytes".toList
  | .layoutBytes => "layout_bytes".toList
  | .usbVendor => "usb_vendor".toList
  | .usbProduct => "usb_product".toList
  | .usbSerial => "usb_serial".toList
  | .usbRoute => "usb_route".toList
  | .usbController => "usb_controller".toList
  | .removable => "removable".toList

def Key.ofText (t : Text) : Option Key := Key.all.find? (·.text = t)

/-- The variables of the fields, empty before a line sets them. -/
abbrev Identity := Key → Text

structure Parse where
  seen : Text
  id : Identity

def Parse.init : Parse := ⟨['|'], fun _ => []⟩

/-- The lines that the loop passes over. -/
def skipped (key : Text) : Bool := key = [] ∨ key.head? = some '#'

def parseLine (p : Parse) (line : Text) : Sel Parse :=
  let (key, value) := readPair '=' line
  if skipped key then pure p
  else if '|' :: key ++ ['|'] <:+: p.seen then
    fail ("duplicate identity field " ++ String.ofList key)
  else if value = [] then fail ("empty identity field " ++ String.ofList key)
  else
    match Key.ofText key with
    | some k => pure ⟨p.seen ++ key ++ ['|'], Function.update p.id k value⟩
    | none => fail ("unknown identity field " ++ String.ofList key)

/-- The loop over the lines. A last line without its newline counts if it has a key. -/
def parseLines : Parse → List Text → Sel Parse
  | p, [] => pure p
  | p, line :: l => do
    let p ← parseLine p line
    parseLines p l

def controller : Text := "392280000.usb".toList

def checkIdentity (id : Identity) : Sel Unit := do
  require (id .format = "t6040-usb-root-identity-v1".toList ∧ id .removable = ['1'] ∧
    id .usbController = controller) "wrong identity format, controller or removable policy"
  require (∀ k ∈ [Key.diskGuid, Key.partuuid, Key.fsuuid], grep isUuid (id k) = true)
    "missing or invalid UUID"
  require (∀ k ∈ [Key.usbVendor, Key.usbProduct], grep isUsbId (id k) = true)
    "missing or invalid USB ID"
  require (id .usbSerial ≠ []) "USB serial must be pinned"
  require (grep isNumber (id .usbRoute) = true) "missing or non-direct USB route"
  require (∀ k ∈ [Key.mediaBytes, Key.layoutBytes],
    grep isNumber (id k) = true ∧ (id k).length ≤ 16) "missing or excessive media/layout size"
  require (number (id .layoutBytes) ≤ number (id .mediaBytes) ∧ number (id .mediaBytes) % 512 = 0)
    "invalid pinned capacity"

/-! ### The command line -/

def rootIs (partuuid : Text) : Text := "root=PARTUUID=".toList ++ partuuid

/-- The loop over the tokens, with the number of `root=` tokens so far. -/
def checkTokens (partuuid : Text) : List Text → ℕ → Sel ℕ
  | [], roots => pure roots
  | token :: l, roots =>
    if "root=".toList <+: token then
      if token = rootIs partuuid then checkTokens partuuid l (roots + 1)
      else fail "root= must match the pinned PARTUUID"
    else if "rootfstype=".toList <+: token then
      if token = "rootfstype=ext4".toList then checkTokens partuuid l roots
      else fail "only ext4 root is supported"
    else checkTokens partuuid l roots

/-- `for token in $(cat "$sys/../proc/cmdline" 2>/dev/null)`. -/
def tokens (env : Env) (sys : Text) : List Text :=
  (words (env.text (sys ++ "/../proc/cmdline".toList))).flatMap env.glob

/-! ### The candidates -/

inductive Mode | disk | image
  deriving DecidableEq

def Mode.text : Mode → Text
  | .disk => "disk".toList
  | .image => "image".toList

def Mode.ofText (t : Text) : Option Mode := [Mode.disk, .image].find? (·.text = t)

/-- What a device node has to be. -/
def Mode.kind : Mode → Kind
  | .disk => .block
  | .image => .regular

/-- `"$a/$b"`. -/
def sub (a : Text) (b : String) : Text := a ++ '/' :: b.toList

/-- The arguments and the identity, once they have been checked. -/
structure Ctx where
  env : Env
  sys : Text
  devroot : Text
  metadata : Text
  mode : Mode
  id : Identity

variable (x : Ctx)

def Ctx.devices : Text := sub x.sys "devices"

def Ctx.classBlock : Text := sub x.sys "class/block"

def Ctx.mountinfo : Text := sub x.sys "../proc/self/mountinfo"

def Ctx.entry (name : Text) : Text := x.classBlock ++ '/' :: name

def Ctx.node (name : Text) : Text := x.devroot ++ '/' :: name

/-- `"${name}1"`. -/
def part (name : Text) : Text := name ++ ['1']

/-- `case "$path" in "$sys"/devices/*/392280000.usb/*)`. -/
def Ctx.onController (path : Text) : Bool :=
  x.devices ++ ['/'] <+: path ∧
    '/' :: controller ++ ['/'] <:+: path.drop (x.devices ++ ['/']).length

/-- The checks of the ancestor that has an `idVendor`. -/
def Ctx.pinned (dev : Text) : Bool :=
  x.env.text (sub dev "idVendor") = x.id .usbVendor ∧
    x.env.text (sub dev "idProduct") = x.id .usbProduct ∧
    x.env.text (sub dev "serial") = x.id .usbSerial ∧
    x.env.text (sub dev "devpath") = x.id .usbRoute

/-- The loop over the ancestors of a path: `found`. -/
def Ctx.climb : ℕ → Text → Bool
  | 0, _ => false
  | fuel + 1, ancestor =>
    if ancestor ≠ x.devices ∧ ancestor ≠ ['/'] then
      if x.env.kind (sub ancestor "idVendor") = some .regular then x.pinned ancestor
      else Ctx.climb fuel (cutLast '/' ancestor)
    else false

/-- The gates of the loop, up to the device numbers of the disk and of its partition. -/
def Ctx.gates (name : Text) : Option (Text × Text) := do
  let entry := x.entry name
  guard ((x.env.kind entry).isSome = true)
  guard (grep isDiskName name = true)
  guard (x.env.kind (sub entry "partition") = none)
  let path ← x.env.readlink entry
  guard (x.onController path = true)
  guard (x.env.text (sub entry "removable") = ['1'])
  let sectors ← x.env.cat (sub entry "size")
  guard (sectors = decimal (number (x.id .mediaBytes) / 512))
  guard (x.climb path.length path = true)
  let partition ← x.env.readlink (x.entry (part name))
  guard (cutLast '/' partition = path ∧ x.env.text (sub (x.entry (part name)) "partition") = ['1'])
  guard (x.env.kind (x.node name) = some x.mode.kind ∧
    x.env.kind (x.node (part name)) = some x.mode.kind)
  guard (x.env.symlink (x.node name) = false ∧ x.env.symlink (x.node (part name)) = false)
  let dn ← x.env.cat (sub entry "dev")
  let pn ← x.env.cat (sub (x.entry (part name)) "dev")
  pure (dn, pn)

/-- `$3`. -/
def third (line : Text) : Text := ((words line)[2]?).getD []

/-- The status of the `awk` program, which is 2 for a file that it cannot read. -/
def mountedRc (mountinfo : Option Text) (dn pn : Text) : ℕ :=
  match mountinfo with
  | some t => if (lines t).any fun line => third line = dn ∨ third line = pn then 0 else 1
  | none => 2

/-- `selected`, `disk_number` and `partition_number`. -/
structure Stick where
  name : Text
  dn : Text
  pn : Text

/-- The body of the loop. -/
def Ctx.examine (name : Text) : Verdict Stop Stick :=
  match x.gates name with
  | none => .skip
  | some (dn, pn) =>
    if grep isDevNumber dn = true ∧ grep isDevNumber pn = true then
      match mountedRc (x.env.read x.mountinfo) dn pn with
      | 0 => .stop ⟨1, "matching disk/partition is already mounted"⟩
      | 1 => .found ⟨name, dn, pn⟩
      | _ => .stop ⟨1, "mount state inspection failed"⟩
    else .stop ⟨1, "device number unavailable"⟩

/-- `"$sys"/class/block/sd*`. -/
def Ctx.entries : List Text :=
  expand "sd*".toList ((x.env.list x.classBlock).filter ("sd".toList.isPrefixOf ·))

/-! ### The selected stick -/

/-- What the helper prints, without the newline at the end. -/
def report (id : Identity) (r : Report) : Text :=
  ['\n'].intercalate
    ["format=t6040-usb-root-metadata-v1".toList, "partition_number=1".toList,
      "disk_guid=".toList ++ id .diskGuid, "partuuid=".toList ++ id .partuuid,
      "filesystem_uuid=".toList ++ id .fsuuid,
      "partition_first_lba=".toList ++ decimal r.first,
      "partition_last_lba=".toList ++ decimal r.last,
      "media_bytes=".toList ++ decimal r.mediaBytes,
      "layout_bytes=".toList ++ decimal r.layoutBytes,
      "gpt_copies=verified".toList, "filesystem_type=ext4".toList,
      "filesystem_label=t6040root".toList, "ext4_state=clean".toList,
      "metadata_gate=PASS".toList]

/-- The partition node has the number that sysfs has for the partition. -/
def Ctx.checkNode (s : Stick) : Sel Unit :=
  match x.mode with
  | .image => pure ()
  | .disk => do
    let (major, minor) ← orExit (x.env.stat (x.node (part s.name)))
    let text := hex major.toNat ++ ':' :: hex minor.toNat
    let hm := cutLast ':' text
    let hn := cutFirst ':' text
    require ((hm ++ ':' :: hn).all fun c => lowerHex c || ('A' ≤ c && c ≤ 'F') || c = ':')
      "invalid partition device number"
    require (decimal (hexNumber hm) ++ ':' :: decimal (hexNumber hn) = s.pn)
      "partition node differs from sysfs identity"

/-- The arguments of the helper. -/
def Ctx.helperArgs (s : Stick) : List Text :=
  let number := match x.mode with
    | .disk => ["--device-number".toList, s.dn]
    | .image => []
  ["--".toList ++ x.mode.text, x.node s.name, "--disk-guid".toList, x.id .diskGuid,
    "--partuuid".toList, x.id .partuuid, "--fsuuid".toList, x.id .fsuuid,
    "--media-bytes".toList, x.id .mediaBytes, "--layout-bytes".toList, x.id .layoutBytes] ++ number

/-- The checks of the selected stick, and what is printed. -/
def Ctx.verify (s : Stick) : Sel Text := do
  x.checkNode s
  let r ← orExit (x.env.metadata x.metadata (x.helperArgs s))
  let printed := report x.id r
  let first := field "partition_first_lba=".toList printed
  let last := field "partition_last_lba=".toList printed
  let partition := x.entry (part s.name)
  require (first = "2048".toList ∧ x.env.text (sub partition "start") = first ∧
    x.env.text (sub partition "size") = decimal (number last - number first + 1))
    "kernel partition extent differs from verified GPT"
  pure (printed ++ "\nusb_root_device=".toList ++ x.node (part s.name) ++ ['\n'])

/-! ### The selector -/

/-- The loop over the entries, and what follows it. -/
def Ctx.choose : Tally Stick → Sel Text
  | ⟨0, _⟩ => .error ⟨3, "expected one matching right-port stick, found 0"⟩
  | ⟨1, s⟩ => x.verify s
  | ⟨n, _⟩ => fail ("expected one matching right-port stick, found " ++ toString n)

def Ctx.select : Sel Text := do
  let t ← scan x.examine x.entries ⟨0, ⟨[], [], []⟩⟩
  x.choose t

def usbRootSelect (env : Env) : List Text → Sel Text
  | [sys, devroot, identity, metadata, mode] =>
    match Mode.ofText mode with
    | none => fail "invalid mode"
    | some mode => do
      require (env.kind identity = some .regular ∧ env.symlink identity = false)
        "missing regular identity file"
      let p ← parseLines .init (lines ((env.read identity).getD []))
      checkIdentity p.id
      let roots ← checkTokens (p.id .partuuid) (tokens env sys) 0
      require (roots = 1) "need exactly one root= selector"
      require (env.readable (sub sys "../proc/self/mountinfo") = true) "mount state unavailable"
      Ctx.select ⟨env, sys, devroot, metadata, mode, p.id⟩
  | _ => fail "need sysfs, devroot, identity, metadata helper and mode"

end Wallace.UsbRootModel
