import Mathlib.Data.List.Basic
import Mathlib.Tactic.Common
import Wallace.Bytes
import Wallace.Shell

/-!
The access plan of the PCIe controller, `t6040-pcie-write-plan.py`.

The plan is a list of rows in the order in which m1n1 makes the accesses. The rows of phase `pmgr`
power the clock gates: `enable_pmgr` goes up to the parents of a device first. Device 0 is none.
What the ADT helper of m1n1 returns for a device is a field of it here.
-/

namespace Wallace.PciePlan

open Wallace.Bytes
open Script (Text)

inductive Phase
  | pmgr
  | controller
  | phy
  | port (n : ℕ)
  deriving DecidableEq

inductive Operation
  | write
  | set
  | clear
  | rmw
  deriving DecidableEq

structure Write where
  phase : Phase
  source : Text
  address : ℕ
  size : ℕ
  operation : Operation
  mask : ℕ
  value : ℕ
  deriving DecidableEq

/-- The ways in which no plan is made. The last one is not the script's: the model has stopped
before it was done. -/
inductive Err
  | keyError (id : ℕ)
  | valueError (source : Text)
  /-- The `ValueError` of `parse_local_raw`. -/
  | lengthError (length : ℕ)
  | indexError
  | systemExit (why : String)
  | unfinished
  deriving DecidableEq

abbrev Rows := Except Err (List Write)

/-! ### Rows -/

section Rows

variable (phase : Phase) (source : Text) (address : ℕ)

def add (size : ℕ) (operation : Operation) (mask value : ℕ) : Rows :=
  if 2 ^ (size * 8) ≤ mask ∨ 2 ^ (size * 8) ≤ value then .error (.valueError source)
  else .ok [⟨phase, source, address, size, operation, mask, value⟩]

def write32 (value : ℕ) : Rows := add phase source address 4 .write 0xFFFFFFFF value

def set32 (bits : ℕ) : Rows := add phase source address 4 .set bits bits

def clear32 (bits : ℕ) : Rows := add phase source address 4 .clear bits 0

def rmw (size mask value : ℕ) : Rows := add phase source address size .rmw mask value

/-- One after the other, until one raises. -/
def inOrder (l : List Rows) : Rows := (l.mapM id).map List.flatten

structure Tunable where
  offset : ℕ
  size : ℕ
  mask : ℕ
  value : ℕ

def localParsed (base : ℕ) (tunables : List Tunable) : Rows :=
  inOrder (tunables.map fun t => rmw phase source (base + t.offset) t.size t.mask t.value)

/-- `struct.iter_unpack("<IIQQ", raw)`, of records of 24 bytes. -/
def unpack (raw : List UInt8) : List Tunable :=
  (List.range (raw.length / 24)).map fun i =>
    { offset := leNat (sub raw (24 * i) 4)
      size := leNat (sub raw (24 * i + 4) 4)
      mask := leNat (sub raw (24 * i + 8) 8)
      value := leNat (sub raw (24 * i + 16) 8) }

/-- `local_raw`; `parse_local_raw` raises if there are not whole records. -/
def localRaw (base : ℕ) (raw : List UInt8) : Rows :=
  if raw.length % 24 ≠ 0 then .error (.lengthError raw.length)
  else localParsed phase source base (unpack raw)

end Rows

/-! ### Power -/

/-- A device of the PMGR; `critical` is the name that the parser has for virtual ones. -/
structure Device where
  id : ℕ
  name : Text
  parents : List ℕ
  addr : ℕ
  critical : Bool
  deriving DecidableEq

abbrev Pmgr := List Device

/-- `by_id`: of devices with one id, the dictionary has the last. -/
def byId (pmgr : Pmgr) (id : ℕ) : Option Device := pmgr.reverse.find? fun dev => dev.id = id

def pmgrMask : ℕ := 0x1000030F
def pmgrActive : ℕ := 0x0000000F

/-- `f"clock-gate:{device_id}:{dev.name}"`. -/
def gateSource (id : ℕ) (name : Text) : Text :=
  "clock-gate:".toList ++ Shell.decimal id ++ ':' :: name

def gateAddress (dev : Device) (die : ℕ) : ℕ := dev.addr + die * 0x2000000000

/-- `enable_pmgr`, to a depth of recursion. -/
def enablePmgr (pmgr : Pmgr) (die : ℕ) : ℕ → ℕ → Rows
  | 0, _ => .error .unfinished
  | fuel + 1, id =>
    if id = 0 then .ok []
    else
      match byId pmgr id with
      | none => .error (.keyError id)
      | some dev => do
        let above ← inOrder ((dev.parents.filter (· ≠ 0)).map (enablePmgr pmgr die fuel))
        let own ← if dev.critical then .ok [] else
          rmw .pmgr (gateSource id dev.name) (gateAddress dev die) 4 pmgrMask pmgrActive
        return above ++ own

/-- A clock gate: the id of its device and its die. -/
def gateId (encoded : ℕ) : ℕ := encoded &&& 0xFFFF
def gateDie (encoded : ℕ) : ℕ := (encoded >>> 28) &&& 0xF

def enableGate (pmgr : Pmgr) (fuel encoded : ℕ) : Rows :=
  enablePmgr pmgr (gateDie encoded) fuel (gateId encoded)

/-! ### The node -/

/-- A bridge of the controller: its raw tunables and its link speeds, those of its first child
where there is one. -/
structure Bridge where
  name : Text
  configTunables : List UInt8
  rcTunables : List UInt8
  rcGen3ShadowTunables : List UInt8
  rcGen4ShadowTunables : List UInt8
  maximumLinkSpeed : ℕ
  targetLinkSpeed : ℕ
  expectedLinkSpeed : ℕ

/-- `/arm-io/apcie0`. -/
structure Node where
  compatible : List Text
  ports : ℕ
  regs : List (ℕ × ℕ)
  clockGates : List ℕ
  axi2afTunables : List Tunable
  commonTunables : Option (List Tunable)
  cio3pllcoreTunables : List Tunable
  pcieclkgenTunables : List Tunable
  phyTunables : List Tunable
  phyIpPllTunables : List Tunable
  phyIpAuspmaTunables : List Tunable
  bridges : Bridge × Bridge

section Plan

variable (pmgr : Pmgr) (node : Node)

/-- `regs[i][0]`; the checks make sure that it is there. -/
def Node.reg (i : ℕ) : ℕ := (node.regs.getD i (0, 0)).1

/-- The gates but the last, whose rows come first. -/
def firstGates (fuel : ℕ) : Rows := inOrder (node.clockGates.dropLast.map (enableGate pmgr fuel))

/-- The controller up to the clock generator. -/
def controllerRows : Rows := inOrder [
  localParsed .controller "apcie-axi2af-tunables".toList (node.reg 4) node.axi2afTunables,
  write32 .controller "pcie.c:rc+0x4".toList (node.reg 1 + 0x4) 0,
  match node.commonTunables with
  | none => .ok []
  | some tunables =>
    localParsed .controller "apcie-common-tunables".toList (node.reg 1) tunables,
  localParsed .controller "apcie-cio3pllcore-tunables".toList (node.reg 5)
    node.cio3pllcoreTunables,
  localParsed .controller "apcie-pcieclkgen-tunables".toList (node.reg 6)
    node.pcieclkgenTunables]

/-- The last gate. -/
def lastGate (fuel : ℕ) : Rows :=
  match node.clockGates.getLast? with
  | none => .error .indexError
  | some encoded => enableGate pmgr fuel encoded

def phyRows : Rows :=
  let phyReg := node.reg 2
  let phy := phyReg + 0x8000
  let phyIp := node.reg 3
  let rc := node.reg 1
  inOrder [
    localParsed .controller "apcie-phy-tunables".toList phyReg node.phyTunables,
    set32 .phy "CLK0REQ".toList phy 0x1,
    set32 .phy "CLK1REQ".toList phy 0x2,
    clear32 .phy "RESET".toList phy 0x80,
    set32 .phy "T8122 pre-tunable control".toList (phy + 0x4) 0x1,
    localParsed .phy "apcie-phy-ip-pll-tunables".toList phyIp node.phyIpPllTunables,
    localParsed .phy "apcie-phy-ip-auspma-tunables".toList phyIp node.phyIpAuspmaTunables,
    set32 .phy "T8122 post-tunable control".toList (phy + 0x4) 0x10,
    rmw .phy "PHYCMN clock mode".toList (phyReg + 0x4000) 4 0x3 0x1,
    set32 .phy "T8122 PHY control".toList phy 0x200,
    write32 .phy "RC init".toList (rc + 0x54) 0x140,
    write32 .phy "RC init".toList (rc + 0x50) 0x1]

/-- The speed that a bridge is set to. -/
def linkSpeed (bridge : Bridge) : ℕ :=
  let override :=
    if bridge.targetLinkSpeed ≠ 0 then bridge.targetLinkSpeed else bridge.expectedLinkSpeed
  if bridge.maximumLinkSpeed = 1 ∧ override ≠ 0 then override else bridge.maximumLinkSpeed

/-- The rows of a port, with the base of its configuration space. -/
def portRows (n config : ℕ) (bridge : Bridge) : Rows :=
  let phase := Phase.port n
  let portBase := node.reg (7 + n * 7)
  let portPhy := node.reg (7 + n * 7 + 2)
  let intr2axi := node.reg (7 + n * 7 + 4)
  let tunables (prop : String) (base : ℕ) (raw : List UInt8) :=
    localRaw phase (bridge.name ++ ':' :: prop.toList) base raw
  let init := fun p : ℕ × ℕ => write32 phase "T8122 port init".toList (portBase + p.1) p.2
  let speed := linkSpeed bridge
  inOrder (
    [clear32 phase "T6031 AXI control".toList (node.reg 4 + 0x600) 0x10000] ++
    ([(0x88, 0x110), (0x100, 0xFFFFFFFF), (0x148, 0xFFFFFFFF), (0x210, 0xFFFFFFFF), (0x80, 0),
      (0x84, 0), (0x104, 0xFFFFFFF0), (0x124, 0x100), (0x16C, 0), (0x13C, 0x10),
      (0x800, 0x100100), (0x808, 0x1000FF), (0x82C, 0)].map init) ++
    ((List.range 16).map fun i =>
      write32 phase "RID2SID clear".toList (portBase + 0x3000 + 4 * i) 0) ++
    ((List.range 512).map fun i =>
      write32 phase "MSIMAP clear".toList (portBase + 0x3800 + 4 * i) 0) ++
    ([(0x130, 0x03000000), (0x140, 0x10), (0x144, 0x253770), (0x21C, 0), (0x834, 0),
      (0x83C, 0)].map init) ++
    [tunables "apcie-config-tunables" portBase bridge.configTunables,
      set32 phase "APPCLK enable".toList (portBase + 0x800) 0x1,
      clear32 phase "port PHY clear clock requests".toList portPhy 0x3,
      set32 phase "port PHY CLK0REQ".toList portPhy 0x1,
      set32 phase "port PHY CLK1REQ".toList portPhy 0x2,
      clear32 phase "T8122 port PHY control".toList portPhy 0x10,
      set32 phase "port PHY control".toList portPhy 0x200,
      set32 phase "port PHY control".toList portPhy 0x400,
      set32 phase "PERST# deassert".toList (portBase + 0x82C) 0x1,
      set32 phase "DBI read-only write enable".toList (config + 0x8BC) 0x1,
      tunables "pcie-rc-tunables" config bridge.rcTunables,
      tunables "pcie-rc-gen3-shadow-tunables" config bridge.rcGen3ShadowTunables,
      tunables "pcie-rc-gen4-shadow-tunables" config bridge.rcGen4ShadowTunables,
      if speed = 0 then .error (.systemExit "invalid link speed") else .ok [],
      rmw phase "PCIe LNKCAP speed".toList (config + 0x7C) 4 0xF speed,
      rmw phase "PCIe LNKCAP2 speeds".toList (config + 0x9C) 4 0x7E ((2 ^ speed - 1) * 2),
      rmw phase "PCIe LNKCTL2 target speed".toList (config + 0xA0) 2 0xF speed,
      set32 phase "DesignWare speed change".toList (config + 0x80C) 0x20000,
      rmw phase "DesignWare 1-lane mode".toList (config + 0x710) 4 0x3F0000 0x10000,
      rmw phase "DesignWare link width 1".toList (config + 0x80C) 4 0x1F00 0x100,
      rmw phase "PCIe LNKCAP width 1".toList (config + 0x7C) 4 0x3F0 0x10,
      clear32 phase "DBI read-only write disable".toList (config + 0x8BC) 0x1,
      write32 phase "T6031 post-link control".toList (portBase + 0x4020) 0x3,
      write32 phase "Intr2AXI enable".toList (intr2axi + 0x80) 0x1,
      clear32 phase "RC post-link control".toList (node.reg 1 + 0x3C) 0x1] ++
    ((List.range 32).map fun i =>
      write32 phase "MSIMAP vector".toList (portBase + 0x3800 + 4 * i) (0x80000000 ||| i)))

/-- The rows in order: all but the last gate, the controller up to the clock generator, the last
gate, and the rest. -/
def emit (fuel : ℕ) : Rows := inOrder [
  firstGates pmgr node fuel,
  controllerRows node,
  lastGate pmgr node fuel,
  phyRows node,
  portRows node 0 (node.reg 0) node.bridges.1,
  portRows node 1 (node.reg 0 + 2 ^ 15) node.bridges.2]

def expectedRegs : List (ℕ × ℕ) :=
  [(0x1CB0000000, 0x10000000), (0x414000000, 0x4000), (0x417000000, 0x40000),
    (0x417040000, 0x28000), (0x416000000, 0x1000000), (0x415046200, 0x4000),
    (0x415044000, 0x4000)]

def expectedClockGates : List Text :=
  ["ANS", "APCIE_GP", "APCIE_SYS_GP", "APCIE_ST0", "APCIE_SYS_ST0", "APCIE_ST1",
    "APCIE_SYS_ST1", "APCIE_PHY_SW"].map String.toList

/-- The registers that are looked at. -/
def checkRegs : Except Err Unit :=
  expectedRegs.zipIdx.forM fun p =>
    match node.regs[p.2]? with
    | none => .error .indexError
    | some reg => if reg ≠ p.1 then .error (.systemExit "apcie0 reg changed") else .ok ()

/-- The names of the clock gates. -/
def actualClockGates : Except Err (List Text) :=
  node.clockGates.mapM fun encoded =>
    match byId pmgr (gateId encoded) with
    | none => .error (.keyError (gateId encoded))
    | some dev => .ok dev.name

/-- The whole plan: the checks, and the rows. -/
def plan (fuel : ℕ) : Rows :=
  if "apcie,t6040".toList ∉ node.compatible then
    .error (.systemExit "unexpected apcie0 compatible")
  else if node.ports ≠ 4 then .error (.systemExit "unexpected apcie0 port count")
  else do
    checkRegs node
    if node.regs.length ≠ 35 then .error (.systemExit "unexpected apcie0 reg count")
    let names ← actualClockGates pmgr node
    if names ≠ expectedClockGates then .error (.systemExit "apcie0 clock-gates changed")
    emit pmgr node fuel

end Plan

end Wallace.PciePlan
