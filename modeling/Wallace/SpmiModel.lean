import Mathlib.Logic.Function.Basic
import Mathlib.Tactic.Common

/-!
The SPMI transport of the USB PD controllers: `spmi.c` of the tps6598x driver over the
register-zero-write of the Apple SPMI controller.

The device keeps a byte array for each logical register and shows one of them, the selected
one, in a window of its SPMI registers. What the bus makes of a transaction, errors
included, is an input; a transaction that fails may still have reached the device. Accesses
to the window that the device promises nothing about have an arbitrary effect.
-/

namespace Wallace.SpmiModel

abbrev Byte := BitVec 8

/-- The logical registers, each with its bytes. -/
abbrev Regs := Byte → ℕ → Byte

inductive Err | einval | eio | etimedout | transport (code : ℕ)
  deriving DecidableEq

/-- What the driver does on the bus. A window access is logged with the register that is
selected at that moment and whether the selection has settled. -/
inductive Event
  | zeroWrite (word : BitVec 32)
  | readSelect
  | windowRead (addr : Byte) (len : ℕ) (selected : Byte) (settled : Bool)
  | windowWrite (addr : Byte) (bytes : List Byte) (selected : Byte) (settled : Bool)
  deriving DecidableEq

/-- What the bus and the device make of one transaction: an error of the transport, and then
how much of it took effect; the reply to a zero-write, and for how many polls the selection
reads busy after it; what an access outside the promise reads and leaves behind. -/
structure Tx where
  err : Option Err := none
  acted : ℕ := 0
  rsp : BitVec 32 := 0
  polls : ℕ := 0
  noise : List Byte := []
  wild : Regs := fun _ _ => 0

/-- The device, the number of transactions so far and the log. -/
structure World where
  regs : Regs
  selected : Byte
  busy : ℕ
  clock : ℕ := 0
  log : List Event := []

def World.next (w : World) (e : Event) : World :=
  { w with clock := w.clock + 1, log := w.log ++ [e] }

section Driver

variable (env : ℕ → Tx) (sid : Byte)

/-! ### The controller -/

/-- The opcode of a register-zero-write: `APPLE_SPMI_OPC_ZERO_WRITE | (data & 0x7f)`. -/
def zeroWriteOpc (data : Byte) : Byte := 0x80 ||| (data &&& 0x7f)

/-- `opc | sid << 8 | BIT(15) | (u32)data << 24`. -/
def zeroWriteWord (data : Byte) : BitVec 32 :=
  (zeroWriteOpc data).setWidth 32 ||| sid.setWidth 32 <<< 8 ||| 0x8000#32 |||
    data.setWidth 32 <<< 24

/-- The device takes the value from the low seven bits of the opcode. -/
def World.select (w : World) (word : BitVec 32) (polls : ℕ) : World :=
  { w with selected := (word.setWidth 7).setWidth 8, busy := polls }

/-- `(rsp & 0xff) != opc || ((rsp >> 8) & 0x7f) != sid || !(rsp & BIT(15))`. -/
def badReply (data : Byte) (rsp : BitVec 32) : Bool :=
  rsp &&& 0xff ≠ (zeroWriteOpc data).setWidth 32 ∨ (rsp >>> 8) &&& 0x7f ≠ sid.setWidth 32 ∨
    rsp &&& 0x8000 = 0

/-- `apple_spmi_zero_write`. -/
def appleSpmiZeroWrite (data : Byte) (w : World) : Option Err × World :=
  let word := zeroWriteWord sid data
  let tx := env w.clock
  let w := w.next (.zeroWrite word)
  let failed := if tx.acted = 0 then w else w.select word tx.polls
  match tx.err with
  | some e => (some e, failed)
  | none => if badReply sid data tx.rsp then (some .eio, failed)
    else (none, w.select word tx.polls)

/-- `spmi_register_zero_write`, which comes to `spmi_write_cmd` with the one byte. -/
def spmiRegisterZeroWrite (data : Byte) (w : World) : Option Err × World :=
  if data > 0x7f then (some .einval, w) else appleSpmiZeroWrite env sid data w

/-- The window of the selected register is there once the selection has settled, for
addresses that do not run over the end of the register space. -/
def World.promised (w : World) (addr : Byte) (len : ℕ) : Prop :=
  w.busy = 0 ∧ 0x20 ≤ addr.toNat ∧ addr.toNat + len ≤ 0x100

instance (w : World) (addr : Byte) (len : ℕ) : Decidable (w.promised addr len) :=
  inferInstanceAs (Decidable (_ ∧ _))

def flatRead (regs : Regs) (reg : Byte) (off len : ℕ) : List Byte :=
  (List.range len).map fun i => regs reg (off + i)

def flatWrite (regs : Regs) (reg : Byte) (off : ℕ) (bytes : List Byte) : Regs :=
  Function.update regs reg fun i =>
    if off ≤ i ∧ i < off + bytes.length then bytes.getD (i - off) 0 else regs reg i

/-- `spmi_ext_register_read`, of at most 16 bytes. Address 0 is the select register, which
reads busy for a number of polls. -/
def spmiExtRegisterRead (addr : Byte) (len : ℕ) (w : World) : Except Err (List Byte) × World :=
  if len = 0 ∨ 16 < len then (.error .einval, w)
  else
    let tx := env w.clock
    if addr = 0 ∧ len = 1 then
      let sel := if w.busy = 0 then w.selected else w.selected ||| 0x80
      let w := w.next .readSelect
      match tx.err with
      | some e => (.error e, { w with busy := w.busy - min tx.acted 1 })
      | none => (.ok [sel], { w with busy := w.busy - 1 })
    else
      let w' := w.next (.windowRead addr len w.selected (w.busy = 0))
      match tx.err with
      | some e => (.error e, w')
      | none => if w.promised addr len then
          (.ok (flatRead w.regs w.selected (addr.toNat - 0x20) len), w')
        else (.ok tx.noise, { w' with regs := tx.wild })

/-- `spmi_ext_register_write`, of at most 16 bytes; of a transfer that fails some bytes may
have been written. -/
def spmiExtRegisterWrite (addr : Byte) (bytes : List Byte) (w : World) : Option Err × World :=
  if bytes.length = 0 ∨ 16 < bytes.length then (some .einval, w)
  else
    let tx := env w.clock
    let w' := w.next (.windowWrite addr bytes w.selected (w.busy = 0))
    let written := match tx.err with
      | some _ => bytes.take tx.acted
      | none => bytes
    (tx.err, if w.promised addr bytes.length then
        { w' with regs := flatWrite w.regs w.selected (addr.toNat - 0x20) written }
      else { w' with regs := tx.wild })

/-! ### The driver -/

/-- The polls of `tps6598x_spmi_select`. -/
def selectLoop (reg : Byte) : ℕ → World → Option Err × World
  | 0, w => (some .etimedout, w)
  | n + 1, w =>
    match spmiExtRegisterRead env 0 1 w with
    | (.error e, w) => (some e, w)
    | (.ok bytes, w) =>
      let sel := bytes.headD 0
      if sel = reg then (none, w)
      else if sel ≠ reg ||| 0x80 then (some .eio, w)
      else selectLoop reg n w

/-- `tps6598x_spmi_select`. -/
def spmiSelect (reg : Byte) (w : World) : Option Err × World :=
  match spmiRegisterZeroWrite env sid reg w with
  | (some e, w) => (some e, w)
  | (none, w) => selectLoop env reg 100 w

/-- `while (len)` of `tps6598x_spmi_window_read`, which makes at most `len` turns. -/
def windowReadLoop : ℕ → Byte → ℕ → World → Except Err (List Byte) × World
  | 0, _, _, w => (.ok [], w)
  | n + 1, addr, len, w =>
    if len = 0 then (.ok [], w)
    else
      let chunk := min len 16
      match spmiExtRegisterRead env addr chunk w with
      | (.error e, w) => (.error e, w)
      | (.ok val, w) =>
        match windowReadLoop n (addr + BitVec.ofNat 8 chunk) (len - chunk) w with
        | (.error e, w) => (.error e, w)
        | (.ok rest, w) => (.ok (val ++ rest), w)

/-- `tps6598x_spmi_window_read`. -/
def spmiWindowRead (len : ℕ) (w : World) : Except Err (List Byte) × World :=
  windowReadLoop env len 0x20 len w

/-- `while (len)` of `tps6598x_spmi_window_write`. -/
def windowWriteLoop : ℕ → Byte → List Byte → World → Option Err × World
  | 0, _, _, w => (none, w)
  | n + 1, addr, val, w =>
    if val.length = 0 then (none, w)
    else
      let chunk := min val.length 16
      match spmiExtRegisterWrite env addr (val.take chunk) w with
      | (some e, w) => (some e, w)
      | (none, w) => windowWriteLoop n (addr + BitVec.ofNat 8 chunk) (val.drop chunk) w

/-- `tps6598x_spmi_window_write`. -/
def spmiWindowWrite (val : List Byte) (w : World) : Option Err × World :=
  windowWriteLoop env val.length 0x20 val w

/-- `tps6598x_spmi_read`. -/
def spmiRead (reg : List Byte) (len : ℕ) (w : World) : Except Err (List Byte) × World :=
  match reg with
  | [reg] =>
    match spmiSelect env sid reg w with
    | (some e, w) => (.error e, w)
    | (none, w) => spmiWindowRead env len w
  | _ => (.error .einval, w)

/-- `tps6598x_spmi_gather_write`. -/
def spmiGatherWrite (reg val : List Byte) (w : World) : Option Err × World :=
  match reg with
  | [reg] =>
    match spmiSelect env sid reg w with
    | (some e, w) => (some e, w)
    | (none, w) => spmiWindowWrite env val w
  | _ => (some .einval, w)

/-- `tps6598x_spmi_write`: the first byte is the register, the rest the payload. -/
def spmiWrite (data : List Byte) (w : World) : Option Err × World :=
  match data with
  | [] => (some .einval, w)
  | reg :: val => spmiGatherWrite env sid [reg] val w

/-! ### Calls -/

inductive Call
  | read (reg : Byte) (len : ℕ)
  | gatherWrite (reg : Byte) (val : List Byte)
  | write (reg : Byte) (val : List Byte)

def Call.reg : Call → Byte
  | .read reg _ => reg
  | .gatherWrite reg _ => reg
  | .write reg _ => reg

/-- The length of the payload. -/
def Call.size : Call → ℕ
  | .read _ len => len
  | .gatherWrite _ val => val.length
  | .write _ val => val.length

/-- What a call returns: an error, or what was read. -/
abbrev Outcome := Except Err (List Byte)

def ofErr : Option Err → Outcome
  | some e => .error e
  | none => .ok []

def exec (c : Call) (w : World) : Outcome × World :=
  match c with
  | .read reg len => spmiRead env sid [reg] len w
  | .gatherWrite reg val => (spmiGatherWrite env sid [reg] val w).map ofErr id
  | .write reg val => (spmiWrite env sid (reg :: val) w).map ofErr id

/-- A sequence of calls: what each was called in, returned and left. -/
def runCalls : List Call → World → List (World × Call × Outcome × World)
  | [], _ => []
  | c :: calls, w =>
    let r := exec env sid c w
    (w, c, r.1, r.2) :: runCalls calls r.2

end Driver

end Wallace.SpmiModel
