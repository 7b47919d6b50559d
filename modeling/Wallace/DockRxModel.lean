import Mathlib.Data.List.Basic
import Mathlib.Tactic.Common
import Wallace.DockTxModel

/-!
The receive side of the DockChannel mailbox in interrupt mode, with the rearm of RX after a
drain.

A byte that arrives goes into the FIFO and sets the RX flag. The flag register is
write-one-to-clear, and the parent line is oneshot: the hard handler is not entered while
it or the thread it woke still runs. The read of the flags, each section under `dc->lock`,
each read of the FIFO count and each FIFO access are steps of their own. The handler may
be entered with no enabled flag set, as on a shared line.

Of the transmit side there is what shares the registers: the locked section of a send that
goes through, the transmit flag, and in the handler `tx_active` and the answer of
`apple_dockchannel_tx_empty`, which may be either.

`arrived` and `delivered` are history: all bytes that came in, and the messages handed to
`mbox_chan_received_data`.
-/

namespace Wallace.DockRxModel

open DockTxModel (IrqMasks fifoSize)

/-- `apple_dockchannel_read` of the base driver: how many bytes the next FIFO access takes
when `n` are left to read. -/
structure Reader where
  width : ℕ → ℕ
  pos : ∀ n, 0 < n → 0 < width n
  le : ∀ n, width n ≤ n

/-- Where `apple_dockchannel_irq` stands. -/
inductive Hard
  | idle
  | lock (flags : BitVec 32)
  /-- At `out_unlock_none`, before the flags are acknowledged. -/
  | none (flags : BitVec 32)
  /-- After the locked section. -/
  | ret (pending : BitVec 32) (txDone : Bool)
  deriving DecidableEq

/-- Where `apple_dockchannel_irq_thread` stands. -/
inductive Thread
  | idle
  | woken
  | count
  | read (avail left : ℕ)
  | deliver (avail : ℕ)
  | enable
  | recheck
  | disable
  deriving DecidableEq

structure St where
  irqFlag : BitVec 32
  irqMask : BitVec 32
  rxFifo : List UInt8
  rxBuf : List UInt8
  txActive : Bool
  hard : Hard
  thread : Thread
  arrived : List UInt8
  delivered : List (List UInt8)

/-- `apple_dockchannel_irq_enable`: the flag is cleared, then the mask bits are set. -/
def St.irqEnable (s : St) (bits : BitVec 32) : St :=
  { s with irqFlag := s.irqFlag &&& ~~~bits, irqMask := s.irqMask ||| bits }

def St.irqDisable (s : St) (bits : BitVec 32) : St :=
  { s with irqMask := s.irqMask &&& ~~~bits }

/-- A write to `IRQ_FLAG`. -/
def St.ackFlags (s : St) (bits : BitVec 32) : St :=
  { s with irqFlag := s.irqFlag &&& ~~~bits }

variable (cfg : IrqMasks) (rd : Reader)

/-- The transmit part of the locked section of `apple_dockchannel_irq`: the pending bits it
leaves, and whether a message is done. -/
def irqTxPart (s : St) (txEmpty : Bool) (pending : BitVec 32) : St × BitVec 32 × Bool :=
  if pending &&& cfg.irqTx ≠ 0 then
    if txEmpty then
      ({ s.irqDisable cfg.irqTx with txActive := false }, pending, s.txActive)
    else (s, pending &&& ~~~cfg.irqTx, false)
  else (s, pending, false)

/-- The locked section of `apple_dockchannel_irq`. -/
def irqLocked (s : St) (flags : BitVec 32) (txEmpty : Bool) : St :=
  let pending := flags &&& s.irqMask &&& (cfg.irqTx ||| cfg.irqRx)
  if pending = 0 then { s with hard := .none flags }
  else
    let r := irqTxPart cfg s txEmpty pending
    let s := if r.2.1 &&& cfg.irqRx ≠ 0 then r.1.irqDisable cfg.irqRx else r.1
    { s.ackFlags r.2.1 with hard := .ret r.2.1 r.2.2 }

/-- A step of `apple_dockchannel_irq`; the last one returns `IRQ_WAKE_THREAD` if RX is
pending. -/
def hardStep (s : St) (txEmpty : Bool) : Hard → St
  | .idle => { s with hard := .lock s.irqFlag }
  | .lock flags => irqLocked cfg s flags txEmpty
  | .none flags => { s.ackFlags (flags &&& (cfg.irqTx ||| cfg.irqRx)) with hard := .idle }
  | .ret pending _ =>
    { s with hard := .idle, thread := if pending &&& cfg.irqRx ≠ 0 then .woken else s.thread }

/-- A step of `apple_dockchannel_irq_thread`. -/
def threadStep (s : St) : Thread → St
  | .idle => s
  | .woken => { s with thread := .count }
  | .count =>
    if s.rxFifo.length = 0 then { s with thread := .enable }
    else
      let avail := min s.rxFifo.length fifoSize
      { s with thread := .read avail avail, rxBuf := [] }
  | .read avail left =>
    let k := rd.width left
    { s with
      rxBuf := s.rxBuf ++ s.rxFifo.take k
      rxFifo := s.rxFifo.drop k
      thread := if left - k = 0 then .deliver avail else .read avail (left - k) }
  | .deliver avail =>
    { s with delivered := s.delivered ++ [s.rxBuf.take avail], thread := .count, rxBuf := [] }
  | .enable => { s.irqEnable cfg.irqRx with thread := .recheck }
  | .recheck => { s with thread := if s.rxFifo.length = 0 then .idle else .disable }
  | .disable => { s.irqDisable cfg.irqRx with thread := .count }

inductive Act
  | arrive (b : UInt8)
  /-- The hardware sets the transmit flag. -/
  | txFlag
  /-- The locked section of a `send_data` that goes through. -/
  | send
  | hard (txEmpty : Bool)
  | thread
  deriving DecidableEq

def step (s : St) : Act → Option St
  | .arrive b => some
    { s with
      rxFifo := s.rxFifo ++ [b]
      irqFlag := s.irqFlag ||| cfg.irqRx
      arrived := s.arrived ++ [b] }
  | .txFlag => some { s with irqFlag := s.irqFlag ||| cfg.irqTx }
  | .send => some { s.irqEnable cfg.irqTx with txActive := true }
  | .hard txEmpty =>
    if s.thread = .idle then some (hardStep cfg s txEmpty s.hard) else none
  | .thread => if s.thread = .idle then none else some (threadStep cfg rd s s.thread)

/-- After `startup` on an empty FIFO; the flags are what they are. -/
def init (flags : BitVec 32) : St :=
  St.irqEnable
    { irqFlag := flags, irqMask := 0, rxFifo := [], rxBuf := [], txActive := false,
      hard := .idle, thread := .idle, arrived := [], delivered := [] } cfg.irqRx

end Wallace.DockRxModel
