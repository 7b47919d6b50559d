import Mathlib.Data.Fintype.Basic
import Mathlib.Data.List.Basic
import Mathlib.Logic.Function.Basic
import Mathlib.Tactic.Common
import Wallace.Runs

/-!
The transmit side of the DockChannel mailbox, with the polled mode and the atomic transmit.

Any number of executions run `apple_dockchannel_send_data` and
`apple_dockchannel_send_atomic` at once. A step is one compare-and-swap of `tx_owner`, one
register access of an atomic send, or one section under `dc->lock`; between any two the
hardware may take bytes out of its FIFO. The hard interrupt handler and `poll_work` touch
the transmit state in one locked section each. The flags that the handler has read before
are whatever they are, so the section is taken at any time and with any flags.

Every send gets a number of its own, the bytes in the FIFO carry the number of the send
they belong to, and `holder` is the number of the send that last claimed the owner word.
Of these, and of the log of the bytes written and of the codes returned, no operation reads
anything.
-/

namespace Wallace.DockTxModel

/-- `APPLE_DOCKCHANNEL_FIFO_SIZE`. -/
def fifoSize : ℕ := 0x800

/-- `APPLE_DOCKCHANNEL_ATOMIC_MAX_TIMEOUT_US`. -/
def maxTimeoutUs : ℕ := 100000

/-- The interrupt masks that `probe` accepts. -/
structure IrqMasks where
  irqTx : BitVec 32
  irqRx : BitVec 32
  tx_ne : irqTx ≠ 0
  rx_ne : irqRx ≠ 0
  disjoint : irqTx &&& irqRx = 0

/-- The masks of the UART instance. -/
def uartMasks : IrqMasks := ⟨4, 2, by decide, by decide, by decide⟩

structure Config extends IrqMasks where
  pollMode : Bool

/-- The functions of the base driver that the send path calls: `apple_dockchannel_tx_empty`
on the value of `DATA_TX_FREE`, the check of the message that comes first in `send_data`,
and the bytes of a message that `apple_dockchannel_write_pending` puts in an empty FIFO. -/
structure Base where
  txEmpty : ℕ → Bool
  valid : List UInt8 → Bool
  writePending : List UInt8 → List UInt8
  txEmpty_iff : ∀ free ≤ fifoSize, (txEmpty free = true ↔ free = fifoSize)
  writePending_isPrefix : ∀ m, writePending m <+: m

inductive Owner | idle | async | atomic
  deriving DecidableEq

inductive Code | ok | ebusy | einval | emsgsize | etimedout
  deriving DecidableEq

/-- The codes of a send that never got to write. -/
def Code.refused : Code → Bool
  | .ebusy | .einval | .emsgsize => true
  | .ok | .etimedout => false

/-- Where an execution of a send stands: the number of the send, and what is left of its
message. -/
inductive Pc
  | idle
  | dataClaim (n : ℕ) (m : List UInt8)
  | dataLock (n : ℕ) (m : List UInt8)
  | dataRelease (n : ℕ)
  | atomClaim (n : ℕ) (m : List UInt8)
  | atomAvail (n : ℕ) (m : List UInt8)
  | atomWrite (n : ℕ) (m : List UInt8)
  | atomPoll (n : ℕ)
  | atomPollLast (n : ℕ)
  | atomRelease (n : ℕ) (ret : Code)
  deriving DecidableEq

/-- What the executions share. -/
structure Shared where
  owner : Owner
  txActive : Bool
  irqMask : BitVec 32
  /-- The hardware FIFO, oldest byte first. -/
  hw : List (ℕ × UInt8)
  holder : ℕ
  txSend : ℕ
  log : List (ℕ × UInt8)
  returned : List (ℕ × Code)

structure St (ι : Type*) where
  shared : Shared
  /-- The number of the next send. -/
  next : ℕ
  pc : ι → Pc

/-- `DATA_TX_FREE`. -/
def Shared.txFree (s : Shared) : ℕ := fifoSize - s.hw.length

/-- `atomic_cmpxchg(&dc->tx_owner, old, new)`, which gives the old value. -/
def Shared.cmpxchg (s : Shared) (old new : Owner) : Owner × Shared :=
  (s.owner, if s.owner = old then { s with owner := new } else s)

/-- Bytes of send `n` go into the FIFO. -/
def Shared.put (s : Shared) (n : ℕ) (bs : List UInt8) : Shared :=
  { s with hw := s.hw ++ bs.map (n, ·), log := s.log ++ bs.map (n, ·) }

def Shared.ret (s : Shared) (n : ℕ) (c : Code) : Shared :=
  { s with returned := s.returned ++ [(n, c)] }

/-- `apple_dockchannel_irq_enable`: clears the flag and sets the mask bits. -/
def Shared.irqEnable (s : Shared) (bits : BitVec 32) : Shared :=
  { s with irqMask := s.irqMask ||| bits }

def Shared.irqDisable (s : Shared) (bits : BitVec 32) : Shared :=
  { s with irqMask := s.irqMask &&& ~~~bits }

variable (cfg : Config) (base : Base)

/-- The locked section of `apple_dockchannel_send_data`. -/
def sendDataLocked (s : Shared) (n : ℕ) (m : List UInt8) : Shared × Pc :=
  if s.txActive || !base.txEmpty s.txFree then (s, .dataRelease n)
  else
    let s := { s with txActive := true, txSend := n }
    let s := s.put n (base.writePending m)
    let s := if cfg.pollMode then s else s.irqEnable cfg.irqTx
    (s.ret n .ok, .idle)

/-- The next step of a send. `expired` is the answer of the timer that an atomic send asks
after a read of `DATA_TX_FREE` that did not show an empty FIFO. -/
def exec (s : Shared) (expired : Bool) : Pc → Shared × Pc
  | .idle => (s, .idle)
  | .dataClaim n m =>
    match s.cmpxchg .idle .async with
    | (.idle, s') => ({ s' with holder := n }, .dataLock n m)
    | (_, s') => (s'.ret n .ebusy, .idle)
  | .dataLock n m => sendDataLocked cfg base s n m
  | .dataRelease n => ((s.cmpxchg .async .idle).2.ret n .ebusy, .idle)
  | .atomClaim n m =>
    match s.cmpxchg .idle .atomic with
    | (.idle, s') => ({ s' with holder := n }, .atomAvail n m)
    | (_, s') => (s'.ret n .ebusy, .idle)
  | .atomAvail n m =>
    if s.txFree ≠ fifoSize then (s, .atomRelease n .ebusy) else (s, .atomWrite n m)
  | .atomWrite n m =>
    -- a word while there are four bytes, then single bytes
    let k := if 4 ≤ m.length then 4 else 1
    (s.put n (m.take k), if m.drop k = [] then .atomPoll n else .atomWrite n (m.drop k))
  | .atomPoll n =>
    if s.txFree = fifoSize then (s, .atomRelease n .ok)
    else if expired then (s, .atomPollLast n)
    else (s, .atomPoll n)
  | .atomPollLast n =>
    (s, .atomRelease n (if s.txFree = fifoSize then .ok else .etimedout))
  | .atomRelease n ret => ((s.cmpxchg .atomic .idle).2.ret n ret, .idle)

/-- `apple_dockchannel_send_data` up to the claim. -/
def sendData (s : Shared) (n : ℕ) (m : List UInt8) : Shared × Pc :=
  if !base.valid m then (s.ret n .einval, .idle)
  else if fifoSize < m.length then (s.ret n .emsgsize, .idle)
  else (s, .dataClaim n m)

/-- `apple_dockchannel_send_atomic` up to the claim; `null` says that one of the pointers
is. -/
def sendAtomic (s : Shared) (n : ℕ) (null : Bool) (m : List UInt8) (timeoutUs : ℕ) :
    Shared × Pc :=
  if null || m.length = 0 || timeoutUs = 0 || maxTimeoutUs < timeoutUs then
    (s.ret n .einval, .idle)
  else if fifoSize < m.length then (s.ret n .emsgsize, .idle)
  else (s, .atomClaim n m)

/-- The transmit part of the locked section of `apple_dockchannel_irq`. -/
def irqLocked (s : Shared) (flags : BitVec 32) : Shared :=
  let pending := flags &&& s.irqMask &&& (cfg.irqTx ||| cfg.irqRx)
  if pending &&& cfg.irqTx ≠ 0 && base.txEmpty s.txFree then
    let s := s.irqDisable cfg.irqTx
    let s := { s with txActive := false }
    (s.cmpxchg .async .idle).2
  else s

/-- The locked section of `apple_dockchannel_poll_work`. -/
def pollLocked (s : Shared) : Shared :=
  if s.txActive && base.txEmpty s.txFree then
    ({ s with txActive := false }.cmpxchg .async .idle).2
  else s

def startup (s : Shared) : Shared :=
  if cfg.pollMode then s else s.irqEnable cfg.irqRx

def shutdown (s : Shared) : Shared :=
  let s := s.irqDisable (cfg.irqTx ||| cfg.irqRx)
  let s := { s with txActive := false }
  (s.cmpxchg .async .idle).2

inductive Act (ι : Type*)
  | sendData (p : ι) (m : List UInt8)
  | sendAtomic (p : ι) (null : Bool) (m : List UInt8) (timeoutUs : ℕ)
  | go (p : ι) (expired : Bool)
  | irq (flags : BitVec 32)
  | poll
  | drain
  | startup
  | shutdown

variable {ι : Type*} [DecidableEq ι]

/-- An execution moves. -/
def St.move (s : St ι) (p : ι) (r : Shared × Pc) : St ι :=
  { s with shared := r.1, pc := Function.update s.pc p r.2 }

/-- A send begins, with a number of its own. -/
def St.begin (s : St ι) (p : ι) (r : Shared × Pc) : St ι :=
  { s.move p r with next := s.next + 1 }

/-- The handler is requested only without, and the work scheduled only with, the polled
mode. -/
def step (s : St ι) : Act ι → Option (St ι)
  | .sendData p m =>
    if s.pc p = .idle then some (s.begin p (sendData base s.shared s.next m)) else none
  | .sendAtomic p null m timeoutUs =>
    if s.pc p = .idle then
      some (s.begin p (sendAtomic s.shared s.next null m timeoutUs))
    else none
  | .go p expired =>
    if s.pc p = .idle then none
    else some (s.move p (exec cfg base s.shared expired (s.pc p)))
  | .irq flags =>
    if cfg.pollMode then none
    else some { s with shared := irqLocked cfg base s.shared flags }
  | .poll =>
    if cfg.pollMode then some { s with shared := pollLocked base s.shared } else none
  | .drain => some { s with shared := { s.shared with hw := s.shared.hw.tail } }
  | .startup => some { s with shared := startup cfg s.shared }
  | .shutdown => some { s with shared := shutdown cfg s.shared }

/-- After `probe`. -/
def init : St ι where
  shared :=
    { owner := .idle, txActive := false, irqMask := 0, hw := [], holder := 0, txSend := 0,
      log := [], returned := [] }
  next := 0
  pc := fun _ => .idle

/-- No shutdown while a send runs or its message is under way. -/
def NoOverlap (s : St ι) : Act ι → Prop
  | .shutdown => (∀ p, s.pc p = .idle) ∧ s.shared.txActive = false
  | _ => True

instance [Fintype ι] (s : St ι) : ∀ a, Decidable (NoOverlap s a)
  | .shutdown => inferInstanceAs (Decidable ((∀ p, s.pc p = .idle) ∧ s.shared.txActive = false))
  | .sendData _ _ | .sendAtomic _ _ _ _ | .go _ _ | .irq _ | .poll | .drain | .startup =>
    isTrue trivial

end Wallace.DockTxModel
