import Mathlib.Data.List.Basic
import Mathlib.Tactic.Common
import Wallace.Kfifo
import Wallace.Runs

/-!
The transmit side of the DockChannel TTY driver.

Each section under `tx_lock` is one step, and so is `mbox_send_message` between the two
sections of `apple_dctty_tx_work`. A work run is idle, has filled `tx_msg` and not yet
sent it, or has sent it and not yet come back to the lock; since the work item never runs
concurrently with itself there is one of these. The work starts only when it has been
queued, and any delay may pass before it does.

The last four fields are the history of a run: what `write` accepted, the batches handed
to the mailbox, the positions that were queued when a flush reset the FIFO, and whether
there was a flush since the last peek. No operation reads them.
-/

namespace Wallace.TtyModel

open Kfifo Runs

/-- `APPLE_DCTTY_FIFO_SIZE`: the largest batch. -/
def fifoSize : ℕ := 0x800

/-- `APPLE_DCTTY_TX_FIFO_SIZE`. -/
def txFifoSize : ℕ := 65536

/-- What `mbox_send_message` returns. -/
inductive Ret | ok | ebusy | enobufs | error
  deriving DecidableEq

/-- Where `apple_dctty_tx_work` stands, with its local variables. -/
inductive Work
  | idle
  | peeked (len : ℕ)
  | sent (len : ℕ) (ret : Ret)
  deriving DecidableEq

/-- The send of this work run went through. -/
def Work.succeeded : Work → Bool
  | .sent _ .ok => true
  | _ => false

structure St where
  fifo : Fifo UInt8
  txMsg : List UInt8
  txLen : ℕ
  txActive : Bool
  disconnected : Bool
  /-- `tx_coalesce_us`, which can be written at any time. -/
  txCoalesceUs : ℕ
  /-- The pending delay of the work item, in microseconds. -/
  queued : Option ℕ
  work : Work
  accepted : List UInt8
  batches : List (List UInt8)
  flushed : List ℕ
  flushedSince : Bool

/-- `apple_dctty_queue_tx_locked`. -/
def queueTxLocked (s : St) (immediate : Bool) : St :=
  if s.disconnected || s.txActive || s.fifo.isEmpty then s
  else if !immediate && s.txCoalesceUs ≠ 0 && s.fifo.len < fifoSize then
    { s with queued := some s.txCoalesceUs }
  else { s with queued := some 0 }

def txDone (s : St) : St :=
  queueTxLocked { s with txActive := false, txLen := 0 } true

/-- `apple_dctty_write`, with the value it returns. -/
def write (s : St) (buf : List UInt8) : St × ℤ :=
  if buf = [] then (s, 0)
  else if s.disconnected then (s, -19)
  else
    let copied := (buf.take (s.fifo.unused txFifoSize)).length
    (queueTxLocked
      { s with
        fifo := s.fifo.put txFifoSize buf
        accepted := s.accepted ++ buf.take (s.fifo.unused txFifoSize) }
      (fifoSize ≤ copied), copied)

def flushBuffer (s : St) : St :=
  { s with
    fifo := s.fifo.resetOut
    flushed := s.flushed ++ List.range' s.fifo.out (s.fifo.inn - s.fifo.out)
    flushedSince := true }

/-- The locked section of `apple_dctty_remove`. -/
def remove (s : St) : St :=
  { s with disconnected := true, txActive := false, txLen := 0 }

/-- The first section of `apple_dctty_tx_work`. -/
def txWorkPeek (s : St) : St :=
  if s.disconnected || s.txActive || s.fifo.isEmpty then s
  else
    let msg := s.fifo.peek txFifoSize (min s.fifo.len fifoSize)
    if msg = [] then s
    else
      { s with
        txMsg := msg
        txLen := msg.length
        txActive := true
        work := .peeked msg.length
        flushedSince := false }

/-- `mbox_send_message`: the batch goes out once, or not at all. -/
def mboxSend (s : St) (len : ℕ) (ret : Ret) : St :=
  { s with
    work := .sent len ret
    batches := if ret = .ok then s.batches ++ [s.txMsg] else s.batches }

/-- The second section of `apple_dctty_tx_work`. -/
def txWorkFinish (s : St) (len : ℕ) (ret : Ret) : St :=
  if ret = .ok then
    queueTxLocked { s with work := .idle, fifo := s.fifo.skip len } true
  else
    let s' := { s with work := .idle, txActive := false, txLen := 0 }
    if !s.disconnected && (ret = .ebusy || ret = .enobufs) then queueTxLocked s' false else s'

inductive Act
  | write (buf : List UInt8)
  | flush
  | txDone
  | remove
  /-- `cancel_delayed_work_sync`, the rest of `apple_dctty_remove`. -/
  | cancel
  | setCoalesce (us : ℕ)
  | peek
  | send (ret : Ret)
  | finish
  deriving DecidableEq

def step (s : St) : Act → Option St
  | .write buf => some (write s buf).1
  | .flush => some (flushBuffer s)
  | .txDone => some (txDone s)
  | .remove => some (remove s)
  | .cancel =>
    if s.disconnected && s.work = .idle then some { s with queued := none } else none
  | .setCoalesce us => some { s with txCoalesceUs := us }
  | .peek =>
    if s.work = .idle && s.queued.isSome then some (txWorkPeek { s with queued := none })
    else none
  | .send ret =>
    match s.work with
    | .peeked len => some (mboxSend s len ret)
    | _ => none
  | .finish =>
    match s.work with
    | .sent len ret => some (txWorkFinish s len ret)
    | _ => none

/-- After `probe`; the buffer comes from `kfifo_alloc` as it is. -/
def init (data : ℕ → UInt8) : St where
  fifo := ⟨data, 0, 0⟩
  txMsg := []
  txLen := 0
  txActive := false
  disconnected := false
  txCoalesceUs := 1000
  queued := none
  work := .idle
  accepted := []
  batches := []
  flushed := []
  flushedSince := false

/-! ### What the steps do to the FIFO and the history -/

/-- The part of the state that the stream depends on. -/
structure View where
  fifo : Fifo UInt8
  txMsg : List UInt8
  work : Work
  accepted : List UInt8
  batches : List (List UInt8)
  flushed : List ℕ
  flushedSince : Bool

def St.view (s : St) : View :=
  ⟨s.fifo, s.txMsg, s.work, s.accepted, s.batches, s.flushed, s.flushedSince⟩

@[simp] lemma view_queueTxLocked (s : St) (immediate : Bool) :
    (queueTxLocked s immediate).view = s.view := by
  unfold queueTxLocked
  split_ifs <;> rfl

/-- **One step**, seen on the FIFO: it leaves it alone, or puts bytes, or empties it, or
begins, sends or ends a batch. -/
theorem step_cases {s s' : St} {a : Act} (h : step s a = some s') :
    s'.view = s.view ∨
    (∃ bs : List UInt8, s'.view = { s.view with
        fifo := s.fifo.put txFifoSize bs
        accepted := s.accepted ++ bs.take (s.fifo.unused txFifoSize) }) ∨
    s'.view = { s.view with
        fifo := s.fifo.resetOut
        flushed := s.flushed ++ List.range' s.fifo.out (s.fifo.inn - s.fifo.out)
        flushedSince := true } ∨
    (∃ msg : List UInt8, s.work = .idle ∧ msg ≠ [] ∧
      msg = s.fifo.peek txFifoSize (min s.fifo.len fifoSize) ∧
      s'.view = { s.view with txMsg := msg, work := .peeked msg.length,
                              flushedSince := false }) ∨
    (∃ len ret, s.work = .peeked len ∧ s'.view = { s.view with
        work := .sent len ret
        batches := if ret = .ok then s.batches ++ [s.txMsg] else s.batches }) ∨
    (∃ len ret, a = .finish ∧ s.work = .sent len ret ∧ s'.view = { s.view with
        work := .idle
        fifo := if ret = .ok then s.fifo.skip len else s.fifo }) := by
  cases a with
  | write buf =>
    simp only [step, write] at h
    split_ifs at h with h1 h2
    · exact .inl (by cases h; rfl)
    · exact .inl (by cases h; rfl)
    · refine .inr (.inl ⟨buf, ?_⟩)
      cases h
      exact view_queueTxLocked _ _
  | flush => cases h; exact .inr (.inr (.inl rfl))
  | txDone =>
    cases h
    exact .inl (view_queueTxLocked _ _)
  | remove => cases h; exact .inl rfl
  | cancel =>
    simp only [step] at h
    split_ifs at h
    cases h
    exact .inl rfl
  | setCoalesce us => cases h; exact .inl rfl
  | peek =>
    simp only [step] at h
    split_ifs at h with hidle
    cases h
    simp only [Bool.and_eq_true, decide_eq_true_eq] at hidle
    unfold txWorkPeek
    split_ifs with h1
    · exact .inl rfl
    · dsimp only
      split_ifs with h2
      · exact .inl rfl
      · exact .inr (.inr (.inr (.inl ⟨_, hidle.1, h2, rfl, rfl⟩)))
  | send ret =>
    simp only [step] at h
    split at h
    · rename_i len hw
      cases h
      exact .inr (.inr (.inr (.inr (.inl ⟨len, ret, hw, rfl⟩))))
    · cases h
  | finish =>
    simp only [step] at h
    split at h
    · rename_i len ret hw
      cases h
      refine .inr (.inr (.inr (.inr (.inr ⟨len, ret, rfl, hw, ?_⟩))))
      unfold txWorkFinish
      split_ifs with h1 h2
      · rw [view_queueTxLocked]; rfl
      · rw [view_queueTxLocked]; rfl
      · rfl
    · cases h

end Wallace.TtyModel
