import Mathlib.Data.List.Basic
import Mathlib.Tactic.Common
import Wallace.DockRxRearm
import Wallace.Runs

/-!
The DockChannel mailbox in polled mode: `apple_dockchannel_poll_work` with `startup` and
`shutdown`, which start and end it.

The work puts itself back on the queue for as long as `poll_running` is set. A delayed work is
pending or not, and it does not run twice at once; while `cancel_delayed_work_sync` is under way
it cannot be queued, and the call returns when it neither is pending nor runs. The mailbox core
calls `startup` and `shutdown` in turns. Bytes arrive at any time, and a message may be sent
between the return of `startup` and the end of `shutdown`; what `apple_dockchannel_tx_empty`
answers is an input.

`arrived` and `delivered` are history, as are the numbers of messages that were sent, that
`mbox_chan_txdone` was called for, and that `shutdown` dropped.
-/

namespace Wallace.DockPoll

open Runs
open DockTxModel (fifoSize)
open DockRxModel (Reader)

/-- Where `apple_dockchannel_poll_work` stands. -/
inductive Work
  | idle
  | lock
  | txDone
  | count
  | read (avail left : ℕ) (buf : List UInt8)
  | deliver (avail : ℕ) (buf : List UInt8)
  /-- At the read of `poll_running`. -/
  | again
  | schedule
  deriving DecidableEq

/-- Where `startup` or `shutdown` stands. -/
inductive Chan
  | down
  | setRunning
  | schedule
  | up
  | clearRunning
  | cancel
  | wait
  | lock
  deriving DecidableEq

structure St where
  chan : Chan := .down
  work : Work := .idle
  pollRunning : Bool := false
  pending : Bool := false
  /-- `cancel_delayed_work_sync` has begun. -/
  canceling : Bool := false
  txActive : Bool := false
  rxFifo : List UInt8 := []
  arrived : List UInt8 := []
  delivered : List (List UInt8) := []
  sent : ℕ := 0
  done : ℕ := 0
  dropped : ℕ := 0

inductive Act
  | arrive (b : UInt8)
  /-- The locked section of a `send_data` that goes through. -/
  | send
  /-- The next step of `startup` or `shutdown`. -/
  | chan
  /-- The next step of the work. -/
  | work (txEmpty : Bool)
  deriving DecidableEq

/-- `schedule_delayed_work`. -/
def St.scheduleWork (s : St) : St := if s.canceling then s else { s with pending := true }

/-- A message may be sent: `startup` has returned, and `shutdown` has not ended. -/
def Chan.open : Chan → Bool
  | .up | .clearRunning | .cancel | .wait | .lock => true
  | .down | .setRunning | .schedule => false

def chanStep (s : St) : Option St :=
  match s.chan with
  -- the section under the lock sets the receive threshold
  | .down => some { s with chan := .setRunning }
  | .setRunning => some { s with chan := .schedule, pollRunning := true }
  | .schedule => some { s.scheduleWork with chan := .up }
  | .up => some { s with chan := .clearRunning }
  | .clearRunning => some { s with chan := .cancel, pollRunning := false }
  | .cancel => some { s with chan := .wait, pending := false, canceling := true }
  | .wait => if s.work = .idle then some { s with chan := .lock, canceling := false } else none
  | .lock =>
    some
      { s with
        chan := .down
        txActive := false
        dropped := s.dropped + if s.txActive then 1 else 0 }

section Work

variable (rd : Reader)

def workStep (s : St) (txEmpty : Bool) : Option St :=
  match s.work with
  | .idle => if s.pending then some { s with work := .lock, pending := false } else none
  | .lock =>
    some (if s.txActive && txEmpty then { s with work := .txDone, txActive := false }
      else { s with work := .count })
  | .txDone => some { s with work := .count, done := s.done + 1 }
  | .count =>
    if s.rxFifo.length = 0 then some { s with work := .again }
    else
      let avail := min s.rxFifo.length fifoSize
      some { s with work := .read avail avail [] }
  | .read avail left buf =>
    let k := rd.width left
    let buf := buf ++ s.rxFifo.take k
    some
      { s with
        rxFifo := s.rxFifo.drop k
        work := if left - k = 0 then .deliver avail buf else .read avail (left - k) buf }
  | .deliver avail buf =>
    some { s with work := .count, delivered := s.delivered ++ [buf.take avail] }
  | .again => some { s with work := if s.pollRunning then .schedule else .idle }
  | .schedule => some { s.scheduleWork with work := .idle }

def step (s : St) : Act → Option St
  | .arrive b => some { s with rxFifo := s.rxFifo ++ [b], arrived := s.arrived ++ [b] }
  | .send =>
    if s.chan.open && !s.txActive then some { s with txActive := true, sent := s.sent + 1 }
    else none
  | .chan => chanStep s
  | .work txEmpty => workStep rd s txEmpty

end Work

def init : St := {}

/-! ### The invariant -/

/-- The bytes that the work has read and not yet handed over. -/
def inHand : Work → List UInt8
  | .read _ _ buf | .deliver _ buf => buf
  | _ => []

/-- The read of a buffer in its course. -/
def Reading (fifo : ℕ) : Work → Prop
  | .read avail left buf => 0 < left ∧ left ≤ fifo ∧ buf.length + left = avail
  | .deliver avail buf => buf.length = avail
  | _ => True

/-- What the work may be doing, by where the channel stands. -/
def Phase (s : St) : Prop :=
  match s.chan with
  | .down | .setRunning | .lock =>
    s.work = .idle ∧ s.pending = false ∧ s.canceling = false ∧ s.pollRunning = false
  | .schedule => s.work = .idle ∧ s.pending = false ∧ s.canceling = false ∧ s.pollRunning = true
  | .up | .clearRunning =>
    (s.pending = true ∨ s.work ≠ .idle) ∧ s.canceling = false ∧ s.pollRunning = true
  | .cancel => s.canceling = false ∧ s.pollRunning = false
  | .wait => s.pending = false ∧ s.canceling = true ∧ s.pollRunning = false

/-- The messages that are neither done nor dropped. -/
def outstanding (s : St) : ℕ :=
  (if s.txActive then 1 else 0) + if s.work = .txDone then 1 else 0

structure Inv (s : St) : Prop where
  phase : Phase s
  bytes : s.delivered.flatten ++ inHand s.work ++ s.rxFifo = s.arrived
  reading : Reading s.rxFifo.length s.work
  messages : s.sent = s.done + s.dropped + outstanding s
  closed : s.chan.open = false → s.txActive = false

section Steps

variable {s s' : St} {rd : Reader}

lemma init_inv : Inv init := ⟨⟨rfl, rfl, rfl, rfl⟩, rfl, trivial, rfl, fun _ => rfl⟩

lemma Reading.mono {n m : ℕ} {w : Work} (h : Reading n w) (hle : n ≤ m) : Reading m w := by
  cases w with
  | read avail left buf => exact ⟨h.1, h.2.1.trans hle, h.2.2⟩
  | _ => exact h

lemma inv_arrive (h : Inv s) (b : UInt8) :
    Inv { s with rxFifo := s.rxFifo ++ [b], arrived := s.arrived ++ [b] } := by
  refine ⟨h.phase, ?_, h.reading.mono (by simp), h.messages, h.closed⟩
  rw [← List.append_assoc, h.bytes]

lemma inv_send (h : Inv s) (hopen : s.chan.open = true) (hfree : s.txActive = false) :
    Inv { s with txActive := true, sent := s.sent + 1 } := by
  refine ⟨h.phase, h.bytes, h.reading, ?_, fun hc => ?_⟩
  · have := h.messages
    simp only [outstanding, hfree] at this ⊢
    simp only [Bool.false_eq_true, if_false, if_true] at this ⊢
    omega
  · simp only at hc
    rw [hopen] at hc
    cases hc

/-- A step of the channel that leaves the transmit state and the work alone. -/
lemma Inv.chan (h : Inv s) (hp : Phase s') (hw : s'.work = s.work) (hf : s'.rxFifo = s.rxFifo)
    (hb : s'.delivered = s.delivered ∧ s'.arrived = s.arrived)
    (hm : s'.sent = s.sent ∧ s'.done = s.done ∧ s'.dropped = s.dropped)
    (ht : s'.txActive = s.txActive) (hc : s'.chan.open = false → s'.txActive = false) :
    Inv s' := by
  refine ⟨hp, ?_, ?_, ?_, hc⟩
  · rw [hb.1, hb.2, hw, hf]
    exact h.bytes
  · rw [hw, hf]
    exact h.reading
  · simp only [outstanding, hm, ht, hw]
    exact h.messages

lemma inv_chan (h : Inv s) (hs : chanStep s = some s') : Inv s' := by
  have hp := h.phase
  cases hc : s.chan with
  | down | setRunning =>
    simp only [chanStep, hc] at hs
    cases hs
    simp only [Phase, hc] at hp
    refine h.chan ?_ rfl rfl ⟨rfl, rfl⟩ ⟨rfl, rfl, rfl⟩ rfl fun _ => h.closed (by rw [hc]; rfl)
    simp [Phase, hp]
  | schedule =>
    simp only [chanStep, hc, St.scheduleWork] at hs
    simp only [Phase, hc] at hp
    rw [hp.2.2.1] at hs
    cases hs
    refine h.chan ?_ rfl rfl ⟨rfl, rfl⟩ ⟨rfl, rfl, rfl⟩ rfl fun hf => (by cases hf)
    simp [Phase, hp]
  | up | clearRunning | cancel =>
    simp only [chanStep, hc] at hs
    cases hs
    simp only [Phase, hc] at hp
    refine h.chan ?_ rfl rfl ⟨rfl, rfl⟩ ⟨rfl, rfl, rfl⟩ rfl fun hf => (by cases hf)
    simp [Phase, hp]
  | wait =>
    simp only [chanStep, hc] at hs
    split_ifs at hs with hidle
    cases hs
    simp only [Phase, hc] at hp
    refine h.chan ?_ rfl rfl ⟨rfl, rfl⟩ ⟨rfl, rfl, rfl⟩ rfl fun hf => (by cases hf)
    simp [Phase, hp, hidle]
  | lock =>
    simp only [chanStep, hc] at hs
    cases hs
    simp only [Phase, hc] at hp
    refine ⟨?_, h.bytes, h.reading, ?_, fun _ => rfl⟩
    · simpa [Phase] using hp
    · have := h.messages
      simp only [outstanding, hp.1] at this ⊢
      simp only [Bool.false_eq_true, if_false]
      omega

/-- While the work runs, a move of it to another place but `idle` changes nothing of the phase. -/
lemma Phase.move (h : Phase s) (hbusy : s.work ≠ .idle) (hne : s'.work ≠ .idle)
    (hc : s'.chan = s.chan) (hp : s'.pending = s.pending) (hca : s'.canceling = s.canceling)
    (hr : s'.pollRunning = s.pollRunning) : Phase s' := by
  unfold Phase at h ⊢
  rw [hc, hp, hca, hr]
  cases hchan : s.chan with
  | down | setRunning | lock | schedule =>
    rw [hchan] at h
    exact absurd h.1 hbusy
  | up | clearRunning =>
    rw [hchan] at h
    exact ⟨.inr hne, h.2⟩
  | cancel | wait =>
    rw [hchan] at h
    exact h

/-- A move of the work that reads and sends nothing. -/
lemma Inv.move (h : Inv s) {w : Work} (hbusy : s.work ≠ .idle) (hne : w ≠ .idle)
    (hi : inHand w = inHand s.work) (hr : Reading s.rxFifo.length w)
    (ht : w ≠ .txDone ∧ s.work ≠ .txDone) : Inv { s with work := w } := by
  refine ⟨h.phase.move hbusy hne rfl rfl rfl rfl, ?_, hr, ?_, h.closed⟩
  · rw [hi]
    exact h.bytes
  · have := h.messages
    simp only [outstanding, ht.1, ht.2] at this ⊢
    exact this

lemma inv_lock (h : Inv s) (hw : s.work = .lock) (txEmpty : Bool) :
    Inv (if s.txActive && txEmpty then { s with work := .txDone, txActive := false }
      else { s with work := .count }) := by
  have hbusy : s.work ≠ .idle := by rw [hw]; simp
  split_ifs with hd
  · rw [Bool.and_eq_true] at hd
    refine ⟨h.phase.move hbusy (by simp) rfl rfl rfl rfl, ?_, trivial, ?_, fun _ => rfl⟩
    · have := h.bytes
      rwa [hw] at this
    · have := h.messages
      simp only [outstanding, hw, hd.1] at this ⊢
      simpa using this
  · exact h.move hbusy (by simp) (by rw [hw]; rfl) trivial ⟨by simp, by rw [hw]; simp⟩

lemma inv_txDone (h : Inv s) (hw : s.work = .txDone) :
    Inv { s with work := .count, done := s.done + 1 } := by
  have hbusy : s.work ≠ .idle := by rw [hw]; simp
  refine ⟨h.phase.move hbusy (by simp) rfl rfl rfl rfl, ?_, trivial, ?_, h.closed⟩
  · have := h.bytes
    rwa [hw] at this
  · have := h.messages
    simp only [outstanding, hw] at this ⊢
    simp only [if_true, reduceCtorEq, if_false] at this ⊢
    omega

/-- A FIFO access moves bytes from the FIFO to the buffer. -/
lemma inv_read (h : Inv s) {avail left : ℕ} {buf : List UInt8}
    (hw : s.work = .read avail left buf) :
    Inv
      { s with
        rxFifo := s.rxFifo.drop (rd.width left)
        work :=
          if left - rd.width left = 0 then .deliver avail (buf ++ s.rxFifo.take (rd.width left))
          else .read avail (left - rd.width left) (buf ++ s.rxFifo.take (rd.width left)) } := by
  have hbusy : s.work ≠ .idle := by rw [hw]; simp
  have hread := h.reading
  have hbytes := h.bytes
  have hmsg := h.messages
  rw [hw] at hread hbytes
  obtain ⟨hpos, hfifo, hsum⟩ := hread
  have hk := rd.le left
  have hkpos := rd.pos left hpos
  have htake : (s.rxFifo.take (rd.width left)).length = rd.width left := by
    rw [List.length_take]
    omega
  have hmove : inHand (.read avail left buf) ++ s.rxFifo =
      (buf ++ s.rxFifo.take (rd.width left)) ++ s.rxFifo.drop (rd.width left) := by
    rw [List.append_assoc, List.take_append_drop]
    rfl
  rw [List.append_assoc, hmove, ← List.append_assoc] at hbytes
  split_ifs with hlast
  · refine ⟨h.phase.move hbusy (by simp) rfl rfl rfl rfl, hbytes, ?_, ?_, h.closed⟩
    · simp only [Reading, List.length_append, htake]
      omega
    · simpa only [outstanding, hw, reduceCtorEq, if_false] using hmsg
  · refine ⟨h.phase.move hbusy (by simp) rfl rfl rfl rfl, hbytes, ?_, ?_, h.closed⟩
    · simp only [Reading, List.length_append, htake, List.length_drop]
      omega
    · simpa only [outstanding, hw, reduceCtorEq, if_false] using hmsg

lemma inv_deliver (h : Inv s) {avail : ℕ} {buf : List UInt8} (hw : s.work = .deliver avail buf) :
    Inv { s with work := .count, delivered := s.delivered ++ [buf.take avail] } := by
  have hbusy : s.work ≠ .idle := by rw [hw]; simp
  have hlen : buf.length = avail := by
    have := h.reading
    rwa [hw] at this
  refine ⟨h.phase.move hbusy (by simp) rfl rfl rfl rfl, ?_, trivial, ?_, h.closed⟩
  · have := h.bytes
    rw [hw] at this
    simpa [inHand, ← hlen] using this
  · have := h.messages
    simpa only [outstanding, hw, reduceCtorEq, if_false] using this

/-- The work ends: it has seen `poll_running` cleared, or it has queued itself again. -/
lemma Inv.idle (h : Inv s) (hp : Phase s') (hw : s.work = .again ∨ s.work = .schedule)
    (hs' : s'.work = .idle) (hf : s'.rxFifo = s.rxFifo)
    (hb : s'.delivered = s.delivered ∧ s'.arrived = s.arrived)
    (hm : s'.sent = s.sent ∧ s'.done = s.done ∧ s'.dropped = s.dropped)
    (ht : s'.txActive = s.txActive) (hc : s'.chan = s.chan) : Inv s' := by
  have hhand : inHand s.work = [] := by rcases hw with hw | hw <;> rw [hw] <;> rfl
  have hnot : s.work ≠ .txDone := by rcases hw with hw | hw <;> rw [hw] <;> simp
  refine ⟨hp, ?_, by rw [hs']; trivial, ?_, by rw [hc, ht]; exact h.closed⟩
  · have := h.bytes
    rw [hb.1, hb.2, hs', hf]
    rwa [hhand] at this
  · have := h.messages
    simp only [outstanding, hnot, if_false] at this
    simp only [outstanding, hm, ht, hs', reduceCtorEq, if_false]
    exact this

lemma inv_schedule (h : Inv s) (hw : s.work = .schedule) :
    Inv { s.scheduleWork with work := .idle } := by
  have hp := h.phase
  unfold St.scheduleWork
  split_ifs with hcancel
  · refine h.idle ?_ (.inr hw) rfl rfl ⟨rfl, rfl⟩ ⟨rfl, rfl, rfl⟩ rfl rfl
    unfold Phase at hp ⊢
    cases hc : s.chan with
    | wait =>
      rw [hc] at hp
      exact hp
    | down | setRunning | lock | schedule | up | clearRunning | cancel =>
      rw [hc] at hp
      simp only [hcancel, hw] at hp
      simp at hp
  · refine h.idle ?_ (.inr hw) rfl rfl ⟨rfl, rfl⟩ ⟨rfl, rfl, rfl⟩ rfl rfl
    unfold Phase at hp ⊢
    cases hc : s.chan with
    | up | clearRunning =>
      rw [hc] at hp
      exact ⟨.inl rfl, hp.2⟩
    | cancel =>
      rw [hc] at hp
      exact hp
    | down | setRunning | lock | schedule | wait =>
      rw [hc] at hp
      simp only [hw] at hp
      simp [hcancel] at hp

lemma inv_work (h : Inv s) {txEmpty : Bool} (hs : workStep rd s txEmpty = some s') : Inv s' := by
  have hp := h.phase
  cases hw : s.work with
  | idle =>
    simp only [workStep, hw] at hs
    split_ifs at hs with hpend
    cases hs
    refine ⟨?_, ?_, trivial, ?_, h.closed⟩
    · unfold Phase at hp ⊢
      cases hc : s.chan with
      | up | clearRunning | cancel =>
        rw [hc] at hp
        simp_all
      | down | setRunning | lock | schedule | wait =>
        rw [hc] at hp
        simp [hpend] at hp
    · have := h.bytes
      rwa [hw] at this
    · have := h.messages
      simpa only [outstanding, hw, reduceCtorEq, if_false] using this
  | lock =>
    simp only [workStep, hw] at hs
    cases hs
    exact inv_lock h hw txEmpty
  | txDone =>
    simp only [workStep, hw] at hs
    cases hs
    exact inv_txDone h hw
  | count =>
    have hbusy : s.work ≠ .idle := by rw [hw]; simp
    have hnot : s.work ≠ .txDone := by rw [hw]; simp
    simp only [workStep, hw] at hs
    split_ifs at hs with hempty
    · cases hs
      exact h.move hbusy (by simp) (by rw [hw]; rfl) trivial ⟨by simp, hnot⟩
    · cases hs
      refine h.move hbusy (by simp) (by rw [hw]; rfl) ⟨?_, ?_, ?_⟩ ⟨by simp, hnot⟩
      · have : 0 < fifoSize := by decide
        omega
      · exact Nat.min_le_left _ _
      · simp
  | read avail left buf =>
    simp only [workStep, hw] at hs
    cases hs
    exact inv_read h hw
  | deliver avail buf =>
    simp only [workStep, hw] at hs
    cases hs
    exact inv_deliver h hw
  | again =>
    simp only [workStep, hw] at hs
    cases hs
    split_ifs with hrun
    · exact h.move (by rw [hw]; simp) (by simp) (by rw [hw]; rfl) trivial
        ⟨by simp, by rw [hw]; simp⟩
    · refine h.idle ?_ (.inl hw) rfl rfl ⟨rfl, rfl⟩ ⟨rfl, rfl, rfl⟩ rfl rfl
      unfold Phase at hp ⊢
      cases hc : s.chan with
      | cancel | wait =>
        rw [hc] at hp
        exact hp
      | down | setRunning | lock | schedule | up | clearRunning =>
        rw [hc] at hp
        simp only [hw] at hp
        simp [hrun] at hp
  | schedule =>
    simp only [workStep, hw] at hs
    cases hs
    exact inv_schedule h hw

lemma inv_step (s : St) (a : Act) (s' : St) (h : Inv s) (hs : step rd s a = some s') : Inv s' := by
  cases a with
  | arrive b =>
    cases hs
    exact inv_arrive h b
  | send =>
    simp only [step] at hs
    split_ifs at hs with hok
    cases hs
    simp only [Bool.and_eq_true, Bool.not_eq_true'] at hok
    exact inv_send h hok.1 hok.2
  | chan => exact inv_chan h hs
  | work txEmpty => exact inv_work h hs

/-! ### Draining -/

end Steps

/-! ### Runs -/

end Wallace.DockPoll
