import Mathlib.Data.List.Basic
import Mathlib.Tactic.Common
import Wallace.DockRxModel
import Wallace.Masks
import Wallace.Runs

/-!
Received data is never stranded.

While the thread sleeps RX is enabled, and a byte in the FIFO has its flag set: an
acknowledge of the hard handler either leaves the RX flag alone or wakes the thread. The
thread gives up its turn only after it has seen an empty FIFO with RX enabled again, and
from there on every arrival raises the line.
-/

namespace Wallace.DockRxRearm

open DockRxModel Runs Masks
open DockTxModel (IrqMasks fifoSize uartMasks)

variable {cfg : IrqMasks} {rd : Reader} {s : St}

/-- RX is enabled, and the flag is set for what is in the FIFO. -/
def Armed (cfg : IrqMasks) (s : St) : Prop :=
  s.irqMask &&& cfg.irqRx = cfg.irqRx ∧
    (s.rxFifo ≠ [] → s.irqFlag &&& cfg.irqRx = cfg.irqRx)

/-- The bytes that have left the FIFO and are not delivered yet. -/
def inHand (t : Thread) (buf : List UInt8) : List UInt8 :=
  match t with
  | .read _ _ | .deliver _ => buf
  | _ => []

/-- What each point of the handler and of the thread may rely on. -/
def Phase (cfg : IrqMasks) (s : St) : Prop :=
  match s.hard, s.thread with
  | .idle, .idle | .lock _, .idle => Armed cfg s
  | .none flags, .idle => Armed cfg s ∧ flags &&& cfg.irqRx = 0
  | .ret pending _, .idle => pending &&& cfg.irqRx = 0 → Armed cfg s
  | .idle, .recheck => s.irqMask &&& cfg.irqRx = cfg.irqRx
  | .idle, .read avail left => left ≤ s.rxFifo.length ∧ s.rxBuf.length + left = avail
  | .idle, .deliver avail => s.rxBuf.length = avail
  | .idle, _ => True
  | _, _ => False

structure Inv (cfg : IrqMasks) (s : St) : Prop where
  phase : Phase cfg s
  bytes : s.delivered.flatten ++ inHand s.thread s.rxBuf ++ s.rxFifo = s.arrived

lemma Armed.of_eq {s' : St} (h : Armed cfg s)
    (hm : s'.irqMask &&& cfg.irqRx = s.irqMask &&& cfg.irqRx)
    (hf : s'.irqFlag &&& cfg.irqRx = s.irqFlag &&& cfg.irqRx) (hr : s'.rxFifo = s.rxFifo) :
    Armed cfg s' := by
  refine ⟨hm.trans h.1, fun hne => ?_⟩
  rw [hf]
  exact h.2 (hr ▸ hne)

/-- A step of the environment: the handler and the thread stay where they are. -/
lemma Phase.env {s' : St} (h : Phase cfg s) (hh : s'.hard = s.hard) (ht : s'.thread = s.thread)
    (hbuf : s'.rxBuf = s.rxBuf) (hlen : s.rxFifo.length ≤ s'.rxFifo.length)
    (hmask : s'.irqMask &&& cfg.irqRx = s.irqMask &&& cfg.irqRx)
    (harmed : Armed cfg s → Armed cfg s') : Phase cfg s' := by
  unfold Phase at h ⊢
  rw [hh, ht]
  split at h
  · exact harmed h
  · exact harmed h
  · exact ⟨harmed h.1, h.2⟩
  · exact fun h0 => harmed (h h0)
  · exact hmask.trans h
  · rw [hbuf]
    exact ⟨Nat.le_trans h.1 hlen, h.2⟩
  · rw [hbuf]
    exact h
  · trivial
  · exact h

lemma inv_arrive (h : Inv cfg s) (b : UInt8) :
    Inv cfg { s with
      rxFifo := s.rxFifo ++ [b]
      irqFlag := s.irqFlag ||| cfg.irqRx
      arrived := s.arrived ++ [b] } := by
  refine ⟨h.phase.env rfl rfl rfl (by simp) rfl fun ha => ⟨ha.1, fun _ => set_and_self _ _⟩, ?_⟩
  dsimp only
  rw [← List.append_assoc, h.bytes]

lemma inv_txFlag (h : Inv cfg s) : Inv cfg { s with irqFlag := s.irqFlag ||| cfg.irqTx } := by
  refine ⟨h.phase.env rfl rfl rfl (Nat.le_refl _) rfl fun ha => ?_, h.bytes⟩
  exact ha.of_eq rfl (set_and _ cfg.disjoint) rfl

lemma inv_send (h : Inv cfg s) : Inv cfg { s.irqEnable cfg.irqTx with txActive := true } := by
  have hm : (s.irqMask ||| cfg.irqTx) &&& cfg.irqRx = s.irqMask &&& cfg.irqRx :=
    set_and _ cfg.disjoint
  refine ⟨h.phase.env rfl rfl rfl (Nat.le_refl _) hm fun ha => ?_, h.bytes⟩
  exact ha.of_eq hm (clear_and _ cfg.disjoint) rfl

/-! ### The hard handler -/

/-- The transmit part of the handler leaves RX alone. -/
lemma irqTxPart_spec (cfg : IrqMasks) (s : St) (e : Bool) (pending : BitVec 32) :
    (irqTxPart cfg s e pending).1.irqFlag = s.irqFlag ∧
    (irqTxPart cfg s e pending).1.irqMask &&& cfg.irqRx = s.irqMask &&& cfg.irqRx ∧
    (irqTxPart cfg s e pending).1.rxFifo = s.rxFifo ∧
    (irqTxPart cfg s e pending).1.thread = s.thread ∧
    (irqTxPart cfg s e pending).1.rxBuf = s.rxBuf ∧
    (irqTxPart cfg s e pending).1.delivered = s.delivered ∧
    (irqTxPart cfg s e pending).1.arrived = s.arrived := by
  unfold irqTxPart
  split_ifs
  · exact ⟨rfl, clear_and _ cfg.disjoint, rfl, rfl, rfl, rfl, rfl⟩
  · exact ⟨rfl, rfl, rfl, rfl, rfl, rfl, rfl⟩
  · exact ⟨rfl, rfl, rfl, rfl, rfl, rfl, rfl⟩

/-- With RX enabled, flags of which nothing is pending have no RX flag. -/
lemma no_rx_of_not_pending {flags : BitVec 32} (hm : s.irqMask &&& cfg.irqRx = cfg.irqRx)
    (hp : flags &&& s.irqMask &&& (cfg.irqTx ||| cfg.irqRx) = 0) : flags &&& cfg.irqRx = 0 := by
  have hrx : (cfg.irqTx ||| cfg.irqRx) &&& cfg.irqRx = cfg.irqRx := set_and_self _ _
  calc flags &&& cfg.irqRx
      = flags &&& (s.irqMask &&& cfg.irqRx) := by rw [hm]
    _ = flags &&& (s.irqMask &&& ((cfg.irqTx ||| cfg.irqRx) &&& cfg.irqRx)) := by rw [hrx]
    _ = flags &&& s.irqMask &&& (cfg.irqTx ||| cfg.irqRx) &&& cfg.irqRx := by
        rw [BitVec.and_assoc, BitVec.and_assoc]
    _ = 0 := by
        rw [hp]
        simp

lemma inv_irqLocked (h : Inv cfg s) {flags : BitVec 32} (hh : s.hard = .lock flags)
    (ht : s.thread = .idle) (e : Bool) : Inv cfg (irqLocked cfg s flags e) := by
  have ha : Armed cfg s := by
    have hp := h.phase
    unfold Phase at hp
    rw [hh, ht] at hp
    exact hp
  unfold irqLocked
  dsimp only
  generalize hpend : flags &&& s.irqMask &&& (cfg.irqTx ||| cfg.irqRx) = pending
  obtain ⟨h1, h2, h3, h4, h5, h6, h7⟩ := irqTxPart_spec cfg s e pending
  generalize irqTxPart cfg s e pending = r at h1 h2 h3 h4 h5 h6 h7 ⊢
  have hbytes : r.1.delivered.flatten ++ inHand r.1.thread r.1.rxBuf ++ r.1.rxFifo =
      r.1.arrived := by
    rw [h3, h4, h5, h6, h7]
    exact h.bytes
  split_ifs with hp hrx
  · refine ⟨?_, h.bytes⟩
    unfold Phase
    rw [ht]
    exact ⟨ha, no_rx_of_not_pending ha.1 (hpend.trans hp)⟩
  · refine ⟨?_, hbytes⟩
    unfold Phase
    dsimp only [St.irqDisable, St.ackFlags]
    rw [h4, ht]
    exact fun h0 => absurd h0 hrx
  · refine ⟨?_, hbytes⟩
    unfold Phase
    dsimp only [St.ackFlags]
    rw [h4, ht]
    -- what is acknowledged has no RX bit
    intro h0
    refine ha.of_eq h2 ?_ h3
    rw [← h1]
    exact clear_and _ h0

lemma inv_hard (h : Inv cfg s) (ht : s.thread = .idle) (e : Bool) :
    Inv cfg (hardStep cfg s e s.hard) := by
  have hp := h.phase
  unfold Phase at hp
  rw [ht] at hp
  cases hh : s.hard with
  | idle =>
    rw [hh] at hp
    refine ⟨?_, h.bytes⟩
    unfold Phase
    dsimp only [hardStep]
    rw [ht]
    exact hp
  | lock flags => exact inv_irqLocked h hh ht e
  | none flags =>
    rw [hh] at hp
    refine ⟨?_, h.bytes⟩
    unfold Phase
    dsimp only [hardStep, St.ackFlags]
    rw [ht]
    refine hp.1.of_eq rfl (clear_and _ ?_) rfl
    rw [BitVec.and_assoc, set_and_self, hp.2]
  | ret pending d =>
    rw [hh] at hp
    dsimp only [hardStep]
    split_ifs with hrx
    · refine ⟨?_, ?_⟩
      · unfold Phase
        trivial
      · have hb := h.bytes
        rw [ht] at hb
        exact hb
    · refine ⟨?_, h.bytes⟩
      unfold Phase
      dsimp only
      rw [ht]
      exact hp (not_not.mp hrx)

/-! ### The thread -/

/-- A read moves bytes from the FIFO to the buffer, and the buffer fills up to what was there. -/
lemma inv_read (h : Inv cfg s) (hh : s.hard = .idle) {avail left : ℕ}
    (ht : s.thread = .read avail left) : Inv cfg (threadStep cfg rd s (.read avail left)) := by
  have hp := h.phase
  have hb := h.bytes
  unfold Phase at hp
  rw [hh, ht] at hp
  rw [ht] at hb
  obtain ⟨h1, h2⟩ := hp
  have hw := rd.le left
  have hlen : (s.rxBuf ++ s.rxFifo.take (rd.width left)).length + (left - rd.width left) =
      avail := by
    rw [List.length_append, List.length_take]
    omega
  have hbytes : s.delivered.flatten ++ (s.rxBuf ++ s.rxFifo.take (rd.width left)) ++
      s.rxFifo.drop (rd.width left) = s.arrived := by
    rw [← hb]
    simp [inHand]
  dsimp only [threadStep]
  split_ifs with h0
  · refine ⟨?_, hbytes⟩
    unfold Phase
    dsimp only
    rw [hh]
    rw [h0] at hlen
    exact hlen
  · refine ⟨?_, hbytes⟩
    unfold Phase
    dsimp only
    rw [hh]
    refine ⟨?_, hlen⟩
    rw [List.length_drop]
    omega

lemma inv_thread (h : Inv cfg s) (ht : s.thread ≠ .idle) :
    Inv cfg (threadStep cfg rd s s.thread) := by
  have hp := h.phase
  have hb := h.bytes
  have hh : s.hard = .idle := by
    unfold Phase at hp
    split at hp <;> simp_all
  unfold Phase at hp
  rw [hh] at hp
  cases htt : s.thread with
  | idle => exact absurd htt ht
  | woken =>
    rw [htt] at hb
    exact ⟨by unfold Phase; simp [threadStep, hh], hb⟩
  | count =>
    rw [htt] at hb
    dsimp only [threadStep]
    split_ifs with h0
    · exact ⟨by unfold Phase; simp [hh], hb⟩
    · refine ⟨?_, hb⟩
      unfold Phase
      dsimp only
      rw [hh]
      exact ⟨Nat.min_le_left _ _, by simp⟩
  | read avail left => exact inv_read h hh htt
  | deliver avail =>
    rw [htt] at hb hp
    refine ⟨by unfold Phase; simp [threadStep, hh], ?_⟩
    dsimp only [threadStep, inHand]
    rw [← hb, List.take_of_length_le (Nat.le_of_eq hp)]
    simp [inHand]
  | enable =>
    rw [htt] at hb
    refine ⟨?_, hb⟩
    unfold Phase
    dsimp only [threadStep, St.irqEnable]
    rw [hh]
    exact set_and_self _ _
  | recheck =>
    rw [htt] at hb hp
    dsimp only [threadStep]
    split_ifs with h0
    · refine ⟨?_, hb⟩
      unfold Phase
      dsimp only
      rw [hh]
      exact ⟨hp, fun hne => absurd (List.length_eq_zero_iff.mp h0) hne⟩
    · exact ⟨by unfold Phase; simp [hh], hb⟩
  | disable =>
    rw [htt] at hb
    exact ⟨by unfold Phase; simp [threadStep, St.irqDisable, hh], hb⟩

/-- **One step keeps the invariant.** -/
theorem inv_step {s' : St} {a : Act} (h : Inv cfg s) (hs : step cfg rd s a = some s') :
    Inv cfg s' := by
  cases a with
  | arrive b => cases hs; exact inv_arrive h b
  | txFlag => cases hs; exact inv_txFlag h
  | send => cases hs; exact inv_send h
  | hard e =>
    simp only [step] at hs
    split_ifs at hs with ht
    cases hs
    exact inv_hard h ht e
  | thread =>
    simp only [step] at hs
    split_ifs at hs with ht
    cases hs
    exact inv_thread h ht

lemma inv_init (flags : BitVec 32) : Inv cfg (init cfg flags) := by
  refine ⟨⟨?_, fun hne => absurd rfl hne⟩, rfl⟩
  exact set_and_self _ _

/-! ### Nothing is stranded -/

/-- **No stranded byte**: in every interleaving, when neither the handler nor the thread has
anything to do, a byte in the FIFO has the RX flag set and RX enabled, so that the line is
raised; and what was delivered is what came in and has left the FIFO, in order, less what
the thread is holding between a FIFO access and the delivery. -/
theorem never_stranded (flags : BitVec 32) {s : St}
    (h : Reach (step cfg rd) Any (init cfg flags) s) :
    (s.hard = .idle → s.thread = .idle → s.rxFifo ≠ [] →
      s.irqFlag &&& cfg.irqRx = cfg.irqRx ∧ s.irqMask &&& cfg.irqRx = cfg.irqRx ∧
        s.irqFlag &&& s.irqMask ≠ 0) ∧
      s.delivered.flatten ++ inHand s.thread s.rxBuf ++ s.rxFifo = s.arrived := by
  have hi : Inv cfg s := h.invariant (Inv cfg) (inv_init flags) fun _ _ _ hi _ hs => inv_step hi hs
  refine ⟨fun hh ht hne => ?_, hi.bytes⟩
  have ha : Armed cfg s := by
    have hp := hi.phase
    unfold Phase at hp
    rw [hh, ht] at hp
    exact hp
  have hf := ha.2 hne
  refine ⟨hf, ha.1, fun h0 => cfg.rx_ne ?_⟩
  rw [← hf, ← ha.1, ← BitVec.and_assoc, h0]
  simp

/-- Words while there are four bytes, then single bytes. -/
def wordReader : Reader where
  width n := if 4 ≤ n then 4 else min n 1
  pos n hn := by
    split_ifs <;> omega
  le n := by
    split_ifs <;> omega

/-- A byte comes in between the last empty count and the rearm, which clears its flag; the
recheck finds it. A third one comes in after that. -/
theorem never_stranded_rearm : ∃ s, Reach (step uartMasks wordReader) Any (init uartMasks 0) s ∧
    s.hard = .idle ∧ s.thread = .idle ∧ s.rxFifo = [9] ∧ s.delivered = [[7], [8]] ∧
    s.irqFlag &&& s.irqMask ≠ 0 := by
  obtain ⟨s, hr, hs⟩ := exists_reach_of_run (step uartMasks wordReader) Any (init uartMasks 0)
    [.arrive 7, .hard false, .hard false, .hard false, .thread, .thread, .thread, .thread,
      .thread, .arrive 8, .thread, .thread, .thread, .thread, .thread, .thread, .thread,
      .thread, .thread, .arrive 9]
    (fun s => s.hard = .idle ∧ s.thread = .idle ∧ s.rxFifo = [9] ∧ s.delivered = [[7], [8]])
    (by decide)
  rw [decide_eq_true_eq] at hs
  obtain ⟨h1, h2, h3, h4⟩ := hs
  have hline := (never_stranded 0 hr).1 h1 h2 (by rw [h3]; simp)
  exact ⟨s, hr, h1, h2, h3, h4, hline.2.2⟩

end Wallace.DockRxRearm
