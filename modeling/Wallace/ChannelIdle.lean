import Wallace.ChannelModel
import Wallace.DockTxOwner
import Wallace.Masks

/-!
The transmitter of a shared DockChannel comes to rest.

The message of the TTY is in one place at a time: peeked, in the queue of the mailbox, on its
way through `send_data`, with the hardware, or in a completion. As long as `send_data` finds the
channel free whenever it is called, each of these places has a step that is still to come, so
that in a quiet state there is no message and nothing left in the FIFO of the TTY. If it finds
the channel taken once, the message stays in the queue, and `tx_active` stays set.
-/

namespace Wallace.ChannelIdle

open Kfifo Runs ChannelModel
open DockTxModel (Config Base Shared Pc fifoSize exec sendData sendAtomic irqLocked pollLocked)
open TtyModel (Work queueTxLocked txFifoSize)

variable {ι : Type*} {cfg : Config} {base : Base}

/-! ### Where the message is -/

/-- The work is not between its two sections, or `mbox_send_message` has returned. -/
def Resting (w : Work) : Prop := w = .idle ∨ ∃ len, w = .sent len .ok

/-- The message is with the hardware, or its completion has started. -/
def Flying (t : Tick) (active : Bool) : Prop :=
  t = .idle ∧ active = true ∨ t = .start ∧ active = false

/-- The places of the message, by `tx_active`, the work, the queue and the active request of the
mailbox, the submission, the completion, `tx_active` of the controller and the message. -/
inductive Stage : Bool → Work → Bool → ℕ → Bool → Submit → Tick → Bool → List UInt8 → Prop
  | rest {w : Work} {msg : List UInt8} (hw : Resting w) :
    Stage false w false 0 false .free .idle false msg
  | peeked {len : ℕ} {msg : List UInt8} :
    Stage true (.peeked len) false 0 false .free .idle false msg
  | added {len : ℕ} {msg : List UInt8} :
    Stage true (.peeked len) true 1 false .free .idle false msg
  | claiming {len n : ℕ} {msg : List UInt8} :
    Stage true (.peeked len) true 1 false (.sending .work (.dataClaim n msg)) .idle false msg
  | locking {len n : ℕ} {msg : List UInt8} :
    Stage true (.peeked len) true 1 false (.sending .work (.dataLock n msg)) .idle false msg
  | loaded {len : ℕ} {t : Tick} {d : Bool} {msg : List UInt8} (h : Flying t d) :
    Stage true (.peeked len) true 1 false (.sent .work true) t d msg
  | flying {w : Work} {t : Tick} {d : Bool} {msg : List UInt8} (hw : Resting w) (h : Flying t d) :
    Stage true w false 0 true .free t d msg
  | ending {w : Work} {t : Tick} {msg : List UInt8} (hw : Resting w)
    (ht : t = .submit true ∨ t = .callback true) : Stage true w false 0 false .free t false msg

def staged (s : St ι) : Prop :=
  Stage s.tty.txActive s.tty.work s.added s.msgCount s.activeReq s.submit s.tick s.dc.txActive
    s.tty.txMsg

section Inversion

variable {x a r d ok : Bool} {w : Work} {n len : ℕ} {sub : Submit} {t : Tick} {m : List UInt8}
  {caller : Caller} {pc : Pc} {ret : TtyModel.Ret}

lemma Stage.of_inactive (h : Stage x w a n r sub t d m) (hx : x = false) :
    Resting w ∧ a = false ∧ n = 0 ∧ r = false ∧ sub = .free ∧ t = .idle ∧ d = false := by
  cases h <;> simp_all

lemma Stage.of_peeked (h : Stage x w a n r sub t d m) (hw : w = .peeked len) (ha : a = false) :
    x = true ∧ n = 0 ∧ r = false ∧ sub = .free ∧ t = .idle ∧ d = false := by
  cases h <;> simp_all [Resting]

lemma Stage.of_added (h : Stage x w a n r sub t d m) (ha : a = true) (hs : sub = .free) :
    x = true ∧ (∃ len, w = .peeked len) ∧ n = 1 ∧ r = false ∧ t = .idle ∧ d = false := by
  cases h <;> simp_all

lemma Stage.of_sending (h : Stage x w a n r sub t d m) (hs : sub = .sending caller pc) :
    caller = .work ∧ x = true ∧ (∃ len, w = .peeked len) ∧ a = true ∧ n = 1 ∧ r = false ∧
      t = .idle ∧ d = false ∧ ∃ k, pc = .dataClaim k m ∨ pc = .dataLock k m := by
  cases h with
  | claiming =>
    cases hs
    exact ⟨rfl, rfl, ⟨_, rfl⟩, rfl, rfl, rfl, rfl, rfl, _, .inl rfl⟩
  | locking =>
    cases hs
    exact ⟨rfl, rfl, ⟨_, rfl⟩, rfl, rfl, rfl, rfl, rfl, _, .inr rfl⟩
  | _ => cases hs

lemma Stage.of_sent (h : Stage x w a n r sub t d m) (hs : sub = .sent caller ok) :
    caller = .work ∧ ok = true ∧ x = true ∧ (∃ len, w = .peeked len) ∧ a = true ∧ n = 1 ∧
      r = false ∧ Flying t d := by
  cases h <;> simp_all

lemma Stage.of_start (h : Stage x w a n r sub t d m) (ht : t = .start) (hs : sub = .free) :
    x = true ∧ Resting w ∧ a = false ∧ n = 0 ∧ r = true ∧ d = false := by
  cases h <;> simp_all [Flying]

lemma Stage.of_ticking (h : Stage x w a n r sub t d m) (ht : t = .submit ok ∨ t = .callback ok) :
    ok = true ∧ x = true ∧ Resting w ∧ a = false ∧ n = 0 ∧ r = false ∧ sub = .free ∧
      d = false := by
  rcases ht with rfl | rfl <;> cases h <;> simp_all [Flying]

/-- The second section of the work changes nothing about the place. -/
lemma Stage.of_returned (h : Stage x w a n r sub t d m) (hw : w = .sent len ret) :
    ret = .ok ∧ Stage x .idle a n r sub t d m := by
  have hidle : Resting .idle := .inl rfl
  cases h with
  | rest hr =>
    subst hw
    exact ⟨by simpa [Resting] using hr, .rest hidle⟩
  | flying hr hf =>
    subst hw
    exact ⟨by simpa [Resting] using hr, .flying hidle hf⟩
  | ending hr ht =>
    subst hw
    exact ⟨by simpa [Resting] using hr, .ending hidle ht⟩
  | _ => cases hw

end Inversion

/-- The batch of the work: the next bytes of the FIFO, one message of them. -/
structure Batch (txMsg accepted : List UInt8) (fifo : Fifo UInt8) (len : ℕ) : Prop where
  msg : txMsg = (accepted.drop fifo.out).take len
  stop : fifo.out + len ≤ fifo.inn
  pos : 0 < len
  le : len ≤ fifoSize

/-- The bytes at the front of the FIFO that have been handed over already. -/
def ahead (s : St ι) : ℕ :=
  match s.tty.work, s.submit with
  | .sent len _, _ => len
  | .peeked len, .sent .work true => len
  | _, _ => 0

/-- The console runs nothing but atomic sends. -/
def Atomic : Pc → Prop
  | .dataClaim _ _ | .dataLock _ _ | .dataRelease _ => False
  | _ => True

structure Good (cfg : Config) (s : St ι) : Prop where
  stage : staged s
  armed : s.dc.txActive = true → cfg.pollMode = true ∨ s.dc.irqMask &&& cfg.irqTx ≠ 0
  console : ∀ p, Atomic (s.console p)
  holds : Holds txFifoSize s.tty.fifo s.tty.accepted
  /-- Bytes that wait have a work run ahead of them. -/
  scheduled : s.tty.txActive = false → s.tty.fifo.isEmpty = false →
    s.tty.queued.isSome = true ∨ ∃ len ret, s.tty.work = .sent len ret
  batch : ∀ len, s.tty.work = .peeked len → Batch s.tty.txMsg s.tty.accepted s.tty.fifo len
  sent : ∀ len ret, s.tty.work = .sent len ret → s.tty.fifo.out + len ≤ s.tty.fifo.inn
  handed : s.handed = s.tty.accepted.take (s.tty.fifo.out + ahead s)

/-- **A quiet channel is idle.** -/
theorem Good.idle {s : St ι} (h : Good cfg s) (hq : Quiet cfg s) :
    s.tty.txActive = false ∧ s.tty.fifo.isEmpty = true ∧ s.handed = s.tty.accepted := by
  have hactive : s.tty.txActive = false := by
    have hstage := h.stage
    unfold staged at hstage
    rw [hq.work, hq.submit, hq.tick] at hstage
    generalize hx : s.tty.txActive = x at hstage ⊢
    generalize hd : s.dc.txActive = d at hstage
    generalize s.added = added at hstage
    generalize s.msgCount = n at hstage
    generalize s.activeReq = req at hstage
    cases hstage with
    | rest => rfl
    | flying _ hfly =>
      obtain ⟨-, rfl⟩ | ⟨he, -⟩ := hfly
      · refine absurd ⟨hq.hw, ?_⟩ hq.completion
        have harmed := h.armed hd
        split_ifs with hp
        · exact hd
        · exact harmed.resolve_left hp
      · cases he
    | ending _ ht => rcases ht with he | he <;> cases he
  have hempty : s.tty.fifo.isEmpty = true := by
    by_contra hne
    rw [Bool.not_eq_true] at hne
    rcases h.scheduled hactive hne with hs | ⟨len, ret, hs⟩
    · rw [hq.queued] at hs
      cases hs
    · rw [hq.work] at hs
      cases hs
  refine ⟨hactive, hempty, ?_⟩
  have hlen : s.tty.fifo.inn - s.tty.fifo.out = 0 := by
    rw [← h.holds.len (by decide)]
    simpa [Fifo.isEmpty] using hempty
  have hahead : ahead s = 0 := by
    rw [ahead, hq.work]
  have hinn := h.holds.inn
  have hle := h.holds.le
  rw [h.handed, hahead]
  exact List.take_of_length_le (by omega)

/-! ### What the parts do -/

/-- Queueing schedules the work, if there is something for it. -/
lemma queueTxLocked_spec (t : TtyModel.St) (immediate : Bool) :
    ∃ q, queueTxLocked t immediate = { t with queued := q } ∧
      (t.disconnected = false → t.txActive = false → t.fifo.isEmpty = false → q.isSome = true) := by
  unfold queueTxLocked
  split_ifs with h1 h2
  · refine ⟨t.queued, rfl, fun hd hx he => ?_⟩
    simp [hd, hx, he] at h1
  · exact ⟨_, rfl, fun _ _ _ => rfl⟩
  · exact ⟨_, rfl, fun _ _ _ => rfl⟩

lemma cmpxchg_spec (s : Shared) (old new : DockTxModel.Owner) :
    (s.cmpxchg old new).2.txActive = s.txActive ∧ (s.cmpxchg old new).2.irqMask = s.irqMask := by
  unfold DockTxModel.Shared.cmpxchg
  split_ifs <;> exact ⟨rfl, rfl⟩

lemma irqLocked_spec (s : Shared) (flags : BitVec 32) :
    irqLocked cfg base s flags = s ∨ (irqLocked cfg base s flags).txActive = false := by
  unfold irqLocked
  simp only
  split_ifs
  · exact .inr (cmpxchg_spec _ _ _).1
  · exact .inl rfl

lemma pollLocked_spec (s : Shared) :
    pollLocked base s = s ∨ (pollLocked base s).txActive = false := by
  unfold pollLocked
  split_ifs
  · exact .inr (cmpxchg_spec _ _ _).1
  · exact .inl rfl

/-- An atomic send leaves the state of the other sends alone. -/
lemma exec_atomic (cfg : Config) (base : Base) {pc : Pc} (h : Atomic pc) (s : Shared)
    (expired : Bool) :
    (exec cfg base s expired pc).1.txActive = s.txActive ∧
      (exec cfg base s expired pc).1.irqMask = s.irqMask ∧
      Atomic (exec cfg base s expired pc).2 := by
  cases pc with
  | dataClaim n m => cases h
  | dataLock n m => cases h
  | dataRelease n => cases h
  | idle => exact ⟨rfl, rfl, trivial⟩
  | atomClaim n m =>
    have hx := cmpxchg_spec s .idle .atomic
    rw [exec]
    split
    · rename_i heq
      rw [heq] at hx
      exact ⟨hx.1, hx.2, trivial⟩
    · rename_i heq
      rw [heq] at hx
      exact ⟨hx.1, hx.2, trivial⟩
  | atomAvail n m =>
    rw [exec]
    split_ifs <;> exact ⟨rfl, rfl, trivial⟩
  | atomWrite n m =>
    refine ⟨rfl, rfl, ?_⟩
    rw [exec]
    simp only
    split_ifs <;> trivial
  | atomPoll n =>
    rw [exec]
    split_ifs <;> exact ⟨rfl, rfl, trivial⟩
  | atomPollLast n => exact ⟨rfl, rfl, trivial⟩
  | atomRelease n ret =>
    have hx := cmpxchg_spec s .atomic .idle
    exact ⟨hx.1, hx.2, trivial⟩

lemma sendAtomic_spec (s : Shared) (n : ℕ) (m : List UInt8) (us : ℕ) :
    (sendAtomic s n false m us).1.txActive = s.txActive ∧
      (sendAtomic s n false m us).1.irqMask = s.irqMask ∧ Atomic (sendAtomic s n false m us).2 := by
  unfold sendAtomic
  split_ifs <;> exact ⟨rfl, rfl, trivial⟩

/-! ### Steps of the TTY -/

variable {s : St ι}

lemma Good.ahead_le (h : Good cfg s) : s.tty.fifo.out + ahead s ≤ s.tty.accepted.length := by
  have hinn := h.holds.inn
  have hle := h.holds.le
  unfold ahead
  split
  · rename_i len ret hw
    have := h.sent len ret hw
    omega
  · rename_i len hw _
    have := (h.batch len hw).stop
    omega
  · omega

lemma write_spec {t : TtyModel.St} (hd : t.disconnected = false) (buf : List UInt8) :
    (TtyModel.write t buf).1 = t ∨ ∃ q, (TtyModel.write t buf).1 =
        { t with
          fifo := t.fifo.put txFifoSize buf
          accepted := t.accepted ++ buf.take (t.fifo.unused txFifoSize)
          queued := q } ∧
      (t.txActive = false → (t.fifo.put txFifoSize buf).isEmpty = false → q.isSome = true) := by
  unfold TtyModel.write
  split_ifs with hnil hdis
  · exact .inl rfl
  · rw [hd] at hdis
    cases hdis
  · obtain ⟨q, hq, hsched⟩ := queueTxLocked_spec
      { t with
        fifo := t.fifo.put txFifoSize buf
        accepted := t.accepted ++ buf.take (t.fifo.unused txFifoSize) }
      (TtyModel.fifoSize ≤ (buf.take (t.fifo.unused txFifoSize)).length)
    exact .inr ⟨q, hq, hsched hd⟩

lemma good_write (h : Good cfg s) (hd : s.tty.disconnected = false) (buf : List UInt8) :
    Good cfg { s with tty := (TtyModel.write s.tty buf).1 } := by
  rcases write_spec hd buf with hw | ⟨q, hw, hsched⟩
  · rw [hw]
    exact h
  · rw [hw]
    have hinn := h.holds.inn
    refine ⟨h.stage, h.armed, h.console, h.holds.put (by decide) buf, ?_, ?_, ?_, ?_⟩
    · exact fun hx he => .inl (hsched hx he)
    · intro len hw
      have hb := h.batch len hw
      have hstop := hb.stop
      refine ⟨?_, ?_, hb.pos, hb.le⟩
      · have hmsg := hb.msg
        simp only [Fifo.put]
        rw [hmsg, List.drop_append_of_le_length (by omega), List.take_append_of_le_length]
        rw [List.length_drop]
        omega
      · simp only [Fifo.put]
        omega
    · intro len ret hw
      have := h.sent len ret hw
      simp only [Fifo.put]
      omega
    · have hhanded := h.handed
      have htake : (s.tty.accepted ++ buf.take (s.tty.fifo.unused txFifoSize)).take
          (s.tty.fifo.out + ahead s) = s.tty.accepted.take (s.tty.fifo.out + ahead s) :=
        List.take_append_of_le_length h.ahead_le
      exact hhanded.trans htake.symm

/-- The first section of the work takes the next batch, unless there is none or another is
under way. -/
lemma txWorkPeek_spec {t : TtyModel.St} (hh : Holds txFifoSize t.fifo t.accepted)
    (hd : t.disconnected = false) :
    (t.txActive = true ∨ t.fifo.isEmpty = true) ∧ TtyModel.txWorkPeek t = t ∨
    t.txActive = false ∧ ∃ len, TtyModel.txWorkPeek t =
        { t with
          txMsg := (t.accepted.drop t.fifo.out).take len
          txLen := len
          txActive := true
          work := .peeked len
          flushedSince := false } ∧
      t.fifo.out + len ≤ t.fifo.inn ∧ 0 < len ∧ len ≤ fifoSize := by
  have hinn := hh.inn
  have hle := hh.le
  have hlen := hh.len (by decide)
  unfold TtyModel.txWorkPeek
  by_cases hskip : t.txActive = true ∨ t.fifo.isEmpty = true
  · refine .inl ⟨hskip, if_pos ?_⟩
    rcases hskip with h | h <;> simp [h]
  · rw [not_or, Bool.not_eq_true, Bool.not_eq_true] at hskip
    obtain ⟨hx, he⟩ := hskip
    have hne : t.fifo.len ≠ 0 := by simpa [Fifo.isEmpty] using he
    obtain ⟨len, hl⟩ : ∃ len, len = min (min t.fifo.len fifoSize) (t.fifo.inn - t.fifo.out) :=
      ⟨_, rfl⟩
    have hfs : fifoSize = 0x800 := rfl
    have hpeek : t.fifo.peek txFifoSize (min t.fifo.len TtyModel.fifoSize) =
        (t.accepted.drop t.fifo.out).take len := by
      rw [hh.peek (by decide), hl]
      rfl
    have hmsg : ((t.accepted.drop t.fifo.out).take len).length = len := by
      rw [List.length_take, List.length_drop]
      omega
    refine .inr ⟨hx, len, ?_, by omega, by omega, by omega⟩
    rw [if_neg (by simp [hd, hx, he])]
    simp only [hpeek]
    rw [if_neg, hmsg]
    intro hnil
    rw [hnil] at hmsg
    simp only [List.length_nil] at hmsg
    omega

lemma good_peek (h : Good cfg s) (hd : s.tty.disconnected = false) (hw : s.tty.work = .idle) :
    Good cfg { s with tty := TtyModel.txWorkPeek { s.tty with queued := none } } := by
  have hahead : ahead s = 0 := by
    rw [ahead, hw]
  have hhanded := h.handed
  rw [hahead] at hhanded
  rcases txWorkPeek_spec (t := { s.tty with queued := none }) h.holds hd with
    ⟨hskip, hp⟩ | ⟨hx, len, hp, hstop, hpos, hle⟩
  · rw [hp]
    refine ⟨h.stage, h.armed, h.console, h.holds, fun hx he => ?_, h.batch, h.sent, h.handed⟩
    rcases hskip with h' | h'
    · exact absurd (h'.symm.trans hx) (by decide)
    · exact absurd (h'.symm.trans he) (by decide)
  · rw [hp]
    obtain ⟨-, ha, hn, hr, hsub, ht, hact⟩ := h.stage.of_inactive hx
    refine ⟨?_, h.armed, h.console, h.holds, fun hx' => (by cases hx'), ?_, ?_, ?_⟩
    · unfold staged
      simp only [ha, hn, hr, hsub, ht, hact]
      exact .peeked
    · intro len' hw'
      cases hw'
      exact ⟨rfl, hstop, hpos, hle⟩
    · intro len' ret hw'
      cases hw'
    · simp only [ahead, hsub]
      exact hhanded

/-- The second section of the work, after a send that the mailbox took. -/
lemma txWorkFinish_ok (t : TtyModel.St) (len : ℕ) :
    ∃ q, TtyModel.txWorkFinish t len .ok =
        { t with work := .idle, fifo := t.fifo.skip len, queued := q } ∧
      (t.disconnected = false → t.txActive = false → (t.fifo.skip len).isEmpty = false →
        q.isSome = true) := by
  obtain ⟨q, hq, hsched⟩ := queueTxLocked_spec
    { t with work := .idle, fifo := t.fifo.skip len } true
  refine ⟨q, ?_, hsched⟩
  unfold TtyModel.txWorkFinish
  rw [if_pos rfl]
  exact hq

lemma good_finish (h : Good cfg s) (hd : s.tty.disconnected = false) {len : ℕ}
    {ret : TtyModel.Ret} (hw : s.tty.work = .sent len ret) :
    Good cfg { s with tty := TtyModel.txWorkFinish s.tty len ret } := by
  obtain ⟨rfl, hstage⟩ := h.stage.of_returned hw
  have hahead : ahead s = len := by
    rw [ahead, hw]
  have hhanded := h.handed
  rw [hahead] at hhanded
  obtain ⟨q, hfin, hsched⟩ := txWorkFinish_ok s.tty len
  rw [hfin]
  refine ⟨hstage, h.armed, h.console, h.holds.skip (h.sent len .ok hw), ?_, ?_, ?_, ?_⟩
  · exact fun hx he => .inl (hsched hd hx he)
  · intro len' hw'
    cases hw'
  · intro len' ret hw'
    cases hw'
  · simp only [ahead, Fifo.skip]
    exact hhanded

/-! ### Steps of the mailbox -/

/-- A change of the mailbox and the controller that moves the message on and hands nothing
over. -/
lemma Good.mbox {s' : St ι} (h : Good cfg s) (htty : s'.tty = s.tty)
    (hcon : ∀ p, Atomic (s'.console p)) (hstage : staged s')
    (harmed : s'.dc.txActive = true → cfg.pollMode = true ∨ s'.dc.irqMask &&& cfg.irqTx ≠ 0)
    (hhanded : s'.handed = s'.tty.accepted.take (s'.tty.fifo.out + ahead s')) : Good cfg s' := by
  refine ⟨hstage, harmed, hcon, ?_, ?_, ?_, ?_, hhanded⟩
  · rw [htty]
    exact h.holds
  · rw [htty]
    exact h.scheduled
  · rw [htty]
    exact h.batch
  · rw [htty]
    exact h.sent

lemma good_add (h : Good cfg s) {len : ℕ} (hw : s.tty.work = .peeked len) (ha : s.added = false) :
    Good cfg { s with msgCount := s.msgCount + 1, added := true } := by
  obtain ⟨hx, hn, hr, hsub, ht, hact⟩ := h.stage.of_peeked hw ha
  refine h.mbox rfl h.console ?_ h.armed h.handed
  unfold staged
  simp only [hx, hw, hn, hr, hsub, ht, hact]
  exact .added

lemma Batch.length {txMsg accepted : List UInt8} {fifo : Fifo UInt8} {len : ℕ}
    (h : Batch txMsg accepted fifo len) (hh : Holds txFifoSize fifo accepted) :
    txMsg.length = len := by
  have hstop := h.stop
  have hinn := hh.inn
  rw [h.msg, List.length_take, List.length_drop]
  omega

lemma good_submitWork (hvalid : ∀ m, m ≠ [] → base.valid m = true) (h : Good cfg s)
    (ha : s.added = true) (hsub : s.submit = .free) : Good cfg (msgSubmit base s .work) := by
  obtain ⟨hx, ⟨len, hw⟩, hn, hr, ht, hact⟩ := h.stage.of_added ha hsub
  have hb := h.batch len hw
  have hlen := hb.length h.holds
  have hne : s.tty.txMsg ≠ [] := by
    intro hnil
    have := hb.pos
    rw [hnil, List.length_nil] at hlen
    omega
  have hsend : sendData base s.dc s.next s.tty.txMsg = (s.dc, .dataClaim s.next s.tty.txMsg) := by
    unfold sendData
    rw [hvalid _ hne, if_neg (by simp), if_neg (by rw [hlen]; exact Nat.not_lt.mpr hb.le)]
  have hout : msgSubmit base s .work =
      { s with next := s.next + 1, submit := .sending .work (.dataClaim s.next s.tty.txMsg) } := by
    unfold msgSubmit
    rw [if_neg (by simp [hr, hn]), hsend]
    simp
  rw [hout]
  refine h.mbox rfl h.console ?_ h.armed ?_
  · unfold staged
    simp only [hx, hw, ha, hn, hr, ht, hact]
    exact .claiming
  · have hhanded := h.handed
    simp only [ahead, hw, hsub] at hhanded ⊢
    exact hhanded

/-- **The claim** of an idle channel succeeds. -/
lemma good_claim (h : Good cfg s) {caller : Caller} {n : ℕ} {m : List UInt8}
    (hsub : s.submit = .sending caller (.dataClaim n m)) (hidle : s.dc.owner = .idle) :
    Good cfg (sendGo cfg base s caller (.dataClaim n m)) := by
  obtain ⟨rfl, hx, ⟨len, hw⟩, ha, hn, hr, ht, hact, k, hpc⟩ := h.stage.of_sending hsub
  have hm : m = s.tty.txMsg := by
    rcases hpc with hpc | hpc <;> cases hpc
    rfl
  have hexec : exec cfg base s.dc false (.dataClaim n m) =
      ({ s.dc with owner := .async, holder := n }, .dataLock n m) := by
    rw [exec, DockTxModel.Shared.cmpxchg, hidle, if_pos rfl]
  unfold sendGo
  rw [hexec]
  refine h.mbox rfl h.console ?_ h.armed ?_
  · unfold staged
    simp only [hx, hw, ha, hn, hr, ht, hact, hm]
    exact .locking
  · have hhanded := h.handed
    simp only [ahead, hw, hsub] at hhanded ⊢
    exact hhanded

/-- **The locked section** on an empty FIFO hands the whole message over. -/
lemma good_load (hpending : ∀ m, m.length ≤ fifoSize → base.writePending m = m) (h : Good cfg s)
    {caller : Caller} {n : ℕ} {m : List UInt8} (hsub : s.submit = .sending caller (.dataLock n m))
    (hhw : s.dc.hw = []) : Good cfg (sendGo cfg base s caller (.dataLock n m)) := by
  obtain ⟨rfl, hx, ⟨len, hw⟩, ha, hn, hr, ht, hact, k, hpc⟩ := h.stage.of_sending hsub
  have hm : m = s.tty.txMsg := by
    rcases hpc with hpc | hpc <;> cases hpc
    rfl
  have hb := h.batch len hw
  have hlen := hb.length h.holds
  have hfree : base.txEmpty s.dc.txFree = true := by
    have hempty : s.dc.txFree = fifoSize := by
      rw [DockTxModel.Shared.txFree, hhw]
      rfl
    rw [hempty, base.txEmpty_iff _ (Nat.le_refl _)]
  obtain ⟨dc, hexec, hact', harmed⟩ : ∃ dc, exec cfg base s.dc false (.dataLock n m) = (dc, .idle) ∧
      dc.txActive = true ∧ (cfg.pollMode = true ∨ dc.irqMask &&& cfg.irqTx ≠ 0) := by
    rw [exec, DockTxModel.sendDataLocked, if_neg (by simp [hact, hfree])]
    refine ⟨_, rfl, ?_⟩
    by_cases hpoll : cfg.pollMode = true
    · rw [if_pos hpoll]
      exact ⟨rfl, .inl hpoll⟩
    · rw [if_neg hpoll]
      refine ⟨rfl, .inr ?_⟩
      have hset := Masks.set_and_self s.dc.irqMask cfg.irqTx
      exact fun h0 => cfg.tx_ne (hset.symm.trans h0)
  unfold sendGo
  rw [hexec]
  refine h.mbox rfl h.console ?_ (fun _ => harmed) ?_
  · unfold staged
    simp only [hx, hw, ha, hn, hr, ht, hact']
    exact .loaded (.inl ⟨rfl, rfl⟩)
  · have hhanded := h.handed
    simp only [ahead, hw, hsub] at hhanded ⊢
    rw [hhanded, hpending m (by rw [hm, hlen]; exact hb.le), hm, hb.msg, Nat.add_zero,
      ← List.take_add]

lemma good_submitDone (h : Good cfg s) {caller : Caller} {ok : Bool}
    (hsub : s.submit = .sent caller ok) : Good cfg (submitDone s caller ok) := by
  obtain ⟨rfl, rfl, hx, ⟨len, hw⟩, ha, hn, hr, hfly⟩ := h.stage.of_sent hsub
  have hb := h.batch len hw
  have hout : submitDone s .work true =
      { s with
        submit := .free
        activeReq := true
        msgCount := s.msgCount - 1
        tty := TtyModel.mboxSend s.tty len .ok
        added := false } := by
    simp only [submitDone, St.submitted, if_true, hw]
  have hhanded := h.handed
  simp only [ahead, hw, hsub] at hhanded
  rw [hout]
  refine ⟨?_, h.armed, h.console, h.holds, fun _ _ => .inr ⟨len, .ok, rfl⟩, ?_, ?_, hhanded⟩
  · unfold staged
    simp only [TtyModel.mboxSend, hx, hn]
    exact .flying (.inr ⟨len, rfl⟩) hfly
  · intro len' hw'
    cases hw'
  · intro len' ret hw'
    cases hw'
    exact hb.stop

/-! ### Steps of a completion -/

lemma good_complete (h : Good cfg s) (ht : s.tick = .idle) {dc : Shared}
    (hdc : dc = s.dc ∨ dc.txActive = false) : Good cfg (complete s dc) := by
  have hstage := h.stage
  unfold staged at hstage
  rw [ht] at hstage
  by_cases hend : s.dc.txActive = true ∧ dc.txActive = false
  · -- the active send has ended: its completion starts
    obtain ⟨hact, hact'⟩ := hend
    refine h.mbox rfl h.console ?_ (fun hd => ?_) h.handed
    · rw [hact] at hstage
      unfold staged complete
      simp only [hact, hact']
      generalize s.tty.txActive = x at hstage ⊢
      generalize s.tty.work = w at hstage ⊢
      generalize s.added = a at hstage ⊢
      generalize s.msgCount = n at hstage ⊢
      generalize s.activeReq = r at hstage ⊢
      generalize s.submit = sub at hstage ⊢
      cases hstage with
      | loaded => exact .loaded (.inr ⟨rfl, rfl⟩)
      | flying hw => exact .flying hw (.inr ⟨rfl, rfl⟩)
    · rw [show (complete s dc).dc = dc from rfl, hact'] at hd
      cases hd
  · have hsame : dc.txActive = s.dc.txActive := by
      rcases hdc with rfl | hdc
      · rfl
      · cases hact : s.dc.txActive with
        | false => exact hdc
        | true => exact absurd ⟨hact, hdc⟩ hend
    refine h.mbox rfl h.console ?_ (fun hd => ?_) h.handed
    · unfold staged complete
      rw [hsame, Bool.and_not_self]
      exact hstage
    · rcases hdc with rfl | hdc
      · exact h.armed hd
      · exact absurd (hdc.symm.trans hd) (by decide)

lemma good_txdone (h : Good cfg s) (ht : s.tick = .start) (hsub : s.submit = .free) :
    Good cfg { s with activeReq := false, tick := .submit s.activeReq } := by
  obtain ⟨hx, hw, ha, hn, hr, hact⟩ := h.stage.of_start ht hsub
  refine h.mbox rfl h.console ?_ h.armed h.handed
  unfold staged
  simp only [hx, ha, hn, hr, hsub, hact]
  exact .ending hw (.inl rfl)

/-- The queue is empty, so that the completion goes straight to the callback. -/
lemma good_submitTick (h : Good cfg s) {mssg : Bool} (ht : s.tick = .submit mssg) :
    Good cfg (msgSubmit base s .tick) := by
  obtain ⟨rfl, hx, hw, ha, hn, hr, hsub, hact⟩ := h.stage.of_ticking (.inl ht)
  have hout : msgSubmit base s .tick = { s with tick := .callback true } := by
    unfold msgSubmit
    rw [if_pos (by simp [hn]), St.submitted, ht]
  rw [hout]
  refine h.mbox rfl h.console ?_ h.armed h.handed
  unfold staged
  simp only [hx, ha, hn, hr, hsub, hact]
  exact .ending hw (.inr rfl)

lemma good_callback (h : Good cfg s) (hd : s.tty.disconnected = false) {mssg : Bool}
    (ht : s.tick = .callback mssg) :
    mssg = true ∧ Good cfg { s with tty := TtyModel.txDone s.tty, tick := .idle } := by
  obtain ⟨rfl, hx, hw, ha, hn, hr, hsub, hact⟩ := h.stage.of_ticking (.inr ht)
  refine ⟨rfl, ?_⟩
  obtain ⟨q, hq, hsched⟩ := queueTxLocked_spec { s.tty with txActive := false, txLen := 0 } true
  have hdone : TtyModel.txDone s.tty =
      { s.tty with txActive := false, txLen := 0, queued := q } := hq
  rw [hdone]
  refine ⟨?_, h.armed, h.console, h.holds, ?_, h.batch, h.sent, h.handed⟩
  · unfold staged
    simp only [ha, hn, hr, hsub, hact]
    exact .rest hw
  · exact fun hx' he => .inl (hsched hd hx' he)

/-! ### Steps of the console and of the hardware -/

lemma Good.shared {s' : St ι} (h : Good cfg s) (htty : s'.tty = s.tty) (hadd : s'.added = s.added)
    (hn : s'.msgCount = s.msgCount) (hr : s'.activeReq = s.activeReq) (hsub : s'.submit = s.submit)
    (ht : s'.tick = s.tick) (hact : s'.dc.txActive = s.dc.txActive)
    (hmask : s'.dc.irqMask = s.dc.irqMask) (hcon : ∀ p, Atomic (s'.console p))
    (hhanded : s'.handed = s.handed) : Good cfg s' := by
  refine h.mbox htty hcon ?_ ?_ ?_
  · unfold staged
    rw [htty, hadd, hn, hr, hsub, ht, hact]
    exact h.stage
  · rw [hact, hmask]
    exact h.armed
  · rw [hhanded, htty]
    unfold ahead
    rw [htty, hsub]
    exact h.handed

lemma queueTxLocked_disconnected (t : TtyModel.St) (immediate : Bool) :
    (queueTxLocked t immediate).disconnected = t.disconnected := by
  obtain ⟨q, hq, -⟩ := queueTxLocked_spec t immediate
  rw [hq]

lemma submitted_disconnected (s : St ι) (caller : Caller) :
    (s.submitted caller).tty.disconnected = s.tty.disconnected := by
  unfold St.submitted
  cases caller with
  | work =>
    simp only
    split <;> rfl
  | tick =>
    simp only
    split <;> rfl

lemma msgSubmit_disconnected (s : St ι) (caller : Caller) :
    (msgSubmit base s caller).tty.disconnected = s.tty.disconnected := by
  unfold msgSubmit
  split_ifs
  · exact submitted_disconnected s caller
  · rfl

lemma good_init (data : ℕ → UInt8) : Good cfg (init cfg data : St ι) where
  stage := by
    have hact : (DockTxModel.startup cfg (DockTxModel.init (ι := ι)).shared).txActive = false := by
      unfold DockTxModel.startup
      split_ifs <;> rfl
    unfold staged init
    simp only [hact]
    exact .rest (.inl rfl)
  armed := by
    intro hact
    unfold init DockTxModel.startup at hact
    simp only at hact
    split_ifs at hact <;> cases hact
  console := fun _ => trivial
  holds := by
    refine ⟨rfl, Nat.le_refl _, Nat.zero_le _, ?_⟩
    intro i _ hi
    exact absurd hi (Nat.not_lt_zero i)
  scheduled := by
    intro _ he
    cases he
  batch := by
    intro len hw
    cases hw
  sent := by
    intro len ret hw
    cases hw
  handed := rfl

variable [DecidableEq ι]

lemma atomic_update {console : ι → Pc} (h : ∀ p, Atomic (console p)) {p : ι} {pc : Pc}
    (hpc : Atomic pc) (q : ι) : Atomic (Function.update console p pc q) := by
  by_cases hq : q = p
  · rw [hq, Function.update_self]
    exact hpc
  · rw [Function.update_of_ne hq]
    exact h q

/-! ### What a step can do -/

/-- The actions, with the parts of their guards that the invariants rest on and the state after
them. -/
inductive Moves (cfg : Config) (base : Base) (s : St ι) : Act ι → St ι → Prop
  | write {buf : List UInt8} :
    Moves cfg base s (.write buf) { s with tty := (TtyModel.write s.tty buf).1 }
  | setCoalesce {us : ℕ} :
    Moves cfg base s (.setCoalesce us) { s with tty := { s.tty with txCoalesceUs := us } }
  | remove : Moves cfg base s .remove { s with tty := TtyModel.remove s.tty }
  | cancel (hd : s.tty.disconnected = true) :
    Moves cfg base s .cancel { s with tty := { s.tty with queued := none } }
  | peek (hw : s.tty.work = .idle) :
    Moves cfg base s .peek { s with tty := TtyModel.txWorkPeek { s.tty with queued := none } }
  | add {len : ℕ} (hw : s.tty.work = .peeked len) (ha : s.added = false) :
    Moves cfg base s .add { s with msgCount := s.msgCount + 1, added := true }
  | submitWork (ha : s.added = true) (hsub : s.submit = .free) :
    Moves cfg base s .submitWork (msgSubmit base s .work)
  | sendGo {caller : Caller} {pc : Pc} (hsub : s.submit = .sending caller pc) :
    Moves cfg base s .sendGo (sendGo cfg base s caller pc)
  | submitDone {caller : Caller} {ok : Bool} (hsub : s.submit = .sent caller ok) :
    Moves cfg base s .submitDone (submitDone s caller ok)
  | finish {len : ℕ} {ret : TtyModel.Ret} (hw : s.tty.work = .sent len ret) :
    Moves cfg base s .finish { s with tty := TtyModel.txWorkFinish s.tty len ret }
  | irq {flags : BitVec 32} (ht : s.tick = .idle) :
    Moves cfg base s (.irq flags) (complete s (irqLocked cfg base s.dc flags))
  | poll (ht : s.tick = .idle) : Moves cfg base s .poll (complete s (pollLocked base s.dc))
  | txdone (ht : s.tick = .start) (hsub : s.submit = .free) :
    Moves cfg base s .txdone { s with activeReq := false, tick := .submit s.activeReq }
  | submitTick {mssg : Bool} (ht : s.tick = .submit mssg) :
    Moves cfg base s .submitTick (msgSubmit base s .tick)
  | callback (ht : s.tick = .callback true) :
    Moves cfg base s .callback { s with tty := TtyModel.txDone s.tty, tick := .idle }
  | discard (ht : s.tick = .callback false) :
    Moves cfg base s .callback { s with tick := .idle }
  | print {p : ι} {thread : Bool} {m : List UInt8} {lock : Option ι} :
    Moves cfg base s (.print p thread m)
      { s with
        dc := (sendAtomic s.dc s.next false m consoleTimeoutUs).1
        next := s.next + 1
        console := Function.update s.console p (sendAtomic s.dc s.next false m consoleTimeoutUs).2
        txLock := lock }
  | printGo {p : ι} {expired : Bool} {lock : Option ι} :
    Moves cfg base s (.printGo p expired)
      { s with
        dc := (exec cfg base s.dc expired (s.console p)).1
        console := Function.update s.console p (exec cfg base s.dc expired (s.console p)).2
        txLock := lock }
  | drain : Moves cfg base s .drain { s with dc := { s.dc with hw := s.dc.hw.tail } }

lemma moves_of_step {s' : St ι} {a : Act ι} (hs : step cfg base s a = some s') :
    Moves cfg base s a s' := by
  cases a with
  | write buf =>
    simp only [step] at hs
    split_ifs at hs
    cases hs
    exact .write
  | setCoalesce us =>
    cases hs
    exact .setCoalesce
  | remove =>
    simp only [step] at hs
    split_ifs at hs
    cases hs
    exact .remove
  | cancel =>
    simp only [step] at hs
    split_ifs at hs with hg
    cases hs
    exact .cancel hg.1
  | peek =>
    simp only [step] at hs
    split_ifs at hs with hg
    cases hs
    exact .peek hg.2.1
  | add =>
    simp only [step] at hs
    split at hs
    · rename_i len hw
      split_ifs at hs with ha
      cases hs
      exact .add hw (by simpa using ha)
    · cases hs
  | submitWork =>
    simp only [step] at hs
    split_ifs at hs with hg
    cases hs
    exact .submitWork hg.1 hg.2
  | sendGo =>
    simp only [step] at hs
    split at hs
    · rename_i caller pc hsub
      cases hs
      exact .sendGo hsub
    · cases hs
  | submitDone =>
    simp only [step] at hs
    split at hs
    · rename_i caller ok hsub
      cases hs
      exact .submitDone hsub
    · cases hs
  | finish =>
    simp only [step] at hs
    split at hs
    · rename_i len ret hw
      split_ifs at hs
      cases hs
      exact .finish hw
    · cases hs
  | irq flags =>
    simp only [step] at hs
    split_ifs at hs with hg
    cases hs
    rw [not_or, not_not] at hg
    exact .irq hg.2
  | poll =>
    simp only [step] at hs
    split_ifs at hs with hg
    cases hs
    exact .poll hg.2
  | txdone =>
    simp only [step] at hs
    split_ifs at hs with hg
    cases hs
    exact .txdone hg.1 hg.2
  | submitTick =>
    simp only [step] at hs
    split at hs
    · rename_i mssg ht
      split_ifs at hs
      cases hs
      exact .submitTick ht
    · cases hs
  | callback =>
    simp only [step] at hs
    split at hs
    · rename_i ht
      split_ifs at hs
      cases hs
      exact .callback ht
    · rename_i ht
      cases hs
      exact .discard ht
    · cases hs
  | print p thread m =>
    simp only [step] at hs
    split at hs
    · cases hs
      exact .print
    · cases hs
  | printGo p expired =>
    simp only [step] at hs
    split at hs
    · cases hs
    · cases hs
      exact .printGo
  | drain =>
    cases hs
    exact .drain

/-! ### The whole system -/

/-- A disconnected port stays so. -/
lemma disconnected_step {s' : St ι} {a : Act ι} (hd : s.tty.disconnected = true)
    (hs : step cfg base s a = some s') : s'.tty.disconnected = true := by
  rw [← hd]
  cases moves_of_step hs with
  | write =>
    simp only [TtyModel.write]
    split_ifs <;> rfl
  | remove => exact hd.symm
  | peek =>
    simp only [TtyModel.txWorkPeek]
    split_ifs <;> rfl
  | submitWork => exact msgSubmit_disconnected s .work
  | sendGo =>
    simp only [sendGo]
    split <;> rfl
  | submitDone =>
    rw [submitDone, submitted_disconnected]
    split_ifs <;> rfl
  | finish =>
    simp only [TtyModel.txWorkFinish]
    split_ifs
    · exact queueTxLocked_disconnected _ _
    · exact queueTxLocked_disconnected _ _
    · rfl
  | submitTick => exact msgSubmit_disconnected s .tick
  | callback => exact queueTxLocked_disconnected _ _
  | _ => rfl

/-- **One step** of a connected port. -/
theorem good_step (hvalid : ∀ m, m ≠ [] → base.valid m = true)
    (hpending : ∀ m, m.length ≤ fifoSize → base.writePending m = m) {s' : St ι} {a : Act ι}
    (h : Good cfg s) (hd : s.tty.disconnected = false) (hc : Unshared s a)
    (hs : step cfg base s a = some s') : s'.tty.disconnected = true ∨ Good cfg s' := by
  cases moves_of_step hs with
  | @write buf => exact .inr (good_write h hd buf)
  | setCoalesce =>
    exact .inr ⟨h.stage, h.armed, h.console, h.holds, h.scheduled, h.batch, h.sent, h.handed⟩
  | remove => exact .inl rfl
  | cancel hdis => exact absurd (hd.symm.trans hdis) (by decide)
  | peek hw => exact .inr (good_peek h hd hw)
  | add hw ha => exact .inr (good_add h hw ha)
  | submitWork ha hsub => exact .inr (good_submitWork hvalid h ha hsub)
  | sendGo hsub =>
    obtain ⟨-, -, -, -, -, -, -, -, n, hpc⟩ := h.stage.of_sending hsub
    unfold Unshared at hc
    rcases hpc with rfl | rfl
    · rw [hsub] at hc
      exact .inr (good_claim h hsub hc)
    · rw [hsub] at hc
      exact .inr (good_load hpending h hsub hc)
  | submitDone hsub => exact .inr (good_submitDone h hsub)
  | finish hw => exact .inr (good_finish h hd hw)
  | @irq flags ht => exact .inr (good_complete h ht (irqLocked_spec s.dc flags))
  | poll ht => exact .inr (good_complete h ht (pollLocked_spec s.dc))
  | txdone ht hsub => exact .inr (good_txdone h ht hsub)
  | submitTick ht => exact .inr (good_submitTick h ht)
  | callback ht => exact .inr (good_callback h hd ht).2
  | discard ht => cases (good_callback h hd ht).1
  | @print p thread m lock =>
    obtain ⟨hact, hmask, hpc⟩ := sendAtomic_spec s.dc s.next m consoleTimeoutUs
    exact .inr (h.shared rfl rfl rfl rfl rfl rfl hact hmask (atomic_update h.console hpc) rfl)
  | @printGo p expired lock =>
    obtain ⟨hact, hmask, hpc⟩ := exec_atomic cfg base (h.console p) s.dc expired
    exact .inr (h.shared rfl rfl rfl rfl rfl rfl hact hmask (atomic_update h.console hpc) rfl)
  | drain => exact .inr (h.shared rfl rfl rfl rfl rfl rfl rfl rfl h.console rfl)

lemma good_of_reach (hvalid : ∀ m, m ≠ [] → base.valid m = true)
    (hpending : ∀ m, m.length ≤ fifoSize → base.writePending m = m) (data : ℕ → UInt8) {s : St ι}
    (h : Reach (step cfg base) Unshared (init cfg data) s) :
    s.tty.disconnected = true ∨ Good cfg s := by
  refine h.invariant (fun s => s.tty.disconnected = true ∨ Good cfg s) (.inr (good_init data)) ?_
  intro s a s' hi hc hs
  cases hd : s.tty.disconnected with
  | true => exact .inl (disconnected_step hd hs)
  | false => exact good_step hvalid hpending (hi.resolve_left (by simp [hd])) hd hc hs

/-! ### After a refused send -/

/-- What is left of a submission whose `send_data` has failed, by the work, the message it has
added and the submission. -/
inductive Refusal : Work → Bool → Submit → Prop
  | releasing {len k : ℕ} : Refusal (.peeked len) true (.sending .work (.dataRelease k))
  | refused {len : ℕ} : Refusal (.peeked len) true (.sent .work false)
  | returned {w : Work} (hw : Resting w) : Refusal w false .free

section

variable {w : Work} {a ok : Bool} {sub : Submit} {caller : Caller} {pc : Pc} {len : ℕ}
  {ret : TtyModel.Ret}

lemma Refusal.of_peeked (h : Refusal w a sub) (hw : w = .peeked len) : a = true := by
  cases h with
  | returned hr =>
    subst hw
    simp [Resting] at hr
  | _ => rfl

lemma Refusal.of_free (h : Refusal w a sub) (hs : sub = .free) : a = false := by
  cases h with
  | returned => rfl
  | _ => cases hs

lemma Refusal.of_sending (h : Refusal w a sub) (hs : sub = .sending caller pc) :
    caller = .work ∧ (∃ len, w = .peeked len) ∧ a = true ∧ ∃ k, pc = .dataRelease k := by
  cases h with
  | releasing =>
    cases hs
    exact ⟨rfl, ⟨_, rfl⟩, rfl, _, rfl⟩
  | _ => cases hs

lemma Refusal.of_sent (h : Refusal w a sub) (hs : sub = .sent caller ok) :
    caller = .work ∧ ok = false ∧ ∃ len, w = .peeked len := by
  cases h <;> simp_all

lemma Refusal.of_returned (h : Refusal w a sub) (hw : w = .sent len ret) :
    ret = .ok ∧ a = false ∧ sub = .free := by
  cases h with
  | returned hr =>
    subst hw
    exact ⟨by simpa [Resting] using hr, rfl, rfl⟩
  | _ => cases hw

end

/-- The message stays in the queue of the mailbox, and no completion will come. -/
structure Wedged (s : St ι) : Prop where
  active : s.tty.txActive = true
  queue : s.msgCount = 1
  req : s.activeReq = false
  tick : s.tick = .idle
  hw : s.dc.txActive = false
  console : ∀ p, Atomic (s.console p)
  refusal : Refusal s.tty.work s.added s.submit

/-- **A claim that fails loses the message**, and so does a hardware FIFO that is not empty. -/
lemma wedged_of_shared {s' : St ι} {a : Act ι} (h : Good cfg s) (hc : ¬Unshared s a)
    (hs : step cfg base s a = some s') : Wedged s' := by
  cases moves_of_step hs with
  | sendGo hsub =>
    obtain ⟨rfl, hx, ⟨len, hw⟩, ha, hn, hr, ht, hact, k, hpc⟩ := h.stage.of_sending hsub
    rcases hpc with rfl | rfl
    · simp only [Unshared, hsub] at hc
      obtain ⟨dc, hexec, hdc⟩ : ∃ dc, exec cfg base s.dc false (.dataClaim k s.tty.txMsg) =
          (dc, .idle) ∧ dc.txActive = s.dc.txActive := by
        rw [exec, DockTxModel.Shared.cmpxchg, if_neg hc]
        split
        · rename_i heq
          exact absurd (congrArg Prod.fst heq) hc
        · rename_i heq
          have hdc := congrArg Prod.snd heq
          subst hdc
          exact ⟨_, rfl, rfl⟩
      have hgo : sendGo cfg base s .work (.dataClaim k s.tty.txMsg) =
          { s with dc := dc, submit := .sent .work false } := by
        simp only [sendGo, hexec]
      rw [hgo]
      refine ⟨hx, hn, hr, ht, hdc.trans hact, h.console, ?_⟩
      simp only [hw, ha]
      exact .refused
    · simp only [Unshared, hsub] at hc
      have hfull : base.txEmpty s.dc.txFree ≠ true := by
        intro hempty
        have hfree : s.dc.txFree = fifoSize :=
          (base.txEmpty_iff _ (Nat.sub_le _ _)).mp hempty
        have hlen : s.dc.hw.length ≠ 0 := by simpa using hc
        unfold DockTxModel.Shared.txFree fifoSize at hfree
        omega
      have hexec : exec cfg base s.dc false (.dataLock k s.tty.txMsg) =
          (s.dc, .dataRelease k) := by
        rw [exec, DockTxModel.sendDataLocked, if_pos (by simp [hfull])]
      have hgo : sendGo cfg base s .work (.dataLock k s.tty.txMsg) =
          { s with submit := .sending .work (.dataRelease k) } := by
        simp only [sendGo, hexec]
      rw [hgo]
      refine ⟨hx, hn, hr, ht, hact, h.console, ?_⟩
      simp only [hw, ha]
      exact .releasing
  | _ => exact absurd trivial hc

omit [DecidableEq ι] in
lemma wedged_complete (h : Wedged s) {dc : Shared} (hdc : dc = s.dc ∨ dc.txActive = false) :
    Wedged (complete s dc) := by
  have hact : dc.txActive = false := by
    rcases hdc with rfl | hdc
    · exact h.hw
    · exact hdc
  refine ⟨h.active, h.queue, h.req, ?_, hact, h.console, h.refusal⟩
  rw [complete, h.hw]
  rfl

/-- **Nothing sends the message again.** -/
lemma wedged_step {s' : St ι} {a : Act ι} (h : Wedged s) (hd : s.tty.disconnected = false)
    (hs : step cfg base s a = some s') : s'.tty.disconnected = true ∨ Wedged s' := by
  obtain ⟨hx, hn, hr, ht, hact, hcon, href⟩ := h
  cases moves_of_step hs with
  | @write buf =>
    rcases write_spec hd buf with hw | ⟨q, hw, -⟩
    · rw [hw]
      exact .inr ⟨hx, hn, hr, ht, hact, hcon, href⟩
    · rw [hw]
      exact .inr ⟨hx, hn, hr, ht, hact, hcon, href⟩
  | setCoalesce => exact .inr ⟨hx, hn, hr, ht, hact, hcon, href⟩
  | remove => exact .inl rfl
  | cancel hdis => exact absurd (hd.symm.trans hdis) (by decide)
  | peek =>
    -- the first section of the work sees `tx_active` and returns
    have hpeek : TtyModel.txWorkPeek { s.tty with queued := none } =
        { s.tty with queued := none } := by
      unfold TtyModel.txWorkPeek
      exact if_pos (by simp [hx])
    rw [hpeek]
    exact .inr ⟨hx, hn, hr, ht, hact, hcon, href⟩
  | add hw ha => exact absurd ((href.of_peeked hw).symm.trans ha) (by decide)
  | submitWork ha hsub => exact absurd (ha.symm.trans (href.of_free hsub)) (by decide)
  | sendGo hsub =>
    obtain ⟨rfl, ⟨len, hw⟩, ha, k, rfl⟩ := href.of_sending hsub
    have hrel := cmpxchg_spec s.dc .async .idle
    refine .inr ⟨hx, hn, hr, ht, hrel.1.trans hact, hcon, ?_⟩
    simp only [sendGo, exec, hw, ha]
    exact .refused
  | submitDone hsub =>
    obtain ⟨rfl, rfl, len, hw⟩ := href.of_sent hsub
    have hout : submitDone s .work false =
        { s with submit := .free, tty := TtyModel.mboxSend s.tty len .ok, added := false } := by
      simp only [submitDone, St.submitted, hw, Bool.false_eq_true, if_false]
    rw [hout]
    exact .inr ⟨hx, hn, hr, ht, hact, hcon, .returned (.inr ⟨len, rfl⟩)⟩
  | @finish len ret hw =>
    obtain ⟨rfl, ha, hsub⟩ := href.of_returned hw
    obtain ⟨q, hfin, -⟩ := txWorkFinish_ok s.tty len
    rw [hfin]
    refine .inr ⟨hx, hn, hr, ht, hact, hcon, ?_⟩
    simp only [ha, hsub]
    exact .returned (.inl rfl)
  | @irq flags =>
    exact .inr (wedged_complete ⟨hx, hn, hr, ht, hact, hcon, href⟩ (irqLocked_spec s.dc flags))
  | poll =>
    exact .inr (wedged_complete ⟨hx, hn, hr, ht, hact, hcon, href⟩ (pollLocked_spec s.dc))
  | txdone ht' => exact absurd (ht.symm.trans ht') (by decide)
  | submitTick ht' =>
    rw [ht] at ht'
    cases ht'
  | callback ht' =>
    rw [ht] at ht'
    cases ht'
  | discard ht' =>
    rw [ht] at ht'
    cases ht'
  | @print p thread m lock =>
    obtain ⟨hact', -, hpc⟩ := sendAtomic_spec s.dc s.next m consoleTimeoutUs
    exact .inr ⟨hx, hn, hr, ht, hact'.trans hact, atomic_update hcon hpc, href⟩
  | @printGo p expired lock =>
    obtain ⟨hact', -, hpc⟩ := exec_atomic cfg base (hcon p) s.dc expired
    exact .inr ⟨hx, hn, hr, ht, hact'.trans hact, atomic_update hcon hpc, href⟩
  | drain => exact .inr ⟨hx, hn, hr, ht, hact, hcon, href⟩

/-- **The transmitter comes to rest.** In every run in which `send_data` finds the channel free
whenever it is called: in a state where nothing runs, is scheduled or is pending and the
hardware FIFO is empty, `tx_active` is clear, the FIFO of the TTY is empty and all bytes accepted
have been handed to the hardware, unless the port is disconnected. -/
theorem quiet_channel_idle (hvalid : ∀ m, m ≠ [] → base.valid m = true)
    (hpending : ∀ m, m.length ≤ fifoSize → base.writePending m = m) (data : ℕ → UInt8) {s : St ι}
    (h : Reach (step cfg base) Unshared (init cfg data) s) (hq : Quiet cfg s) :
    s.tty.disconnected = true ∨ s.tty.txActive = false ∧ s.tty.fifo.isEmpty = true ∧
      s.handed = s.tty.accepted := by
  exact (good_of_reach hvalid hpending data h).imp_right fun hg => hg.idle hq

open DockTxOwner (uart plain) in
/-- One byte goes out between two console writes. -/
theorem quiet_channel_idle_byte :
    ∃ s : St Unit, Reach (step uart plain) Unshared (init uart fun _ => 0) s ∧ Quiet uart s ∧
      s.dc.log.map Prod.snd = [66, 65, 67] ∧ s.tty.txActive = false ∧ s.handed = [65] := by
  obtain ⟨s, hr, hs⟩ := exists_reach_of_run (step uart plain) Unshared
    (init uart (fun _ => 0) : St Unit)
    [.write [65], .print () true [66], .printGo () false, .printGo () false, .printGo () false,
      .drain, .printGo () false, .printGo () false, .peek, .add, .submitWork, .sendGo, .sendGo,
      .submitDone, .finish, .drain, .irq 4, .txdone, .submitTick, .callback, .print () false [67],
      .printGo () false, .printGo () false, .printGo () false, .drain, .printGo () false,
      .printGo () false]
    (fun s => s.tty.work = .idle ∧ s.tty.queued = none ∧ s.submit = .free ∧ s.tick = .idle ∧
      s.console () = .idle ∧ s.dc.hw = [] ∧ ¬completionPending uart s ∧
      s.dc.log.map Prod.snd = [66, 65, 67] ∧ s.tty.disconnected = false ∧ s.tty.accepted = [65])
    (by decide +kernel)
  rw [decide_eq_true_eq] at hs
  obtain ⟨hw, hqd, hsub, ht, hcon, hhw, hpend, hlog, hd, hacc⟩ := hs
  have hq : Quiet uart s := ⟨hw, hqd, hsub, ht, fun _ => hcon, hhw, hpend⟩
  have hidle := quiet_channel_idle (by simp [plain]) (fun _ _ => rfl) _ hr hq
  rw [hd, hacc] at hidle
  obtain ⟨hx, -, hh⟩ := hidle.resolve_left (by decide)
  exact ⟨s, hr, hq, hlog, hx, hh⟩

/-- **One shared send wedges the port.** After the first step of a run that does not meet the
condition, `tx_active` stays set for good, unless the port is disconnected. -/
theorem wedged_of_reach (hvalid : ∀ m, m ≠ [] → base.valid m = true)
    (hpending : ∀ m, m.length ≤ fifoSize → base.writePending m = m) (data : ℕ → UInt8)
    {s s₁ s' : St ι} {a : Act ι} (h : Reach (step cfg base) Unshared (init cfg data) s)
    (hc : ¬Unshared s a) (hs : step cfg base s a = some s₁) (h' : Reach (step cfg base) Any s₁ s') :
    s'.tty.disconnected = true ∨ s'.tty.txActive = true := by
  have hfirst : s₁.tty.disconnected = true ∨ Wedged s₁ := by
    rcases good_of_reach hvalid hpending data h with hd | hg
    · exact .inl (disconnected_step hd hs)
    · exact .inr (wedged_of_shared hg hc hs)
  refine (h'.invariant (fun s => s.tty.disconnected = true ∨ Wedged s) hfirst ?_).imp_right
    Wedged.active
  intro s a s' hi _ hs
  cases hd : s.tty.disconnected with
  | true => exact .inl (disconnected_step hd hs)
  | false => exact wedged_step (hi.resolve_left (by simp [hd])) hd hs

open DockTxOwner (uart plain) in
/-- **A refused send is lost.** An atomic console write owns the FIFO when the mailbox core calls
`send_data`. Everything comes to rest, with the byte in the queue of the mailbox and
`tx_active` set. -/
theorem refused_send_wedges :
    ¬∀ s : St Unit, Reach (step uart plain) Any (init uart fun _ => 0) s → Quiet uart s →
      s.tty.disconnected = true ∨ s.tty.txActive = false ∧ s.tty.fifo.isEmpty = true ∧
        s.handed = s.tty.accepted := by
  intro hidle
  obtain ⟨s, hr, hs⟩ := exists_reach_of_run (step uart plain) Any
    (init uart (fun _ => 0) : St Unit)
    [.write [65], .peek, .add, .print () false [66], .printGo () false, .submitWork, .sendGo,
      .submitDone, .finish, .printGo () false, .printGo () false, .drain, .printGo () false,
      .printGo () false]
    (fun s => s.tty.work = .idle ∧ s.tty.queued = none ∧ s.submit = .free ∧ s.tick = .idle ∧
      s.console () = .idle ∧ s.dc.hw = [] ∧ ¬completionPending uart s ∧
      s.tty.disconnected = false ∧ s.tty.txActive = true)
    (by decide +kernel)
  rw [decide_eq_true_eq] at hs
  obtain ⟨hw, hqd, hsub, ht, hcon, hhw, hpend, hd, hx⟩ := hs
  rcases hidle s hr ⟨hw, hqd, hsub, ht, fun _ => hcon, hhw, hpend⟩ with h | ⟨h, -, -⟩
  · exact absurd (hd.symm.trans h) (by decide)
  · exact absurd (hx.symm.trans h) (by decide)

end Wallace.ChannelIdle
