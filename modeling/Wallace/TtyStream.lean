import Mathlib.Data.List.Basic
import Mathlib.Tactic.Common
import Wallace.TtyModel

/-!
Integrity of the TTY transmit stream.

The batch is peeked under the lock, sent without it, and skipped under the lock again. A
flush in between has already moved `out` past the batch, and the skip then moves it a
second time: over bytes that were never sent, or past `in`. As long as that does not
happen every accepted byte is sent at most once and in order, and one that left the FIFO
unsent was flushed.

The positions of the accepted bytes carry the argument: the positions sent increase, and
while a batch is in flight they end where it begins.
-/

namespace Wallace.TtyStream

open Kfifo Runs TtyModel

/-- `0 ≤ in - out ≤ 65536`. -/
def Bounded (v : View) : Prop := v.fifo.out ≤ v.fifo.inn ∧ v.fifo.inn ≤ v.fifo.out + 65536

/-- `pos` are the positions, among the accepted bytes, of the bytes sent: in order, none
twice, and one that is missing is still queued or was queued when a flush reset the
FIFO. -/
structure Sent (v : View) (pos : List ℕ) : Prop where
  increasing : pos.Pairwise (· < ·)
  bytes : v.batches.flatten.map some = pos.map fun i => v.accepted[i]?
  missing : ∀ i < v.accepted.length, i ∈ pos ∨ v.fifo.out ≤ i ∨ i ∈ v.flushed

/-- The stream sent is the stream accepted, less what was flushed. -/
def Intact (v : View) : Prop := ∃ pos, Sent v pos

/-- The second section follows a successful send with no flush since the first. -/
def Paired (s : St) : Act → Prop
  | .finish => s.work.succeeded = true → s.flushedSince = false
  | _ => True

instance (s : St) : ∀ a, Decidable (Paired s a)
  | .finish => inferInstanceAs (Decidable (s.work.succeeded = true → s.flushedSince = false))
  | .write _ | .flush | .txDone | .remove | .cancel | .setCoalesce _ | .peek | .send _ =>
    isTrue trivial

/-! ### The invariant -/

/-- The batch of a work run: `len` accepted bytes from position `o` on. -/
structure Flight (v : View) (o len : ℕ) : Prop where
  msg : v.txMsg = (v.accepted.drop o).take len
  start : o ≤ v.fifo.out
  stop : o + len ≤ v.fifo.inn
  still : v.flushedSince = false → o = v.fifo.out

/-- How far the positions sent go. -/
def Window (v : View) (pos : List ℕ) : Prop :=
  match v.work with
  | .peeked len => ∃ o, Flight v o len ∧ ∀ i ∈ pos, i < o
  | .sent len .ok =>
    ∃ o, Flight v o len ∧ (∀ i ∈ pos, i < o + len) ∧ ∀ i, o ≤ i → i < o + len → i ∈ pos
  | _ => ∀ i ∈ pos, i < v.fifo.out

structure Inv (v : View) : Prop where
  holds : Holds txFifoSize v.fifo v.accepted
  stream : ∃ pos, Sent v pos ∧ Window v pos

variable {v : View} {pos : List ℕ}

lemma Window.lt_inn (hw : Window v pos) (hle : v.fifo.out ≤ v.fifo.inn) :
    ∀ i ∈ pos, i < v.fifo.inn := by
  intro i hi
  unfold Window at hw
  split at hw
  · obtain ⟨o, hf, ho⟩ := hw
    have := ho i hi
    have := hf.start
    omega
  · obtain ⟨o, hf, ho, -⟩ := hw
    have := ho i hi
    have := hf.stop
    omega
  · have := hw i hi
    omega

/-- A step outside the work run that moves `out` only forward keeps the window. -/
lemma Window.mono {v' : View} (hw : Window v pos) (hwork : v'.work = v.work)
    (hout : v.fifo.out ≤ v'.fifo.out) (hf : ∀ o len, Flight v o len → Flight v' o len) :
    Window v' pos := by
  unfold Window at hw ⊢
  rw [hwork]
  split at hw
  · obtain ⟨o, h1, h2⟩ := hw
    exact ⟨o, hf _ _ h1, h2⟩
  · obtain ⟨o, h1, h2⟩ := hw
    exact ⟨o, hf _ _ h1, h2⟩
  · exact fun i hi => Nat.lt_of_lt_of_le (hw i hi) hout

/-- A slice of the accepted bytes is what stands at its positions. -/
lemma slice_positions (l : List UInt8) {o len : ℕ} (h : o + len ≤ l.length) :
    ((l.drop o).take len).map some = (List.range' o len).map fun i => l[i]? := by
  apply List.ext_getElem?
  intro i
  rw [List.getElem?_map, List.getElem?_map, List.getElem?_take, List.getElem?_drop]
  by_cases hi : i < len
  · rw [if_pos hi, List.getElem?_range' hi, List.getElem?_eq_getElem (by omega)]
    simp
  · rw [if_neg hi, List.getElem?_eq_none (by simp; omega)]
    rfl

/-! ### One step -/

lemma inv_put (h : Inv v) (bs : List UInt8) :
    Inv { v with
      fifo := v.fifo.put txFifoSize bs
      accepted := v.accepted ++ bs.take (v.fifo.unused txFifoSize) } := by
  obtain ⟨hh, pos, hs, hw⟩ := h
  have hlt := hw.lt_inn hh.le
  refine ⟨hh.put (by decide) bs, pos, ⟨hs.increasing, ?_, ?_⟩, ?_⟩
  · rw [hs.bytes]
    refine List.map_congr_left fun i hi => ?_
    rw [List.getElem?_append_left (hh.inn ▸ hlt i hi)]
  · intro i hi
    by_cases hold : i < v.accepted.length
    · exact hs.missing i hold
    · -- a new byte is in the FIFO
      have h1 := hh.inn
      have h2 := hh.le
      exact .inr (.inl (by simp only [Fifo.put]; omega))
  · refine hw.mono rfl (Nat.le_refl _) fun o len hf => ?_
    have h1 := hf.stop
    have h2 := hh.inn
    refine ⟨?_, hf.start, ?_, hf.still⟩
    · rw [hf.msg, List.drop_append_of_le_length (by omega), List.take_append_of_le_length]
      rw [List.length_drop]
      omega
    · simp only [Fifo.put]
      omega

lemma inv_reset (h : Inv v) :
    Inv { v with
      fifo := v.fifo.resetOut
      flushed := v.flushed ++ List.range' v.fifo.out (v.fifo.inn - v.fifo.out)
      flushedSince := true } := by
  obtain ⟨hh, pos, hs, hw⟩ := h
  have hle := hh.le
  refine ⟨hh.resetOut, pos, ⟨hs.increasing, hs.bytes, ?_⟩, ?_⟩
  · intro i (hi : i < v.accepted.length)
    rcases hs.missing i hi with h | h | h
    · exact .inl h
    · refine .inr (.inr (List.mem_append_right _ ?_))
      have := hh.inn
      rw [List.mem_range'_1]
      omega
    · exact .inr (.inr (List.mem_append_left _ h))
  · exact hw.mono rfl hle fun o len hf =>
      ⟨hf.msg, Nat.le_trans hf.start hle, hf.stop, fun h => by cases h⟩

lemma inv_peek (h : Inv v) (hidle : v.work = .idle) {msg : List UInt8}
    (hm : msg = v.fifo.peek txFifoSize (min v.fifo.len fifoSize)) :
    Inv { v with txMsg := msg, work := .peeked msg.length, flushedSince := false } := by
  obtain ⟨hh, pos, hs, hw⟩ := h
  refine ⟨hh, pos, ⟨hs.increasing, hs.bytes, hs.missing⟩, v.fifo.out, ?_, ?_⟩
  · have hlen := hh.inn
    have hle := hh.le
    rw [hh.peek (by decide)] at hm
    refine ⟨?_, Nat.le_refl _, ?_, fun _ => rfl⟩
    · dsimp only
      rw [hm, List.length_take, List.length_drop]
      congr 1
      omega
    · dsimp only
      rw [hm, List.length_take, List.length_drop]
      omega
  · unfold Window at hw
    rw [hidle] at hw
    exact hw

lemma inv_send (h : Inv v) {len : ℕ} (hpk : v.work = .peeked len) (ret : Ret) :
    Inv { v with
      work := .sent len ret
      batches := if ret = .ok then v.batches ++ [v.txMsg] else v.batches } := by
  obtain ⟨hh, pos, hs, hw⟩ := h
  unfold Window at hw
  rw [hpk] at hw
  obtain ⟨o, hf, ho⟩ := hw
  by_cases hret : ret = .ok
  · subst hret
    refine ⟨hh, pos ++ List.range' o len, ⟨?_, ?_, ?_⟩, o, ?_, ?_, ?_⟩
    · refine List.pairwise_append.mpr ⟨hs.increasing, List.pairwise_lt_range', ?_⟩
      intro i hi j hj
      have := ho i hi
      rw [List.mem_range'_1] at hj
      omega
    · have hstop : o + len ≤ v.accepted.length := hh.inn ▸ hf.stop
      rw [if_pos rfl, List.flatten_append, List.map_append, List.map_append, ← hs.bytes,
        ← slice_positions _ hstop, ← hf.msg]
      simp
    · intro i hi
      exact (hs.missing i hi).imp_left (List.mem_append_left _)
    · exact ⟨hf.msg, hf.start, hf.stop, hf.still⟩
    · intro i hi
      rcases List.mem_append.mp hi with hi | hi
      · have := ho i hi
        omega
      · rw [List.mem_range'_1] at hi
        omega
    · intro i h1 h2
      exact List.mem_append_right _ (List.mem_range'_1.mpr ⟨h1, h2⟩)
  · rw [if_neg hret]
    refine ⟨hh, pos, ⟨hs.increasing, hs.bytes, hs.missing⟩, ?_⟩
    have hw : ∀ i ∈ pos, i < v.fifo.out := fun i hi => Nat.lt_of_lt_of_le (ho i hi) hf.start
    cases ret with
    | ok => exact absurd rfl hret
    | _ => exact hw

/-- The skip after a successful send passes exactly the batch, unless a flush came
between. -/
lemma inv_finish (h : Inv v) {len : ℕ} {ret : Ret} (hsent : v.work = .sent len ret)
    (hfl : ret = .ok → v.flushedSince = false) :
    Inv { v with work := .idle, fifo := if ret = .ok then v.fifo.skip len else v.fifo } := by
  obtain ⟨hh, pos, hs, hw⟩ := h
  unfold Window at hw
  rw [hsent] at hw
  cases ret with
  | ok =>
    obtain ⟨o, hf, ho, hin⟩ := hw
    have hout := hf.still (hfl rfl)
    subst hout
    refine ⟨hh.skip hf.stop, pos, ⟨hs.increasing, hs.bytes, ?_⟩, ho⟩
    intro i hi
    rcases hs.missing i hi with h | h | h
    · exact .inl h
    · by_cases hb : i < v.fifo.out + len
      · exact .inl (hin i h hb)
      · exact .inr (.inl (Nat.not_lt.mp hb))
    · exact .inr (.inr h)
  | _ => exact ⟨hh, pos, ⟨hs.increasing, hs.bytes, hs.missing⟩, hw⟩

lemma inv_step {s s' : St} {a : Act} (h : Inv s.view) (hc : Paired s a)
    (hs : step s a = some s') : Inv s'.view := by
  rcases step_cases hs with h' | ⟨bs, h'⟩ | h' | ⟨msg, hidle, -, hm, h'⟩ | ⟨len, ret, hw, h'⟩ |
    ⟨len, ret, rfl, hw, h'⟩
  · rw [h']
    exact h
  · rw [h']
    exact inv_put h bs
  · rw [h']
    exact inv_reset h
  · rw [h']
    exact inv_peek h hidle hm
  · rw [h']
    exact inv_send h hw ret
  · rw [h']
    refine inv_finish h hw ?_
    rintro rfl
    exact hc (by rw [hw]; rfl)

lemma inv_init (data : ℕ → UInt8) : Inv (init data).view := by
  refine ⟨⟨rfl, Nat.le_refl _, Nat.zero_le _, ?_⟩, [], ⟨.nil, rfl, ?_⟩, ?_⟩
  · intro i _ hi
    exact absurd hi (Nat.not_lt_zero i)
  · intro i hi
    exact absurd hi (Nat.not_lt_zero i)
  · intro i hi
    cases hi

/-! ### The stream -/

/-- **Stream integrity**: in every run in which no flush falls between the two sections of
a work run whose send succeeded, the FIFO indices stay in order and the bytes sent are
those accepted, in order, each once, except for bytes a flush dropped. -/
theorem stream_intact (data : ℕ → UInt8) {s : St} (h : Reach step Paired (init data) s) :
    Bounded s.view ∧ Intact s.view := by
  have hi := h.invariant (fun s => Inv s.view) (inv_init data) fun _ _ _ => inv_step
  obtain ⟨hh, pos, hs, -⟩ := hi
  exact ⟨⟨hh.le, hh.fits⟩, pos, hs⟩

/-- Two batches around a flush of the byte in between. -/
theorem stream_intact_flush : ∃ s, Reach step Paired (init fun _ => 0) s ∧
    s.batches = [[7, 8], [10]] ∧ s.flushed = [2] ∧ Bounded s.view ∧ Intact s.view := by
  obtain ⟨s, hr, hs⟩ := exists_reach_of_run step Paired (init fun _ => 0)
    [.write [7, 8], .peek, .send .ok, .finish, .txDone, .write [9], .flush, .write [10],
      .peek, .send .ebusy, .finish, .peek, .send .ok, .finish]
    (fun s => s.batches = [[7, 8], [10]] ∧ s.flushed = [2]) (by decide)
  rw [decide_eq_true_eq] at hs
  exact ⟨s, hr, hs.1, hs.2, stream_intact _ hr⟩

/-- A flush while the batch is with the mailbox: the skip moves `out` past `in`. -/
theorem stream_not_intact :
    ¬ ∀ s, Reach step Any (init fun _ => 0) s → Bounded s.view ∧ Intact s.view := by
  intro h
  obtain ⟨s, hr, hs⟩ := exists_reach_of_run step Any (init fun _ => 0)
    [.write [7], .peek, .flush, .send .ok, .finish]
    (fun s => s.fifo.inn = 1 ∧ s.fifo.out = 2) (by decide)
  rw [decide_eq_true_eq] at hs
  have hb := (h s hr).1.1
  simp only [St.view, hs.1, hs.2] at hb
  omega

end Wallace.TtyStream
