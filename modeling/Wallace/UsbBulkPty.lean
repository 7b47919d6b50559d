import Mathlib.Data.Int.Notation
import Mathlib.Data.List.Basic
import Mathlib.Tactic.Common
import Wallace.Runs

/-!
The host side of the USB console: `usb_to_pty` and `write_all` of `t6040-usb-bulk-pty.c`.

What `libusb_bulk_transfer` and `write` make of each call are inputs, and the flag that ends
the loop can be raised by the signal handler or the other thread at any moment. Beside the
program stand the bytes that libusb has reported as transferred and those that `write` has
taken, both in order.
-/

namespace Wallace.UsbBulkPty

open Runs

abbrev Byte := BitVec 8

def BUFFER_SIZE : ℕ := 16384

def LIBUSB_SUCCESS : ℤ := 0
def LIBUSB_ERROR_TIMEOUT : ℤ := -7

/-- Why the loop was left. -/
inductive Why | stopped | usbError | ptyError
  deriving DecidableEq

/-- Where the thread stands: at the condition of the loop, before the transfer, in the loop
of `write_all` with the bytes it still has to write, or behind the loop. -/
inductive Pc
  | loop
  | transfer
  | writeAll (buf : List Byte)
  | left (why : Why)
  deriving DecidableEq

structure Bridge where
  pc : Pc := .loop
  stop : Bool := false
  failed : Bool := false
  received : List Byte := []
  written : List Byte := []

/-- `write`: a count, or an errno. -/
inductive WriteRet
  | count (n : ℕ)
  | eintr
  | error
  deriving DecidableEq

/-- A step of the thread with what the call in it returns, or the flag raised from outside. A
transfer comes with its return code and the bytes it put in the buffer. -/
inductive Act
  | raise
  | turn
  | transfer (ret : ℤ) (buf : List Byte)
  | write (ret : WriteRet)
  deriving DecidableEq

/-- `failed = 1; stop = 1; break`. -/
def Bridge.fail (s : Bridge) (why : Why) : Bridge :=
  { s with pc := .left why, stop := true, failed := true }

/-- The head of the loop in `write_all`. -/
def Bridge.writing (s : Bridge) (buf : List Byte) : Bridge :=
  if buf = [] then { s with pc := .loop } else { s with pc := .writeAll buf }

/-- After `libusb_bulk_transfer`, with `transferred` bytes in the buffer. -/
def Bridge.transferred (s : Bridge) (ret : ℤ) (buf : List Byte) : Bridge :=
  if ret = LIBUSB_ERROR_TIMEOUT then { s with pc := .loop }
  else if ret ≠ LIBUSB_SUCCESS then s.fail .usbError
  else s.writing buf

/-- After `write`; it takes no more than it is offered. -/
def Bridge.wrote (s : Bridge) (buf : List Byte) : WriteRet → Option Bridge
  | .count n =>
    if n ≤ buf.length then
      if 0 < n then
        some ({ s with written := s.written ++ buf.take n }.writing (buf.drop n))
      else some (s.fail .ptyError)
    else none
  | .eintr => some s
  | .error => some (s.fail .ptyError)

def step (s : Bridge) : Act → Option Bridge
  | .raise => some { s with stop := true }
  | .turn =>
    match s.pc with
    | .loop => some { s with pc := if s.stop then .left .stopped else .transfer }
    | _ => none
  | .transfer ret buf =>
    match s.pc with
    | .transfer =>
      if buf.length ≤ BUFFER_SIZE then
        some ({ s with received := s.received ++ buf }.transferred ret buf)
      else none
    | _ => none
  | .write ret =>
    match s.pc with
    | .writeAll buf => s.wrote buf ret
    | _ => none

def init : Bridge := {}

/-! ### What the stream should be -/

/-- The loop was left for an error. -/
def Bridge.Broken (s : Bridge) : Prop := s.pc = .left .usbError ∨ s.pc = .left .ptyError

/-- The bytes of the current transfer that are still to be written. -/
def Bridge.pending (s : Bridge) : List Byte :=
  match s.pc with
  | .writeAll buf => buf
  | _ => []

/-- What was written is a prefix of what was transferred, and without an error the rest is
just what the current transfer still has to write. -/
structure Bridge.Faithful (s : Bridge) : Prop where
  isPrefix : s.written <+: s.received
  complete : ¬ s.Broken → s.written ++ s.pending = s.received

/-- No transfer reports bytes together with a timeout. -/
def Clean (_ : Bridge) : Act → Prop
  | .transfer ret buf => ret = LIBUSB_ERROR_TIMEOUT → buf = []
  | _ => True

instance : ∀ (s : Bridge) (a : Act), Decidable (Clean s a)
  | _, .transfer ret buf => inferInstanceAs (Decidable (ret = LIBUSB_ERROR_TIMEOUT → buf = []))
  | _, .raise => isTrue trivial
  | _, .turn => isTrue trivial
  | _, .write _ => isTrue trivial

/-! ### One step -/

section Fields

variable (s : Bridge) (buf : List Byte)

@[simp] lemma writing_written : (s.writing buf).written = s.written := by
  unfold Bridge.writing
  split_ifs <;> rfl

@[simp] lemma writing_received : (s.writing buf).received = s.received := by
  unfold Bridge.writing
  split_ifs <;> rfl

@[simp] lemma writing_pending : (s.writing buf).pending = buf := by
  unfold Bridge.writing
  split_ifs with h
  · exact h.symm
  · rfl

end Fields

lemma faithful_fail {s : Bridge} {why : Why} (hw : why ≠ .stopped)
    (h : s.written <+: s.received) : (s.fail why).Faithful := by
  refine ⟨h, fun hb => absurd ?_ hb⟩
  cases why with
  | stopped => exact absurd rfl hw
  | usbError => exact .inl rfl
  | ptyError => exact .inr rfl

/-- Where no error has happened, the prefix follows from the account of the rest. -/
lemma faithful_of_eq {s : Bridge} (h : s.written ++ s.pending = s.received) : s.Faithful :=
  ⟨⟨s.pending, h⟩, fun _ => h⟩

/-- Between two transfers everything is written. -/
lemma Bridge.Faithful.caughtUp {s : Bridge} (hs : s.Faithful) (hb : ¬ s.Broken)
    (hp : s.pending = []) : s.written = s.received := by
  have h := hs.complete hb
  rwa [hp, List.append_nil] at h

/-- The end of `write_all` or another turn of it. -/
lemma faithful_writing {s : Bridge} {buf : List Byte} (h : s.written ++ buf = s.received) :
    (s.writing buf).Faithful :=
  faithful_of_eq (by simpa using h)

lemma faithful_wrote {s s' : Bridge} {buf : List Byte} {ret : WriteRet} (hs : s.Faithful)
    (hpc : s.pc = .writeAll buf) (h : s.wrote buf ret = some s') : s'.Faithful := by
  have hall : s.written ++ buf = s.received := by
    have := hs.complete (by simp [Bridge.Broken, hpc])
    rwa [Bridge.pending, hpc] at this
  cases ret with
  | count n =>
    simp only [Bridge.wrote] at h
    split_ifs at h with hn h0
    · cases h
      refine faithful_writing ?_
      calc s.written ++ buf.take n ++ buf.drop n
          = s.written ++ (buf.take n ++ buf.drop n) := List.append_assoc ..
        _ = s.received := by rw [List.take_append_drop, hall]
    · cases h
      exact faithful_fail nofun hs.isPrefix
  | eintr =>
    cases h
    exact hs
  | error =>
    cases h
    exact faithful_fail nofun hs.isPrefix

/-- After a transfer the account is right exactly if no byte came with a timeout. -/
lemma faithful_transferred_iff {s : Bridge} {ret : ℤ} {buf : List Byte}
    (hs : s.written = s.received) :
    ({ s with received := s.received ++ buf }.transferred ret buf).Faithful ↔
      (ret = LIBUSB_ERROR_TIMEOUT → buf = []) := by
  unfold Bridge.transferred
  split_ifs with ht hok
  · -- `continue`: the bytes of the buffer are not written
    refine ⟨fun h _ => ?_, fun h => faithful_of_eq ?_⟩
    · have := h.complete (by simp [Bridge.Broken])
      simpa [Bridge.pending, hs] using this
    · simp [Bridge.pending, hs, h ht]
  · exact ⟨fun _ h => absurd h ht, fun _ => faithful_fail nofun (hs ▸ List.prefix_append ..)⟩
  · exact ⟨fun _ h => absurd h ht, fun _ => faithful_writing (by simp [hs])⟩

/-- **One step** keeps the account, exactly if it is no timeout with bytes. -/
lemma faithful_step_iff {s s' : Bridge} {a : Act} (hs : s.Faithful) (h : step s a = some s') :
    s'.Faithful ↔ Clean s a := by
  cases a with
  | raise =>
    cases h
    exact ⟨fun _ => trivial, fun _ => ⟨hs.isPrefix, hs.complete⟩⟩
  | turn =>
    simp only [step] at h
    split at h
    next hpc =>
      cases h
      have hall : s.written = s.received :=
        hs.caughtUp (by simp [Bridge.Broken, hpc]) (by simp [Bridge.pending, hpc])
      refine ⟨fun _ => trivial, fun _ => faithful_of_eq ?_⟩
      simp only [Bridge.pending]
      split_ifs <;> simp [hall]
    next => cases h
  | transfer ret buf =>
    simp only [step] at h
    split at h
    next hpc =>
      split_ifs at h with hlen
      cases h
      exact faithful_transferred_iff
        (hs.caughtUp (by simp [Bridge.Broken, hpc]) (by simp [Bridge.pending, hpc]))
    next => cases h
  | write ret =>
    simp only [step] at h
    split at h
    next buf hpc => exact ⟨fun _ => trivial, fun _ => faithful_wrote hs hpc h⟩
    next => cases h

/-! ### Runs -/

lemma faithful_init : init.Faithful := ⟨List.prefix_rfl, fun _ => rfl⟩

lemma reach_faithful {s : Bridge} (h : Reach step Clean init s) : s.Faithful :=
  h.invariant _ faithful_init fun _ _ _ hs hc hstep => (faithful_step_iff hs hstep).mpr hc

/-- **The stream is faithful** in every run in which no transfer reports bytes together with a
timeout, and the first step that does so breaks it. -/
theorem faithful_iff_clean (s : Bridge) (h : Reach step Clean init s) :
    s.Faithful ∧ ∀ a s', step s a = some s' → (s'.Faithful ↔ Clean s a) := by
  have hs : s.Faithful := reach_faithful h
  exact ⟨hs, fun a s' hstep => faithful_step_iff hs hstep⟩

/-- Three bytes that go out in two writes with an interruption between them. -/
theorem faithful_of_split_write :
    ∃ s, Reach step Clean init s ∧ (s.pc = .left .stopped ∧ s.written = [1, 2, 3]) ∧
      s.Faithful := by
  obtain ⟨s, hs, hw⟩ := exists_reach_of_run step Clean init
    [.turn, .transfer 0 [1, 2, 3], .write (.count 1), .write .eintr, .write (.count 2), .raise,
      .turn]
    (fun s => s.pc = .left .stopped ∧ s.written = [1, 2, 3]) (by decide)
  exact ⟨s, hs, of_decide_eq_true hw, (faithful_iff_clean s hs).1⟩

/-- A timeout that brings one byte, then a transfer with another: only the second is
written. -/
theorem not_faithful_of_timeout : ¬ ∀ s, Reach step Any init s → s.Faithful := by
  intro hall
  obtain ⟨s, hs, hw⟩ := exists_reach_of_run step Any init
    [.turn, .transfer LIBUSB_ERROR_TIMEOUT [1], .turn, .transfer 0 [2], .write (.count 1)]
    (fun s => ¬ s.written <+: s.received) (by decide)
  exact of_decide_eq_true hw (hall s hs).isPrefix

end Wallace.UsbBulkPty
