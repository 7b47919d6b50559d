import Mathlib.Data.List.Basic
import Mathlib.Tactic.Common
import Wallace.Runs
import Wallace.UsbBulkPty

/-!
The whole host bridge: `main` of `t6040-usb-bulk-pty.c` with the thread of `usb_to_pty`.

The thread is the one of `UsbBulkPty`, and its steps and the signals come between any two of
`main`. What every call makes of its arguments is an input. Beside the program stand what `main`
has taken and given back, and the bytes it has read from the PTY and those that the OUT endpoint
has taken, all in order.
-/

namespace Wallace.UsbBridge

open Runs UsbBulkPty

/-- What `main` has to give back. -/
inductive Res | usb | handle | control | data | dtr | pty
  deriving DecidableEq

/-- The end of `main` from one of its labels on. -/
def outUsb : List Res := [.usb]
def outHandle : List Res := .handle :: outUsb
def outControl : List Res := .control :: outHandle
def outData : List Res := .data :: outControl
def outDtr : List Res := .dtr :: outData
def outPty : List Res := .pty :: outDtr

/-- Where `main` stands. -/
inductive Main
  | openDiagnostic
  | findAcm
  | claimControl
  | claimData
  | configureAcm
  | openPty
  | tcGetAttr
  | tcSetAttr
  | create
  | loop
  | poll
  | read
  | out (buf : List Byte)
  | leave
  | join
  | undo (left : List Res)
  | returned
  deriving DecidableEq

structure St where
  main : Main := .openDiagnostic
  bridge : Bridge := {}
  signalBridge : Bool := false
  readerStarted : Bool := false
  /-- `exit_status` is `EXIT_SUCCESS`. -/
  success : Bool := false
  acquired : List Res := [.usb]
  released : List Res := []
  taken : List Byte := []
  sent : List Byte := []

inductive PollRet | eintr | error | quiet | ready
  deriving DecidableEq

inductive ReadRet
  | again
  | error
  | bytes (buf : List Byte)
  deriving DecidableEq

/-- A step of `main`, of the thread, or a signal. `again` is `EINTR` or `EIO`; the transfer comes
with its code and the number of bytes it took. -/
inductive Act
  | call (ok : Bool)
  | turn
  | poll (ret : PollRet)
  | read (ret : ReadRet)
  | transfer (ret : ℤ) (transferred : ℕ)
  | reader (a : UsbBulkPty.Act)
  | signal
  deriving DecidableEq

def St.goto (s : St) (pc : Main) : St := { s with main := pc }

/-- A call of the setup: it takes `r` and goes on, or jumps to a label. -/
def St.acquire (s : St) (ok : Bool) (r : Res) (pc : Main) (label : List Res) : St :=
  if ok then { s with main := pc, acquired := s.acquired ++ [r] } else s.goto (.undo label)

/-- `bridge.failed = 1; break`. -/
def St.fail (s : St) : St := { s with main := .leave, bridge.failed := true }

/-- After a bulk transfer of `buf`. -/
def St.transferred (s : St) (buf : List Byte) (ret : ℤ) (transferred : ℕ) : St :=
  let s := { s with sent := s.sent ++ buf.take transferred }
  if ret ≠ LIBUSB_SUCCESS ∨ transferred ≠ buf.length then s.fail else s.goto .loop

def call (s : St) (ok : Bool) : Option St :=
  match s.main with
  | .openDiagnostic => some (s.acquire ok .handle .findAcm outUsb)
  | .findAcm => some (s.goto (if ok then .claimControl else .undo outHandle))
  | .claimControl => some (s.acquire ok .control .claimData outHandle)
  | .claimData => some (s.acquire ok .data .configureAcm outControl)
  | .configureAcm => some (s.acquire ok .dtr .openPty outData)
  | .openPty => some (s.acquire ok .pty .tcGetAttr outDtr)
  | .tcGetAttr => some (s.goto (if ok then .tcSetAttr else .undo outPty))
  | .tcSetAttr =>
    some (if ok then { s with main := .create, signalBridge := true } else s.goto (.undo outPty))
  | .create =>
    some (if ok then { s with main := .loop, readerStarted := true } else s.goto (.undo outPty))
  | _ => none

def turn (s : St) : Option St :=
  match s.main with
  | .loop => some (s.goto (if s.bridge.stop then .leave else .poll))
  | .leave =>
    some { s with main := .join, success := !s.bridge.failed, bridge.stop := true }
  -- `pthread_join` returns when the thread has
  | .join =>
    match s.bridge.pc with
    | .left _ => some (s.goto (.undo outPty))
    | _ => none
  | .undo (r :: left) => some { s with main := .undo left, released := s.released ++ [r] }
  | .undo [] => some (s.goto .returned)
  | _ => none

def step (s : St) : Act → Option St
  | .call ok => call s ok
  | .turn => turn s
  | .poll ret =>
    match s.main with
    | .poll =>
      match ret with
      | .eintr | .quiet => some (s.goto .loop)
      | .error => some s.fail
      | .ready => some (s.goto .read)
    | _ => none
  | .read ret =>
    match s.main with
    | .read =>
      match ret with
      | .again => some (s.goto .loop)
      | .error => some s.fail
      | .bytes [] => some (s.goto .loop)
      | .bytes buf =>
        if buf.length ≤ BUFFER_SIZE then some { s with main := .out buf, taken := s.taken ++ buf }
        else none
    | _ => none
  | .transfer ret transferred =>
    match s.main with
    | .out buf =>
      if transferred ≤ buf.length then some (s.transferred buf ret transferred) else none
    | _ => none
  | .reader .raise => none
  | .reader a =>
    if s.readerStarted then (UsbBulkPty.step s.bridge a).map fun b => { s with bridge := b }
    else none
  -- before the handlers are installed a signal ends the process
  | .signal => if s.signalBridge then some { s with bridge.stop := true } else none

/-- After `libusb_init`. -/
def init : St := {}

/-! ### The invariant -/

/-- What `main` holds at its place, the last taken first. -/
def holds : Main → List Res
  | .openDiagnostic => outUsb
  | .findAcm | .claimControl => outHandle
  | .claimData => outControl
  | .configureAcm => outData
  | .openPty => outDtr
  | .tcGetAttr | .tcSetAttr | .create | .loop | .poll | .read | .out _ | .leave | .join => outPty
  | .undo left => left
  | .returned => []

/-- The bytes that `main` has read and not yet offered to the endpoint. -/
def offered : Main → List Byte
  | .out buf => buf
  | _ => []

/-- The thread has been created and has not returned. -/
def St.ReaderRuns (s : St) : Prop := s.readerStarted = true ∧ ∀ why, s.bridge.pc ≠ .left why

/-- `main` is between the creation of the thread and the end of `pthread_join`. -/
def looping : Main → Bool
  | .loop | .poll | .read | .out _ | .leave | .join => true
  | _ => false

/-- `main` is behind its loop. -/
def behind : Main → Bool
  | .leave | .join | .undo _ | .returned => true
  | _ => false

structure Inv (s : St) : Prop where
  stack : s.released ++ holds s.main = s.acquired.reverse
  kept : behind s.main = false ∨ looping s.main = true → s.released = []
  runs : s.ReaderRuns → looping s.main = true
  started : looping s.main = true → s.readerStarted = true
  part : ∃ rest, s.taken = s.sent ++ rest
  whole : behind s.main = false → s.taken = s.sent ++ offered s.main
  leave : s.main = .leave → s.bridge.failed = false → s.taken = s.sent
  success : s.success = true → behind s.main = true ∧ s.taken = s.sent

/-- `main` is in its setup. -/
def setup (pc : Main) : Prop := behind pc = false ∧ looping pc = false ∧ offered pc = []

section Steps

variable {s s' : St}

lemma init_inv : Inv init := by
  refine ⟨rfl, fun _ => rfl, fun h => ?_, fun h => (by cases h), ⟨[], rfl⟩, fun _ => rfl,
    fun h => (by cases h), fun h => (by cases h)⟩
  cases h.1

/-- A jump from the setup to one of the labels. -/
lemma Inv.giveUp (h : Inv s) (hs : setup s.main) {label : List Res} (hl : label = holds s.main) :
    Inv (s.goto (.undo label)) := by
  refine ⟨?_, fun hk => ?_, fun hr => ?_, fun hr => (by cases hr), h.part,
    fun hb => (by cases hb), fun hm => (by cases hm), fun hsucc => ?_⟩
  · rw [hl]
    exact h.stack
  · rcases hk with hk | hk <;> cases hk
  · exact absurd (h.runs hr) (by rw [hs.2.1]; decide)
  · exact ⟨rfl, (h.success hsucc).2⟩

/-- A move of `main` that takes and gives back nothing. -/
lemma Inv.goto (h : Inv s) {pc : Main} (hh : holds pc = holds s.main)
    (hb : behind pc = behind s.main) (hl : looping pc = looping s.main)
    (ho : offered pc = offered s.main) (hne : pc ≠ .leave) : Inv (s.goto pc) := by
  refine ⟨?_, ?_, ?_, ?_, h.part, ?_, fun e => absurd e hne, ?_⟩
  · rw [St.goto, hh]
    exact h.stack
  · rw [St.goto, hb, hl]
    exact h.kept
  · intro hr
    rw [St.goto, hl]
    exact h.runs hr
  · rw [St.goto, hl]
    exact h.started
  · rw [St.goto, hb, ho]
    exact h.whole
  · rw [St.goto, hb]
    exact h.success

/-- A call of the setup that takes something. -/
lemma Inv.acquire (h : Inv s) (hs : setup s.main) (ok : Bool) {r : Res} {pc : Main}
    {label : List Res} (hpc : setup pc) (hr : holds pc = r :: holds s.main)
    (hl : label = holds s.main) : Inv (s.acquire ok r pc label) := by
  unfold St.acquire
  split_ifs
  · have hrel : s.released = [] := h.kept (.inl hs.1)
    refine ⟨?_, fun _ => hrel, fun hrun => ?_, fun hrun => ?_, h.part, fun _ => ?_, fun e => ?_,
      fun hsucc => ?_⟩
    · simp only [hrel, hr, List.nil_append, List.reverse_append, List.reverse_singleton,
        List.singleton_append, ← h.stack]
    · exact absurd (h.runs hrun) (by rw [hs.2.1]; decide)
    · exact absurd hrun (by rw [show looping pc = false from hpc.2.1]; decide)
    · simp only [hpc.2.2, h.whole hs.1, hs.2.2]
    · have : behind pc = true := by rw [show pc = .leave from e]; rfl
      rw [hpc.1] at this
      cases this
    · exact absurd (h.success hsucc).1 (by rw [hs.1]; decide)
  · exact h.giveUp hs hl

/-- A check of the setup. -/
lemma Inv.check (h : Inv s) (hs : setup s.main) (ok : Bool) {pc : Main} {label : List Res}
    (hpc : setup pc) (hh : holds pc = holds s.main) (hl : label = holds s.main) :
    Inv (s.goto (if ok then pc else .undo label)) := by
  cases ok with
  | false => exact h.giveUp hs hl
  | true =>
    refine h.goto hh (hpc.1.trans hs.1.symm) (hpc.2.1.trans hs.2.1.symm)
      (hpc.2.2.trans hs.2.2.symm) ?_
    rintro rfl
    cases hpc.1

lemma inv_call (h : Inv s) {ok : Bool} (hc : call s ok = some s') : Inv s' := by
  cases hm : s.main with
  | openDiagnostic | claimControl | claimData | configureAcm | openPty =>
    simp only [call, hm] at hc
    cases hc
    exact h.acquire (by rw [hm]; exact ⟨rfl, rfl, rfl⟩) ok ⟨rfl, rfl, rfl⟩ (by rw [hm]; rfl)
      (by rw [hm]; rfl)
  | findAcm | tcGetAttr =>
    simp only [call, hm] at hc
    cases hc
    exact h.check (by rw [hm]; exact ⟨rfl, rfl, rfl⟩) ok ⟨rfl, rfl, rfl⟩ (by rw [hm]; rfl)
      (by rw [hm]; rfl)
  | tcSetAttr =>
    have hs : setup s.main := by rw [hm]; exact ⟨rfl, rfl, rfl⟩
    simp only [call, hm] at hc
    split_ifs at hc
    · cases hc
      have h' : Inv (s.goto .create) := by
        refine h.goto ?_ ?_ ?_ ?_ (by simp)
        all_goals rw [hm]; rfl
      exact ⟨h'.stack, h'.kept, h'.runs, h'.started, h'.part, h'.whole, h'.leave, h'.success⟩
    · cases hc
      exact h.giveUp hs (by rw [hm]; rfl)
  | create =>
    have hs : setup s.main := by rw [hm]; exact ⟨rfl, rfl, rfl⟩
    simp only [call, hm] at hc
    split_ifs at hc
    · cases hc
      have hst := h.stack
      have hwh := h.whole hs.1
      rw [hm] at hst hwh
      refine ⟨hst, fun _ => h.kept (.inl hs.1), fun _ => rfl, fun _ => rfl, h.part, fun _ => hwh,
        fun e => (by cases e), fun hsucc => ?_⟩
      exact absurd (h.success hsucc).1 (by rw [hs.1]; decide)
    · cases hc
      exact h.giveUp hs (by rw [hm]; rfl)
  | loop | poll | read | out _ | leave | join | undo _ | returned =>
    simp only [call, hm] at hc
    cases hc

lemma holds_looping {pc : Main} (h : looping pc = true) : holds pc = outPty := by
  cases pc <;> first | rfl | cases h

/-- The loop is left: by its condition, or for an error. -/
lemma Inv.leaves (h : Inv s) (hl : looping s.main = true) (hb : behind s.main = false)
    (hpc : s'.main = .leave) (hst : s'.readerStarted = s.readerStarted)
    (hacq : s'.acquired = s.acquired) (hrel : s'.released = s.released)
    (hsu : s'.success = s.success) (hpart : ∃ rest, s'.taken = s'.sent ++ rest)
    (hf : s'.bridge.failed = false → s'.taken = s'.sent) : Inv s' := by
  have hstack := h.stack
  rw [holds_looping hl] at hstack
  refine ⟨?_, fun _ => ?_, fun _ => ?_, fun _ => ?_, hpart, fun e => ?_, fun _ => hf, fun e => ?_⟩
  · rw [hrel, hacq, hpc]
    exact hstack
  · rw [hrel]
    exact h.kept (.inr hl)
  · rw [hpc]
    rfl
  · rw [hst]
    exact h.started hl
  · rw [hpc] at e
    cases e
  · rw [hsu] at e
    exact absurd (h.success e).1 (by rw [hb]; decide)

lemma Inv.fail (h : Inv s) (hl : looping s.main = true) (hb : behind s.main = false) :
    Inv s.fail :=
  h.leaves hl hb rfl rfl rfl rfl rfl h.part fun e => (by cases e)

lemma inv_turn (h : Inv s) (hc : turn s = some s') : Inv s' := by
  cases hm : s.main with
  | loop =>
    have hl : looping s.main = true := by rw [hm]; rfl
    have hb : behind s.main = false := by rw [hm]; rfl
    have hall : s.taken = s.sent := by
      rw [h.whole hb, hm]
      exact List.append_nil _
    simp only [turn, hm] at hc
    cases hstop : s.bridge.stop with
    | true =>
      rw [hstop] at hc
      cases hc
      exact h.leaves hl hb rfl rfl rfl rfl rfl h.part fun _ => hall
    | false =>
      rw [hstop] at hc
      cases hc
      refine h.goto ?_ ?_ ?_ ?_ (by simp)
      all_goals rw [hm]; rfl
  | leave =>
    simp only [turn, hm] at hc
    cases hc
    have hstack := h.stack
    rw [hm] at hstack
    refine ⟨hstack, fun _ => h.kept (.inr (by rw [hm]; rfl)), fun _ => rfl,
      fun _ => h.started (by rw [hm]; rfl), h.part, fun e => (by cases e), fun e => (by cases e),
      ?_⟩
    exact fun e => ⟨rfl, h.leave hm (by simpa using e)⟩
  | join =>
    simp only [turn, hm] at hc
    split at hc
    · rename_i why hw
      cases hc
      have hstack := h.stack
      rw [hm] at hstack
      refine ⟨hstack, fun e => ?_, fun e => absurd hw (e.2 why), fun e => (by cases e), h.part,
        fun e => (by cases e), fun e => (by cases e), fun e => ⟨rfl, (h.success e).2⟩⟩
      rcases e with e | e <;> cases e
    · cases hc
  | undo left =>
    have hstack := h.stack
    have hruns := h.runs
    have hsucc := h.success
    rw [hm] at hstack hruns hsucc
    simp only [turn, hm] at hc
    cases left with
    | nil =>
      cases hc
      refine ⟨hstack, fun e => ?_, fun e => absurd (hruns e) Bool.false_ne_true,
        fun e => (by cases e), h.part, fun e => (by cases e), fun e => (by cases e), hsucc⟩
      rcases e with e | e <;> cases e
    | cons r left =>
      cases hc
      refine ⟨?_, fun e => ?_, fun e => absurd (hruns e) Bool.false_ne_true, fun e => (by cases e),
        h.part, fun e => (by cases e), fun e => (by cases e), hsucc⟩
      · rw [List.append_assoc]
        exact hstack
      · rcases e with e | e <;> cases e
  | openDiagnostic | findAcm | claimControl | claimData | configureAcm | openPty | tcGetAttr
  | tcSetAttr | create | poll | read | out _ | returned =>
    simp only [turn, hm] at hc
    cases hc

/-- A step that leaves `main` where it is. -/
lemma Inv.bridge (h : Inv s) {b : Bridge}
    (hpc : (∀ why, b.pc ≠ .left why) → ∀ why, s.bridge.pc ≠ .left why)
    (hf : b.failed = false → s.bridge.failed = false) : Inv { s with bridge := b } :=
  ⟨h.stack, h.kept, fun hr => h.runs ⟨hr.1, hpc hr.2⟩, h.started, h.part, h.whole,
    fun e ef => h.leave e (hf ef), h.success⟩

/-- The thread never takes its failure back and does not go on once it has left its loop. -/
lemma reader_step {b b' : Bridge} {a : UsbBulkPty.Act} (h : UsbBulkPty.step b a = some b') :
    (b'.failed = false → b.failed = false) ∧ (a ≠ .raise → ∀ why, b.pc ≠ .left why) := by
  have hwriting : ∀ (b : Bridge) (buf : List Byte), (b.writing buf).failed = b.failed := by
    intro b buf
    unfold Bridge.writing
    split_ifs <;> rfl
  cases a with
  | raise =>
    cases h
    exact ⟨id, fun hne => absurd rfl hne⟩
  | turn =>
    cases hpc : b.pc with
    | loop =>
      simp only [UsbBulkPty.step, hpc] at h
      cases h
      exact ⟨id, fun _ _ e => (by cases e)⟩
    | transfer | writeAll _ | left _ =>
      simp only [UsbBulkPty.step, hpc] at h
      cases h
  | transfer ret buf =>
    cases hpc : b.pc with
    | transfer =>
      simp only [UsbBulkPty.step, hpc] at h
      split_ifs at h
      cases h
      refine ⟨fun hf => ?_, fun _ _ e => (by cases e)⟩
      unfold Bridge.transferred at hf
      split_ifs at hf
      · exact hf
      · cases hf
      · rwa [hwriting] at hf
    | loop | writeAll _ | left _ =>
      simp only [UsbBulkPty.step, hpc] at h
      cases h
  | write ret =>
    cases hpc : b.pc with
    | writeAll buf =>
      simp only [UsbBulkPty.step, hpc] at h
      refine ⟨fun hf => ?_, fun _ _ e => (by cases e)⟩
      cases ret with
      | count n =>
        simp only [Bridge.wrote] at h
        split_ifs at h
        · cases h
          rwa [hwriting] at hf
        · cases h
          cases hf
      | eintr =>
        cases h
        exact hf
      | error =>
        cases h
        cases hf
    | loop | transfer | left _ =>
      simp only [UsbBulkPty.step, hpc] at h
      cases h

lemma inv_poll (h : Inv s) {ret : PollRet} (hc : step s (.poll ret) = some s') : Inv s' := by
  cases hm : s.main with
  | poll =>
    simp only [step, hm] at hc
    cases ret with
    | eintr | quiet | ready =>
      cases hc
      refine h.goto ?_ ?_ ?_ ?_ (by simp)
      all_goals rw [hm]; rfl
    | error =>
      cases hc
      exact h.fail (by rw [hm]; rfl) (by rw [hm]; rfl)
  | openDiagnostic | findAcm | claimControl | claimData | configureAcm | openPty | tcGetAttr
  | tcSetAttr | create | loop | read | out _ | leave | join | undo _ | returned =>
    simp only [step, hm] at hc
    cases hc

lemma inv_read (h : Inv s) {ret : ReadRet} (hc : step s (.read ret) = some s') : Inv s' := by
  cases hm : s.main with
  | read =>
    have hback : Inv (s.goto .loop) := by
      refine h.goto ?_ ?_ ?_ ?_ (by simp)
      all_goals rw [hm]; rfl
    simp only [step, hm] at hc
    cases ret with
    | again =>
      cases hc
      exact hback
    | error =>
      cases hc
      exact h.fail (by rw [hm]; rfl) (by rw [hm]; rfl)
    | bytes buf =>
      cases buf with
      | nil =>
        cases hc
        exact hback
      | cons x buf =>
        simp only at hc
        split_ifs at hc
        cases hc
        have hst := h.stack
        have hall : s.taken = s.sent := by
          rw [h.whole (by rw [hm]; rfl), hm]
          exact List.append_nil _
        rw [hm] at hst
        refine ⟨hst, fun _ => h.kept (.inl (by rw [hm]; rfl)), fun _ => rfl,
          fun _ => h.started (by rw [hm]; rfl), ⟨x :: buf, ?_⟩, fun _ => ?_, fun e => (by cases e),
          fun e => ?_⟩
        · simp only [hall]
        · simp only [hall, offered]
        · have := (h.success e).1
          rw [hm] at this
          cases this
  | openDiagnostic | findAcm | claimControl | claimData | configureAcm | openPty | tcGetAttr
  | tcSetAttr | create | loop | poll | out _ | leave | join | undo _ | returned =>
    simp only [step, hm] at hc
    cases hc

lemma inv_transfer (h : Inv s) {ret : ℤ} {transferred : ℕ}
    (hc : step s (.transfer ret transferred) = some s') : Inv s' := by
  cases hm : s.main with
  | out buf =>
    have hb : behind s.main = false := by rw [hm]; rfl
    have hl : looping s.main = true := by rw [hm]; rfl
    have hall : s.taken = s.sent ++ buf := by rw [h.whole hb, hm]; rfl
    simp only [step, hm] at hc
    split_ifs at hc with hle
    cases hc
    have hpart : s.taken = (s.sent ++ buf.take transferred) ++ buf.drop transferred := by
      rw [List.append_assoc, List.take_append_drop, hall]
    simp only [St.transferred]
    split_ifs with hbad
    · exact h.leaves hl hb rfl rfl rfl rfl rfl ⟨_, hpart⟩ fun e => (by cases e)
    · -- the endpoint has taken the whole buffer
      have hlen : transferred = buf.length := by
        by_contra hne
        exact hbad (.inr hne)
      have hst := h.stack
      rw [hm] at hst
      refine ⟨hst, fun _ => h.kept (.inl hb), fun _ => rfl, fun _ => h.started hl, ⟨_, hpart⟩,
        fun _ => ?_, fun e => (by cases e), fun e => ?_⟩
      · rw [hlen, List.drop_length, ← hlen] at hpart
        exact hpart
      · exact absurd (h.success e).1 (by rw [hb]; decide)
  | openDiagnostic | findAcm | claimControl | claimData | configureAcm | openPty | tcGetAttr
  | tcSetAttr | create | loop | poll | read | leave | join | undo _ | returned =>
    simp only [step, hm] at hc
    cases hc

lemma inv_reader (h : Inv s) {a : UsbBulkPty.Act} (ha : a ≠ .raise)
    (hc : (UsbBulkPty.step s.bridge a).map (fun b => { s with bridge := b }) = some s') :
    Inv s' := by
  obtain ⟨b, hb, rfl⟩ := Option.map_eq_some_iff.mp hc
  exact h.bridge (fun _ => (reader_step hb).2 ha) (reader_step hb).1

lemma inv_step (s : St) (a : Act) (s' : St) (h : Inv s) (hc : step s a = some s') : Inv s' := by
  cases a with
  | call ok => exact inv_call h hc
  | turn => exact inv_turn h hc
  | poll ret => exact inv_poll h hc
  | read ret => exact inv_read h hc
  | transfer ret transferred => exact inv_transfer h hc
  | reader a =>
    cases a with
    | raise => cases hc
    | turn | transfer _ _ | write _ =>
      simp only [step] at hc
      split_ifs at hc
      exact inv_reader h (by simp) hc
  | signal =>
    simp only [step] at hc
    split_ifs at hc
    cases hc
    exact h.bridge id id

end Steps

/-! ### Runs -/

lemma reach_inv {s : St} (h : Reach step Any init s) : Inv s :=
  h.invariant _ init_inv fun s a s' hs _ hc => inv_step s a s' hs hc

/-- **The bridge ends clean** whatever the calls return and however the steps of `main`, those of
the thread and the signals come: what is given back is at any moment the last taken first, and at
the end it is all of it; while the thread runs nothing is given back; the OUT endpoint gets the
bytes of the PTY in order, and all of them where the exit status is success. -/
theorem bridge_ends_clean (s : St) (h : Reach step Any init s) :
    s.released <+: s.acquired.reverse ∧
      (s.main = .returned → s.released = s.acquired.reverse) ∧
      (s.ReaderRuns → s.released = []) ∧
      s.sent <+: s.taken ∧
      (s.success = true → s.sent = s.taken) := by
  have hi := reach_inv h
  refine ⟨⟨_, hi.stack⟩, fun hm => ?_, fun hr => hi.kept (.inr (hi.runs hr)), ?_,
    fun hsucc => (hi.success hsucc).2.symm⟩
  · have hst := hi.stack
    rw [hm] at hst
    rw [← hst]
    exact (List.append_nil _).symm
  · obtain ⟨rest, hrest⟩ := hi.part
    exact ⟨rest, hrest.symm⟩

/-- Two bytes go out, one comes in, and a signal ends the loop while the thread is in its transfer;
the thread then fails after the exit status has been fixed. -/
theorem bridge_ends_clean_signal :
    ∃ s, Reach step Any init s ∧
      (s.main = .returned ∧ s.success = true ∧ s.bridge.failed = true ∧ s.taken = [1, 2] ∧
        s.bridge.written = [3] ∧ s.acquired.length = 6) ∧
      s.released = s.acquired.reverse ∧ s.sent = s.taken := by
  obtain ⟨s, hs, hp⟩ := exists_reach_of_run step Any init
    [.call true, .call true, .call true, .call true, .call true, .call true, .call true,
      .call true, .call true, .turn, .reader .turn, .poll .ready, .read (.bytes [1, 2]),
      .reader (.transfer 0 [3]), .reader (.write (.count 1)), .transfer 0 2, .reader .turn, .turn,
      .signal, .poll .eintr, .turn, .turn, .reader (.transfer (-1) []), .turn, .turn, .turn,
      .turn, .turn, .turn, .turn, .turn]
    (fun s => s.main = .returned ∧ s.success = true ∧ s.bridge.failed = true ∧ s.taken = [1, 2] ∧
      s.bridge.written = [3] ∧ s.acquired.length = 6) (by decide +kernel)
  simp only [decide_eq_true_eq] at hp
  have hclean := bridge_ends_clean s hs
  exact ⟨s, hs, hp, hclean.2.1 hp.1, hclean.2.2.2.2 hp.2.1⟩

end Wallace.UsbBridge
