import Wallace.DockTxModel
import Wallace.TtyModel

/-!
One DockChannel with everything that transmits on it: the TTY driver, the mailbox core, the
controller with its atomic transmit, and the nbcon console.

The mailbox core is the one of the kernel: `mbox_send_message` adds the message to a queue
and submits, and a submission hands the oldest message to `send_data` if no request is active.
If `send_data` fails, the message stays in the queue and nobody is told. A completion ends the
active request, submits, and calls the client back. A submission holds the lock of the channel
for as long as `send_data` runs. The messages in the queue are all `tx_msg`.

Any number of console writes run at once. Those of the printing thread hold `tx_lock`, those in
atomic context do not. An enabled transmit interrupt is pending while the hardware FIFO is
empty.

`handed` is what `send_data` has put in the FIFO; nothing reads it.
-/

namespace Wallace.ChannelModel

open DockTxModel Runs

/-- `APPLE_DCTTY_CONSOLE_TIMEOUT_US`. -/
def consoleTimeoutUs : ℕ := 10000

/-- Who called `msg_submit`. -/
inductive Caller | work | tick
  deriving DecidableEq

/-- `msg_submit`: not running, inside `send_data`, or back from it. -/
inductive Submit
  | free
  | sending (caller : Caller) (pc : Pc)
  | sent (caller : Caller) (ok : Bool)
  deriving DecidableEq

/-- `mbox_chan_txdone`, called by the handler or by `poll_work`; `mssg` says that there was an
active request. -/
inductive Tick
  | idle
  | start
  | submit (mssg : Bool)
  | callback (mssg : Bool)
  deriving DecidableEq

structure St (ι : Type*) where
  tty : TtyModel.St
  dc : Shared
  /-- The number of the next send. -/
  next : ℕ
  msgCount : ℕ
  activeReq : Bool
  /-- The work has added its message and not yet submitted. -/
  added : Bool
  submit : Submit
  tick : Tick
  console : ι → Pc
  /-- The console write that holds `tx_lock`. -/
  txLock : Option ι
  handed : List UInt8

variable {ι : Type*} (cfg : Config) (base : Base)

/-- What comes after `msg_submit`: `mbox_send_message` returns a token, a completion goes on to
the callback. -/
def St.submitted (s : St ι) : Caller → St ι
  | .work =>
    match s.tty.work with
    | .peeked len => { s with tty := TtyModel.mboxSend s.tty len .ok, added := false }
    | _ => s
  | .tick =>
    match s.tick with
    | .submit mssg => { s with tick := .callback mssg }
    | _ => s

/-- `msg_submit`, up to the claim of the FIFO. -/
def msgSubmit (s : St ι) (caller : Caller) : St ι :=
  if s.activeReq || s.msgCount = 0 then s.submitted caller
  else
    let r := sendData base s.dc s.next s.tty.txMsg
    { s with
      dc := r.1
      next := s.next + 1
      submit := if r.2 = .idle then .sent caller false else .sending caller r.2 }

/-- The next step of `send_data`. It has succeeded when its locked section comes to the end. -/
def sendGo (s : St ι) (caller : Caller) (pc : Pc) : St ι :=
  let r := exec cfg base s.dc false pc
  match pc, r.2 with
  | .dataLock _ m, .idle =>
    { s with dc := r.1, submit := .sent caller true, handed := s.handed ++ base.writePending m }
  | _, .idle => { s with dc := r.1, submit := .sent caller false }
  | _, pc' => { s with dc := r.1, submit := .sending caller pc' }

/-- The end of `msg_submit`. -/
def submitDone (s : St ι) (caller : Caller) (ok : Bool) : St ι :=
  let s := { s with submit := .free }
  (if ok then { s with activeReq := true, msgCount := s.msgCount - 1 } else s).submitted caller

/-- A completion starts if the locked section has ended the active send. -/
def complete (s : St ι) (dc : Shared) : St ι :=
  { s with dc := dc, tick := if s.dc.txActive && !dc.txActive then .start else .idle }

inductive Act (ι : Type*)
  | write (buf : List UInt8)
  | setCoalesce (us : ℕ)
  | remove
  | cancel
  | peek
  | add
  | submitWork
  | sendGo
  | submitDone
  | finish
  | irq (flags : BitVec 32)
  | poll
  | txdone
  | submitTick
  | callback
  /-- `apple_dctty_console_write`, as `write_thread` or as `write_atomic`. -/
  | print (p : ι) (thread : Bool) (m : List UInt8)
  | printGo (p : ι) (expired : Bool)
  | drain

variable [DecidableEq ι]

def step (s : St ι) : Act ι → Option (St ι)
  | .write buf =>
    if s.txLock = none then some { s with tty := (TtyModel.write s.tty buf).1 } else none
  | .setCoalesce us => some { s with tty := { s.tty with txCoalesceUs := us } }
  | .remove => if s.txLock = none then some { s with tty := TtyModel.remove s.tty } else none
  | .cancel =>
    if s.tty.disconnected = true ∧ s.tty.work = .idle then
      some { s with tty := { s.tty with queued := none } }
    else none
  | .peek =>
    if s.txLock = none ∧ s.tty.work = .idle ∧ s.tty.queued.isSome = true then
      some { s with tty := TtyModel.txWorkPeek { s.tty with queued := none } }
    else none
  | .add =>
    match s.tty.work with
    | .peeked _ =>
      if s.added then none else some { s with msgCount := s.msgCount + 1, added := true }
    | _ => none
  | .submitWork =>
    if s.added = true ∧ s.submit = .free then some (msgSubmit base s .work) else none
  | .sendGo =>
    match s.submit with
    | .sending caller pc => some (sendGo cfg base s caller pc)
    | _ => none
  | .submitDone =>
    match s.submit with
    | .sent caller ok => some (submitDone s caller ok)
    | _ => none
  | .finish =>
    match s.tty.work with
    | .sent len ret =>
      if s.txLock = none then some { s with tty := TtyModel.txWorkFinish s.tty len ret } else none
    | _ => none
  | .irq flags =>
    if cfg.pollMode = true ∨ s.tick ≠ .idle then none
    else some (complete s (irqLocked cfg base s.dc flags))
  | .poll =>
    if cfg.pollMode = true ∧ s.tick = .idle then some (complete s (pollLocked base s.dc))
    else none
  | .txdone =>
    if s.tick = .start ∧ s.submit = .free then
      some { s with activeReq := false, tick := .submit s.activeReq }
    else none
  | .submitTick =>
    match s.tick with
    | .submit _ => if s.submit = .free then some (msgSubmit base s .tick) else none
    | _ => none
  | .callback =>
    match s.tick with
    | .callback true =>
      if s.txLock = none then some { s with tty := TtyModel.txDone s.tty, tick := .idle } else none
    | .callback false => some { s with tick := .idle }
    | _ => none
  | .print p thread m =>
    if s.console p = .idle ∧ s.tty.disconnected = false ∧ m ≠ [] ∧ m.length ≤ fifoSize ∧
        (thread = true → s.txLock = none) then
      let r := sendAtomic s.dc s.next false m consoleTimeoutUs
      some { s with
        dc := r.1
        next := s.next + 1
        console := Function.update s.console p r.2
        txLock := if thread = true ∧ r.2 ≠ .idle then some p else s.txLock }
    else none
  | .printGo p expired =>
    if s.console p = .idle then none
    else
      let r := exec cfg base s.dc expired (s.console p)
      some { s with
        dc := r.1
        console := Function.update s.console p r.2
        txLock := if r.2 = .idle ∧ s.txLock = some p then none else s.txLock }
  | .drain => some { s with dc := { s.dc with hw := s.dc.hw.tail } }

/-- After the probes of both drivers. -/
def init (data : ℕ → UInt8) : St ι where
  tty := TtyModel.init data
  dc := startup cfg (DockTxModel.init (ι := ι)).shared
  next := 0
  msgCount := 0
  activeReq := false
  added := false
  submit := .free
  tick := .idle
  console := fun _ => .idle
  txLock := none
  handed := []

/-- The controller has a completion to deliver. -/
def completionPending (s : St ι) : Prop :=
  s.dc.hw = [] ∧ if cfg.pollMode then s.dc.txActive = true else s.dc.irqMask &&& cfg.irqTx ≠ 0

instance (s : St ι) : Decidable (completionPending cfg s) := inferInstanceAs (Decidable (_ ∧ _))

/-- Nothing runs, is scheduled or is pending, and the hardware FIFO is empty. -/
structure Quiet (s : St ι) : Prop where
  work : s.tty.work = .idle
  queued : s.tty.queued = none
  submit : s.submit = .free
  tick : s.tick = .idle
  console : ∀ p, s.console p = .idle
  hw : s.dc.hw = []
  completion : ¬completionPending cfg s

/-- Whenever `send_data` claims the FIFO, `tx_owner` is idle, and whenever it then looks at the
hardware FIFO, that is empty. -/
def Unshared (s : St ι) : Act ι → Prop
  | .sendGo =>
    match s.submit with
    | .sending _ (.dataClaim _ _) => s.dc.owner = .idle
    | .sending _ (.dataLock _ _) => s.dc.hw = []
    | _ => True
  | _ => True

instance (s : St ι) (a : Act ι) : Decidable (Unshared s a) := by
  unfold Unshared
  split
  · split <;> infer_instance
  · infer_instance

end Wallace.ChannelModel
