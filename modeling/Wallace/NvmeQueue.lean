import Mathlib.Order.Interval.Finset.Nat
import Mathlib.Tactic.Common
import Wallace.PhaseRing
import Wallace.Runs

/-!
The queues of the NVMe driver with a linear submission queue (`has_lsq_nvmmu`), between
`apple_nvme_init_queue` and `apple_nvme_disable`: `apple_nvme_submit_cmd_t8103`,
`apple_nvme_poll_cq` and what they call, with the controller on the other side.

A tag is one thread at a time: the block layer gives it to a request, the request's command is
written to the two tables and the tag to the doorbell, the controller fetches the command and
later posts a completion, and whoever polls next ends the request. The tags of the two queues
share one space, the two queues share one lock. Nothing keeps the controller from posting when the
completion queue is full; that it never is must come from the driver.
-/

namespace Wallace.NvmeQueue

open Runs PhaseRing

/-- `struct nvme_command`, as far as it is looked at. -/
structure Cmd where
  opcode : ℕ := 0
  prp1 : ℕ := 0
  prp2 : ℕ := 0
  length : ℕ := 0
  deriving DecidableEq

/-- `struct apple_nvmmu_tcb`. -/
structure Tcb where
  opcode : ℕ := 0
  dmaFlags : ℕ := 0
  commandId : ℕ := 0
  length : ℕ := 0
  prp1 : ℕ := 0
  prp2 : ℕ := 0
  deriving DecidableEq

/-- What is done for a command without data: the direction of a read, both of them
(`t6040-nvme-apple-flush-tcb`) or none (`t6040-nvme-apple-flush-nodma`). -/
inductive Variant
  | stock
  | flushTcb
  | flushNodma
  deriving DecidableEq

def dmaFlags (v : Variant) (c : Cmd) : ℕ :=
  match v with
  | .flushTcb => if c.prp1 = 0 then 1 ||| 2 else if c.opcode % 2 = 1 then 2 else 1
  | .flushNodma => if c.prp1 = 0 then 0 else if c.opcode % 2 = 1 then 2 else 1
  | .stock => if c.opcode % 2 = 1 then 2 else 1

def tcbOf (v : Variant) (tag : ℕ) (c : Cmd) : Tcb where
  opcode := c.opcode
  dmaFlags := dmaFlags v c
  commandId := tag
  length := c.length
  prp1 := c.prp1
  prp2 := c.prp2

inductive QId
  | admin
  | io
  deriving DecidableEq

structure Hw where
  maxQueueDepth : ℕ
  pos : 0 < maxQueueDepth

/-- `apple_nvme_queue_depth`, with `APPLE_NVME_AQ_DEPTH`. -/
def depth (hw : Hw) : QId → ℕ
  | .admin => 2
  | .io => hw.maxQueueDepth

/-- The tags of a queue (`apple_nvme_alloc_tagsets`): the first two of the I/O queue are
reserved. -/
def tags (hw : Hw) : QId → Finset ℕ
  | .admin => Finset.range (2 - 1)
  | .io => Finset.Ico 2 (hw.maxQueueDepth - 1)

/-- Where a tag is. -/
inductive Stage
  | free
  | started
  | written
  | rung
  | fetched
  | posted
  | done
  deriving DecidableEq

/-- The controller has the command. -/
def Stage.inDevice : Stage → Bool
  | .rung | .fetched => true
  | _ => false

/-- The completion is still to be taken. -/
def Stage.busy : Stage → Bool
  | .rung | .fetched | .posted => true
  | _ => false

structure Slot where
  stage : Stage := .free
  /-- `iod->cmd`, of the request that has the tag. -/
  cmd : Cmd := {}
  sqe : Cmd := {}
  tcb : Tcb := {}
  /-- What the controller has read. -/
  seen : Cmd × Tcb := ({}, {})

structure Queue where
  cqes : ℕ → Cell ℕ := fun _ => ⟨false, 0⟩
  /-- `cq_head` and `cq_phase`. -/
  head : Cursor := {}
  /-- Where the controller posts next. -/
  tail : Cursor := {}
  /-- The last value written to `cq_db`. -/
  db : ℕ := 0
  /-- The completions posted, with the commands that were carried out. -/
  log : List (ℕ × Cmd) := []
  /-- The completions taken, with the commands of the requests that were ended. -/
  handled : List (ℕ × Cmd) := []
  /-- How many of them the controller has been told of. -/
  acked : ℕ := 0

/-- Who has the lock polls a queue, and then others. -/
structure Hold where
  queue : QId
  rest : List QId
  found : Bool := false

structure St where
  queue : QId → Queue := fun _ => {}
  slot : QId → ℕ → Slot := fun _ _ => {}
  lock : Option Hold := none
  /-- A completion named no request that waited for one. -/
  stray : Bool := false
  /-- A tag was invalidated under the controller. -/
  hit : Bool := false

inductive Act
  /-- A request gets a tag (`nvme_start_request`). -/
  | start (q : QId) (tag : ℕ) (c : Cmd)
  /-- `apple_nvme_delayed_flush` ends it at once. -/
  | skip (q : QId) (tag : ℕ)
  | write (q : QId) (tag : ℕ)
  /-- `writel(tag, q->sq_db)`, under the lock. -/
  | ring (q : QId) (tag : ℕ)
  | fetch (q : QId) (tag : ℕ)
  | post (q : QId) (tag : ℕ)
  /-- `apple_nvme_irq`, `apple_nvme_poll` and `apple_nvme_timeout` take the lock. -/
  | acquire (q : QId) (rest : List QId)
  /-- One turn of `apple_nvme_poll_cq`, or its end. -/
  | poll
  | release (q : QId) (tag : ℕ)

def St.setSlot (s : St) (q : QId) (tag : ℕ) (x : Slot) : St :=
  { s with slot := Function.update s.slot q (Function.update (s.slot q) tag x) }

def St.setQueue (s : St) (q : QId) (x : Queue) : St :=
  { s with queue := Function.update s.queue q x }

def Queue.post (n : ℕ) (x : Queue) (tag : ℕ) (c : Cmd) : Queue :=
  { x with
    cqes := PhaseRing.post x.cqes x.tail tag
    tail := x.tail.next n
    log := x.log ++ [(tag, c)] }

/-- `apple_nvme_update_cq_head`. -/
def Queue.take (n : ℕ) (x : Queue) (tag : ℕ) (c : Cmd) : Queue :=
  { x with head := x.head.next n, handled := x.handled ++ [(tag, c)] }

/-- `writel(q->cq_head, q->cq_db)`. -/
def Queue.ack (x : Queue) : Queue := { x with db := x.head.index, acked := x.handled.length }

/-- `command_id` of the completion at the head. -/
def Queue.commandId (x : Queue) : ℕ := (x.cqes x.head.index).val

/-- `apple_nvme_handle_cqe` and `apple_nvme_update_cq_head`. What others do to the tag between the
two touches neither the head nor the doorbells. -/
def handleCqe (hw : Hw) (s : St) (q : QId) : St :=
  let tag := (s.queue q).commandId
  let x := s.slot q tag
  let s' := (s.setQueue q ((s.queue q).take (depth hw q) tag x.cmd)).setSlot q tag
    { x with stage := .done }
  { s' with
    hit := s.hit || (s.slot .admin tag).stage.inDevice || (s.slot .io tag).stage.inDevice
    stray := s.stray || x.stage != .posted }

/-- Behind the loop: the doorbell, and the next queue or the end. -/
def endPoll (s : St) (h : Hold) : St :=
  let s' := if h.found then s.setQueue h.queue (s.queue h.queue).ack else s
  match h.rest with
  | [] => { s' with lock := none }
  | q :: rest => { s' with lock := some ⟨q, rest, false⟩ }

def step (hw : Hw) (v : Variant) (s : St) : Act → Option St
  | .start q tag c =>
    let x := s.slot q tag
    if tag ∈ tags hw q ∧ x.stage = .free then
      some (s.setSlot q tag { x with stage := .started, cmd := c })
    else none
  | .skip q tag =>
    let x := s.slot q tag
    if x.stage = .started then some (s.setSlot q tag { x with stage := .done }) else none
  | .write q tag =>
    let x := s.slot q tag
    if x.stage = .started then
      some (s.setSlot q tag { x with stage := .written, tcb := tcbOf v tag x.cmd, sqe := x.cmd })
    else none
  | .ring q tag =>
    let x := s.slot q tag
    if s.lock.isNone ∧ x.stage = .written then some (s.setSlot q tag { x with stage := .rung })
    else none
  | .fetch q tag =>
    let x := s.slot q tag
    if x.stage = .rung then
      some (s.setSlot q tag { x with stage := .fetched, seen := (x.sqe, x.tcb) })
    else none
  | .post q tag =>
    let x := s.slot q tag
    if x.stage = .fetched then
      some ((s.setQueue q ((s.queue q).post (depth hw q) tag x.seen.1)).setSlot q tag
        { x with stage := .posted })
    else none
  | .acquire q rest =>
    if s.lock.isNone then some { s with lock := some ⟨q, rest, false⟩ } else none
  | .poll =>
    match s.lock with
    | none => none
    | some h =>
      let x := s.queue h.queue
      if pending x.cqes x.head then
        some { handleCqe hw s h.queue with lock := some { h with found := true } }
      else some (endPoll s h)
  | .release q tag =>
    let x := s.slot q tag
    if x.stage = .done then some (s.setSlot q tag { x with stage := .free }) else none

def init : St := {}

/-! ### One queue -/

section

variable {n : ℕ} {T : Finset ℕ} {dirty : Bool} {x : Queue} {slot slot' : ℕ → Slot}

/-- The tags whose completion is still to be taken. -/
def busyTags (T : Finset ℕ) (slot : ℕ → Slot) : Finset ℕ := T.filter fun t => (slot t).stage.busy

lemma mem_busyTags {t : ℕ} :
    t ∈ busyTags T slot ↔ t ∈ T ∧ (slot t).stage.busy = true := Finset.mem_filter

/-- The account of a queue of `n` places with the tags `T`. It is `dirty` when someone is polling
it and has found something. -/
structure Account (n : ℕ) (T : Finset ℕ) (dirty : Bool) (x : Queue) (slot : ℕ → Slot) : Prop where
  holds : Holds n x.cqes (x.log.map Prod.fst)
  tail : x.tail = cursorAt n x.log.length
  head : x.head = cursorAt n x.handled.length
  handled : x.handled <+: x.log
  acked : x.acked ≤ x.handled.length
  db : x.db = x.acked % n
  clean : x.acked < x.handled.length → dirty = true
  pend : ∀ t, (slot t).stage = .posted ↔ t ∈ (x.log.drop x.handled.length).map Prod.fst
  nodup : ((x.log.drop x.handled.length).map Prod.fst).Nodup
  cmds : ∀ p ∈ x.log.drop x.handled.length, (slot p.1).cmd = p.2
  mem : ∀ t, (slot t).stage.busy = true → t ∈ T
  /-- What has been taken and not told leaves room for what may still be posted. -/
  room : x.handled.length - x.acked + (busyTags T slot).card ≤ T.card

/-- No more is posted and not told than there are tags. -/
lemma Account.log_le (h : Account n T dirty x slot) : x.log.length ≤ x.acked + T.card := by
  have hsub : ((x.log.drop x.handled.length).map Prod.fst).toFinset ⊆ busyTags T slot := by
    intro t ht
    have hp := (h.pend t).mpr (List.mem_toFinset.mp ht)
    have hb : (slot t).stage.busy = true := by rw [hp]; rfl
    exact mem_busyTags.mpr ⟨h.mem t hb, hb⟩
  have hcard := Finset.card_le_card hsub
  rw [List.toFinset_card_of_nodup h.nodup, List.length_map, List.length_drop] at hcard
  have := h.handled.length_le
  have := h.acked
  have := h.room
  omega

/-- **What the driver finds pending is what it has not taken.** -/
lemma Account.pending_iff (hT : T.card < n) (h : Account n T dirty x slot) :
    pending x.cqes x.head = true ↔ x.handled.length < x.log.length := by
  have hlog := h.log_le
  have hacked := h.acked
  have hhand := h.handled.length_le
  rw [h.head, h.holds.pending_iff (by omega) (by simpa using hhand) (by simp; omega),
    List.length_map]

/-- Nothing changes for the controller. -/
lemma Account.quiet (h : Account n T dirty x slot)
    (hb : ∀ t, (slot' t).stage.busy = (slot t).stage.busy)
    (hp : ∀ t, (slot' t).stage = .posted ↔ (slot t).stage = .posted)
    (hc : ∀ t, (slot t).stage = .posted → (slot' t).cmd = (slot t).cmd) :
    Account n T dirty x slot' where
  holds := h.holds
  tail := h.tail
  head := h.head
  handled := h.handled
  acked := h.acked
  db := h.db
  clean := h.clean
  pend t := (hp t).trans (h.pend t)
  nodup := h.nodup
  cmds p hp' := (hc p.1 ((h.pend p.1).mpr (List.mem_map_of_mem hp'))).trans (h.cmds p hp')
  mem t ht := h.mem t ((hb t).symm.trans ht)
  room := by
    have : busyTags T slot' = busyTags T slot := Finset.filter_congr fun t _ => by rw [hb]
    rw [this]
    exact h.room

lemma Account.quiet_update (h : Account n T dirty x slot) {t : ℕ} {y : Slot}
    (hb : y.stage.busy = (slot t).stage.busy) (hp : y.stage ≠ .posted)
    (hp' : (slot t).stage ≠ .posted) : Account n T dirty x (Function.update slot t y) := by
  refine h.quiet (fun u => ?_) (fun u => ?_) (fun u hu => ?_)
  · rcases eq_or_ne u t with rfl | hne
    · rw [Function.update_self, hb]
    · rw [Function.update_of_ne hne]
  · rcases eq_or_ne u t with rfl | hne
    · rw [Function.update_self]
      exact iff_of_false hp hp'
    · rw [Function.update_of_ne hne]
  · rcases eq_or_ne u t with rfl | hne
    · exact absurd hu hp'
    · rw [Function.update_of_ne hne]

/-- The doorbell is rung only when nobody polls, and so there is room for one more. -/
lemma Account.ring (h : Account n T false x slot) {t : ℕ} (ht : t ∈ T)
    (hb : (slot t).stage.busy = false) :
    Account n T false x (Function.update slot t { slot t with stage := .rung }) := by
  have hclean : x.acked = x.handled.length := by
    by_contra hne
    have := h.clean (lt_of_le_of_ne h.acked hne)
    cases this
  have hne : (slot t).stage ≠ .posted := fun he => by
    rw [he] at hb
    cases hb
  refine
    { h with
      pend := fun u => ?_
      cmds := fun p hp => ?_
      mem := fun u hu => ?_
      room := ?_ }
  · rw [← h.pend u]
    rcases eq_or_ne u t with rfl | hu
    · simp [hne]
    · rw [Function.update_of_ne hu]
  · rw [← h.cmds p hp]
    rcases eq_or_ne p.1 t with he | hu
    · simp [he]
    · rw [Function.update_of_ne hu]
  · rcases eq_or_ne u t with rfl | hne
    · exact ht
    · rw [Function.update_of_ne hne] at hu
      exact h.mem u hu
  · rw [hclean, Nat.sub_self, Nat.zero_add]
    exact Finset.card_le_card (Finset.filter_subset _ _)

/-- A completion is posted where the controller has come to. -/
lemma Account.post (hT : T.card < n) (h : Account n T dirty x slot) {t : ℕ}
    (hs : (slot t).stage = .fetched) :
    Account n T dirty (x.post n t (slot t).cmd)
      (Function.update slot t { slot t with stage := .posted }) := by
  have hle := h.handled.length_le
  have hdrop : (x.log ++ [(t, (slot t).cmd)]).drop x.handled.length =
      x.log.drop x.handled.length ++ [(t, (slot t).cmd)] := List.drop_append_of_le_length hle
  have hnot : t ∉ (x.log.drop x.handled.length).map Prod.fst := by
    rw [← h.pend t, hs]
    simp
  refine
    { h with
      holds := ?_
      tail := ?_
      handled := h.handled.trans (List.prefix_append _ _)
      pend := fun u => ?_
      nodup := ?_
      cmds := fun p hp => ?_
      mem := fun u hu => ?_
      room := ?_ }
  · have := h.holds.post t
    rw [List.length_map, ← h.tail] at this
    simpa [Queue.post] using this
  · simp only [Queue.post, List.length_append, List.length_singleton]
    rw [h.tail, next_cursorAt (by omega)]
  · simp only [Queue.post, hdrop, List.map_append, List.mem_append, List.map_cons, List.map_nil,
      List.mem_singleton]
    rw [← h.pend u]
    rcases eq_or_ne u t with rfl | hne
    · simp
    · simp [hne]
  · simp only [Queue.post, hdrop, List.map_append, List.map_cons, List.map_nil]
    exact List.nodup_append.mpr ⟨h.nodup, List.nodup_singleton _, by
      intro a ha b hb
      rw [List.mem_singleton.mp hb]
      rintro rfl
      exact hnot ha⟩
  · simp only [Queue.post, hdrop, List.mem_append, List.mem_singleton] at hp
    rcases hp with hp | rfl
    · rw [← h.cmds p hp]
      rcases eq_or_ne p.1 t with he | hne
      · simp [he]
      · rw [Function.update_of_ne hne]
    · simp
  · rcases eq_or_ne u t with rfl | hne
    · exact h.mem u (by rw [hs]; rfl)
    · rw [Function.update_of_ne hne] at hu
      exact h.mem u hu
  · have : busyTags T (Function.update slot t { slot t with stage := .posted }) =
        busyTags T slot := by
      refine Finset.filter_congr fun u _ => ?_
      rcases eq_or_ne u t with rfl | hne
      · simp [hs, Stage.busy]
      · rw [Function.update_of_ne hne]
    rw [this]
    exact h.room

/-- What is found at the head when there is something. -/
lemma Account.commandId (hT : T.card < n) (h : Account n T dirty x slot)
    (hlt : x.handled.length < x.log.length) :
    ∃ l, x.log.drop x.handled.length = (x.commandId, (slot x.commandId).cmd) :: l := by
  have hlog := h.log_le
  have hacked := h.acked
  rw [List.drop_eq_getElem_cons hlt]
  refine ⟨x.log.drop (x.handled.length + 1), ?_⟩
  have hid : x.commandId = (x.log[x.handled.length]).1 := by
    rw [Queue.commandId, h.head]
    refine h.holds.val ?_ (by simp; omega)
    rw [List.getElem?_map, List.getElem?_eq_getElem hlt]
    rfl
  have hcmd := h.cmds (x.log[x.handled.length]) (by
    rw [List.drop_eq_getElem_cons hlt]
    exact List.mem_cons_self)
  rw [hid, hcmd]

/-- The completion at the head is taken. -/
lemma Account.take (hT : T.card < n) (h : Account n T dirty x slot)
    (hp : pending x.cqes x.head = true) :
    (slot x.commandId).stage = .posted ∧
      Account n T true (x.take n x.commandId (slot x.commandId).cmd)
        (Function.update slot x.commandId { slot x.commandId with stage := .done }) := by
  have hlt := (h.pending_iff hT).mp hp
  obtain ⟨l, hl⟩ := h.commandId hT hlt
  generalize ht : x.commandId = t at *
  have hst : (slot t).stage = .posted := by
    rw [h.pend t, hl]
    simp
  have hdrop : x.log.drop (x.handled.length + 1) = l := by
    rw [← List.drop_drop, hl]
    rfl
  have hnd := h.nodup
  rw [hl, List.map_cons, List.nodup_cons] at hnd
  refine ⟨hst,
    { h with
      head := ?_
      handled := ?_
      acked := ?_
      clean := fun _ => rfl
      pend := fun u => ?_
      nodup := ?_
      cmds := fun p hp => ?_
      mem := fun u hu => ?_
      room := ?_ }⟩
  · simp only [Queue.take, List.length_append, List.length_singleton]
    rw [h.head, next_cursorAt (by omega)]
  · obtain ⟨r, hr⟩ := h.handled
    have hr' : r = (t, (slot t).cmd) :: l := by
      rw [← hl, ← hr, List.drop_left]
    refine ⟨l, ?_⟩
    simp [Queue.take, ← hr, hr']
  · have := h.acked
    simp only [Queue.take, List.length_append, List.length_singleton]
    omega
  · simp only [Queue.take, List.length_append, List.length_singleton, hdrop]
    rcases eq_or_ne u t with rfl | hne
    · simpa using hnd.1
    · rw [Function.update_of_ne hne, h.pend u, hl]
      simp [hne]
  · simp only [Queue.take, List.length_append, List.length_singleton, hdrop]
    exact hnd.2
  · simp only [Queue.take, List.length_append, List.length_singleton, hdrop] at hp
    have := h.cmds p (by rw [hl]; exact List.mem_cons_of_mem _ hp)
    rw [← this]
    rcases eq_or_ne p.1 t with he | hne
    · simp [he]
    · rw [Function.update_of_ne hne]
  · rcases eq_or_ne u t with rfl | hne
    · simp [Stage.busy] at hu
    · rw [Function.update_of_ne hne] at hu
      exact h.mem u hu
  · have herase : busyTags T (Function.update slot t { slot t with stage := .done }) =
        (busyTags T slot).erase t := by
      ext u
      rw [Finset.mem_erase, mem_busyTags, mem_busyTags]
      rcases eq_or_ne u t with rfl | hne
      · simp [Stage.busy]
      · simp [hne]
    have hmem : t ∈ busyTags T slot := by
      have hb : (slot t).stage.busy = true := by rw [hst]; rfl
      exact mem_busyTags.mpr ⟨h.mem t hb, hb⟩
    rw [herase, Finset.card_erase_of_mem hmem]
    have := Finset.card_pos.mpr ⟨t, hmem⟩
    have := h.room
    have := h.acked
    simp only [Queue.take, List.length_append, List.length_singleton]
    omega

/-- The doorbell tells the controller all that was taken. -/
lemma Account.ack (h : Account n T dirty x slot) : Account n T false x.ack slot where
  holds := h.holds
  tail := h.tail
  head := h.head
  handled := h.handled
  acked := le_rfl
  db := by
    rw [Queue.ack, h.head]
    rfl
  clean := fun hlt => absurd hlt (lt_irrefl _)
  pend := h.pend
  nodup := h.nodup
  cmds := h.cmds
  mem := h.mem
  room := by
    simp only [Queue.ack, Nat.sub_self, Nat.zero_add]
    exact Finset.card_le_card (Finset.filter_subset _ _)

end

/-! ### Both queues -/

lemma card_tags (hw : Hw) (q : QId) : (tags hw q).card < depth hw q := by
  cases q
  · exact Nat.lt_succ_self 1
  · have := hw.pos
    simp only [tags, Nat.card_Ico, depth]
    omega

/-- A tag belongs to one queue. -/
lemma queue_eq_of_mem {hw : Hw} {q q' : QId} {t : ℕ} (h : t ∈ tags hw q) (h' : t ∈ tags hw q') :
    q = q' := by
  cases q <;> cases q' <;> first | rfl | skip
  all_goals
    simp only [tags, Finset.mem_range, Finset.mem_Ico] at h h'
    omega

/-- The queue is polled, and something was found. -/
def dirty (s : St) (q : QId) : Bool :=
  match s.lock with
  | none => false
  | some h => decide (h.queue = q) && h.found

/-- The command is in both tables. -/
def Stage.inTables : Stage → Bool
  | .written | .rung | .fetched | .posted => true
  | _ => false

/-- The tables hold the command of the request, and the controller has read it there. -/
structure SlotOk (v : Variant) (tag : ℕ) (x : Slot) : Prop where
  tables : x.stage.inTables = true → x.sqe = x.cmd ∧ x.tcb = tcbOf v tag x.cmd
  seen : x.stage = .fetched ∨ x.stage = .posted → x.seen = (x.cmd, tcbOf v tag x.cmd)

structure Inv (hw : Hw) (v : Variant) (s : St) : Prop where
  account : ∀ q, Account (depth hw q) (tags hw q) (dirty s q) (s.queue q) (s.slot q)
  slots : ∀ q t, SlotOk v t (s.slot q t)
  tags : ∀ q t, (s.slot q t).stage ≠ .free → t ∈ tags hw q
  stray : s.stray = false
  hit : s.hit = false

section

variable {hw : Hw} {v : Variant} {s s' : St}

lemma Inv.setSlot (hi : Inv hw v s) {q : QId} {t : ℕ} {y : Slot}
    (ha : Account (depth hw q) (NvmeQueue.tags hw q) (dirty s q) (s.queue q)
      (Function.update (s.slot q) t y))
    (hy : SlotOk v t y) (ht : t ∈ NvmeQueue.tags hw q) : Inv hw v (s.setSlot q t y) where
  account q' := by
    rcases eq_or_ne q' q with rfl | hne
    · simpa [St.setSlot, dirty] using ha
    · simpa [St.setSlot, dirty, hne] using hi.account q'
  slots q' u := by
    rcases eq_or_ne q' q with rfl | hne
    · rcases eq_or_ne u t with rfl | hu
      · simpa [St.setSlot] using hy
      · simpa [St.setSlot, hu] using hi.slots q' u
    · simpa [St.setSlot, hne] using hi.slots q' u
  tags q' u hu := by
    rcases eq_or_ne q' q with rfl | hne
    · rcases eq_or_ne u t with rfl | hut
      · exact ht
      · simp only [St.setSlot, Function.update_self, Function.update_of_ne hut] at hu
        exact hi.tags q' u hu
    · simp only [St.setSlot, Function.update_of_ne hne] at hu
      exact hi.tags q' u hu
  stray := hi.stray
  hit := hi.hit

/-- A step that the account does not see. -/
lemma Inv.quiet (hi : Inv hw v s) {q : QId} {t : ℕ} {y : Slot}
    (hb : y.stage.busy = (s.slot q t).stage.busy) (hp : y.stage ≠ .posted)
    (hp' : (s.slot q t).stage ≠ .posted) (hy : SlotOk v t y) (ht : t ∈ NvmeQueue.tags hw q) :
    Inv hw v (s.setSlot q t y) :=
  hi.setSlot ((hi.account q).quiet_update hb hp hp') hy ht

lemma Inv.setLock (hi : Inv hw v s) {l : Option Hold}
    (h : ∀ q, dirty { s with lock := l } q = dirty s q) : Inv hw v { s with lock := l } where
  account q := by
    rw [h q]
    exact hi.account q
  slots := hi.slots
  tags := hi.tags
  stray := hi.stray
  hit := hi.hit

/-- Out of the tables there is nothing to keep. -/
lemma slotOk_idle {t : ℕ} {y : Slot} (h : y.stage.inTables = false) : SlotOk v t y where
  tables h' := by
    rw [h] at h'
    cases h'
  seen h' := by
    rcases h' with h' | h' <;> (rw [h'] at h; cases h)

lemma inv_start {q : QId} {t : ℕ} {c : Cmd} (hi : Inv hw v s)
    (h : step hw v s (.start q t c) = some s') : Inv hw v s' := by
  simp only [step] at h
  split at h
  · rename_i hc
    cases h
    exact hi.quiet (by rw [hc.2]; rfl) (by simp) (by simp [hc.2]) (slotOk_idle rfl) hc.1
  · cases h

lemma inv_skip {q : QId} {t : ℕ} (hi : Inv hw v s)
    (h : step hw v s (.skip q t) = some s') : Inv hw v s' := by
  simp only [step] at h
  split at h
  · rename_i hc
    cases h
    exact hi.quiet (by rw [hc]; rfl) (by simp) (by simp [hc]) (slotOk_idle rfl)
      (hi.tags q t (by simp [hc]))
  · cases h

lemma inv_write {q : QId} {t : ℕ} (hi : Inv hw v s)
    (h : step hw v s (.write q t) = some s') : Inv hw v s' := by
  simp only [step] at h
  split at h
  · rename_i hc
    cases h
    refine hi.quiet (by rw [hc]; rfl) (by simp) (by simp [hc]) ⟨fun _ => ⟨rfl, rfl⟩, ?_⟩
      (hi.tags q t (by simp [hc]))
    rintro (h | h) <;> cases h
  · cases h

lemma inv_ring {q : QId} {t : ℕ} (hi : Inv hw v s)
    (h : step hw v s (.ring q t) = some s') : Inv hw v s' := by
  simp only [step] at h
  split at h
  · rename_i hc
    cases h
    obtain ⟨hl, hw'⟩ := hc
    have hd : dirty s q = false := by
      rw [dirty, Option.isNone_iff_eq_none.mp hl]
    have ht := hi.tags q t (by simp [hw'])
    have ha := hi.account q
    rw [hd] at ha
    refine hi.setSlot ?_ ⟨fun _ => (hi.slots q t).tables (by rw [hw']; rfl), ?_⟩ ht
    · rw [hd]
      exact ha.ring ht (by rw [hw']; rfl)
    · rintro (h | h) <;> cases h
  · cases h

lemma inv_fetch {q : QId} {t : ℕ} (hi : Inv hw v s)
    (h : step hw v s (.fetch q t) = some s') : Inv hw v s' := by
  simp only [step] at h
  split at h
  · rename_i hc
    cases h
    have htab := (hi.slots q t).tables (by rw [hc]; rfl)
    refine hi.quiet (by rw [hc]; rfl) (by simp) (by simp [hc]) ⟨fun _ => htab, fun _ => ?_⟩
      (hi.tags q t (by simp [hc]))
    rw [htab.1, htab.2]
  · cases h

lemma Inv.setQueue (hi : Inv hw v s) {q : QId} {t : ℕ} {x : Queue} {y : Slot} {l : Option Hold}
    (hd : ∀ q' ≠ q, dirty { s with lock := l } q' = dirty s q')
    (ha : Account (depth hw q) (NvmeQueue.tags hw q) (dirty { s with lock := l } q) x
      (Function.update (s.slot q) t y))
    (hy : SlotOk v t y) (ht : t ∈ NvmeQueue.tags hw q) :
    Inv hw v { (s.setQueue q x).setSlot q t y with lock := l } where
  account q' := by
    rcases eq_or_ne q' q with rfl | hne
    · simpa [St.setSlot, St.setQueue, dirty] using ha
    · have := hi.account q'
      rw [← hd q' hne] at this
      simpa [St.setSlot, St.setQueue, dirty, hne] using this
  slots q' u := by
    rcases eq_or_ne q' q with rfl | hne
    · rcases eq_or_ne u t with rfl | hu
      · simpa [St.setSlot, St.setQueue] using hy
      · simpa [St.setSlot, St.setQueue, hu] using hi.slots q' u
    · simpa [St.setSlot, St.setQueue, hne] using hi.slots q' u
  tags q' u hu := by
    rcases eq_or_ne q' q with rfl | hne
    · rcases eq_or_ne u t with rfl | hut
      · exact ht
      · simp only [St.setSlot, St.setQueue, Function.update_self, Function.update_of_ne hut] at hu
        exact hi.tags q' u hu
    · simp only [St.setSlot, St.setQueue, Function.update_of_ne hne] at hu
      exact hi.tags q' u hu
  stray := hi.stray
  hit := hi.hit

lemma inv_post {q : QId} {t : ℕ} (hi : Inv hw v s)
    (h : step hw v s (.post q t) = some s') : Inv hw v s' := by
  simp only [step] at h
  split at h
  · rename_i hc
    cases h
    have hok := hi.slots q t
    have hseen := hok.seen (.inl hc)
    have htab := hok.tables (by rw [hc]; rfl)
    refine hi.setQueue (l := s.lock) (fun _ _ => rfl) ?_ ⟨fun _ => htab, fun _ => hseen⟩
      (hi.tags q t (by simp [hc]))
    have hcmd : (s.slot q t).seen.1 = (s.slot q t).cmd := by rw [hseen]
    rw [hcmd]
    exact (hi.account q).post (card_tags hw q) hc
  · cases h

/-- The tag of a completion is in no command that the controller has. -/
lemma not_inDevice (hi : Inv hw v s) {q : QId} {t : ℕ} (hp : (s.slot q t).stage = .posted)
    (q' : QId) : (s.slot q' t).stage.inDevice = false := by
  by_contra hne
  have hfree : (s.slot q' t).stage ≠ .free := by
    intro h
    rw [h] at hne
    exact hne rfl
  obtain rfl := queue_eq_of_mem (hi.tags q t (by simp [hp])) (hi.tags q' t hfree)
  rw [hp] at hne
  exact hne rfl

lemma inv_take {hold : Hold} (hi : Inv hw v s) (hl : s.lock = some hold)
    (hp : pending (s.queue hold.queue).cqes (s.queue hold.queue).head = true) :
    Inv hw v { handleCqe hw s hold.queue with lock := some { hold with found := true } } := by
  obtain ⟨hst, ha⟩ := (hi.account hold.queue).take (card_tags hw _) hp
  have hd : ∀ q' ≠ hold.queue, dirty { s with lock := some { hold with found := true } } q' =
      dirty s q' := by
    intro q' hne
    simp [dirty, hl, hne.symm]
  have hself : dirty { s with lock := some { hold with found := true } } hold.queue = true := by
    simp [dirty]
  have hnew := hi.setQueue (l := some { hold with found := true })
    (y := { s.slot hold.queue (s.queue hold.queue).commandId with stage := .done }) hd
    (by rw [hself]; exact ha) (slotOk_idle rfl) (hi.tags _ _ (by simp [hst]))
  exact
    { hnew with
      stray := by simp [handleCqe, hi.stray, hst]
      hit := by simp [handleCqe, hi.hit, not_inDevice hi hst] }

/-- The next queue, or none, has nothing found yet. -/
def nextHold : List QId → Option Hold
  | [] => none
  | q :: rest => some ⟨q, rest, false⟩

lemma dirty_nextHold (s : St) (rest : List QId) (q : QId) :
    dirty { s with lock := nextHold rest } q = false := by
  cases rest with
  | nil => rfl
  | cons q' rest => simp [dirty, nextHold]

lemma endPoll_eq (s : St) (hold : Hold) :
    endPoll s hold =
      { (if hold.found then s.setQueue hold.queue (s.queue hold.queue).ack else s) with
        lock := nextHold hold.rest } := by
  obtain ⟨q, rest, found⟩ := hold
  cases rest <;> rfl

lemma inv_endPoll {hold : Hold} (hi : Inv hw v s) (hl : s.lock = some hold) :
    Inv hw v (endPoll s hold) := by
  -- the other queues are not polled, and this one is told
  have hother : ∀ q ≠ hold.queue, dirty s q = false := by
    intro q hne
    simp [dirty, hl, hne.symm]
  rw [endPoll_eq]
  cases hf : hold.found with
  | true =>
    refine ⟨fun q => ?_, hi.slots, hi.tags, hi.stray, hi.hit⟩
    have hd := dirty_nextHold (s.setQueue hold.queue (s.queue hold.queue).ack) hold.rest q
    simp only [if_true, hd]
    rcases eq_or_ne q hold.queue with rfl | hne
    · simpa [St.setQueue] using (hi.account hold.queue).ack
    · have := hi.account q
      rw [hother q hne] at this
      simpa [St.setQueue, hne] using this
  | false =>
    simp only [Bool.false_eq_true, if_false]
    refine hi.setLock fun q => ?_
    rw [dirty_nextHold]
    simp [dirty, hl, hf]

lemma inv_poll (hi : Inv hw v s) (h : step hw v s .poll = some s') : Inv hw v s' := by
  simp only [step] at h
  cases hl : s.lock with
  | none => simp [hl] at h
  | some hold =>
    simp only [hl] at h
    split at h
    · rename_i hp
      cases h
      exact inv_take hi hl hp
    · cases h
      exact inv_endPoll hi hl

lemma inv_acquire {q : QId} {rest : List QId} (hi : Inv hw v s)
    (h : step hw v s (.acquire q rest) = some s') : Inv hw v s' := by
  simp only [step] at h
  split at h
  · rename_i hl
    cases h
    refine hi.setLock fun q' => ?_
    simp [dirty, Option.isNone_iff_eq_none.mp hl]
  · cases h

lemma inv_release {q : QId} {t : ℕ} (hi : Inv hw v s)
    (h : step hw v s (.release q t) = some s') : Inv hw v s' := by
  simp only [step] at h
  split at h
  · rename_i hc
    cases h
    exact hi.quiet (by rw [hc]; rfl) (by simp) (by simp [hc]) (slotOk_idle rfl)
      (hi.tags q t (by simp [hc]))
  · cases h

theorem inv_step (s : St) (a : Act) (s' : St) (hi : Inv hw v s) (h : step hw v s a = some s') :
    Inv hw v s' := by
  cases a with
  | start q t c => exact inv_start hi h
  | skip q t => exact inv_skip hi h
  | write q t => exact inv_write hi h
  | ring q t => exact inv_ring hi h
  | fetch q t => exact inv_fetch hi h
  | post q t => exact inv_post hi h
  | acquire q rest => exact inv_acquire hi h
  | poll => exact inv_poll hi h
  | release q t => exact inv_release hi h

lemma inv_init (hw : Hw) (v : Variant) : Inv hw v init where
  account q :=
    { holds := holds_nil fun _ => rfl
      tail := cursorAt_zero.symm
      head := cursorAt_zero.symm
      handled := List.prefix_rfl
      acked := le_rfl
      db := (Nat.zero_mod _).symm
      clean := fun h => absurd h (lt_irrefl _)
      pend := fun t => by simp [init]
      nodup := by simp [init]
      cmds := fun p hp => by simp [init] at hp
      mem := fun t ht => by simp [init, Stage.busy] at ht
      room := by simp [init, busyTags, Stage.busy] }
  slots q t := slotOk_idle rfl
  tags q t h := absurd rfl h
  stray := rfl
  hit := rfl

lemma inv_of_reach (h : Reach (step hw v) Any init s) : Inv hw v s :=
  h.invariant (Inv hw v) (inv_init hw v) fun s a s' hi _ hs => inv_step s a s' hi hs

/-- **Every completion ends its request, once and in order.** In every interleaving of any number of
submitters, of pollers of both queues and of a controller that never looks whether there is room:
the driver takes the completions in the order they were posted, each with the command that the
controller carried out under its tag, and it finds one pending exactly while there is one that it
has not taken. No completion is written over before it is taken, or even before the controller has
been told, and what is told at the doorbell has been taken. No completion is for a tag without a
request, no tag is invalidated while the controller has a command under it, and a command stays in
both tables as it was written until its completion is taken. -/
theorem completions_end_requests (h : Reach (step hw v) Any init s) (q : QId) :
    (s.queue q).handled <+: (s.queue q).log ∧
      (pending (s.queue q).cqes (s.queue q).head = true ↔
        (s.queue q).handled.length < (s.queue q).log.length) ∧
      ((s.queue q).log.length < (s.queue q).acked + depth hw q ∧
        (s.queue q).acked ≤ (s.queue q).handled.length ∧
        (s.queue q).db = (s.queue q).acked % depth hw q ∧
        (s.lock = none → (s.queue q).acked = (s.queue q).handled.length)) ∧
      (s.stray = false ∧ s.hit = false) ∧
      ∀ t, (s.slot q t).stage.busy = true →
        (s.slot q t).sqe = (s.slot q t).cmd ∧ (s.slot q t).tcb = tcbOf v t (s.slot q t).cmd := by
  have hi := inv_of_reach h
  have ha := hi.account q
  have hlt := card_tags hw q
  have hlog := ha.log_le
  refine ⟨ha.handled, ha.pending_iff hlt, ⟨by omega, ha.acked, ha.db, fun hl => ?_⟩,
    ⟨hi.stray, hi.hit⟩, fun t ht => (hi.slots q t).tables ?_⟩
  · by_contra hne
    have hd := ha.clean (lt_of_le_of_ne ha.acked hne)
    simp [dirty, hl] at hd
  · cases hst : (s.slot q t).stage <;> rw [hst] at ht <;> first | rfl | cases ht

end

/-- Three commands of the I/O queue, of which two are completed in one poll and the third gets the
tag of the first. -/
theorem completions_end_requests_reuse :
    ∃ s, Reach (step ⟨64, Nat.succ_pos 63⟩ .stock) Any init s ∧
      ((s.queue .io).handled.length = 2 ∧ (s.queue .io).log.length = 3) ∧
      (s.queue .io).handled <+: (s.queue .io).log := by
  obtain ⟨s, hs, hp⟩ := exists_reach_of_run (step ⟨64, Nat.succ_pos 63⟩ .stock) Any init
    [.start .io 2 { opcode := 2 }, .write .io 2, .ring .io 2, .fetch .io 2,
      .start .io 3 { opcode := 1 }, .write .io 3, .ring .io 3, .fetch .io 3, .post .io 3,
      .acquire .io [.admin], .poll, .post .io 2, .poll, .release .io 2,
      .start .io 2 { opcode := 0 }, .write .io 2, .poll, .poll, .ring .io 2, .fetch .io 2,
      .post .io 2]
    (fun s => (s.queue .io).handled.length = 2 ∧ (s.queue .io).log.length = 3) (by decide +kernel)
  rw [decide_eq_true_eq] at hp
  exact ⟨s, hs, hp, (completions_end_requests hs .io).1⟩

end Wallace.NvmeQueue
