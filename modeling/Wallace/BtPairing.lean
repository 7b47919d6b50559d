import Mathlib.Data.Finset.Basic
import Mathlib.Data.List.Nodup
import Mathlib.Tactic.Common
import Wallace.Threads

/-!
Pending `PAIR_DEVICE` commands of the Bluetooth management interface.

Any number of threads end a pairing at once: the SMP layer, the connection callbacks, a failed
authentication and `cancel_pair_device`. A step is one section under `mgmt_pending_lock`, or one
use of a command or of a connection outside of it. A command is added with a number of its own,
and a pair command holds a reference on its connection until it is completed.

With `patched` a thread finds and unlinks its command in one section; without, it finds the
command first and unlinks it when it has completed it. An access to a freed command, to a
connection without references or to the links of an unlinked command is a fault. Of the numbers,
the owners and the log no operation reads anything.
-/

namespace Wallace.BtPairing

open Runs Threads

/-- `struct mgmt_pending_cmd`: whether its opcode is `MGMT_OP_PAIR_DEVICE`, and its
`user_data`. -/
structure Cmd where
  id : ℕ
  pairDevice : Bool
  conn : ℕ
  deriving DecidableEq

/-- The status of a completed command; `ofHci` is `mgmt_status`. -/
inductive Status
  | success
  | failed
  | cancelled
  | ofHci (status : UInt8)
  deriving DecidableEq

/-- Who holds a reference on a connection. -/
inductive Holder (ι : Type*)
  | cmd (id : ℕ)
  | thread (p : ι)
  deriving DecidableEq

structure Shared (ι : Type*) where
  /-- `hdev->mgmt_pending`. -/
  pending : List Cmd := []
  refs : ℕ → Finset (Holder ι) := fun _ => ∅
  next : ℕ := 0
  owner : ℕ → Option ι := fun _ => none
  unlinked : List ℕ := []
  completed : List (ℕ × Status) := []
  freed : List ℕ := []
  fault : Bool := false

/-- What `cancel_pair_device` still does when its command is freed. -/
inductive Back
  | done
  | cancel (conn : ℕ)
  deriving DecidableEq

inductive Pc
  | idle
  | remove (conn : ℕ) (status : Status) (event : Bool)
  | event (c : Option Cmd) (status : Status)
  | cancel (addr : ℕ)
  | getConn (c : Cmd)
  | complete (c : Cmd) (status : Status) (back : Back)
  | unlink (c : Cmd) (back : Back)
  | free (c : Cmd) (back : Back)
  | abort (conn : ℕ)
  | putConn (conn : ℕ)
  deriving DecidableEq

/-- The callers, and a new command. -/
inductive Input
  | add (pairDevice : Bool) (conn : ℕ)
  | smpComplete (conn : ℕ) (complete : Bool)
  | pairingCompleteCb (conn : ℕ) (status : UInt8)
  | lePairingCompleteCb (conn : ℕ) (status : UInt8)
  | authFailed (conn : ℕ) (hciStatus : UInt8)
  | cancelPairDevice (addr : ℕ)
  | go

variable {ι : Type*}

section Model

variable [DecidableEq ι]

section Actions

variable (s : Shared ι)

def Shared.blame (b : Bool) : Shared ι := { s with fault := s.fault || b }

/-- A read of the command. -/
def Shared.touch (c : Cmd) : Shared ι := s.blame (decide (c.id ∈ s.freed))

/-- A read of the connection. -/
def Shared.useConn (conn : ℕ) : Shared ι := s.blame (decide (s.refs conn = ∅))

/-- `list_del`, by `p`. -/
def Shared.listDel (p : ι) (c : Cmd) : Shared ι :=
  { s.blame (decide (c ∉ s.pending)) with
    pending := s.pending.erase c
    unlinked := s.unlinked ++ [c.id]
    owner := Function.update s.owner c.id (some p) }

/-- `cmd->cmd_complete`, which drops the command's reference on the connection. -/
def Shared.cmdComplete (c : Cmd) (status : Status) : Shared ι :=
  let s := (s.touch c).useConn c.conn
  { s with
    completed := s.completed ++ [(c.id, status)]
    refs := Function.update s.refs c.conn ((s.refs c.conn).erase (.cmd c.id)) }

/-- `mgmt_pending_free`. -/
def Shared.free (c : Cmd) : Shared ι :=
  { s.touch c with
    freed := s.freed ++ [c.id]
    owner := Function.update s.owner c.id none }

/-- `hci_conn_get`. -/
def Shared.connGet (p : ι) (conn : ℕ) : Shared ι :=
  { s.useConn conn with refs := Function.update s.refs conn (insert (.thread p) (s.refs conn)) }

/-- `hci_conn_put`. -/
def Shared.connPut (p : ι) (conn : ℕ) : Shared ι :=
  { s.useConn conn with refs := Function.update s.refs conn ((s.refs conn).erase (.thread p)) }

/-- `mgmt_pending_add`. -/
def Shared.add (pairDevice : Bool) (conn : ℕ) : Shared ι :=
  { s with
    pending := s.pending ++ [⟨s.next, pairDevice, conn⟩]
    next := s.next + 1
    refs := if pairDevice then Function.update s.refs conn (insert (.cmd s.next) (s.refs conn))
      else s.refs }

end Actions

/-- What a walk of the list that looks for `f` visits. -/
def visited (f : Cmd → Bool) : List Cmd → List Cmd
  | [] => []
  | c :: l => if f c then [c] else c :: visited f l

/-- The walk of `remove_pairing_by_addr` reads the connections of the pair commands. -/
def Shared.walk (s : Shared ι) (f : Cmd → Bool) : Shared ι :=
  s.blame ((visited f s.pending).any fun c => c.pairDevice && decide (s.refs c.conn = ∅))

/-- The test of `remove_pairing` and `find_pairing`. -/
def pairingOf (conn : ℕ) (c : Cmd) : Bool := c.pairDevice && c.conn == conn

/-- The test of `remove_pairing_by_addr`; `dst` gives the address of a connection. -/
def pairingTo (dst : ℕ → ℕ) (addr : ℕ) (c : Cmd) : Bool := c.pairDevice && dst c.conn == addr

def Back.pc : Back → Pc
  | .done => .idle
  | .cancel conn => .abort conn

/-- The next step of a caller. -/
def go (patched : Bool) (dst : ℕ → ℕ) (p : ι) (s : Shared ι) : Pc → Option (Shared ι × Pc)
  | .idle => none
  | .remove conn status event =>
    match s.pending.find? (pairingOf conn) with
    | none => some (s, if event then .event none status else .idle)
    | some c => some (if patched then s.listDel p c else s,
        if event then .event (some c) status else .complete c status .done)
  -- `mgmt_event` skips the socket of the command
  | .event none _ => some (s, .idle)
  | .event (some c) status => some (s.touch c, .complete c status .done)
  | .cancel addr =>
    if patched then
      let s := s.walk (pairingTo dst addr)
      match s.pending.find? (pairingTo dst addr) with
      | none => some (s, .idle)
      | some c => some (s.listDel p c, .getConn c)
    else
      match s.pending.find? Cmd.pairDevice with
      | none => some (s, .idle)
      | some c => some ((s.touch c).useConn c.conn,
          if dst c.conn = addr then .complete c .cancelled (.cancel c.conn) else .idle)
  | .getConn c => some ((s.touch c).connGet p c.conn, .complete c .cancelled (.cancel c.conn))
  | .complete c status back =>
    some (s.cmdComplete c status, if patched then .free c back else .unlink c back)
  | .unlink c back => some (s.listDel p c, .free c back)
  | .free c back => some (s.free c, back.pc)
  -- the reason of the connection is looked at after the command is gone
  | .abort conn => some (s.useConn conn, if patched then .putConn conn else .idle)
  | .putConn conn => some (s.connPut p conn, .idle)

/-- What a caller does before its first step. -/
def Input.start : Input → Pc
  | .add _ _ | .go => .idle
  | .smpComplete conn complete => .remove conn (if complete then .success else .failed) false
  | .pairingCompleteCb conn status => .remove conn (.ofHci status) false
  | .lePairingCompleteCb conn status =>
    if status = 0 then .idle else .remove conn (.ofHci status) false
  | .authFailed conn hciStatus => .remove conn (.ofHci hciStatus) true
  | .cancelPairDevice addr => .cancel addr

def next (patched : Bool) (dst : ℕ → ℕ) (p : ι) (s : Shared ι) (pc : Pc) :
    Input → Option (Shared ι × Pc)
  | .go => go patched dst p s pc
  | .add pairDevice conn => if pc = .idle then some (s.add pairDevice conn, .idle) else none
  | i => if pc = .idle then some (s, i.start) else none

end Model

def init : St ι (Shared ι) Pc where
  shared := {}
  pc _ := .idle

/-- The command that a thread has taken off the list and not yet freed. -/
def held : Pc → Option ℕ
  | .event (some c) _ | .getConn c | .complete c _ _ | .free c _ => some c.id
  | _ => none

/-! ### The invariant -/

/-- The numbers of the completed commands. -/
def Shared.ended (s : Shared ι) : List ℕ := s.completed.map Prod.fst

/-- What holds of a command on the list. -/
structure Linked (s : Shared ι) (c : Cmd) : Prop where
  lt : c.id < s.next
  unowned : s.owner c.id = none
  kept : c.id ∉ s.unlinked
  ref : c.pairDevice = true → .cmd c.id ∈ s.refs c.conn

/-- What holds of the shared state. -/
structure Good (s : Shared ι) : Prop where
  sane : s.fault = false
  linked : ∀ c ∈ s.pending, Linked s c
  distinct : (s.pending.map Cmd.id).Nodup
  unlinked : s.unlinked.Nodup ∧ ∀ id ∈ s.unlinked, id < s.next
  ended : s.ended.Nodup ∧ ∀ id ∈ s.ended, id ∈ s.unlinked
  freed : s.freed.Nodup ∧ ∀ id ∈ s.freed, id ∈ s.ended
  owned : ∀ id, s.owner id ≠ none ↔ id ∈ s.unlinked ∧ id ∉ s.freed
  all : ∀ id < s.next, id ∈ s.pending.map Cmd.id ∨ id ∈ s.unlinked

/-- A reference that `cancel_pair_device` keeps over the free. -/
def Back.Ref (p : ι) (s : Shared ι) : Back → Prop
  | .done => True
  | .cancel conn => .thread p ∈ s.refs conn

/-- A command that has been taken off the list and is still to be completed. -/
structure Fresh (s : Shared ι) (c : Cmd) : Prop where
  unended : c.id ∉ s.ended
  ref : .cmd c.id ∈ s.refs c.conn

/-- What holds of a thread at its place, beside what it owns. -/
def Place (p : ι) (s : Shared ι) : Pc → Prop
  | .idle | .remove _ _ _ | .event none _ | .cancel _ => True
  | .event (some c) _ | .getConn c => Fresh s c
  | .complete c _ back => Fresh s c ∧ back.Ref p s
  | .unlink _ _ => False
  | .free c back => c.id ∈ s.ended ∧ back.Ref p s
  | .abort conn | .putConn conn => .thread p ∈ s.refs conn

/-- What holds of a thread: it owns just the command it holds. -/
structure Local (p : ι) (s : Shared ι) (pc : Pc) : Prop where
  owns : ∀ id, s.owner id = some p ↔ held pc = some id
  place : Place p s pc

/-- What a step of one thread may do to what the others rely on. -/
structure Change (p : ι) (s s' : Shared ι) : Prop where
  owner : ∀ id q, q ≠ p → (s'.owner id = some q ↔ s.owner id = some q)
  ended : ∀ id ∈ s'.ended, id ∈ s.ended ∨ s.owner id = some p
  mono : ∀ id ∈ s.ended, id ∈ s'.ended
  refs : ∀ conn, ∀ h ∈ s.refs conn, h ∈ s'.refs conn ∨ h = .thread p ∨
    ∃ id, h = .cmd id ∧ s.owner id = some p

lemma Change.refl (p : ι) {s s' : Shared ι} (ho : s'.owner = s.owner) (hc : s'.ended = s.ended)
    (hr : s'.refs = s.refs) : Change p s s' := by
  refine ⟨fun _ _ _ => by rw [ho], fun id h => .inl (hc ▸ h), fun id h => hc ▸ h, ?_⟩
  intro conn h hh
  rw [hr]
  exact .inl hh

lemma Back.Ref.stable {p q : ι} {s s' : Shared ι} {back : Back} (h : back.Ref q s) (hq : q ≠ p)
    (hc : Change p s s') : back.Ref q s' := by
  cases back with
  | done => trivial
  | cancel conn =>
    rcases hc.refs conn _ h with h' | h' | ⟨id, h', -⟩
    · exact h'
    · cases h'
      exact absurd rfl hq
    · cases h'

lemma Fresh.stable {p q : ι} {s s' : Shared ι} {c : Cmd} (h : Fresh s c) (hq : q ≠ p)
    (ho : s.owner c.id = some q) (hc : Change p s s') : Fresh s' c := by
  have hne : s.owner c.id ≠ some p := by
    rw [ho]
    exact fun e => hq (Option.some.inj e)
  refine ⟨fun he => ?_, ?_⟩
  · exact (hc.ended _ he).elim h.unended hne
  · rcases hc.refs _ _ h.ref with h' | h' | ⟨id, h', hid⟩
    · exact h'
    · cases h'
    · cases h'
      exact absurd hid hne

lemma Local.stable {p q : ι} {s s' : Shared ι} {pc : Pc} (h : Local q s pc) (hq : q ≠ p)
    (hc : Change p s s') : Local q s' pc := by
  refine ⟨fun id => (hc.owner id q hq).trans (h.owns id), ?_⟩
  have hp := h.place
  have ho : ∀ c : Cmd, held pc = some c.id → s.owner c.id = some q := fun c hc => (h.owns _).mpr hc
  cases pc with
  | idle | remove _ _ _ | cancel _ => trivial
  | event c status =>
    cases c with
    | none => trivial
    | some c => exact hp.stable hq (ho c rfl) hc
  | getConn c => exact hp.stable hq (ho c rfl) hc
  | complete c status back => exact ⟨hp.1.stable hq (ho c rfl) hc, hp.2.stable hq hc⟩
  | unlink c back => exact hp.elim
  | free c back => exact ⟨hc.mono _ hp.1, hp.2.stable hq hc⟩
  | abort conn | putConn conn => exact (show (Back.cancel conn).Ref q s from hp).stable hq hc

/-! ### The steps -/

section Steps

variable {p : ι} {s s' : Shared ι} {c : Cmd}

lemma blame_false {b : Bool} (h : b = false) : s.blame b = s := by
  subst h
  simp [Shared.blame]

lemma touch_eq (h : c.id ∉ s.freed) : s.touch c = s := blame_false (by simpa using h)

lemma useConn_eq [DecidableEq ι] {conn : ℕ} {x : Holder ι} (h : x ∈ s.refs conn) :
    s.useConn conn = s :=
  blame_false (by simpa using Finset.ne_empty_of_mem h)

lemma mem_visited {f : Cmd → Bool} {l : List Cmd} (h : c ∈ visited f l) : c ∈ l := by
  induction l with
  | nil => exact h
  | cons d l ih =>
    unfold visited at h
    split_ifs at h
    · exact List.mem_singleton.mp h ▸ List.mem_cons_self
    · exact (List.mem_cons.mp h).elim (fun e => e ▸ List.mem_cons_self)
        fun h => List.mem_cons_of_mem _ (ih h)

/-- The connections of the commands on the list are alive. -/
lemma Good.walk [DecidableEq ι] (hg : Good s) (f : Cmd → Bool) : s.walk f = s := by
  refine blame_false ?_
  rw [List.any_eq_false]
  intro d hd hdead
  simp only [Bool.and_eq_true, decide_eq_true_eq] at hdead
  exact Finset.ne_empty_of_mem ((hg.linked d (mem_visited hd)).ref hdead.1) hdead.2

/-- What a thread owns is off the list and not freed. -/
lemma Good.mine (hg : Good s) {id : ℕ} (h : s.owner id = some p) :
    id ∈ s.unlinked ∧ id ∉ s.freed :=
  (hg.owned id).mp (by rw [h]; exact Option.some_ne_none p)

lemma Good.id_inj (hg : Good s) {d : Cmd} (hc : c ∈ s.pending) (hd : d ∈ s.pending)
    (h : d.id = c.id) : d = c :=
  List.inj_on_of_nodup_map hg.distinct hd hc h

/-- `remove_pairing` takes a command off the list. -/
lemma Good.listDel (hg : Good s) (hc : c ∈ s.pending) : Good (s.listDel p c) := by
  have hl := hg.linked c hc
  have hmem : ∀ d ∈ s.pending.erase c, d ∈ s.pending ∧ d.id ≠ c.id := by
    intro d hd
    have hd' := List.mem_of_mem_erase hd
    refine ⟨hd', fun e => ?_⟩
    rw [hg.id_inj hc hd' e] at hd
    exact (List.Nodup.not_mem_erase (List.Nodup.of_map _ hg.distinct)) hd
  refine ⟨?_, ?_, ?_, ?_, ?_, hg.freed, ?_, ?_⟩
  · simpa [Shared.listDel, Shared.blame, hc] using hg.sane
  · intro d hd
    obtain ⟨hd, hne⟩ := hmem d hd
    have hld := hg.linked d hd
    refine ⟨hld.lt, ?_, ?_, hld.ref⟩
    · exact (Function.update_of_ne hne _ _).trans hld.unowned
    · simp only [Shared.listDel, List.mem_append, List.mem_singleton, not_or]
      exact ⟨hld.kept, hne⟩
  · exact hg.distinct.sublist (List.erase_sublist.map _)
  · refine ⟨List.nodup_append_comm.mp ?_, fun id hid => ?_⟩
    · exact List.nodup_cons.mpr ⟨hl.kept, hg.unlinked.1⟩
    · rcases List.mem_append.mp hid with hid | hid
      · exact hg.unlinked.2 id hid
      · exact List.mem_singleton.mp hid ▸ hl.lt
  · exact ⟨hg.ended.1, fun id hid => List.mem_append_left _ (hg.ended.2 id hid)⟩
  · intro id
    simp only [Shared.listDel, List.mem_append, List.mem_singleton]
    by_cases hid : id = c.id
    · subst hid
      have hf : c.id ∉ s.freed := fun hf => hl.kept (hg.ended.2 _ (hg.freed.2 _ hf))
      simpa [Shared.blame] using hf
    · rw [Function.update_of_ne hid]
      simpa [hid, Shared.blame] using hg.owned id
  · intro id hid
    rcases hg.all id hid with h | h
    · by_cases he : id = c.id
      · exact .inr (List.mem_append_right _ (List.mem_singleton.mpr he))
      · obtain ⟨d, hd, rfl⟩ := List.mem_map.mp h
        refine .inl (List.mem_map.mpr ⟨d, (List.mem_erase_of_ne ?_).mpr hd, rfl⟩)
        exact fun e => he (by rw [e])
    · exact .inr (List.mem_append_left _ h)

lemma change_listDel (hg : Good s) (hc : c ∈ s.pending) : Change p s (s.listDel p c) := by
  refine ⟨fun id q hq => ?_, fun id h => .inl h, fun id h => h, fun conn h hh => .inl hh⟩
  by_cases hid : id = c.id
  · subst hid
    have hn := (hg.linked c hc).unowned
    simp only [Shared.listDel, Function.update_self, hn, Option.some.injEq, reduceCtorEq, iff_false]
    exact fun e => hq e.symm
  · simp [Shared.listDel, Function.update_of_ne hid]

/-- After `remove_pairing` the caller owns the command alone. -/
lemma local_listDel (hg : Good s) (hc : c ∈ s.pending) (hpair : c.pairDevice = true)
    (hnone : ∀ id, s.owner id ≠ some p) {pc : Pc} (hheld : held pc = some c.id)
    (hplace : Fresh (s.listDel p c) c → Place p (s.listDel p c) pc) :
    Local p (s.listDel p c) pc := by
  have hl := hg.linked c hc
  refine ⟨fun id => ?_, hplace ⟨fun he => hl.kept (hg.ended.2 _ he), hl.ref hpair⟩⟩
  rw [hheld]
  by_cases hid : id = c.id
  · subst hid
    simp [Shared.listDel]
  · simp only [Shared.listDel, Function.update_of_ne hid, hnone, false_iff, Option.some.injEq]
    exact fun e => hid e.symm

lemma free_eq (hg : Good s) (ho : s.owner c.id = some p) : s.free c =
    { s with freed := s.freed ++ [c.id], owner := Function.update s.owner c.id none } := by
  simp only [Shared.free, touch_eq (hg.mine ho).2]

lemma Good.free (hg : Good s) (ho : s.owner c.id = some p) (he : c.id ∈ s.ended) :
    Good (s.free c) := by
  rw [free_eq hg ho]
  obtain ⟨hu, hf⟩ := hg.mine ho
  refine ⟨hg.sane, fun d hd => ?_, hg.distinct, hg.unlinked, hg.ended, ?_, ?_, hg.all⟩
  · have hl := hg.linked d hd
    have hne : d.id ≠ c.id := fun e => hl.kept (e ▸ hu)
    exact ⟨hl.lt, (Function.update_of_ne hne _ _).trans hl.unowned, hl.kept, hl.ref⟩
  · refine ⟨List.nodup_append_comm.mp (List.nodup_cons.mpr ⟨hf, hg.freed.1⟩), ?_⟩
    intro id hid
    exact (List.mem_append.mp hid).elim (hg.freed.2 id) fun h => List.mem_singleton.mp h ▸ he
  · intro id
    simp only [List.mem_append, List.mem_singleton, not_or]
    by_cases hid : id = c.id
    · subst hid
      simp
    · rw [Function.update_of_ne hid, hg.owned id]
      simp [hid]

lemma change_free (hg : Good s) (ho : s.owner c.id = some p) : Change p s (s.free c) := by
  rw [free_eq hg ho]
  refine ⟨fun id q hq => ?_, fun id h => .inl h, fun id h => h, fun conn h hh => .inl hh⟩
  by_cases hid : id = c.id
  · subst hid
    simp only [Function.update_self, ho, Option.some.injEq, reduceCtorEq, false_iff]
    exact fun e => hq e.symm
  · simp [Function.update_of_ne hid]

section Owned

variable [DecidableEq ι]

/-- A caller completes the command it owns. -/
lemma cmdComplete_eq (hg : Good s) (ho : s.owner c.id = some p) (hf : Fresh s c)
    (status : Status) : s.cmdComplete c status =
      { s with
        completed := s.completed ++ [(c.id, status)]
        refs := Function.update s.refs c.conn ((s.refs c.conn).erase (.cmd c.id)) } := by
  simp only [Shared.cmdComplete, touch_eq (hg.mine ho).2, useConn_eq hf.ref]

omit [DecidableEq ι] in
lemma ended_complete {s' : Shared ι} {status : Status}
    (h : s'.completed = s.completed ++ [(c.id, status)]) : s'.ended = s.ended ++ [c.id] := by
  simp [Shared.ended, h]

lemma mem_refs_erase {conn conn' : ℕ} {x y : Holder ι} (hy : y ∈ s.refs conn') :
    y ∈ Function.update s.refs conn ((s.refs conn).erase x) conn' ∨ y = x := by
  by_cases h : conn' = conn
  · subst h
    rw [Function.update_self, Finset.mem_erase]
    by_cases hyx : y = x
    · exact .inr hyx
    · exact .inl ⟨hyx, hy⟩
  · rw [Function.update_of_ne h]
    exact .inl hy

lemma Good.cmdComplete (hg : Good s) (ho : s.owner c.id = some p) (hf : Fresh s c)
    (status : Status) : Good (s.cmdComplete c status) := by
  rw [cmdComplete_eq hg ho hf]
  obtain ⟨hu, -⟩ := hg.mine ho
  refine ⟨hg.sane, fun d hd => ?_, hg.distinct, hg.unlinked, ?_, ?_, hg.owned, hg.all⟩
  · have hl := hg.linked d hd
    refine ⟨hl.lt, hl.unowned, hl.kept, fun hpair => ?_⟩
    refine (mem_refs_erase (hl.ref hpair)).resolve_right fun e => hl.kept ?_
    rw [Holder.cmd.inj e]
    exact hu
  · rw [ended_complete rfl]
    refine ⟨List.nodup_append_comm.mp (List.nodup_cons.mpr ⟨hf.unended, hg.ended.1⟩), ?_⟩
    intro id hid
    exact (List.mem_append.mp hid).elim (hg.ended.2 id) fun h => List.mem_singleton.mp h ▸ hu
  · rw [ended_complete rfl]
    exact ⟨hg.freed.1, fun id hid => List.mem_append_left _ (hg.freed.2 id hid)⟩

lemma change_cmdComplete (hg : Good s) (ho : s.owner c.id = some p) (hf : Fresh s c)
    (status : Status) : Change p s (s.cmdComplete c status) := by
  rw [cmdComplete_eq hg ho hf]
  refine ⟨fun id q _ => Iff.rfl, fun id h => ?_, fun id h => ?_, fun conn h hh => ?_⟩
  · rw [ended_complete rfl] at h
    refine (List.mem_append.mp h).imp_right fun h => ?_
    rw [List.mem_singleton.mp h]
    exact ho
  · rw [ended_complete rfl]
    exact List.mem_append_left _ h
  · exact (mem_refs_erase hh).imp_right fun e => .inr ⟨c.id, e, ho⟩

/-! The references on the connections -/

omit [DecidableEq ι] in
/-- A step that changes only the references. -/
lemma Good.refs (hg : Good s) (refs : ℕ → Finset (Holder ι))
    (h : ∀ id conn, .cmd id ∈ s.refs conn → .cmd id ∈ refs conn) :
    Good { s with refs := refs } := by
  refine ⟨hg.sane, fun d hd => ?_, hg.distinct, hg.unlinked, hg.ended, hg.freed, hg.owned, hg.all⟩
  have hl := hg.linked d hd
  exact ⟨hl.lt, hl.unowned, hl.kept, fun hpair => h _ _ (hl.ref hpair)⟩

lemma mem_refs_insert {conn conn' : ℕ} {x y : Holder ι} (hy : y ∈ s.refs conn') :
    y ∈ Function.update s.refs conn (insert x (s.refs conn)) conn' := by
  by_cases h : conn' = conn
  · subst h
    rw [Function.update_self]
    exact Finset.mem_insert_of_mem hy
  · rwa [Function.update_of_ne h]

lemma connGet_eq {conn : ℕ} {x : Holder ι} (h : x ∈ s.refs conn) : s.connGet p conn =
    { s with refs := Function.update s.refs conn (insert (.thread p) (s.refs conn)) } := by
  simp only [Shared.connGet, useConn_eq h]

lemma connPut_eq {conn : ℕ} {x : Holder ι} (h : x ∈ s.refs conn) : s.connPut p conn =
    { s with refs := Function.update s.refs conn ((s.refs conn).erase (.thread p)) } := by
  simp only [Shared.connPut, useConn_eq h]

lemma Good.add (hg : Good s) (pairDevice : Bool) (conn : ℕ) : Good (s.add pairDevice conn) := by
  have hrefs : ∀ k, ∀ x ∈ s.refs k, x ∈ (s.add pairDevice conn).refs k := by
    intro k x hx
    cases pairDevice with
    | true => exact mem_refs_insert hx
    | false => exact hx
  have hnew : s.owner s.next = none := by
    by_contra h
    exact absurd (hg.unlinked.2 _ ((hg.owned _).mp h).1) (Nat.lt_irrefl _)
  refine ⟨hg.sane, fun d hd => ?_, ?_, ⟨hg.unlinked.1, fun id hid => ?_⟩, hg.ended, hg.freed,
    hg.owned, fun id hid => ?_⟩
  · rcases List.mem_append.mp hd with hd | hd
    · have hl := hg.linked d hd
      exact ⟨Nat.lt_succ_of_lt hl.lt, hl.unowned, hl.kept, fun h => hrefs _ _ (hl.ref h)⟩
    · rw [List.mem_singleton.mp hd]
      refine ⟨Nat.lt_succ_self _, hnew, fun h => absurd (hg.unlinked.2 _ h) (Nat.lt_irrefl _), ?_⟩
      rintro rfl
      simp [Shared.add]
  · simp only [Shared.add, List.map_append, List.map_cons, List.map_nil]
    refine List.nodup_append_comm.mp (List.nodup_cons.mpr ⟨fun h => ?_, hg.distinct⟩)
    obtain ⟨d, hd, he⟩ := List.mem_map.mp h
    exact absurd (hg.linked d hd).lt (by rw [he]; exact Nat.lt_irrefl _)
  · exact Nat.lt_succ_of_lt (hg.unlinked.2 id hid)
  · simp only [Shared.add, List.map_append, List.mem_append]
    rcases Nat.lt_succ_iff_lt_or_eq.mp hid with h | h
    · exact (hg.all id h).imp_left .inl
    · exact .inl (.inr (by simp [h]))

lemma change_add (pairDevice : Bool) (conn : ℕ) :
    Change p s (s.add pairDevice conn) := by
  refine ⟨fun _ _ _ => Iff.rfl, fun _ h => .inl h, fun _ h => h, fun k x hx => .inl ?_⟩
  cases pairDevice with
  | true => exact mem_refs_insert hx
  | false => exact hx

variable {dst : ℕ → ℕ} {pc pc' : Pc}

/-- **One step of a caller.** -/
theorem go_spec (hg : Good s) (hl : Local p s pc) (h : go true dst p s pc = some (s', pc')) :
    Good s' ∧ Local p s' pc' ∧ Change p s s' := by
  have hsame : ∀ q : Pc, held q = held pc → Place p s q → Local p s q :=
    fun q hq hp => ⟨fun id => by rw [hq]; exact hl.owns id, hp⟩
  have hrefl : Change p s s := .refl p rfl rfl rfl
  have hnone : held pc = none → ∀ id, s.owner id ≠ some p := by
    intro hh id ho
    rw [(hl.owns id).mp ho] at hh
    cases hh
  cases pc with
  | idle => cases h
  | remove conn status event =>
    simp only [go] at h
    split at h
    · cases h
      cases event
      all_goals exact ⟨hg, hsame _ rfl trivial, hrefl⟩
    · rename_i d hd
      cases h
      have hm := List.mem_of_find?_eq_some hd
      have hpair : d.pairDevice = true := by
        have := List.find?_some hd
        simp only [pairingOf, Bool.and_eq_true] at this
        exact this.1
      refine ⟨hg.listDel hm, ?_, change_listDel hg hm⟩
      cases event with
      | true => exact local_listDel hg hm hpair (hnone rfl) rfl id
      | false => exact local_listDel hg hm hpair (hnone rfl) rfl fun hf => ⟨hf, trivial⟩
  | event d status =>
    cases d with
    | none =>
      cases h
      exact ⟨hg, hsame _ rfl trivial, hrefl⟩
    | some d =>
      have ho : s.owner d.id = some p := (hl.owns _).mpr rfl
      simp only [go, touch_eq (hg.mine ho).2] at h
      cases h
      exact ⟨hg, hsame _ rfl ⟨hl.place, trivial⟩, hrefl⟩
  | cancel addr =>
    simp only [go, if_true, hg.walk] at h
    split at h
    · cases h
      exact ⟨hg, hsame _ rfl trivial, hrefl⟩
    · rename_i d hd
      cases h
      have hm := List.mem_of_find?_eq_some hd
      have hpair : d.pairDevice = true := by
        have := List.find?_some hd
        simp only [pairingTo, Bool.and_eq_true] at this
        exact this.1
      exact ⟨hg.listDel hm, local_listDel hg hm hpair (hnone rfl) rfl id, change_listDel hg hm⟩
  | getConn d =>
    have ho : s.owner d.id = some p := (hl.owns _).mpr rfl
    have hf : Fresh s d := hl.place
    simp only [go, touch_eq (hg.mine ho).2, connGet_eq hf.ref] at h
    cases h
    refine ⟨hg.refs _ fun id conn hm => mem_refs_insert hm,
      ⟨hl.owns, ⟨hf.unended, mem_refs_insert hf.ref⟩, ?_⟩, ?_⟩
    · simp [Back.Ref]
    · exact ⟨fun _ _ _ => Iff.rfl, fun _ h => .inl h, fun _ h => h,
        fun k x hx => .inl (mem_refs_insert hx)⟩
  | complete d status back =>
    have ho : s.owner d.id = some p := (hl.owns _).mpr rfl
    obtain ⟨hf, hb⟩ := hl.place
    cases h
    refine ⟨hg.cmdComplete ho hf status, ⟨fun id => ?_, ?_⟩, change_cmdComplete hg ho hf status⟩
    · rw [cmdComplete_eq hg ho hf]
      exact hl.owns id
    · rw [cmdComplete_eq hg ho hf]
      refine ⟨by simp [Shared.ended], ?_⟩
      cases back with
      | done => trivial
      | cancel conn => exact (mem_refs_erase hb).resolve_right fun e => by cases e
  | unlink d back => exact hl.place.elim
  | free d back =>
    have ho : s.owner d.id = some p := (hl.owns _).mpr rfl
    obtain ⟨he, hb⟩ := hl.place
    cases h
    refine ⟨hg.free ho he, ⟨fun id => ?_, ?_⟩, change_free hg ho⟩
    · rw [free_eq hg ho]
      have hback : held back.pc = none := by cases back <;> rfl
      rw [hback]
      by_cases hid : id = d.id
      · subst hid
        simp
      · dsimp only
        rw [Function.update_of_ne hid, hl.owns id]
        simp only [held, Option.some.injEq, reduceCtorEq, iff_false]
        exact fun e => hid e.symm
    · rw [free_eq hg ho]
      cases back with
      | done => trivial
      | cancel conn => exact hb
  | abort conn =>
    have hr : Holder.thread p ∈ s.refs conn := hl.place
    simp only [go, useConn_eq hr, if_true] at h
    cases h
    exact ⟨hg, hsame _ rfl hr, hrefl⟩
  | putConn conn =>
    have hr : Holder.thread p ∈ s.refs conn := hl.place
    simp only [go, connPut_eq hr] at h
    cases h
    refine ⟨hg.refs _ fun id k hm => ?_, ⟨hl.owns, trivial⟩, ?_⟩
    · exact (mem_refs_erase hm).resolve_right fun e => by cases e
    · exact ⟨fun _ _ _ => Iff.rfl, fun _ h => .inl h, fun _ h => h,
        fun k x hx => (mem_refs_erase hx).imp_right .inl⟩

lemma kept : Kept (next true dst) Good (Local : ι → Shared ι → Pc → Prop) := by
  refine .of_guarantee Change (fun p s pc i s' pc' hg hl h => ?_)
    fun p q s s' pc hq hl hc => hl.stable hq hc
  cases i with
  | go => exact go_spec hg hl h
  | add pairDevice conn =>
    simp only [next] at h
    split_ifs at h with hpc
    cases h
    subst hpc
    exact ⟨hg.add pairDevice conn, ⟨hl.owns, trivial⟩, change_add pairDevice conn⟩
  | smpComplete _ _ | pairingCompleteCb _ _ | lePairingCompleteCb _ _ | authFailed _ _
  | cancelPairDevice _ =>
    simp only [next, Input.start] at h
    split_ifs at h with hpc
    all_goals
      cases h
      subst hpc
      exact ⟨hg, ⟨hl.owns, trivial⟩, .refl p rfl rfl rfl⟩

end Owned

end Steps

/-! ### Every command ends once -/

variable [DecidableEq ι] {dst : ℕ → ℕ}

/-- **Every pairing ends once.** However the callers are interleaved, no step touches a freed
command or a dead connection, and no command is unlinked, completed or freed twice. A command
is on the list, and then nobody has it and it is not completed; or one thread has it and no
other; or it has been completed and freed. -/
theorem pairing_ends_once {s : St ι (Shared ι) Pc}
    (h : Reach (step (next true dst)) Any init s) :
    s.shared.fault = false ∧ s.shared.unlinked.Nodup ∧ s.shared.ended.Nodup ∧
      s.shared.freed.Nodup ∧
      ∀ id < s.shared.next,
        (id ∈ s.shared.pending.map Cmd.id ∧ id ∉ s.shared.ended ∧
          ∀ p, held (s.pc p) ≠ some id) ∨
        (id ∉ s.shared.pending.map Cmd.id ∧ id ∉ s.shared.freed ∧
          ∃! p, held (s.pc p) = some id) ∨
        (id ∉ s.shared.pending.map Cmd.id ∧ id ∈ s.shared.ended ∧ id ∈ s.shared.freed ∧
          ∀ p, held (s.pc p) ≠ some id) := by
  have h0 : Good (init : St ι (Shared ι) Pc).shared := by
    constructor <;> simp [init, Shared.ended]
  have h1 : ∀ p, Local p (init : St ι (Shared ι) Pc).shared ((init : St ι (Shared ι) Pc).pc p) :=
    fun p => ⟨fun id => by simp [init, held], trivial⟩
  obtain ⟨hg, hl⟩ := kept.invariant h0 h1 h
  have hheld : ∀ p id, held (s.pc p) = some id ↔ s.shared.owner id = some p :=
    fun p id => ((hl p).owns id).symm
  refine ⟨hg.sane, hg.unlinked.1, hg.ended.1, hg.freed.1, fun id hid => ?_⟩
  simp only [hheld, ne_eq]
  have hoff : id ∈ s.shared.unlinked → id ∉ s.shared.pending.map Cmd.id := by
    intro hu hm
    obtain ⟨c, hc, rfl⟩ := List.mem_map.mp hm
    exact (hg.linked c hc).kept hu
  rcases hg.all id hid with hm | hu
  · obtain ⟨c, hc, rfl⟩ := List.mem_map.mp hm
    have hc := hg.linked c hc
    refine .inl ⟨hm, fun he => hc.kept (hg.ended.2 _ he), fun p => ?_⟩
    rw [hc.unowned]
    simp
  · by_cases hf : id ∈ s.shared.freed
    · refine .inr (.inr ⟨hoff hu, hg.freed.2 id hf, hf, fun p ho => ?_⟩)
      exact (hg.mine ho).2 hf
    · obtain ⟨p, ho⟩ := Option.ne_none_iff_exists'.mp ((hg.owned id).mpr ⟨hu, hf⟩)
      refine .inr (.inl ⟨hoff hu, hf, p, ho, fun q hq => ?_⟩)
      rw [ho] at hq
      exact (Option.some.inj hq).symm

/-- A failed authentication and a cancel of the same pairing, both past the lookup. -/
def overlap : List (Bool × Input) :=
  [(false, .add true 7), (false, .authFailed 7 5), (true, .cancelPairDevice 7), (false, .go),
    (true, .go), (false, .go)]

theorem pairing_ends_once_overlap : ∃ s : St Bool (Shared Bool) Pc,
    Reach (step (next true id)) Any init s ∧ s.shared.freed = [0] ∧ s.shared.fault = false := by
  obtain ⟨s, hs, hp⟩ := exists_reach_of_run (step (next true id)) Any init
    (overlap ++ [(false, .go), (false, .go)])
    (fun s : St Bool (Shared Bool) Pc => s.shared.freed = [0]) (by decide +kernel)
  exact ⟨s, hs, by simpa using hp, (pairing_ends_once hs).1⟩

/-- With `find_pairing` and a later `mgmt_pending_remove` both callers unlink the command. -/
theorem find_pairing_unlinks_twice : ∃ s : St Bool (Shared Bool) Pc,
    Reach (step (next false id)) Any init s ∧ s.shared.unlinked = [0, 0] ∧
      s.shared.fault = true := by
  obtain ⟨s, hs, hp⟩ := exists_reach_of_run (step (next false id)) Any init
    (overlap ++ [(true, .go), (false, .go), (true, .go), (false, .go)])
    (fun s : St Bool (Shared Bool) Pc => s.shared.unlinked = [0, 0] ∧ s.shared.fault = true)
    (by decide +kernel)
  exact ⟨s, hs, by simpa using hp⟩

end Wallace.BtPairing
