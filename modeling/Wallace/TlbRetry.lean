import Mathlib.Algebra.Order.Ring.Int
import Mathlib.Data.List.Induction
import Mathlib.Tactic.Common
import Wallace.History

/-!
The staged retry of write permission faults, `t6040_205_stale_tlb_retry`.

All CPUs share one record: the CPU, PC and address of the last fault that was let through to
it, its stage, and how many retries have been granted. The record is only touched under the
lock, so a run is a list of faults in the order in which they take it, each with what its own
walk of the page tables read.
-/

namespace Wallace.TlbRetry

abbrev Word := BitVec 64

/-- What the function takes from the kernel: the tests on a syndrome, an address and the
entries of each level. -/
structure Kernel where
  ecIsDabtCur : Word → Bool
  wnr : Word → Bool
  fscIsPermissionFault : Word → Bool
  virtAddrValid : Word → Bool
  pgdNone : Word → Bool
  pgdBad : Word → Bool
  p4dNone : Word → Bool
  p4dBad : Word → Bool
  pudNone : Word → Bool
  pudLeaf : Word → Bool
  pudBad : Word → Bool
  pmdNone : Word → Bool
  pmdLeaf : Word → Bool
  pmdBad : Word → Bool
  pteValid : Word → Bool
  pteRdonly : Word

/-- A fault, with the entries that the walk reads; the first two levels are read twice. -/
structure Fault where
  cpu : ℕ
  pc : Word
  addr : Word
  esr : Word
  pgd : Word × Word
  p4d : Word × Word
  pud : Word
  pmd : Word
  pte : Word

/-- `t6040_205_state`. -/
structure Record where
  cpu : ℤ := -1
  stage : ℕ := 0
  budgetUsed : ℕ := 0
  pc : Word := 0
  va : Word := 0

def budget : ℕ := 32

inductive Flush
  | local
  | all
  deriving DecidableEq

/-- The lines that the function logs. -/
inductive Message
  | budgetExhausted
  | plainRetry
  | localTlbi
  | broadcastTlbi
  | again
  deriving DecidableEq

/-- What the function did with a fault. Without a stage it has returned before the lock. -/
structure Event where
  fault : Fault
  stage : Option ℕ
  flush : Option Flush
  message : Option Message
  result : Bool

section Model

variable (k : Kernel) (r : Record) (f : Fault)

/-- The tests before the lock; the last one is for the leaf. -/
def forbidden : Bool :=
  if !k.ecIsDabtCur f.esr || !k.wnr f.esr || !k.fscIsPermissionFault f.esr ||
      !k.virtAddrValid f.addr then true
  else if k.pgdNone f.pgd.1 || k.pgdBad f.pgd.2 then true
  else if k.p4dNone f.p4d.1 || k.p4dBad f.p4d.2 then true
  else if k.pudNone f.pud || k.pudLeaf f.pud || k.pudBad f.pud then true
  else if k.pmdNone f.pmd || k.pmdLeaf f.pmd || k.pmdBad f.pmd then true
  else !k.pteValid f.pte || f.pte &&& k.pteRdonly != 0

/-- The stage that follows from the record. -/
def nextStage : ℕ :=
  if r.cpu = f.cpu ∧ r.pc = f.pc ∧ r.va = f.addr then r.stage + 1 else 1

/-- The locked section: `stage` and `retry`, and the record that it leaves. -/
def locked : (ℕ × Bool) × Record :=
  let stage := nextStage r f
  let exhausted := stage ≤ 3 ∧ r.budgetUsed ≥ budget
  let used := if stage ≤ 3 ∧ ¬ exhausted then r.budgetUsed + 1 else r.budgetUsed
  let retry : Bool := ¬ exhausted
  let stage := if exhausted then 0 else stage
  ((stage, retry), {
    cpu := if stage > 3 ∨ !retry then -1 else f.cpu
    pc := f.pc
    va := f.addr
    stage := stage
    budgetUsed := used })

def flushOf (stage : ℕ) : Option Flush :=
  if stage = 2 then some .local else if stage = 3 then some .all else none

def messageOf (stage : ℕ) : Message :=
  if stage = 0 then .budgetExhausted
  else if stage = 1 then .plainRetry
  else if stage = 2 then .localTlbi
  else if stage = 3 then .broadcastTlbi
  else .again

/-- `t6040_205_stale_tlb_retry`. -/
def staleTlbRetry : Event × Record :=
  if forbidden k f then (⟨f, none, none, none, false⟩, r)
  else
    let stage := (locked r f).1.1
    (⟨f, some stage, flushOf stage, some (messageOf stage),
      if stage = 0 then false else stage ≤ 3⟩, (locked r f).2)

end Model

/-- The record, and everything that was done so far. -/
structure Sys where
  record : Record := {}
  log : List Event := []

def step (k : Kernel) (s : Sys) (f : Fault) : Sys :=
  let (event, record) := staleTlbRetry k s.record f
  ⟨record, s.log ++ [event]⟩

/-- Any faults, in the order in which they take the lock. -/
def run (k : Kernel) (faults : List Fault) : Sys := faults.foldl (step k) {}

/-! ### What is promised -/

/-- CPU, PC and VA. -/
def Fault.key (f : Fault) : ℕ × Word × Word := (f.cpu, f.pc, f.addr)

/-- The recorded faults of a log, with their stages. -/
def recorded (log : List Event) : List ((ℕ × Word × Word) × ℕ) :=
  log.filterMap fun e => e.stage.map fun n => (e.fault.key, n)

def retries (log : List Event) : ℕ := (log.filter fun e => e.result).length

/-- What may be done with a fault, after everything before it. -/
structure Staged (k : Kernel) (before : List Event) (e : Event) : Prop where
  follows : ∀ n, n = 1 ∨ n = 2 → e.stage = some (n + 1) →
    (recorded before).getLast? = some (e.fault.key, n)
  again : e.message = some .again → e.result = false ∧
    ∃ older, recorded before =
      older ++ [(e.fault.key, 1), (e.fault.key, 2), (e.fault.key, 3)]
  spent : retries before = budget → e.result = false
  writable : e.result = true → k.pteValid e.fault.pte = true ∧ e.fault.pte &&& k.pteRdonly = 0

/-! ### One fault -/

section Fault

variable {k : Kernel} {r : Record} {f : Fault}

lemma writable_of_not_forbidden (h : forbidden k f = false) :
    k.pteValid f.pte = true ∧ f.pte &&& k.pteRdonly = 0 := by
  unfold forbidden at h
  split_ifs at h
  simpa using h

/-- **Everything that a fault does**: it is turned away, the budget is spent, it is retried in
the next stage, or there is no stage left. -/
lemma staleTlbRetry_cases (k : Kernel) (r : Record) (f : Fault) :
    (staleTlbRetry k r f = (⟨f, none, none, none, false⟩, r)) ∨
    (forbidden k f = false ∧ nextStage r f ≤ 3 ∧ budget ≤ r.budgetUsed ∧
      staleTlbRetry k r f = (⟨f, some 0, none, some .budgetExhausted, false⟩,
        ⟨-1, 0, r.budgetUsed, f.pc, f.addr⟩)) ∨
    (forbidden k f = false ∧ nextStage r f ≤ 3 ∧ nextStage r f ≠ 0 ∧ r.budgetUsed < budget ∧
      staleTlbRetry k r f = (⟨f, some (nextStage r f), flushOf (nextStage r f),
          some (messageOf (nextStage r f)), true⟩,
        ⟨f.cpu, nextStage r f, r.budgetUsed + 1, f.pc, f.addr⟩)) ∨
    (forbidden k f = false ∧ 3 < nextStage r f ∧
      staleTlbRetry k r f = (⟨f, some (nextStage r f), none, some .again, false⟩,
        ⟨-1, nextStage r f, r.budgetUsed, f.pc, f.addr⟩)) := by
  have hpos : nextStage r f ≠ 0 := by
    unfold nextStage
    split_ifs <;> omega
  unfold staleTlbRetry
  cases hf : forbidden k f with
  | true => exact .inl (by simp)
  | false =>
    refine .inr ?_
    rcases Nat.lt_or_ge 3 (nextStage r f) with h3 | h3
    · refine .inr (.inr ⟨rfl, h3, ?_⟩)
      have h3' : ¬ nextStage r f ≤ 3 := by omega
      have hne : nextStage r f ≠ 1 ∧ nextStage r f ≠ 2 ∧ nextStage r f ≠ 3 := by omega
      simp [locked, h3, h3', hpos, flushOf, messageOf, hne]
    · rcases Nat.lt_or_ge r.budgetUsed budget with hb | hb
      · refine .inr (.inl ⟨rfl, h3, hpos, hb, ?_⟩)
        have h3' : ¬ 3 < nextStage r f := by omega
        have hb' : ¬ budget ≤ r.budgetUsed := by omega
        simp [locked, h3, h3', hpos, hb']
      · refine .inl ⟨rfl, h3, hb, ?_⟩
        simp [locked, h3, hb, flushOf, messageOf]

/-- A stage other than the first is of the fault in the record. -/
lemma nextStage_cases (r : Record) (f : Fault) :
    nextStage r f = 1 ∨
      (r.cpu = f.cpu ∧ r.pc = f.pc ∧ r.va = f.addr ∧ nextStage r f = r.stage + 1) := by
  unfold nextStage
  split_ifs with h
  · exact .inr ⟨h.1, h.2.1, h.2.2, rfl⟩
  · exact .inl rfl

lemma again_iff {n : ℕ} : messageOf n = .again ↔ 3 < n := by
  unfold messageOf
  split_ifs <;> simp <;> omega

end Fault

/-! ### Every run -/

/-- The first stages of a fault, one directly after the other. -/
def stages (key : ℕ × Word × Word) (n : ℕ) : List ((ℕ × Word × Word) × ℕ) :=
  (List.range n).map fun i => (key, i + 1)

lemma stages_succ (key : ℕ × Word × Word) (n : ℕ) :
    stages key (n + 1) = stages key n ++ [(key, n + 1)] := by
  rw [stages, List.range_succ, List.map_append]
  rfl

lemma recorded_concat (log : List Event) (e : Event) :
    recorded (log ++ [e]) = recorded log ++ (e.stage.map fun n => (e.fault.key, n)).toList := by
  rw [recorded, List.filterMap_append]
  cases he : e.stage <;> simp [recorded, he]

lemma retries_concat (log : List Event) (e : Event) :
    retries (log ++ [e]) = retries log + if e.result then 1 else 0 := by
  rw [retries, List.filter_append, List.length_append]
  cases he : e.result <;> simp [retries, he]

/-- What ties the record to the log: it counts the retries, and the fault that it names went
through its stages so far without another one between. -/
structure Tied (k : Kernel) (s : Sys) : Prop where
  used : s.record.budgetUsed = retries s.log
  bounded : retries s.log ≤ budget
  named : ∀ cpu : ℕ, s.record.cpu = cpu → s.record.stage ≤ 3 ∧
    ∃ older, recorded s.log = older ++ stages (cpu, s.record.pc, s.record.va) s.record.stage
  staged : ∀ before e after, s.log = before ++ e :: after → Staged k before e

lemma Tied.init (k : Kernel) : Tied k {} where
  used := rfl
  bounded := by decide
  named := fun cpu h => absurd h (by simp only; omega)
  staged := fun before e after h => absurd h (by simp)

/-- A stage leaves the stages before it as the last that was recorded. -/
lemma Tied.stages_before {k : Kernel} {s : Sys} (h : Tied k s) (f : Fault) :
    nextStage s.record f ≤ 4 ∧ ∃ older, recorded s.log =
      older ++ stages f.key (nextStage s.record f - 1) := by
  rcases nextStage_cases s.record f with hn | ⟨hc, hp, hv, hn⟩
  · rw [hn]
    exact ⟨by omega, recorded s.log, (List.append_nil _).symm⟩
  · obtain ⟨h3, older, hold⟩ := h.named f.cpu hc
    rw [hp, hv] at hold
    exact ⟨by omega, older, by rw [hn, hold]; rfl⟩

lemma Tied.concat {k : Kernel} {s : Sys} (h : Tied k s) {e : Event} (he : Staged k s.log e)
    (before : List Event) (e' : Event) (after : List Event)
    (hsplit : s.log ++ [e] = before ++ e' :: after) : Staged k before e' := by
  rcases History.split_append hsplit with ⟨after', hl⟩ | ⟨mid, rfl, hl⟩
  · exact h.staged before e' after' hl
  · cases mid with
    | nil =>
      cases hl
      rw [List.append_nil]
      exact he
    | cons x mid => exact absurd hl (by simp)

lemma getLast?_stages {key : ℕ × Word × Word} {older : List ((ℕ × Word × Word) × ℕ)} {n : ℕ}
    (hn : n ≠ 0) : (older ++ stages key n).getLast? = some (key, n) := by
  obtain ⟨m, rfl⟩ := Nat.exists_eq_succ_of_ne_zero hn
  rw [stages_succ, ← List.append_assoc, List.getLast?_concat]

/-- The event of a fault is staged: one lemma for the four ways it can go. -/
lemma Tied.staged_event {k : Kernel} {s : Sys} (h : Tied k s) (f : Fault) :
    Staged k s.log (staleTlbRetry k s.record f).1 := by
  obtain ⟨h4, older, hold⟩ := h.stages_before f
  have hused := h.used
  rcases staleTlbRetry_cases k s.record f with he | ⟨hf, h3, hb, he⟩ | ⟨hf, h3, h0, hb, he⟩ |
    ⟨hf, h3, he⟩
  all_goals rw [he]
  · refine ⟨fun n _ hs => ?_, fun hm => ?_, fun _ => rfl, fun hr => ?_⟩
    · cases hs
    · cases hm
    · cases hr
  · refine ⟨fun n _ hs => ?_, fun hm => ?_, fun _ => rfl, fun hr => ?_⟩
    · cases hs
    · cases hm
    · cases hr
  · refine ⟨fun n hn hs => ?_, fun hm => ?_, fun hr => ?_, fun _ => writable_of_not_forbidden hf⟩
    · rw [hold, Option.some.inj hs]
      exact getLast?_stages (by omega)
    · have := again_iff.mp (Option.some.inj hm)
      omega
    · omega
  · obtain h4 : nextStage s.record f = 4 := by omega
    refine ⟨fun n hn hs => ?_, fun _ => ⟨rfl, older, ?_⟩, fun _ => rfl, fun hr => ?_⟩
    · have := Option.some.inj hs
      omega
    · rw [hold, h4]
      rfl
    · cases hr

lemma Tied.step {k : Kernel} {s : Sys} (h : Tied k s) (f : Fault) :
    Tied k (TlbRetry.step k s f) := by
  have hstaged := h.concat (h.staged_event f)
  obtain ⟨-, older, hold⟩ := h.stages_before f
  have hused := h.used
  have hbounded := h.bounded
  unfold TlbRetry.step
  rcases staleTlbRetry_cases k s.record f with he | ⟨hf, h3, hb, he⟩ | ⟨hf, h3, h0, hb, he⟩ |
    ⟨hf, h3, he⟩
  all_goals rw [he] at hstaged ⊢
  · refine ⟨?_, ?_, fun cpu hcpu => ?_, hstaged⟩
    · rw [retries_concat]
      exact hused
    · rw [retries_concat]
      exact hbounded
    · rw [recorded_concat]
      simpa using h.named cpu hcpu
  · refine ⟨?_, ?_, fun cpu hcpu => absurd hcpu ?_, hstaged⟩
    · rw [retries_concat]
      exact hused
    · rw [retries_concat]
      exact hbounded
    · simp only
      omega
  · refine ⟨?_, ?_, fun cpu hcpu => ⟨h3, older, ?_⟩, hstaged⟩
    · rw [retries_concat]
      simp only [if_true]
      omega
    · rw [retries_concat]
      simp only [if_true]
      omega
    · obtain rfl : f.cpu = cpu := by simpa using hcpu
      obtain ⟨m, hm⟩ := Nat.exists_eq_succ_of_ne_zero h0
      rw [recorded_concat, hold]
      simp only [hm, Nat.succ_eq_add_one, Nat.add_sub_cancel, Option.map_some, Option.toList_some]
      rw [List.append_assoc, stages_succ]
      rfl
  · refine ⟨?_, ?_, fun cpu hcpu => absurd hcpu ?_, hstaged⟩
    · rw [retries_concat]
      exact hused
    · rw [retries_concat]
      exact hbounded
    · simp only
      omega

lemma tied_run (k : Kernel) (faults : List Fault) : Tied k (run k faults) := by
  induction faults using List.reverseRecOn with
  | nil => exact .init k
  | append_singleton faults f ih =>
    rw [run, List.foldl_append]
    exact ih.step f

/-- Each fault is answered, in turn. -/
lemma faults_run (k : Kernel) (faults : List Fault) :
    (run k faults).log.map Event.fault = faults := by
  induction faults using List.reverseRecOn with
  | nil => rfl
  | append_singleton faults f ih =>
    have hf : (staleTlbRetry k (run k faults).record f).1.fault = f := by
      unfold staleTlbRetry
      split_ifs <;> rfl
    rw [run, List.foldl_append]
    show ((run k faults).log ++ [(staleTlbRetry k (run k faults).record f).1]).map _ = _
    rw [List.map_append, ih, List.map_singleton, hf]

/-- **The retry is bounded and staged**, for any faults of any CPUs, whatever their page tables
hold: there is one answer for each, at most 32 of them are retries, and each is staged after
the answers before it. -/
theorem retries_staged (k : Kernel) (faults : List Fault) :
    (run k faults).log.map Event.fault = faults ∧ retries (run k faults).log ≤ 32 ∧
      ∀ before e after, (run k faults).log = before ++ e :: after → Staged k before e :=
  ⟨faults_run k faults, (tied_run k faults).bounded, (tied_run k faults).staged⟩

end Wallace.TlbRetry
