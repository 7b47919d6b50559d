import Mathlib.Algebra.Order.Ring.Int
import Mathlib.Data.List.Basic
import Mathlib.Logic.Function.Basic
import Mathlib.Order.Basic
import Mathlib.Tactic.Common
import Wallace.Runs

/-!
The delayed flush of the NVMe driver: `apple_nvme_delayed_flush`, `apple_nvme_flush_work` and the
`flush_delayed_work` of `apple_nvme_shutdown`.

A flush that comes too soon after the last one is ended at once, and one flush is sent for all of
them when the time has passed. Writes to a namespace are counted. What a flush that was ended has
promised is the number of writes that had been completed when it came. A flush that is carried out
covers the writes that had been completed when it was submitted, not those that were completed
while it was on its way; what is durable is the most that one has covered. The block layer has one
flush of a namespace under way at a time; between the line that arms the timer and the one that
sets `flush_ns` others may run, the deferred work among them.
-/

namespace Wallace.NvmeFlush

open Runs

/-- The flush at hand. -/
inductive Req
  | idle
  /-- The timer is armed, `flush_ns` is not set yet. -/
  | armed (ns seen : ℕ)
  /-- It is sent to the controller. -/
  | sent (ns seen : ℕ)
  deriving DecidableEq

/-- `apple_nvme_flush_work`. -/
inductive Worker
  | idle
  /-- It has read `flush_ns`, and has not submitted its command. -/
  | begun (ns : ℕ)
  /-- It waits for its command. -/
  | sent (ns seen : ℕ)
  deriving DecidableEq

structure St where
  /-- `jiffies`. -/
  now : ℤ := 0
  lastFlush : ℤ
  flushNs : Option ℕ := none
  /-- `flush_dwork` is pending, until when. -/
  timer : Option ℤ := none
  worker : Worker := .idle
  req : Req := .idle
  written : ℕ → ℕ := fun _ => 0
  promised : ℕ → ℕ := fun _ => 0
  durable : ℕ → ℕ := fun _ => 0
  /-- `Deferred flush failed`. -/
  failed : Bool := false

inductive Act
  | tick
  | write (ns : ℕ)
  | flush (ns : ℕ)
  /-- What `apple_nvme_delayed_flush` does after it has armed the timer. -/
  | name
  | sentDone (ok : Bool)
  /-- The time has passed, and the work begins. -/
  | fire
  | submit
  | workDone (ok : Bool)
  /-- `flush_delayed_work` queues the pending work at once. -/
  | shutdown
  deriving DecidableEq

/-- The controller has carried out a flush that was submitted after `seen` writes. -/
def St.sync (s : St) (ns seen : ℕ) : St :=
  { s with durable := Function.update s.durable ns (max (s.durable ns) seen) }

/-- A flush is ended. -/
def St.promise (s : St) (ns seen : ℕ) : St :=
  { s with req := .idle, promised := Function.update s.promised ns (max (s.promised ns) seen) }

/-- `apple_nvme_flush_work` begins: the work is not pending any more. Without `flush_ns` it only
warns. -/
def St.begin (s : St) : St :=
  { s with
    timer := none
    worker :=
      match s.flushNs with
      | none => .idle
      | some ns => .begun ns }

/-- `apple_nvme_delayed_flush`, and `apple_nvme_queue_rq` behind it. -/
def delayedFlush (interval : ℕ) (s : St) (ns : ℕ) : St :=
  if interval = 0 then { s with req := .sent ns (s.written ns) }
  else if s.timer.isSome then s.promise ns (s.written ns)
  else if s.now < s.lastFlush + interval then
    { s with timer := some (s.now + interval), req := .armed ns (s.written ns) }
  else { s with lastFlush := s.now, req := .sent ns (s.written ns) }

def step (interval : ℕ) (s : St) : Act → Option St
  | .tick => some { s with now := s.now + 1 }
  | .write ns => some { s with written := Function.update s.written ns (s.written ns + 1) }
  | .flush ns => if s.req = .idle then some (delayedFlush interval s ns) else none
  | .name =>
    match s.req with
    | .armed ns seen =>
      if s.flushNs.any (· ≠ ns) then
        -- the warning: this one is sent, and what was armed stays
        some { s with lastFlush := s.now, req := .sent ns seen }
      else some ({ s with flushNs := some ns }.promise ns seen)
    | _ => none
  | .sentDone ok =>
    match s.req with
    | .sent ns seen =>
      some (if ok then (s.sync ns seen).promise ns seen else { s with req := .idle })
    | _ => none
  | .fire =>
    match s.timer with
    | none => none
    | some due => if due ≤ s.now ∧ s.worker = .idle then some s.begin else none
  | .submit =>
    match s.worker, s.flushNs with
    -- the command takes its namespace from `flush_ns` once more
    | .begun _, some ns => some { s with worker := .sent ns (s.written ns) }
    | _, _ => none
  | .workDone ok =>
    match s.worker with
    | .idle => none
    | .begun _ => if ok then none else some { s with worker := .idle, failed := true }
    | .sent ns seen =>
      some
        (if ok then { s.sync ns seen with worker := .idle, lastFlush := s.now }
        else { s with worker := .idle, failed := true })
  | .shutdown => some { s with timer := s.timer.map fun _ => s.now }

/-- `apple_nvme_probe`. -/
def init (interval : ℕ) : St := { lastFlush := 0 - interval }

/-! ### One namespace -/

/-- All flushes are of one namespace, and the work does not begin before `flush_ns` is set. -/
def Orderly (ns : ℕ) (s : St) : Act → Prop
  | .flush ns' => ns' = ns
  | .fire => s.flushNs.isSome = true
  | _ => True

instance (ns : ℕ) (s : St) : (a : Act) → Decidable (Orderly ns s a)
  | .flush ns' => inferInstanceAs (Decidable (ns' = ns))
  | .fire => inferInstanceAs (Decidable (s.flushNs.isSome = true))
  | .tick | .write _ | .name | .sentDone _ | .submit | .workDone _ | .shutdown => isTrue trivial

/-- The command of the work will cover `n` writes. -/
def St.Covers (s : St) (ns n : ℕ) : Prop :=
  match s.worker with
  | .idle => False
  | .begun m => m = ns
  | .sent m seen => m = ns ∧ n ≤ seen

/-- What becomes of `n` writes that were promised. -/
def St.Kept (s : St) (ns n : ℕ) : Prop :=
  n ≤ s.durable ns ∨ s.failed = true ∨ s.timer.isSome = true ∨ s.Covers ns n

structure Inv (interval ns : ℕ) (s : St) : Prop where
  kept : s.Kept ns (s.promised ns)
  promised : s.promised ns ≤ s.written ns
  flushNs : s.flushNs = none ∨ s.flushNs = some ns
  armed : ∀ ns' seen, s.req = .armed ns' seen →
    ns' = ns ∧ s.promised ns ≤ seen ∧ seen ≤ s.written ns ∧ s.Kept ns seen
  sent : ∀ ns' seen, s.req = .sent ns' seen →
    ns' = ns ∧ s.promised ns ≤ seen ∧ seen ≤ s.written ns
  due : ∀ due, s.timer = some due → due ≤ s.now + interval

section

variable {interval ns : ℕ} {s s' : St}

/-- What is on its way is not given up by what goes on besides. -/
lemma St.Kept.congr {n : ℕ} (h : s.Kept ns n) (hd : s.durable ns ≤ s'.durable ns)
    (hf : s.failed = true → s'.failed = true) (ht : s.timer.isSome = true → s'.timer.isSome = true)
    (hw : s.Covers ns n → s'.Covers ns n) : s'.Kept ns n :=
  h.imp (fun h => h.trans hd) (Or.imp hf (Or.imp ht hw))

lemma inv_tick (hi : Inv interval ns s) : Inv interval ns { s with now := s.now + 1 } :=
  { hi with
    due := fun due h => by
      have := hi.due due h
      change due ≤ s.now + 1 + interval
      omega }

lemma inv_write (hi : Inv interval ns s) (ns' : ℕ) :
    Inv interval ns
      { s with written := Function.update s.written ns' (s.written ns' + 1) } := by
  have hle : s.written ns ≤ Function.update s.written ns' (s.written ns' + 1) ns := by
    rcases eq_or_ne ns ns' with rfl | hne
    · simp
    · rw [Function.update_of_ne hne]
  exact
    { hi with
      promised := hi.promised.trans hle
      armed := fun m seen h => by
        obtain ⟨h1, h2, h3, h4⟩ := hi.armed m seen h
        exact ⟨h1, h2, h3.trans hle, h4⟩
      sent := fun m seen h => by
        obtain ⟨h1, h2, h3⟩ := hi.sent m seen h
        exact ⟨h1, h2, h3.trans hle⟩ }

/-- A flush is ended when what it promises is kept. -/
lemma inv_promise (hi : Inv interval ns s) {seen : ℕ} (hp : s.promised ns ≤ seen)
    (hs : seen ≤ s.written ns) (hk : s.Kept ns seen) : Inv interval ns (s.promise ns seen) where
  kept := by
    have hmax : (s.promise ns seen).promised ns = seen := by
      simp only [St.promise, Function.update_self]
      omega
    rw [hmax]
    exact hk
  promised := by
    simp only [St.promise, Function.update_self]
    omega
  flushNs := hi.flushNs
  armed m seen h := by cases h
  sent m seen h := by cases h
  due := hi.due

lemma inv_flush (hi : Inv interval ns s) : Inv interval ns (delayedFlush interval s ns) := by
  have hp := hi.promised
  unfold delayedFlush
  split_ifs with h0 ht hnow
  · exact
      { hi with
        armed := fun m seen h => by cases h
        sent := fun m seen h => by
          cases h
          exact ⟨rfl, hp, le_rfl⟩ }
  · exact inv_promise hi hp le_rfl (.inr (.inr (.inl ht)))
  · exact
      { hi with
        kept := .inr (.inr (.inl rfl))
        armed := fun m seen h => by
          cases h
          exact ⟨rfl, hp, le_rfl, .inr (.inr (.inl rfl))⟩
        sent := fun m seen h => by cases h
        due := fun due h => by
          cases h
          exact le_rfl }
  · exact
      { hi with
        armed := fun m seen h => by cases h
        sent := fun m seen h => by
          cases h
          exact ⟨rfl, hp, le_rfl⟩ }

lemma inv_name (hi : Inv interval ns s) {seen : ℕ} (hr : s.req = .armed ns seen) :
    Inv interval ns ({ s with flushNs := some ns }.promise ns seen) := by
  obtain ⟨-, hp, hs, hk⟩ := hi.armed ns seen hr
  have hi' : Inv interval ns { s with flushNs := some ns } := { hi with flushNs := .inr rfl }
  exact inv_promise hi' hp hs hk

lemma le_sync (s : St) (ns seen : ℕ) : s.durable ns ≤ (s.sync ns seen).durable ns := by
  simp [St.sync]

lemma seen_le_sync (s : St) (ns seen : ℕ) : seen ≤ (s.sync ns seen).durable ns := by
  simp [St.sync]

lemma inv_sync (hi : Inv interval ns s) (seen : ℕ) : Inv interval ns (s.sync ns seen) :=
  { hi with
    kept := hi.kept.congr (le_sync s ns seen) id id id
    armed := fun m n h => by
      obtain ⟨h1, h2, h3, h4⟩ := hi.armed m n h
      exact ⟨h1, h2, h3, h4.congr (le_sync s ns seen) id id id⟩ }

/-- Another worker, or none, as long as it does for what is promised. -/
lemma inv_worker (hi : Inv interval ns s) (hr : s'.req = s.req) (hw : s'.written = s.written)
    (hp : s'.promised = s.promised) (hf : s'.flushNs = s.flushNs)
    (hd : ∀ due, s'.timer = some due → due ≤ s'.now + interval)
    (hk : ∀ n, n ≤ s.written ns → s.Kept ns n → s'.Kept ns n) : Inv interval ns s' where
  kept := hp ▸ hk _ hi.promised hi.kept
  promised := by
    rw [hp, hw]
    exact hi.promised
  flushNs := hf ▸ hi.flushNs
  armed m seen h := by
    obtain ⟨h1, h2, h3, h4⟩ := hi.armed m seen (hr ▸ h)
    rw [hp, hw]
    exact ⟨h1, h2, h3, hk seen h3 h4⟩
  sent m seen h := by
    rw [hp, hw]
    exact hi.sent m seen (hr ▸ h)
  due := hd

/-- The work begins with the namespace that is to be flushed. -/
lemma inv_begin (hi : Inv interval ns s) (hn : s.flushNs.isSome = true) :
    Inv interval ns s.begin := by
  have hn : s.flushNs = some ns := hi.flushNs.resolve_left fun h => by
    rw [h] at hn
    cases hn
  refine inv_worker hi rfl rfl rfl rfl (fun due h => by cases h) fun n _ _ => ?_
  refine .inr (.inr (.inr ?_))
  simp only [St.begin, St.Covers, hn]

/-- The command covers all that was written when it is submitted. -/
lemma inv_submit (hi : Inv interval ns s) {m : ℕ} (hn : s.flushNs = some m) :
    Inv interval ns { s with worker := .sent m (s.written m) } := by
  obtain rfl : m = ns := by
    rcases hi.flushNs with h | h <;> rw [h] at hn <;> cases hn
    rfl
  refine inv_worker hi rfl rfl rfl rfl hi.due fun n hle hk => ?_
  exact hk.congr le_rfl id id fun _ => ⟨rfl, hle⟩

lemma inv_workDone_ok (hi : Inv interval ns s) {m seen : ℕ} (hw : s.worker = .sent m seen) :
    Inv interval ns { s.sync m seen with worker := .idle, lastFlush := s.now } := by
  refine inv_worker hi rfl rfl rfl rfl hi.due fun n _ hk => ?_
  rcases hk with hk | hk | hk | hk
  · refine .inl (hk.trans ?_)
    rcases eq_or_ne ns m with rfl | hne
    · exact le_sync s ns seen
    · simp [St.sync, Function.update_of_ne hne]
  · exact .inr (.inl hk)
  · exact .inr (.inr (.inl hk))
  · simp only [St.Covers, hw] at hk
    obtain ⟨rfl, hle⟩ := hk
    exact .inl (hle.trans (seen_le_sync s m seen))

lemma inv_failed (hi : Inv interval ns s) :
    Inv interval ns { s with worker := .idle, failed := true } :=
  inv_worker hi rfl rfl rfl rfl hi.due fun _ _ _ => .inr (.inl rfl)

lemma inv_shutdown (hi : Inv interval ns s) :
    Inv interval ns { s with timer := s.timer.map fun _ => s.now } := by
  refine inv_worker hi rfl rfl rfl rfl (fun due h => ?_) fun n _ hk => ?_
  · obtain ⟨_, -, rfl⟩ := Option.map_eq_some_iff.mp h
    change s.now ≤ s.now + interval
    omega
  · exact hk.congr le_rfl id (fun h => by rwa [Option.isSome_map]) id

theorem inv_step (s : St) (a : Act) (s' : St) (hi : Inv interval ns s)
    (hc : Orderly ns s a) (h : step interval s a = some s') : Inv interval ns s' := by
  cases a with
  | tick =>
    cases h
    exact inv_tick hi
  | write m =>
    cases h
    exact inv_write hi m
  | flush m =>
    simp only [step] at h
    obtain rfl : m = ns := hc
    split at h <;> cases h
    exact inv_flush hi
  | name =>
    simp only [step] at h
    split at h
    · rename_i m seen hr
      obtain ⟨rfl, -⟩ := hi.armed m seen hr
      split at h
      · rename_i hne
        rcases hi.flushNs with hf | hf <;> simp [hf] at hne
      · cases h
        exact inv_name hi hr
    · cases h
  | sentDone ok =>
    simp only [step] at h
    split at h
    · rename_i m seen hr
      obtain ⟨rfl, hp, hs⟩ := hi.sent m seen hr
      cases h
      cases ok with
      | true => exact inv_promise (inv_sync hi seen) hp hs (.inl (seen_le_sync s m seen))
      | false =>
        exact
          { hi with
            armed := fun _ _ h => by cases h
            sent := fun _ _ h => by cases h }
    · cases h
  | fire =>
    simp only [step] at h
    split at h
    · cases h
    · split at h <;> cases h
      exact inv_begin hi hc
  | submit =>
    simp only [step] at h
    split at h
    · rename_i hn
      cases h
      exact inv_submit hi hn
    · cases h
  | workDone ok =>
    simp only [step] at h
    split at h
    · cases h
    · split at h <;> cases h
      exact inv_failed hi
    · rename_i m seen hw
      cases h
      cases ok with
      | true => exact inv_workDone_ok hi hw
      | false => exact inv_failed hi
  | shutdown =>
    cases h
    exact inv_shutdown hi

lemma inv_init (interval ns : ℕ) : Inv interval ns (init interval) where
  kept := .inl le_rfl
  promised := le_rfl
  flushNs := .inl rfl
  armed _ _ h := by cases h
  sent _ _ h := by cases h
  due _ h := by cases h

end

/-- Of a second namespace a flush that finds the work pending is ended, and never sent. -/
theorem second_namespace_forgotten :
    ∃ s, Reach (step 100) Any (init 100) s ∧
      s.timer = none ∧ s.worker = .idle ∧ s.failed = false ∧ s.durable 2 < s.promised 2 := by
  obtain ⟨s, hs, hp⟩ := exists_reach_of_run (step 100) Any (init 100)
    [.flush 1, .sentDone true, .flush 1, .name, .write 2, .flush 2, .shutdown, .fire, .submit,
      .workDone true]
    (fun s => s.timer = none ∧ s.worker = .idle ∧ s.failed = false ∧ s.durable 2 < s.promised 2)
    (by decide +kernel)
  rw [decide_eq_true_eq] at hp
  exact ⟨s, hs, hp⟩

end Wallace.NvmeFlush
