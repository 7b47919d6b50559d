import Mathlib.Algebra.Order.Ring.Int
import Mathlib.Logic.Function.Basic
import Mathlib.Tactic.Common
import Wallace.Runs

/-!
The rig lease: `rig-lease.sh` and `rig-guard.sh` as processes over shared files.

The lease is the single file `lease.env`, a complete record or absent, and the recovery
flag is the presence of `NEEDS_RECOVERY`. Every command is the sequence of its individual
file steps; between any two steps of one process the others may move and the clock may
advance. A program counter holds the variables its command has read so far.

`getk` tests the file and then opens it; a file that disappears in between reads as
absent, which is what one read at the later moment gives, so a `getk` is one step.
-/

namespace Wallace.RigModel

/-- A lease record, as `build_lease` writes it. `HOST` is written but never read back. -/
structure Lease (α : Type*) where
  holder : α
  task : String
  sha : String
  acquired : ℕ
  heartbeat : ℕ
  expiry : ℕ
  ttl : ℕ
  deriving DecidableEq

/-- The rig health a release asserts. -/
inductive Health | healthy | wedged
  deriving DecidableEq

/-- What `_rig_guard` takes from its environment: `RIG_AGENT`, `RIG_ENFORCE`, `RIG_BYPASS`
and `RIG_ALLOW_RECOVERY`. -/
structure GuardEnv (α : Type*) where
  self : Option α
  strict : Bool
  bypass : Bool
  allowRecovery : Bool
  deriving DecidableEq

/-- The commands; a release whose `--state` is missing or unknown has none. -/
inductive Cmd (α : Type*)
  | acquire (agent : α) (task sha : String)
  | renew (agent : α)
  | release (agent : α) (state : Option Health)
  | recovered (agent : α)
  | guard (env : GuardEnv α)

/-- The lines the commands print, with the names that vary in them. -/
inductive Msg (α : Type*)
  | usage
  | acquired (agent : α) (task : String)
  | needsRecovery (agent : α)
  | alreadyHeld (agent : α)
  | busy (holder : Option α)
  | reclaimed (holder : Option α)
  | noLease
  | notHolder
  | renewed (agent : α)
  | released (agent : α) (state : Health)
  | cleared (agent : α)
  | bypass
  | refuseHeld (holder : α)
  | manual
  | deny (fatal : Bool) (recovery : Bool)
  | ok (self : α)
  deriving DecidableEq

/-- Where a process stands. `t` is the private temp file, `h` and `e` the `HOLDER` and
`EXPIRY` read, `out` what has been printed. -/
inductive Pc (α : Type*)
  | idle
  | acqBuild (agent : α) (task sha : String)
  | acqLn (t : Lease α) (out : List (Msg α))
  | acqFlag (t : Lease α) (out : List (Msg α))
  | acqHolder (t : Lease α) (out : List (Msg α))
  | acqExpiry (t : Lease α) (out : List (Msg α)) (h : Option α)
  | acqMvf (t : Lease α) (out : List (Msg α))
  | acqClock (t : Lease α) (out : List (Msg α)) (h : Option α) (e : Option ℕ)
  | acqMv (t : Lease α) (out : List (Msg α)) (h : Option α) (e : Option ℕ)
  | acqTouch (t : Lease α) (out : List (Msg α))
  | renTest (agent : α)
  | renHolder (agent : α)
  | renTask (agent : α)
  | renSha (agent : α) (task : String)
  | renBuild (agent : α) (task sha : String)
  | renMvf (t : Lease α)
  | relTest (agent : α) (state : Health)
  | relHolder (agent : α) (state : Health)
  | relTouch (agent : α)
  | relRm (agent : α) (state : Health)
  | recRm (agent : α)
  | grdTest (env : GuardEnv α)
  | grdHolder (env : GuardEnv α)
  | grdExpiry (env : GuardEnv α) (h : Option α) (live : Bool)
  | grdClock (env : GuardEnv α) (h : Option α) (e : Option ℕ)
  | grdFlag (env : GuardEnv α) (self : α)
  | ret (claim : Option (α × ℕ)) (code : ℕ) (out : List (Msg α))
  deriving DecidableEq

/-- The clock and the shared files. -/
structure Disk (α : Type*) where
  now : ℕ
  lease : Option (Lease α)
  flag : Bool

/-- The whole system: the files, the processes, and for every agent the expiry written by
its last `acquire` or `renew` if that returned 0 and no release has begun since. -/
structure St (ι α : Type*) where
  disk : Disk α
  pc : ι → Pc α
  held : α → Option ℕ

/-- The clock advances, a process begins a command, or it takes its next file step. -/
inductive Act (ι α : Type*)
  | tick (d : ℕ)
  | start (p : ι) (c : Cmd α)
  | go (p : ι)

variable {ι α : Type*}

def buildLease (TTL now : ℕ) (agent : α) (task sha : String) : Lease α where
  holder := agent
  task := task
  sha := sha
  acquired := now
  heartbeat := now
  expiry := now + TTL
  ttl := TTL

/-- The agent on whose behalf a lease command runs. -/
def Cmd.agent : Cmd α → Option α
  | .acquire a _ _ | .renew a | .release a _ => some a
  | .recovered _ | .guard _ => none

def Pc.agent : Pc α → Option α
  | .acqBuild a _ _ | .renTest a | .renHolder a | .renTask a | .renSha a _ | .renBuild a _ _
  | .relTest a _ | .relHolder a _ | .relTouch a | .relRm a _ => some a
  | .acqLn t _ | .acqFlag t _ | .acqHolder t _ | .acqExpiry t _ _ | .acqMvf t _
  | .acqClock t _ _ _ | .acqMv t _ _ _ | .acqTouch t _ | .renMvf t => some t.holder
  | .ret c _ _ => c.map Prod.fst
  | .idle | .recRm _ | .grdTest _ | .grdHolder _ | .grdExpiry _ _ _ | .grdClock _ _ _
  | .grdFlag _ _ => none

/-- The checks of the arguments, and the first file step of each command. -/
def begin : Cmd α → Pc α
  | .acquire a task sha => if task = "" then .ret (some (a, 0)) 2 [.usage] else .acqBuild a task sha
  | .renew a => .renTest a
  | .release a (some st) => .relTest a st
  | .release _ none => .ret none 2 [.usage]
  | .recovered a => .recRm a
  | .guard env => if env.bypass then .ret none 0 [.bypass] else .grdTest env

/-- `_deny`: fatal under enforcement, otherwise a warning. -/
def deny (env : GuardEnv α) (recovery : Bool) : Pc α :=
  .ret none (if env.strict then 5 else 0) [.deny env.strict recovery]

variable [DecidableEq α]

/-- The decision of `_rig_guard` once the effective holder is known; `none` is the empty
string. -/
def guardDecide (env : GuardEnv α) (holder : Option α) : Pc α :=
  match holder with
  | some b => if env.self = some b then .grdFlag env b else .ret none 5 [.refuseHeld b]
  | none => if env.self = none then .ret none 0 [.manual] else deny env false

/-- One file step of a process, on the shared files. -/
def exec (TTL : ℕ) (d : Disk α) : Pc α → Disk α × Pc α
  | .acqBuild a task sha => (d, .acqLn (buildLease TTL d.now a task sha) [])
  | .acqLn t out =>
    match d.lease with
    | none => ({ d with lease := some t }, .acqFlag t (out ++ [.acquired t.holder t.task]))
    | some _ => (d, .acqHolder t out)
  | .acqFlag t out =>
    (d, .ret (some (t.holder, t.expiry)) 0
      (if d.flag then out ++ [.needsRecovery t.holder] else out))
  | .acqHolder t out => (d, .acqExpiry t out (d.lease.map Lease.holder))
  | .acqExpiry t out h =>
    if h = some t.holder then (d, .acqMvf t out)
    else (d, .acqClock t out h (d.lease.map Lease.expiry))
  | .acqMvf t out =>
    ({ d with lease := some t },
      .ret (some (t.holder, t.expiry)) 0 (out ++ [.alreadyHeld t.holder]))
  | .acqClock t out h e =>
    if e.any (d.now < ·) then (d, .ret (some (t.holder, t.expiry)) 3 (out ++ [.busy h]))
    else (d, .acqMv t out h e)
  | .acqMv t out h _ =>
    match d.lease with
    | none => (d, .acqLn t out)
    | some _ => ({ d with lease := none }, .acqTouch t (out ++ [.reclaimed h]))
  | .acqTouch t out => ({ d with flag := true }, .acqLn t out)
  | .renTest a =>
    match d.lease with
    | none => (d, .ret (some (a, 0)) 4 [.noLease])
    | some _ => (d, .renHolder a)
  | .renHolder a =>
    if d.lease.map Lease.holder = some a then (d, .renTask a)
    else (d, .ret (some (a, 0)) 4 [.notHolder])
  | .renTask a => (d, .renSha a ((d.lease.map Lease.task).getD ""))
  | .renSha a task => (d, .renBuild a task ((d.lease.map Lease.sha).getD ""))
  | .renBuild a task sha => (d, .renMvf (buildLease TTL d.now a task sha))
  | .renMvf t =>
    ({ d with lease := some t }, .ret (some (t.holder, t.expiry)) 0 [.renewed t.holder])
  | .relTest a st =>
    match d.lease with
    | none => (d, .ret none 4 [.noLease])
    | some _ => (d, .relHolder a st)
  | .relHolder a st =>
    if d.lease.map Lease.holder = some a then
      match st with
      | .wedged => (d, .relTouch a)
      | .healthy => (d, .relRm a .healthy)
    else (d, .ret none 4 [.notHolder])
  | .relTouch a => ({ d with flag := true }, .relRm a .wedged)
  | .relRm a st => ({ d with lease := none }, .ret none 0 [.released a st])
  | .recRm a => ({ d with flag := false }, .ret none 0 [.cleared a])
  | .grdTest env =>
    match d.lease with
    | none => (d, guardDecide env none)
    | some _ => (d, .grdHolder env)
  -- the guard keeps only the name; `live` remembers whether that record had expired
  | .grdHolder env =>
    (d, .grdExpiry env (d.lease.map Lease.holder) (d.lease.any fun r => d.now < r.expiry))
  | .grdExpiry env h _ => (d, .grdClock env h (d.lease.map Lease.expiry))
  | .grdClock env h e => (d, guardDecide env (if e.any (d.now < ·) then h else none))
  | .grdFlag env self =>
    (d, if d.flag && !env.allowRecovery then deny env true else .ret none 0 [.ok self])
  | .idle => (d, .idle)
  | .ret c code out => (d, .ret c code out)

/-! ### What one file step can do -/

section exec

variable (TTL : ℕ) (d : Disk α) (pc : Pc α)

@[simp] lemma exec_now : (exec TTL d pc).1.now = d.now := by
  fun_cases exec TTL d pc <;> rfl

/-- The steps that touch `lease.env`: the claim of a free lease, the two replacements by
`mv -f`, the reclaim and the removal. -/
lemma exec_lease : (exec TTL d pc).1.lease = d.lease ∨
    (∃ t out, pc = .acqLn t out ∧ d.lease = none ∧ (exec TTL d pc).1.lease = some t) ∨
    (∃ t, ((∃ out, pc = .acqMvf t out) ∨ pc = .renMvf t) ∧ (exec TTL d pc).1.lease = some t) ∨
    (∃ t out h e, pc = .acqMv t out h e ∧ (exec TTL d pc).1.lease = none) ∨
    (∃ a st, pc = .relRm a st ∧ (exec TTL d pc).1.lease = none) := by
  cases pc with
  | acqLn t out =>
    rcases hl : d.lease with _ | r
    · exact .inr (.inl ⟨t, out, rfl, rfl, by simp [exec, hl]⟩)
    · exact .inl (by simp [exec, hl])
  | acqMvf t out => exact .inr (.inr (.inl ⟨t, .inl ⟨out, rfl⟩, rfl⟩))
  | renMvf t => exact .inr (.inr (.inl ⟨t, .inr rfl, rfl⟩))
  | acqMv t out h e =>
    rcases hl : d.lease with _ | r
    · exact .inl (by simp [exec, hl])
    · exact .inr (.inr (.inr (.inl ⟨t, out, h, e, rfl, by simp [exec, hl]⟩)))
  | relRm a st => exact .inr (.inr (.inr (.inr ⟨a, st, rfl, rfl⟩)))
  | acqExpiry t out h => left; simp only [exec]; split <;> rfl
  | acqClock t out h e => left; simp only [exec]; split <;> rfl
  | renTest a => left; simp only [exec]; split <;> simp_all
  | renHolder a => left; simp only [exec]; split <;> rfl
  | relTest a st => left; simp only [exec]; split <;> simp_all
  | relHolder a st => left; simp only [exec]; split <;> [(split <;> rfl); rfl]
  | grdTest env => left; simp only [exec]; split <;> simp_all
  | _ => exact .inl rfl

/-- The flag is set by the two touches and cleared by `recovered`. -/
lemma exec_flag : (exec TTL d pc).1.flag = d.flag ∨
    (((∃ t out, pc = .acqTouch t out) ∨ ∃ a, pc = .relTouch a) ∧
      (exec TTL d pc).1.flag = true) ∨
    ((∃ a, pc = .recRm a) ∧ (exec TTL d pc).1.flag = false) := by
  cases pc with
  | acqTouch t out => exact .inr (.inl ⟨.inl ⟨t, out, rfl⟩, rfl⟩)
  | relTouch a => exact .inr (.inl ⟨.inr ⟨a, rfl⟩, rfl⟩)
  | recRm a => exact .inr (.inr ⟨⟨a, rfl⟩, rfl⟩)
  | acqLn t out => left; simp only [exec]; split <;> rfl
  | acqMv t out h e => left; simp only [exec]; split <;> rfl
  | acqExpiry t out h => left; simp only [exec]; split <;> rfl
  | acqClock t out h e => left; simp only [exec]; split <;> rfl
  | renTest a => left; simp only [exec]; split <;> rfl
  | renHolder a => left; simp only [exec]; split <;> rfl
  | relTest a st => left; simp only [exec]; split <;> rfl
  | relHolder a st => left; simp only [exec]; split <;> [(split <;> rfl); rfl]
  | grdTest env => left; simp only [exec]; split <;> rfl
  | _ => exact .inl rfl

end exec

/-- What an agent may believe after its `acquire` or `renew` has returned. -/
def settle (held : α → Option ℕ) (claim : Option (α × ℕ)) (code : ℕ) : α → Option ℕ :=
  match claim with
  | none => held
  | some (a, e) => Function.update held a (if code = 0 then some e else none)

/-- Beginning a release gives the rig up. -/
def giveUp (held : α → Option ℕ) : Cmd α → α → Option ℕ
  | .release a _ => Function.update held a none
  | _ => held

variable [DecidableEq ι]

def step (TTL : ℕ) (s : St ι α) : Act ι α → Option (St ι α)
  | .tick d => some { s with disk := { s.disk with now := s.disk.now + d } }
  | .start p c =>
    match s.pc p with
    | .idle =>
      some { s with pc := Function.update s.pc p (begin c), held := giveUp s.held c }
    | _ => none
  | .go p =>
    match s.pc p with
    | .idle => none
    | .ret c code _ =>
      some { s with pc := Function.update s.pc p .idle, held := settle s.held c code }
    | pc =>
      some { s with
        disk := (exec TTL s.disk pc).1
        pc := Function.update s.pc p (exec TTL s.disk pc).2 }

/-- What a step of the system does: the clock moves, a command begins, a result is
reported, or one file step runs. -/
lemma step_cases {TTL : ℕ} {s s' : St ι α} {act : Act ι α} (h : step TTL s act = some s') :
    (∃ d, act = .tick d ∧ s' = { s with disk := { s.disk with now := s.disk.now + d } }) ∨
    (∃ p c, act = .start p c ∧ s.pc p = .idle ∧
      s' = { s with pc := Function.update s.pc p (begin c), held := giveUp s.held c }) ∨
    (∃ p c code out, act = .go p ∧ s.pc p = .ret c code out ∧
      s' = { s with pc := Function.update s.pc p .idle, held := settle s.held c code }) ∨
    (∃ p, act = .go p ∧ s' = { s with
      disk := (exec TTL s.disk (s.pc p)).1
      pc := Function.update s.pc p (exec TTL s.disk (s.pc p)).2 }) := by
  cases act with
  | tick d => cases h; exact .inl ⟨d, rfl, rfl⟩
  | start p c =>
    simp only [step] at h
    split at h
    · cases h; exact .inr (.inl ⟨p, c, rfl, by assumption, rfl⟩)
    · cases h
  | go p =>
    simp only [step] at h
    split at h
    · cases h
    · cases h; exact .inr (.inr (.inl ⟨p, _, _, _, rfl, by assumption, rfl⟩))
    · cases h; exact .inr (.inr (.inr ⟨p, rfl, rfl⟩))

/-- The runs below have three callers at most. -/
instance instNeZeroThree : NeZero 3 := ⟨by decide⟩

/-- No lease, no flag, nobody running, nobody holding. -/
def init (now : ℕ) : St ι α := ⟨⟨now, none, false⟩, fun _ => .idle, fun _ => none⟩

/-- `a` holds the rig: its last `acquire` or `renew` returned 0, it has not begun a release
since, and the clock is below the expiry that command wrote. -/
def Holds (s : St ι α) (a : α) : Prop := ∃ e ∈ s.held a, s.disk.now < e

omit [DecidableEq α] [DecidableEq ι] in
instance (s : St ι α) (a : α) : Decidable (Holds s a) :=
  inferInstanceAs (Decidable (∃ e ∈ s.held a, s.disk.now < e))

end Wallace.RigModel
