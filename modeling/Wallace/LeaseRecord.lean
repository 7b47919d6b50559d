import Wallace.KeyValue
import Wallace.Script

/-!
The lease as the file it is: `build_lease`, `getk` and the rewriting in `cmd_renew` of
`rig-lease.sh`.

`RigModel` takes the lease for a record with fields. Here the record is the text that
`build_lease` writes and its fields are what `getk` finds in that text, for callers that may
pass any strings.
-/

namespace Wallace.LeaseRecord

open Script (Text)
open Shell KeyValue

/-- What one run of the script has besides its arguments: the clock, the name `hostname -s`
prints, and `RIG_LEASE_TTL`. -/
structure Env where
  now : ℕ
  host : { t : Text // '\n' ∉ t }
  ttl : ℕ

/-- A value of `$((…))`: 64 bits with sign. -/
def arith (x : ℤ) : Text :=
  let y := x.bmod (2 ^ 64)
  if 0 ≤ y then decimal y.toNat else '-' :: decimal (-y).toNat

def HOLDER : Text := "HOLDER".toList
def TASK : Text := "TASK".toList
def SHA : Text := "SHA".toList
def HOST : Text := "HOST".toList
def ACQUIRED : Text := "ACQUIRED".toList
def HEARTBEAT : Text := "HEARTBEAT".toList
def EXPIRY : Text := "EXPIRY".toList
def TTL : Text := "TTL".toList

/-- `getk`, on a file that exists. -/
def getk (file key : Text) : Text := KeyValue.get file key

/-- `build_lease`: the contents of the file it prints the path of. -/
def buildLease (agent task sha : Text) (env : Env) : Text :=
  text [(HOLDER, agent), (TASK, task), (SHA, sha), (HOST, env.host.1),
    (ACQUIRED, decimal env.now), (HEARTBEAT, decimal env.now),
    (EXPIRY, arith (env.now + env.ttl)), (TTL, decimal env.ttl)]

/-- The lease a successful `cmd_acquire` leaves, whichever of its ways it takes; `RigModel`
has the ways. -/
def cmdAcquire (agent task sha : Text) (env : Env) : Except ℕ Text :=
  if agent ≠ [] ∧ task ≠ [] then .ok (buildLease agent task sha env) else .error 2

/-- `cmd_renew`: the new contents of the lease, or the exit status. -/
def cmdRenew (agent : Text) (env : Env) (lease : Option Text) : Except ℕ Text :=
  if agent = [] then .error 2
  else
    match lease with
    | none => .error 4
    | some f =>
      if getk f HOLDER ≠ agent then .error 4
      else .ok (buildLease agent (getk f TASK) (getk f SHA) env)

/-- Any number of runs of `renew`, by whoever; one that fails leaves the file alone. -/
def renewals (f : Text) (l : List (Text × Env)) : Text :=
  l.foldl (fun f x => (cmdRenew x.1 x.2 (some f)).toOption.getD f) f

/-! ### Reading what was written -/

section Reading

variable {agent task sha : Text} {env : Env}

lemma plain_key {k : Text} (h : k ∈ [HOLDER, TASK, SHA, HOST, ACQUIRED, HEARTBEAT, EXPIRY, TTL]) :
    Plain k := by
  revert k
  unfold Plain
  decide

lemma arith_of_lt {n : ℕ} (h : n < 2 ^ 63) : arith n = decimal n := by
  have hmod : (n : ℤ).bmod (2 ^ 64) = n := by
    rw [Int.bmod_eq_of_le] <;> omega
  rw [arith, hmod, if_pos (by omega), Int.toNat_natCast]

lemma not_mem_arith (x : ℤ) : '\n' ∉ arith x := by
  unfold arith
  simp only
  split_ifs
  · exact not_mem_decimal (by decide)
  · rw [List.mem_cons, not_or]
    exact ⟨by decide, not_mem_decimal (by decide)⟩

lemma getk_holder : getk (buildLease agent task sha env) HOLDER = firstLine agent :=
  get_cons_self (plain_key (by simp))

/-- A line of another key is passed over. -/
lemma getk_cons {k k' v : Text} {l : List (Text × Text)} (hne : k ≠ k')
    (hk : k ∈ [HOLDER, TASK, SHA, HOST, ACQUIRED, HEARTBEAT, EXPIRY, TTL])
    (hk' : k' ∈ [HOLDER, TASK, SHA, HOST, ACQUIRED, HEARTBEAT, EXPIRY, TTL]) (hv : '\n' ∉ v) :
    getk (text ((k, v) :: l)) k' = getk (text l) k' :=
  get_cons_of_ne (plain_key hk') (plain_key hk) hne.symm hv

lemma getk_task (ha : '\n' ∉ agent) :
    getk (buildLease agent task sha env) TASK = firstLine task := by
  rw [buildLease, getk_cons (by decide) (by simp) (by simp) ha]
  exact get_cons_self (plain_key (by simp))

lemma getk_sha (ha : '\n' ∉ agent) (ht : '\n' ∉ task) :
    getk (buildLease agent task sha env) SHA = firstLine sha := by
  rw [buildLease, getk_cons (by decide) (by simp) (by simp) ha,
    getk_cons (by decide) (by simp) (by simp) ht]
  exact get_cons_self (plain_key (by simp))

lemma getk_expiry (ha : '\n' ∉ agent) (ht : '\n' ∉ task) (hs : '\n' ∉ sha) :
    getk (buildLease agent task sha env) EXPIRY = arith (env.now + env.ttl) := by
  have hnow : '\n' ∉ decimal env.now := not_mem_decimal (by decide)
  rw [buildLease, getk_cons (by decide) (by simp) (by simp) ha,
    getk_cons (by decide) (by simp) (by simp) ht, getk_cons (by decide) (by simp) (by simp) hs,
    getk_cons (by decide) (by simp) (by simp) env.host.2,
    getk_cons (by decide) (by simp) (by simp) hnow,
    getk_cons (by decide) (by simp) (by simp) hnow, getk, get_cons_self (plain_key (by simp)),
    firstLine_eq_self_iff.mpr (not_mem_arith _)]

end Reading

/-! ### The account of a lease -/

/-- The file tells these three. -/
structure Tells (agent task sha f : Text) : Prop where
  holder : getk f HOLDER = agent
  task : getk f TASK = task
  sha : getk f SHA = sha

/-- The file says what it was written for, its expiry included, and goes on to do so however
often it is renewed; and its holder can renew it. -/
structure RoundTrips (agent task sha : Text) (env : Env) (f : Text) : Prop where
  tells : Tells agent task sha f
  expiry : getk f EXPIRY = decimal (env.now + env.ttl)
  renewed : ∀ l, Tells agent task sha (renewals f l)
  renewable : ∀ l e, ∃ f', cmdRenew agent e (some (renewals f l)) = .ok f'

variable {agent task sha f : Text} {env : Env}

lemma tells_buildLease (ha : '\n' ∉ agent) (ht : '\n' ∉ task) (hs : '\n' ∉ sha) :
    Tells agent task sha (buildLease agent task sha env) where
  holder := by rw [getk_holder, firstLine_eq_self_iff.mpr ha]
  task := by rw [getk_task ha, firstLine_eq_self_iff.mpr ht]
  sha := by rw [getk_sha ha ht, firstLine_eq_self_iff.mpr hs]

/-- What a file tells, it tells in single lines. -/
lemma Tells.not_mem (h : Tells agent task sha f) : '\n' ∉ agent ∧ '\n' ∉ task ∧ '\n' ∉ sha :=
  ⟨h.holder ▸ not_mem_get f HOLDER, h.task ▸ not_mem_get f TASK, h.sha ▸ not_mem_get f SHA⟩

/-- **One renewal**, by whoever, keeps what the file tells. -/
lemma Tells.renew (h : Tells agent task sha f) (b : Text) (e : Env) :
    Tells agent task sha ((cmdRenew b e (some f)).toOption.getD f) := by
  unfold cmdRenew
  split_ifs with hb
  · exact h
  · simp only
    split_ifs with hh
    · exact h
    · obtain ⟨ha, ht, hs⟩ := h.not_mem
      have hb' : b = agent := (not_not.mp hh).symm.trans h.holder
      rw [h.task, h.sha, hb']
      exact tells_buildLease ha ht hs

/-- **Any number of renewals.** -/
lemma Tells.renewals (h : Tells agent task sha f) (l : List (Text × Env)) :
    Tells agent task sha (renewals f l) := by
  induction l generalizing f with
  | nil => exact h
  | cons x l ih => exact ih (h.renew x.1 x.2)

lemma Tells.renewable (h : Tells agent task sha f) (ha : agent ≠ []) (e : Env) :
    ∃ f', cmdRenew agent e (some f) = .ok f' := by
  refine ⟨buildLease agent (getk f TASK) (getk f SHA) e, ?_⟩
  simp [cmdRenew, ha, h.holder]

/-- An expiry beyond 64 bits is not the sum. -/
lemma arith_eq_decimal_iff {n : ℕ} : arith n = decimal n ↔ n < 2 ^ 63 := by
  refine ⟨fun h => ?_, arith_of_lt⟩
  by_contra hn
  unfold arith at h
  simp only at h
  split_ifs at h with h0
  · have hval := congrArg number h
    rw [number_decimal, number_decimal] at hval
    have hlt := Int.bmod_lt (x := (n : ℤ)) (show 0 < 2 ^ 64 by decide)
    omega
  · have hminus : '-' ∉ decimal n := not_mem_decimal (by decide)
    rw [← h] at hminus
    exact hminus (List.mem_cons_self ..)

/-- **A lease says what it was acquired for**, now and after every renewal, exactly if the
agent, the task and the sha are single lines and the expiry fits the shell's numbers. -/
theorem roundTrips_iff (agent task sha : Text) (env : Env) (f : Text)
    (h : cmdAcquire agent task sha env = .ok f) :
    RoundTrips agent task sha env f ↔
      '\n' ∉ agent ∧ '\n' ∉ task ∧ '\n' ∉ sha ∧ env.now + env.ttl < 2 ^ 63 := by
  unfold cmdAcquire at h
  split_ifs at h with hne
  cases h
  constructor
  · intro hr
    obtain ⟨ha, ht, hs⟩ := hr.tells.not_mem
    have he := hr.expiry
    rw [getk_expiry ha ht hs, ← Int.natCast_add] at he
    exact ⟨ha, ht, hs, arith_eq_decimal_iff.mp he⟩
  · rintro ⟨ha, ht, hs, hlt⟩
    have htells : Tells agent task sha (buildLease agent task sha env) := tells_buildLease ha ht hs
    refine ⟨htells, ?_, htells.renewals, fun l e => (htells.renewals l).renewable hne.1 e⟩
    rw [getk_expiry ha ht hs, ← Int.natCast_add, arith_of_lt hlt]

def rigHost : { t : Text // '\n' ∉ t } := ⟨"rig".toList, by decide⟩

/-- A lease for a task of two words. -/
theorem roundTrips_two_words :
    RoundTrips "sol".toList "boot it".toList [] ⟨100, rigHost, 60⟩
      (buildLease "sol".toList "boot it".toList [] ⟨100, rigHost, 60⟩) :=
  (roundTrips_iff _ _ _ _ _ rfl).mpr (by decide)

/-- A task with a second line that looks like an expiry: the lease never expires before that
number. -/
theorem not_roundTrips_of_second_line :
    ∃ f, cmdAcquire "sol".toList "boot\nEXPIRY=9999".toList [] ⟨100, rigHost, 60⟩ = .ok f ∧
      getk f TASK = "boot".toList ∧ getk f EXPIRY = "9999".toList ∧
      ¬ RoundTrips "sol".toList "boot\nEXPIRY=9999".toList [] ⟨100, rigHost, 60⟩ f := by
  refine ⟨_, rfl, by decide +kernel, by decide +kernel, fun h => ?_⟩
  exact absurd h.tells.not_mem.2.1 (by decide)

end Wallace.LeaseRecord
