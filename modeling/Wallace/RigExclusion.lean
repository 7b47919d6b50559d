import Mathlib.Data.Fintype.Basic
import Wallace.RigModel

/-!
Who holds the rig.

The claim of a free lease with `ln` is atomic, but every other command reads `lease.env`
first and renames or removes whatever file is there later. As long as the field a command
decided on still reads the same when it acts, and an agent does not run two commands at
once, the lease excludes: an agent that holds the rig has its own, long enough lease in
place. Without that, two agents that saw the same expired lease both end up holding it.
-/

namespace Wallace.RigExclusion

open Wallace.Runs Wallace.RigModel

variable {ι α : Type*} {TTL : ℕ}

/-- `lease.env` is gone or still reads what the command about to rename or remove it
decided on: `EXPIRY` for the reclaim of a stale lease, `HOLDER` for the others. -/
def Fresh (d : Disk α) : Pc α → Prop
  | .acqMv _ _ _ e => ∀ r ∈ d.lease, some r.expiry = e
  | .acqMvf t _ | .renMvf t => ∀ r ∈ d.lease, r.holder = t.holder
  | .relRm a _ => ∀ r ∈ d.lease, r.holder = a
  | _ => True

/-- No command of an agent begins while another one of it runs, and none acts on a lease
that changed under it. -/
def Undisturbed (s : St ι α) : Act ι α → Prop
  | .tick _ => True
  | .start p c => ∀ a ∈ c.agent, ∀ q ≠ p, (s.pc q).agent ≠ some a
  | .go p => Fresh s.disk (s.pc p)

instance [DecidableEq α] (d : Disk α) (pc : Pc α) : Decidable (Fresh d pc) := by
  cases pc
  case acqMv t out h e => exact inferInstanceAs (Decidable (∀ r ∈ d.lease, some r.expiry = e))
  case acqMvf t out => exact inferInstanceAs (Decidable (∀ r ∈ d.lease, r.holder = t.holder))
  case renMvf t => exact inferInstanceAs (Decidable (∀ r ∈ d.lease, r.holder = t.holder))
  case relRm a st => exact inferInstanceAs (Decidable (∀ r ∈ d.lease, r.holder = a))
  all_goals exact isTrue trivial

instance [DecidableEq α] [DecidableEq ι] [Fintype ι] (s : St ι α) :
    ∀ act, Decidable (Undisturbed s act)
  | .tick _ => isTrue trivial
  | .start p c =>
    inferInstanceAs (Decidable (∀ a ∈ c.agent, ∀ q ≠ p, (s.pc q).agent ≠ some a))
  | .go p => inferInstanceAs (Decidable (Fresh s.disk (s.pc p)))

/-! ### What one process promises -/

/-- The private temp file of a command that has not put it in place yet. -/
def tmp : Pc α → Option (Lease α)
  | .acqLn t _ | .acqHolder t _ | .acqExpiry t _ _ | .acqMvf t _ | .acqClock t _ _ _
  | .acqMv t _ _ _ | .acqTouch t _ | .renMvf t => some t
  | _ => none

/-- The lease a command has put in place but not yet reported. -/
def placed : Pc α → Option (α × ℕ)
  | .acqFlag t _ => some (t.holder, t.expiry)
  | .ret c 0 _ => c
  | _ => none

def releasing : Pc α → Option α
  | .relTest a _ | .relHolder a _ | .relTouch a | .relRm a _ => some a
  | _ => none

/-- Until `e`, the lease in place is one of `a` that lasts at least as long. -/
def Backed (d : Disk α) (a : α) (e : ℕ) : Prop :=
  d.now < e → ∃ r ∈ d.lease, r.holder = a ∧ e ≤ r.expiry

/-- A process about to reclaim has seen an expiry that has passed. -/
def Stale (d : Disk α) (pc : Pc α) : Prop :=
  ∀ t out h e, pc = .acqMv t out h e → ∀ x ∈ e, x ≤ d.now

/-- What is true of a process, given the files and what the agents believe. -/
structure Good (TTL : ℕ) (d : Disk α) (held : α → Option ℕ) (pc : Pc α) : Prop where
  tmp : ∀ t ∈ tmp pc, (∀ e ∈ held t.holder, e ≤ t.expiry) ∧ t.expiry ≤ d.now + TTL
  placed : ∀ c ∈ placed pc, Backed d c.1 c.2 ∧ c.2 ≤ d.now + TTL
  releasing : ∀ a ∈ releasing pc, held a = none
  stale : Stale d pc

/-- **The invariant**: whoever holds the rig has its lease in place, and each agent runs
one command at a time. -/
structure Inv (TTL : ℕ) (s : St ι α) : Prop where
  held : ∀ a, ∀ e ∈ s.held a, Backed s.disk a e ∧ e ≤ s.disk.now + TTL
  good : ∀ p, Good TTL s.disk s.held (s.pc p)
  alone : ∀ p q a, (s.pc p).agent = some a → (s.pc q).agent = some a → p = q

lemma tmp_agent {pc : Pc α} {t : Lease α} (h : t ∈ tmp pc) : pc.agent = some t.holder := by
  cases pc <;> simp_all [tmp, Pc.agent]

lemma placed_agent {pc : Pc α} {c : α × ℕ} (h : c ∈ placed pc) : pc.agent = some c.1 := by
  cases pc with
  | ret c' code out => cases code <;> simp_all [placed, Pc.agent]
  | acqFlag t out => cases h; rfl
  | _ => simp_all [placed]

lemma releasing_agent {pc : Pc α} {a : α} (h : a ∈ releasing pc) : pc.agent = some a := by
  cases pc <;> simp_all [releasing, Pc.agent]

/-- A process with no temp file, nothing unreported and no release under way. -/
lemma good_clear {d : Disk α} {held : α → Option ℕ} {pc : Pc α} (h1 : tmp pc = none)
    (h2 : placed pc = none) (h3 : releasing pc = none) : Good TTL d held pc where
  tmp t ht := by rw [h1] at ht; cases ht
  placed c hc := by rw [h2] at hc; cases hc
  releasing a ha := by rw [h3] at ha; cases ha
  stale t out h e hpc := by rw [hpc] at h1; cases h1

/-! ### One file step -/

section exec

variable [DecidableEq α] {d : Disk α} {pc : Pc α} {held : α → Option ℕ}

@[simp] lemma guardDecide_agent (env : GuardEnv α) (h : Option α) :
    (guardDecide env h).agent = none := by
  unfold guardDecide deny
  split <;> split_ifs <;> rfl

/-- A step keeps the agent of the process, or ends a command that no longer needs it. -/
lemma exec_agent {a : α} (h : (exec TTL d pc).2.agent = some a) : pc.agent = some a := by
  revert h
  have hend : ∀ pc' : Pc α, pc'.agent = none → pc'.agent = some a → pc.agent = some a :=
    fun pc' h0 h => by rw [h0] at h; cases h
  cases pc with
  | grdTest env =>
    simp only [exec]
    split
    · exact hend (guardDecide env none) (guardDecide_agent _ _)
    · exact hend _ rfl
  | grdClock env h e => exact hend _ (guardDecide_agent _ _)
  | grdFlag env b => simp only [exec]; split <;> exact hend _ rfl
  | relHolder b st =>
    simp only [exec]
    split
    · cases st <;> exact id
    · exact hend _ rfl
  | relTest b st =>
    simp only [exec]
    split
    · exact hend _ rfl
    · exact id
  | acqLn t out => simp only [exec]; split <;> exact id
  | acqMv t out h e => simp only [exec]; split <;> exact id
  | acqExpiry t out h => simp only [exec]; split <;> exact id
  | acqClock t out h e => simp only [exec]; split <;> exact id
  | renTest b => simp only [exec]; split <;> exact id
  | renHolder b => simp only [exec]; split <;> exact id
  | relRm b st => exact hend _ rfl
  | recRm b => exact hend _ rfl
  | grdHolder env => exact hend _ rfl
  | grdExpiry env h l => exact hend _ rfl
  | _ => exact id

/-- **Who a step can hurt**: a lease that backs an agent goes on doing so, unless the agent
is releasing it or replaces it by a shorter one. -/
lemma exec_backed {a : α} {e : ℕ} (hf : Fresh d pc) (hst : Stale d pc)
    (ht : ∀ t ∈ tmp pc, t.holder = a → e ≤ t.expiry) (hr : a ∉ releasing pc)
    (h : Backed d a e) : Backed (exec TTL d pc).1 a e := by
  intro hlt
  rw [exec_now] at hlt
  obtain ⟨r, hr1, hr2, hr3⟩ := h hlt
  rcases exec_lease TTL d pc with
    he | ⟨t, out, rfl, hl, -⟩ | ⟨t, hpc, he⟩ | ⟨t, out, h', e', rfl, -⟩ | ⟨a', st, rfl, -⟩
  · exact ⟨r, he ▸ hr1, hr2, hr3⟩
  · simp [hl] at hr1
  · have ho : r.holder = t.holder := by rcases hpc with ⟨out, rfl⟩ | rfl <;> exact hf r hr1
    have hm : t ∈ tmp pc := by rcases hpc with ⟨out, rfl⟩ | rfl <;> rfl
    exact ⟨t, he, by rw [← ho, hr2], ht t hm (by rw [← ho, hr2])⟩
  · -- the reclaimed lease has expired, so it backs nobody
    have h1 := hf r hr1
    have h2 := hst t out h' e' rfl _ h1.symm
    omega
  · exact absurd (show a ∈ releasing (.relRm a' st) by simp [releasing, ← hr2, hf r hr1]) hr

/-- A temp file is one the process had, or has just been built. -/
lemma exec_tmp {t : Lease α} (h : t ∈ tmp (exec TTL d pc).2) :
    t ∈ tmp pc ∨ t.expiry = d.now + TTL := by
  have ha := exec_agent (tmp_agent h)
  revert h ha
  fun_cases exec TTL d pc
  all_goals intro h ha
  all_goals first
    | exact .inl h
    | (cases h; exact .inr rfl)
    | cases h
    | cases ha

/-- A lease is put in place from the temp file, and stays until it is reported. -/
lemma exec_placed {c : α × ℕ} (h : c ∈ placed (exec TTL d pc).2) :
    (c ∈ placed pc ∧ (exec TTL d pc).1 = d) ∨
      ∃ t ∈ tmp pc, c = (t.holder, t.expiry) ∧ (exec TTL d pc).1.lease = some t := by
  have ha := exec_agent (placed_agent h)
  revert h ha
  fun_cases exec TTL d pc
  all_goals intro h ha
  all_goals first
    | exact .inl ⟨h, rfl⟩
    | (cases h; exact .inr ⟨_, rfl, rfl, rfl⟩)
    | cases h
    | cases ha

lemma exec_releasing {a : α} (h : a ∈ releasing (exec TTL d pc).2) : a ∈ releasing pc := by
  have ha := exec_agent (releasing_agent h)
  revert h ha
  fun_cases exec TTL d pc
  all_goals intro h ha
  all_goals first
    | exact h
    | cases h
    | cases ha

/-- The reclaim is reached only past the test of the clock. -/
lemma exec_stale : Stale (exec TTL d pc).1 (exec TTL d pc).2 := by
  intro t out h e heq
  have ha : pc.agent = some t.holder := exec_agent (by rw [heq]; rfl)
  revert heq ha
  cases pc with
  | acqClock t' out' h' e' =>
    simp only [exec]
    split
    · exact fun heq => by cases heq
    · rename_i hc
      intro heq _ x hx
      cases heq
      cases hx
      simpa using hc
  | grdTest env => exact fun _ ha => by cases ha
  | grdClock env h e => exact fun _ ha => by cases ha
  | grdFlag env b => exact fun _ ha => by cases ha
  | acqLn t out => simp only [exec]; split <;> exact fun heq => by cases heq
  | acqMv t out h e => simp only [exec]; split <;> exact fun heq => by cases heq
  | acqExpiry t out h => simp only [exec]; split <;> exact fun heq => by cases heq
  | renTest b => simp only [exec]; split <;> exact fun heq => by cases heq
  | renHolder b => simp only [exec]; split <;> exact fun heq => by cases heq
  | relTest b st => simp only [exec]; split <;> exact fun heq => by cases heq
  | relHolder b st =>
    simp only [exec]
    split
    · cases st <;> exact fun heq => by cases heq
    · exact fun heq => by cases heq
  | _ => exact fun heq => by cases heq

/-- A step of a process keeps what is true of it. -/
lemma exec_good (hb : ∀ a, ∀ e ∈ held a, e ≤ d.now + TTL) (hg : Good TTL d held pc) :
    Good TTL (exec TTL d pc).1 held (exec TTL d pc).2 where
  tmp t ht := by
    rw [exec_now]
    rcases exec_tmp ht with h | h
    · exact hg.tmp t h
    · exact ⟨fun e he => by have := hb _ e he; omega, by omega⟩
  placed c hc := by
    rw [exec_now]
    rcases exec_placed hc with ⟨h, hd⟩ | ⟨t, ht, rfl, hl⟩
    · rw [hd]; exact hg.placed c h
    · exact ⟨fun _ => ⟨t, hl, rfl, Nat.le_refl _⟩, (hg.tmp t ht).2⟩
  releasing a ha := hg.releasing a (exec_releasing ha)
  stale := exec_stale

end exec

/-! ### One action of the system -/

variable [DecidableEq α] {s s' : St ι α}

/-- What a process that does not move loses by a step of another one: nothing. -/
lemma good_frame {p q : ι} (hi : Inv TTL s) (hpq : q ≠ p) (hf : Fresh s.disk (s.pc p)) :
    Good TTL (exec TTL s.disk (s.pc p)).1 s.held (s.pc q) where
  tmp t ht := by rw [exec_now]; exact (hi.good q).tmp t ht
  placed c hc := by
    rw [exec_now]
    obtain ⟨hb, hle⟩ := (hi.good q).placed c hc
    have hne : (s.pc p).agent ≠ some c.1 := fun h => hpq (hi.alone q p c.1 (placed_agent hc) h)
    refine ⟨exec_backed hf (hi.good p).stale ?_ ?_ hb, hle⟩
    · exact fun t ht h => absurd (h ▸ tmp_agent ht) hne
    · exact fun h => hne (releasing_agent h)
  releasing a ha := (hi.good q).releasing a ha
  stale t out h e hpc x hx := by rw [exec_now]; exact (hi.good q).stale t out h e hpc x hx

variable [DecidableEq ι]

lemma inv_go {p : ι} (hi : Inv TTL s) (hf : Fresh s.disk (s.pc p)) :
    Inv TTL { s with
      disk := (exec TTL s.disk (s.pc p)).1
      pc := Function.update s.pc p (exec TTL s.disk (s.pc p)).2 } where
  held a e he := by
    obtain ⟨hb, hle⟩ := hi.held a e he
    refine ⟨exec_backed hf (hi.good p).stale ?_ ?_ hb, by simpa using hle⟩
    · rintro t ht rfl
      exact ((hi.good p).tmp t ht).1 e he
    · intro h
      rw [(hi.good p).releasing a h] at he
      cases he
  good q := by
    by_cases hq : q = p
    · subst hq
      simpa using exec_good (fun a e he => (hi.held a e he).2) (hi.good q)
    · simpa [Function.update_of_ne hq] using good_frame hi hq hf
  alone q r a hq hr := by
    have hag : ∀ x, (Function.update s.pc p (exec TTL s.disk (s.pc p)).2 x).agent = some a →
        (s.pc x).agent = some a := by
      intro x hx
      by_cases hxp : x = p
      · subst hxp; exact exec_agent (by simpa using hx)
      · simpa [Function.update_of_ne hxp] using hx
    exact hi.alone q r a (hag q hq) (hag r hr)

omit [DecidableEq α] [DecidableEq ι] in
lemma inv_tick {d : ℕ} (hi : Inv TTL s) :
    Inv TTL { s with disk := { s.disk with now := s.disk.now + d } } where
  held a e he := by
    obtain ⟨hb, hle⟩ := hi.held a e he
    exact ⟨fun h => hb (by simp only at h; omega), by simp only; omega⟩
  good p := by
    obtain ⟨h1, h2, h3, h4⟩ := hi.good p
    refine ⟨fun t ht => ⟨(h1 t ht).1, ?_⟩, fun c hc => ⟨fun h => (h2 c hc).1 ?_, ?_⟩, h3, ?_⟩
    · have := (h1 t ht).2; simp only; omega
    · simp only at h; omega
    · have := (h2 c hc).2; simp only; omega
    · intro t out h e hpc x hx
      have := h4 t out h e hpc x hx
      simp only; omega
  alone := hi.alone

/-- Reporting a result: the agent now believes what its command has put in place. -/
lemma inv_ret {p : ι} {c : Option (α × ℕ)} {code : ℕ} {out : List (Msg α)} (hi : Inv TTL s)
    (hp : s.pc p = .ret c code out) :
    Inv TTL { s with pc := Function.update s.pc p .idle, held := settle s.held c code } := by
  -- the other processes run for other agents, whose beliefs do not change
  have hsame : ∀ q ≠ p, ∀ a, (s.pc q).agent = some a → settle s.held c code a = s.held a := by
    intro q hq a ha
    rcases c with _ | ⟨b, e⟩
    · rfl
    · have hne : a ≠ b := by
        rintro rfl
        exact hq (hi.alone q p a ha (by rw [hp]; rfl))
      exact Function.update_of_ne hne _ _
  refine ⟨fun a e he => ?_, fun q => ?_, fun q r a hq hr => ?_⟩
  · rcases c with _ | ⟨b, x⟩
    · exact hi.held a e he
    · by_cases hab : a = b
      · subst hab
        simp only [settle, Function.update_self] at he
        split at he
        · rename_i h0
          cases he
          exact (hi.good p).placed (a, e) (by rw [hp, h0]; rfl)
        · cases he
      · simp only [settle, Function.update_of_ne hab] at he
        exact hi.held a e he
  · by_cases hq : q = p
    · subst hq; simpa using good_clear rfl rfl rfl
    · obtain ⟨h1, h2, h3, h4⟩ := hi.good q
      simp only [Function.update_of_ne hq]
      refine ⟨fun t ht => ?_, h2, fun a ha => ?_, h4⟩
      · rw [hsame q hq _ (tmp_agent ht)]; exact h1 t ht
      · rw [hsame q hq a (releasing_agent ha)]; exact h3 a ha
  · have hag : ∀ x, (Function.update s.pc p .idle x).agent = some a →
        (s.pc x).agent = some a := by
      intro x hx
      by_cases hxp : x = p
      · subst hxp; simp [Pc.agent] at hx
      · simpa [Function.update_of_ne hxp] using hx
    exact hi.alone q r a (hag q hq) (hag r hr)

omit [DecidableEq α] in
lemma begin_agent (c : Cmd α) {a : α} (h : (begin c).agent = some a) : c.agent = some a := by
  revert h
  cases c with
  | acquire b task sha => simp only [begin]; split <;> exact id
  | release b st => cases st <;> simp [begin, Pc.agent, Cmd.agent]
  | guard env => simp only [begin]; split <;> simp [Pc.agent]
  | _ => exact id

lemma inv_start {p : ι} {c : Cmd α} (hi : Inv TTL s)
    (hc : ∀ a ∈ c.agent, ∀ q ≠ p, (s.pc q).agent ≠ some a) :
    Inv TTL { s with pc := Function.update s.pc p (begin c), held := giveUp s.held c } := by
  have hle : ∀ a, ∀ e ∈ giveUp s.held c a, e ∈ s.held a := by
    intro a e he
    cases c with
    | release b st =>
      by_cases hab : a = b
      · subst hab; simp [giveUp] at he
      · simpa [giveUp, Function.update_of_ne hab] using he
    | _ => exact he
  have hbegin : Good TTL s.disk (giveUp s.held c) (begin c) := by
    cases c with
    | acquire a task sha => simp only [begin]; split <;> exact good_clear rfl rfl rfl
    | release a st =>
      cases st with
      | none => exact good_clear rfl rfl rfl
      | some st =>
        refine ⟨fun _ h => ?_, fun _ h => ?_, fun b hb => ?_, fun _ _ _ _ h => ?_⟩
        · cases h
        · cases h
        · cases hb; simp [giveUp]
        · cases h
    | guard env => simp only [begin]; split <;> exact good_clear rfl rfl rfl
    | _ => exact good_clear rfl rfl rfl
  refine ⟨fun a e he => hi.held a e (hle a e he), fun q => ?_, fun q r a hq hr => ?_⟩
  · by_cases hq : q = p
    · subst hq; simpa using hbegin
    · obtain ⟨h1, h2, h3, h4⟩ := hi.good q
      simp only [Function.update_of_ne hq]
      refine ⟨fun t ht => ⟨fun e he => (h1 t ht).1 e (hle _ e he), (h1 t ht).2⟩, h2, ?_, h4⟩
      intro a ha
      cases hg : giveUp s.held c a with
      | none => rfl
      | some e => have := hle a e hg; rw [h3 a ha] at this; cases this
  · have hag : ∀ x y, x ≠ p → (Function.update s.pc p (begin c) x).agent = some a →
        (Function.update s.pc p (begin c) y).agent = some a → y ≠ p ∧ (s.pc x).agent = some a := by
      intro x y hx h h'
      rw [Function.update_of_ne hx] at h
      refine ⟨?_, h⟩
      rintro rfl
      rw [Function.update_self] at h'
      exact hc a (begin_agent c h') x hx h
    by_cases hqp : q = p
    · by_cases hrp : r = p
      · rw [hqp, hrp]
      · exact absurd hqp (hag r q hrp hr hq).1
    · obtain ⟨hrp, h⟩ := hag q r hqp hq hr
      simp only [Function.update_of_ne hrp] at hr
      exact hi.alone q r a h hr

omit [DecidableEq α] [DecidableEq ι] in
lemma inv_init (now : ℕ) : Inv TTL (init now : St ι α) where
  held a e he := by cases he
  good p := good_clear rfl rfl rfl
  alone p q a hp := by cases hp

lemma inv_step {act : Act ι α} (hi : Inv TTL s) (hc : Undisturbed s act)
    (h : step TTL s act = some s') : Inv TTL s' := by
  rcases step_cases h with ⟨d, rfl, rfl⟩ | ⟨p, c, rfl, -, rfl⟩ | ⟨p, c, code, out, rfl, hp, rfl⟩ |
    ⟨p, rfl, rfl⟩
  · exact inv_tick hi
  · exact inv_start hi hc
  · exact inv_ret hi hp
  · exact inv_go hi hc

/-- A command acts on no unexpired lease of another agent. -/
lemma step_keeps_lease {act : Act ι α} (hi : Inv TTL s) (hc : Undisturbed s act)
    (h : step TTL s act = some s') {r : Lease α} (hr : r ∈ s.disk.lease)
    (hlt : s.disk.now < r.expiry) (ho : ∀ p, act = .go p → (s.pc p).agent ≠ some r.holder) :
    s'.disk.lease = some r := by
  rcases step_cases h with ⟨d, rfl, rfl⟩ | ⟨p, c, rfl, -, rfl⟩ | ⟨p, c, code, out, rfl, hp, rfl⟩ |
    ⟨p, rfl, rfl⟩
  · exact hr
  · exact hr
  · exact hr
  · have hb : Backed s.disk r.holder r.expiry := fun _ => ⟨r, hr, rfl, Nat.le_refl _⟩
    rcases exec_lease TTL s.disk (s.pc p) with
      he | ⟨t, out, hpc, hl, -⟩ | ⟨t, hpc, he⟩ | ⟨t, out, h', e', hpc, -⟩ | ⟨a', st, hpc, -⟩
    · exact he.trans hr
    · rw [hl] at hr; cases hr
    · have hh : r.holder = t.holder := by
        rcases hpc with ⟨out, hpc⟩ | hpc <;>
          · simp only [Undisturbed, hpc] at hc; exact hc r hr
      refine absurd ?_ (ho p rfl)
      rcases hpc with ⟨out, hpc⟩ | hpc <;> rw [hpc, hh] <;> rfl
    · simp only [Undisturbed, hpc] at hc
      have := (hi.good p).stale t out h' e' hpc r.expiry (hc r hr).symm
      omega
    · simp only [Undisturbed, hpc] at hc
      refine absurd ?_ (ho p rfl)
      rw [hpc, hc r hr]; rfl

/-- **Mutual exclusion**: in every interleaving in which no command acts on a lease that
changed under it and no agent runs two commands at once, two agents never hold the rig at
the same time, and no step removes or overwrites another agent's unexpired lease. -/
theorem exclusion {now : ℕ} (h : Reach (step TTL) Undisturbed (init now) s) :
    (∀ a b, Holds s a → Holds s b → a = b) ∧
      ∀ act s', Undisturbed s act → step TTL s act = some s' →
        ∀ r ∈ s.disk.lease, s.disk.now < r.expiry →
          (∀ p, act = .go p → (s.pc p).agent ≠ some r.holder) → s'.disk.lease = some r := by
  have hi : Inv TTL s :=
    h.invariant (Inv TTL) (inv_init now) fun _ _ _ hi hc hs => inv_step hi hc hs
  constructor
  · rintro a b ⟨e, he, hlt⟩ ⟨e', he', hlt'⟩
    obtain ⟨r, hr, ha, -⟩ := (hi.held a e he).1 hlt
    obtain ⟨r', hr', hb, -⟩ := (hi.held b e' he').1 hlt'
    rw [hr] at hr'
    cases hr'
    rw [← ha, hb]
  · intro act s' hc hs r hr hlt ho
    exact step_keeps_lease hi hc hs hr hlt ho

/-- Agent 0 lets its lease expire; agent 1 reclaims it and acquires. -/
def handover : List (Act (Fin 2) (Fin 2)) :=
  .start 0 (.acquire 0 "boot" "") :: List.replicate 4 (.go 0) ++ .tick 10 ::
    .start 1 (.acquire 1 "boot" "") :: List.replicate 10 (.go 1)

theorem exclusion_handover : ∃ s : St (Fin 2) (Fin 2),
    Reach (step 10) Undisturbed (init 0) s ∧ Holds s 1 ∧ ∀ a, Holds s a → a = 1 := by
  obtain ⟨s, hs, h⟩ := exists_reach_of_run (step 10) Undisturbed (init 0) handover
    (fun s => Holds s 1) (by decide)
  have h1 : Holds s 1 := by simpa using h
  exact ⟨s, hs, h1, fun a ha => (exclusion hs).1 a 1 ha h1⟩

/-! ### Without the condition -/

/-- Agents 1 and 2 both find agent 0's expired lease. Agent 1 reclaims and acquires; then
agent 2 renames agent 1's fresh lease away and acquires too. -/
def bothReclaim : List (Act (Fin 3) (Fin 3)) :=
  .start 0 (.acquire 0 "boot" "") :: List.replicate 4 (.go 0) ++ .tick 10 ::
    .start 1 (.acquire 1 "boot" "") :: List.replicate 5 (.go 1) ++
    .start 2 (.acquire 2 "boot" "") :: List.replicate 5 (.go 2) ++
    List.replicate 5 (.go 1) ++ List.replicate 5 (.go 2)

theorem exclusion_fails : ¬ ∀ s : St (Fin 3) (Fin 3), Reach (step 10) Any (init 0) s →
    ∀ a b, Holds s a → Holds s b → a = b := by
  intro hall
  obtain ⟨s, hs, h⟩ := exists_reach_of_run (step 10) Any (init 0) bothReclaim
    (fun s => Holds s 1 ∧ Holds s 2) (by decide)
  obtain ⟨h1, h2⟩ : Holds s 1 ∧ Holds s 2 := by simpa using h
  exact absurd (hall s hs 1 2 h1 h2) (by decide)

end Wallace.RigExclusion
