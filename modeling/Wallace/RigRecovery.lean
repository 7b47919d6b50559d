import Mathlib.Data.Fintype.Basic
import Wallace.RigModel

/-!
When a needed recovery reaches the next holder.

A wedged release touches `NEEDS_RECOVERY` before it removes its lease; the reclaim of an
expired lease renames it away first and touches the flag afterwards. In between, the slot
is free and the flag absent, and an agent that claims it then is not warned.
-/

namespace Wallace.RigRecovery

open Wallace.Runs Wallace.RigModel

variable {ι α : Type*} {TTL : ℕ}

/-- Between the rename of an expired lease and the touch of the flag. -/
def touching : Pc α → Bool
  | .acqTouch _ _ => true
  | _ => false

/-- About to test the flag, the lease claimed with `ln`. -/
def claiming : Pc α → Bool
  | .acqFlag _ _ => true
  | _ => false

/-- About to remove the lease of a wedged release. -/
def wedging : Pc α → Bool
  | .relRm _ .wedged => true
  | _ => false

/-- About to remove the flag. -/
def clearing : Pc α → Bool
  | .recRm _ => true
  | _ => false

/-- The step takes an expired lease, or the lease of a wedged release, out of the way. -/
def Vacates (s : St ι α) : Act ι α → Prop
  | .go p => (∃ t out h e, s.pc p = .acqMv t out h e ∧
      ∃ r ∈ s.disk.lease, r.expiry ≤ s.disk.now) ∨ wedging (s.pc p) = true
  | _ => False

/-- The step is not the removal of the flag by `recovered`. -/
def NotRecovered (s : St ι α) : Act ι α → Prop
  | .go p => clearing (s.pc p) = false
  | _ => True

/-- A claim is reported while nobody is between rename and touch, and a wedged release
removes its lease while the flag it touched is there. -/
def Timely (s : St ι α) : Act ι α → Prop
  | .go p => (claiming (s.pc p) = true → ∀ q, touching (s.pc q) = false) ∧
      (wedging (s.pc p) = true → s.disk.flag = true)
  | _ => True

instance (s : St ι α) : ∀ act, Decidable (NotRecovered s act)
  | .go p => inferInstanceAs (Decidable (clearing (s.pc p) = false))
  | .tick _ | .start _ _ => isTrue trivial

instance [Fintype ι] (s : St ι α) : ∀ act, Decidable (Timely s act)
  | .go p => inferInstanceAs (Decidable ((claiming (s.pc p) = true →
      ∀ q, touching (s.pc q) = false) ∧ (wedging (s.pc p) = true → s.disk.flag = true)))
  | .tick _ | .start _ _ => isTrue trivial

/-- The flag is there, or a process is about to touch it. -/
def Pending (s : St ι α) : Prop := s.disk.flag = true ∨ ∃ q, touching (s.pc q) = true

variable [DecidableEq α] [DecidableEq ι] {s s' : St ι α} {act : Act ι α}

/-- After the lease is out of the way the flag is there or on its way. -/
lemma pending_of_vacates (hv : Vacates s act) (hc : Timely s act)
    (h : step TTL s act = some s') : Pending s' := by
  cases act with
  | tick d => cases hv
  | start p c => cases hv
  | go p =>
    rcases hv with ⟨t, out, h', e, hpc, r, hr, -⟩ | hw
    · simp only [step, hpc, exec, show s.disk.lease = some r from hr, Option.some.injEq] at h
      subst h
      exact .inr ⟨p, by simp [touching]⟩
    · have hf := hc.2 hw
      cases hpc : s.pc p <;> rw [hpc] at hw <;> try cases hw
      simp only [step, hpc, exec, Option.some.injEq] at h
      subst h
      exact .inl hf

/-- It stays so until `recovered` runs. -/
lemma pending_step (hp : Pending s) (hn : NotRecovered s act)
    (h : step TTL s act = some s') : Pending s' := by
  rcases step_cases h with ⟨d, rfl, rfl⟩ | ⟨p, c, rfl, hpc, rfl⟩ |
    ⟨p, c, code, out, rfl, hpc, rfl⟩ | ⟨p, rfl, rfl⟩
  · exact hp
  · refine hp.imp id ?_
    rintro ⟨q, hq⟩
    have hqp : q ≠ p := by rintro rfl; simp [hpc, touching] at hq
    exact ⟨q, by simpa [Function.update_of_ne hqp] using hq⟩
  · refine hp.imp id ?_
    rintro ⟨q, hq⟩
    have hqp : q ≠ p := by rintro rfl; simp [hpc, touching] at hq
    exact ⟨q, by simpa [Function.update_of_ne hqp] using hq⟩
  · rcases hp with hf | ⟨q, hq⟩
    · left
      rcases exec_flag TTL s.disk (s.pc p) with h' | ⟨-, h'⟩ | ⟨⟨a, h'⟩, -⟩
      · exact h'.trans hf
      · exact h'
      · simp [NotRecovered, h', clearing] at hn
    · by_cases hqp : q = p
      · -- the process about to touch the flag does so
        subst hqp
        left
        cases hpc : s.pc q <;> rw [hpc] at hq <;> first | rfl | cases hq
      · exact .inr ⟨q, by simpa [Function.update_of_ne hqp] using hq⟩

/-- **A needed recovery is handed over**: in every interleaving whose steps are timely, an
acquire that claims the lease after an expired lease was reclaimed, or after a wedged
release removed its own, with no `recovered` in between, finds the flag and returns 0 with
the warning. -/
theorem recovery_handed_over {s₀ s₁ s₂ s₃ : St ι α} {act : Act ι α} {p : ι} {t : Lease α}
    {out : List (Msg α)} (hc : Timely s₀ act) (hv : Vacates s₀ act)
    (h₁ : step TTL s₀ act = some s₁)
    (h₂ : Reach (step TTL) (fun s a => Timely s a ∧ NotRecovered s a) s₁ s₂)
    (hp : s₂.pc p = .acqFlag t out) (hc' : Timely s₂ (.go p))
    (h₃ : step TTL s₂ (.go p) = some s₃) :
    s₂.disk.flag = true ∧
      s₃.pc p = .ret (some (t.holder, t.expiry)) 0 (out ++ [.needsRecovery t.holder]) := by
  have hpend : Pending s₂ := h₂.invariant Pending (pending_of_vacates hv hc h₁)
    fun s a s' hi hc hs => pending_step hi hc.2 hs
  have hflag : s₂.disk.flag = true := by
    rcases hpend with h | ⟨q, hq⟩
    · exact h
    · rw [hc'.1 (by rw [hp]; rfl) q] at hq; cases hq
  refine ⟨hflag, ?_⟩
  simp only [step, hp, exec, hflag, if_true, Option.some.injEq] at h₃
  subst h₃
  simp

/-- Agent 0's lease has expired and agent 1 is about to rename it away. -/
def stale : List (Act (Fin 3) (Fin 3)) :=
  .start 0 (.acquire 0 "boot" "") :: List.replicate 4 (.go 0) ++ .tick 10 ::
    .start 1 (.acquire 1 "boot" "") :: List.replicate 5 (.go 1)

/-- The reclaimer that goes on to claim the slot itself is warned. -/
theorem recovery_handed_over_reclaim : ∃ s : St (Fin 3) (Fin 3),
    s.pc 1 = .ret (some (1, 20)) 0
      [.reclaimed (some 0), .acquired 1 "boot", .needsRecovery 1] := by
  obtain ⟨s₀, h₀⟩ : ∃ s₀, run (step 10) Any (init 0) stale = some s₀ := ⟨_, rfl⟩
  obtain ⟨s₁, h₁⟩ : ∃ s₁, step 10 s₀ (.go 1) = some s₁ := by cases h₀; exact ⟨_, rfl⟩
  obtain ⟨s₂, h₂⟩ : ∃ s₂, run (step 10) (fun s a => Timely s a ∧ NotRecovered s a) s₁
      [.go 1, .go 1] = some s₂ := by cases h₀; cases h₁; exact ⟨_, rfl⟩
  obtain ⟨s₃, h₃⟩ : ∃ s₃, step 10 s₂ (.go 1) = some s₃ := by
    cases h₀; cases h₁; cases h₂; exact ⟨_, rfl⟩
  have hv : Vacates s₀ (.go 1) := by
    cases h₀
    exact .inl ⟨_, _, _, _, rfl, buildLease 10 0 0 "boot" "", rfl, by decide⟩
  have hp : s₂.pc 1 = .acqFlag (buildLease 10 10 1 "boot" "")
      [.reclaimed (some 0), .acquired 1 "boot"] := by cases h₀; cases h₁; cases h₂; rfl
  have hc : Timely s₀ (.go 1) := by cases h₀; decide
  have hc' : Timely s₂ (.go 1) := by cases h₀; cases h₁; cases h₂; decide
  exact ⟨s₃, (recovery_handed_over hc hv h₁ (reach_of_run h₂) hp hc' h₃).2⟩

/-! ### Without the condition -/

/-- Agent 2 claims the slot between agent 1's rename and touch, and is not warned. -/
theorem recovery_lost : ¬ ∀ (s₀ s₁ s₂ s₃ : St (Fin 3) (Fin 3)) (act : Act (Fin 3) (Fin 3))
    (p : Fin 3) (t : Lease (Fin 3)) (out : List (Msg (Fin 3))),
    Reach (step 10) Any (init 0) s₀ → Vacates s₀ act → step 10 s₀ act = some s₁ →
    (∀ t out, s₁.pc p ≠ .acqFlag t out) → Reach (step 10) NotRecovered s₁ s₂ →
    s₂.pc p = .acqFlag t out → step 10 s₂ (.go p) = some s₃ →
    s₂.disk.flag = true ∧
      s₃.pc p = .ret (some (t.holder, t.expiry)) 0 (out ++ [.needsRecovery t.holder]) := by
  intro hall
  have h := hall _ _ _ _ (.go 1) 2 (buildLease 10 10 2 "boot" "") [.acquired 2 "boot"]
    (reach_of_run (l := stale) rfl)
    (.inl ⟨_, _, _, _, rfl, buildLease 10 0 0 "boot" "", rfl, by decide⟩) rfl
    (fun _ _ h => by cases h)
    (reach_of_run (l := [.start 2 (.acquire 2 "boot" ""), .go 2, .go 2]) rfl) rfl rfl
  cases h.1

end Wallace.RigRecovery
