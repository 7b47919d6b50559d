import Mathlib.Data.Fintype.Basic
import Wallace.RigModel

/-!
What the guard's `ok` says.

`_rig_guard` takes `HOLDER` and `EXPIRY` from two separate reads of a file that others
replace atomically. When both reads see one holder's records, or the first record was
still unexpired when its holder was read, an `ok` is backed by a lease that was live at
some instant of the run. When an expired lease is replaced in between, it is not.
-/

namespace Wallace.RigGuard

open Wallace.Runs Wallace.RigModel

variable {ι α : Type*} {TTL : ℕ}

/-- `lease.env` is one record, of `a`, and it has not expired. -/
def Live (d : Disk α) (a : α) : Prop := ∃ r ∈ d.lease, r.holder = a ∧ d.now < r.expiry

/-- A guard about to read `EXPIRY`: the `HOLDER` it read, and whether that record was
unexpired then. -/
def reading : Pc α → Option (Option α × Bool)
  | .grdExpiry _ h live => some (h, live)
  | _ => none

/-- A guard reads `EXPIRY` from a record of the `HOLDER` it read, unless the record it read
`HOLDER` from was unexpired at that time. -/
def Consistent (s : St ι α) : Act ι α → Prop
  | .go q => ∀ x ∈ reading (s.pc q), x.2 = true ∨ ∀ r ∈ s.disk.lease, some r.holder = x.1
  | _ => True

/-- The process goes on with the command it runs. -/
def SameRun (p : ι) : Act ι α → Prop
  | .start q _ => q ≠ p
  | _ => True

instance [DecidableEq α] (d : Disk α) (a : α) : Decidable (Live d a) :=
  inferInstanceAs (Decidable (∃ r ∈ d.lease, r.holder = a ∧ d.now < r.expiry))

instance [DecidableEq α] (s : St ι α) : ∀ act, Decidable (Consistent s act)
  | .go q => inferInstanceAs (Decidable
      (∀ x ∈ reading (s.pc q), x.2 = true ∨ ∀ r ∈ s.disk.lease, some r.holder = x.1))
  | .tick _ | .start _ _ => isTrue trivial

instance [DecidableEq ι] (p : ι) : ∀ act : Act ι α, Decidable (SameRun p act)
  | .start q _ => inferInstanceAs (Decidable (q ≠ p))
  | .tick _ | .go _ => isTrue trivial

/-- One of the states had a live lease of `a`. -/
def Seen (l : List (St ι α)) (a : α) : Prop := ∃ s ∈ l, Live s.disk a

/-- What the variables of a running guard say about the states since it began. -/
def Knows (l : List (St ι α)) (now : ℕ) : Pc α → Prop
  | .grdTest _ | .grdHolder _ | .idle => True
  | .grdExpiry _ h live => live = true → ∀ a ∈ h, Seen l a
  | .grdClock _ h e => ∀ a ∈ h, ∀ x ∈ e, now < x → Seen l a
  | .grdFlag _ a => Seen l a
  | .ret _ _ out => ∀ a, Msg.ok a ∈ out → Seen l a
  | _ => False

lemma Seen.mono {l : List (St ι α)} {s : St ι α} {a : α} (h : Seen l a) : Seen (l ++ [s]) a := by
  obtain ⟨t, ht, hl⟩ := h
  exact ⟨t, by simp [ht], hl⟩

lemma Knows.mono {l : List (St ι α)} {s : St ι α} {now now' : ℕ} {pc : Pc α}
    (h : Knows l now pc) (hle : now ≤ now') : Knows (l ++ [s]) now' pc := by
  cases pc with
  | grdExpiry env h' live => exact fun hl a ha => (h hl a ha).mono
  | grdClock env h' e => exact fun a ha x hx hlt => (h a ha x hx (by omega)).mono
  | grdFlag env a => exact Seen.mono h
  | ret c code out => exact fun a ha => (h a ha).mono
  | grdTest env => trivial
  | grdHolder env => trivial
  | idle => trivial
  | _ => exact h.elim

lemma knows_deny {l : List (St ι α)} {now : ℕ} (env : GuardEnv α) (r : Bool) :
    Knows l now (deny env r) := by
  intro a ha
  simp at ha

variable [DecidableEq α]

/-- The decision goes on to `ok` only for the holder it was given. -/
lemma knows_guardDecide {l : List (St ι α)} {now : ℕ} (env : GuardEnv α) (h : Option α)
    (hs : ∀ a ∈ h, Seen l a) : Knows l now (guardDecide env h) := by
  rcases h with _ | b
  · simp only [guardDecide]
    split
    · intro a ha; simp at ha
    · exact knows_deny env false
  · simp only [guardDecide]
    split
    · exact hs b rfl
    · intro a ha; simp at ha

/-- One step of the guard itself. -/
lemma knows_exec {l : List (St ι α)} {s : St ι α} {pc : Pc α} (hm : s ∈ l)
    (hc : ∀ x ∈ reading pc, x.2 = true ∨ ∀ r ∈ s.disk.lease, some r.holder = x.1)
    (h : Knows l s.disk.now pc) : Knows l s.disk.now (exec TTL s.disk pc).2 := by
  cases pc with
  | grdTest env =>
    simp only [exec]
    split
    · exact knows_guardDecide env none fun a ha => by cases ha
    · trivial
  | grdHolder env =>
    intro hl a ha
    obtain ⟨r, hr, hlt⟩ := (Option.any_eq_true _ _).mp hl
    refine ⟨s, hm, r, hr, ?_, by simpa using hlt⟩
    simpa [hr] using ha
  | grdExpiry env h' live =>
    intro a ha x hx hlt
    obtain ⟨r, hr, rfl⟩ := Option.map_eq_some_iff.mp hx
    rcases hc _ rfl with hl | hh
    · exact h hl a ha
    · refine ⟨s, hm, r, hr, ?_, hlt⟩
      have := hh r hr
      rw [show h' = some a from ha] at this
      simpa using this
  | grdClock env h' e =>
    refine knows_guardDecide env _ fun a ha => ?_
    split at ha
    · rename_i hany
      obtain ⟨x, hx, hlt⟩ := (Option.any_eq_true _ _).mp hany
      exact h a ha x hx (by simpa using hlt)
    · cases ha
  | grdFlag env b =>
    simp only [exec]
    split
    · exact knows_deny env true
    · intro a ha
      simp only [List.mem_singleton, Msg.ok.injEq] at ha
      subst ha
      exact h
  | ret c code out => exact h
  | idle => trivial
  | _ => exact h.elim

variable [DecidableEq ι]

lemma knows_step {l : List (St ι α)} {s s' : St ι α} {act : Act ι α} {p : ι} (hm : s ∈ l)
    (hc : Consistent s act) (hr : SameRun p act) (hk : Knows l s.disk.now (s.pc p))
    (h : step TTL s act = some s') : Knows (l ++ [s']) s'.disk.now (s'.pc p) := by
  rcases step_cases h with ⟨d, rfl, rfl⟩ | ⟨q, c, rfl, -, rfl⟩ | ⟨q, c, code, out, rfl, -, rfl⟩ |
    ⟨q, rfl, rfl⟩
  · exact hk.mono (Nat.le_add_right _ _)
  · simpa [Function.update_of_ne (Ne.symm hr)] using hk.mono (Nat.le_refl _)
  · by_cases hqp : p = q
    · subst hqp; simp [Knows]
    · simpa [Function.update_of_ne hqp] using hk.mono (Nat.le_refl _)
  · by_cases hqp : p = q
    · subst hqp
      simpa using (knows_exec hm hc hk).mono (Nat.le_refl _)
    · simpa [Function.update_of_ne hqp] using hk.mono (Nat.le_refl _)

/-- **The guard is sound**, in every interleaving in which its two reads are consistent: if
a guard run that began in `s₁` has printed `ok` for `a`, then at some instant since
`lease.env` was one record of `a` that had not expired. -/
theorem guard_sound {s₁ s₂ : St ι α} {l : List (St ι α)} {p : ι} {env : GuardEnv α} {a : α}
    (h₁ : s₁.pc p = .grdTest env)
    (h : Trace (step TTL) (fun s act => Consistent s act ∧ SameRun p act) s₁ l s₂)
    (hok : s₂.pc p = .ret none 0 [.ok a]) : ∃ s ∈ l, Live s.disk a := by
  have hk := (h.invariant (fun l s => Knows l s.disk.now (s.pc p)) (by rw [h₁]; trivial)
    fun l s act s' hk hm hc hs => knows_step hm hc.1 hc.2 hk hs).1
  rw [hok] at hk
  exact hk a (by simp)

/-- Agent 0, identified and enforced. -/
def env : GuardEnv (Fin 3) := ⟨some 0, true, false, false⟩

/-- Agent 0 acquires and runs the guard at once. -/
def acquired : List (Act (Fin 3) (Fin 3)) :=
  .start 0 (.acquire 0 "boot" "") :: List.replicate 4 (.go 0) ++ [.start 0 (.guard env)]

theorem guard_sound_acquired : ∃ (s₁ s₂ : St (Fin 3) (Fin 3)) (l : List (St (Fin 3) (Fin 3))),
    Trace (step 10) (fun s act => Consistent s act ∧ SameRun 0 act) s₁ l s₂ ∧
      s₂.pc 0 = .ret none 0 [.ok 0] ∧ ∃ s ∈ l, Live s.disk 0 := by
  obtain ⟨s₁, hs₁⟩ : ∃ s₁, run (step 10) Any (init 0) acquired = some s₁ := ⟨_, rfl⟩
  have h₁ : s₁.pc 0 = .grdTest env := by cases hs₁; rfl
  obtain ⟨s₂, hs₂⟩ : ∃ s₂, run (step 10) (fun s act => Consistent s act ∧ SameRun 0 act) s₁
      (List.replicate 5 (.go 0)) = some s₂ := by cases hs₁; exact ⟨_, rfl⟩
  have h₂ : s₂.pc 0 = .ret none 0 [.ok 0] := by cases hs₁; cases hs₂; rfl
  obtain ⟨l, hl⟩ := reach_of_run hs₂
  exact ⟨s₁, s₂, l, hl, h₂, guard_sound h₁ hl h₂⟩

/-! ### Without the condition -/

/-- Agent 0's lease has expired, agent 1 is about to rename it away, agent 2 to claim the
slot, and agent 0 begins a guard run. -/
def expired : List (Act (Fin 3) (Fin 3)) :=
  .start 0 (.acquire 0 "boot" "") :: List.replicate 4 (.go 0) ++ .tick 10 ::
    .start 1 (.acquire 1 "boot" "") :: List.replicate 5 (.go 1) ++
    [.start 2 (.acquire 2 "boot" ""), .go 2, .start 0 (.guard env)]

/-- The guard reads agent 0 as the holder, and then agent 2's expiry. -/
def mixed : List (Act (Fin 3) (Fin 3)) := [.go 0, .go 0, .go 1, .go 2, .go 0, .go 0, .go 0]

theorem guard_unsound : ¬ ∀ (s₁ s₂ : St (Fin 3) (Fin 3)) (l : List (St (Fin 3) (Fin 3)))
    (p a : Fin 3), Reach (step 10) Any (init 0) s₁ →
    s₁.pc p = .grdTest ⟨some a, true, false, false⟩ →
    Trace (step 10) (fun _ act => SameRun p act) s₁ l s₂ →
    s₂.pc p = .ret none 0 [.ok a] → ∃ s ∈ l, Live s.disk a := by
  intro hall
  obtain ⟨s₁, hs₁⟩ : ∃ s₁, run (step 10) Any (init 0) expired = some s₁ := ⟨_, rfl⟩
  have h₁ : s₁.pc 0 = .grdTest env := by cases hs₁; rfl
  obtain ⟨s₂, hs₂⟩ : ∃ s₂, run (step 10) (fun s act => SameRun 0 act ∧ ¬ Live s.disk 0) s₁
      mixed = some s₂ := by cases hs₁; exact ⟨_, rfl⟩
  have h₂ : s₂.pc 0 = .ret none 0 [.ok 0] := by cases hs₁; cases hs₂; rfl
  have hlast : ¬ Live s₂.disk 0 := by cases hs₁; cases hs₂; decide
  obtain ⟨l, hl⟩ := reach_of_run hs₂
  obtain ⟨s, hs, hlive⟩ := hall s₁ s₂ l 0 0 (reach_of_run hs₁) h₁
    (hl.mono fun _ _ h => h.1) h₂
  exact hl.forall_mem (fun _ _ h => h.2) hlast s hs hlive

end Wallace.RigGuard
