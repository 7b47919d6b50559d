import Mathlib.Data.List.Basic
import Mathlib.Tactic.Common
import Wallace.DockTxModel
import Wallace.Masks

/-!
The transmit FIFO of the DockChannel mailbox has one owner.

The lock guards `tx_active` and the interrupt mask, the owner word guards the FIFO, and the
two meet in the locked sections. At any time the word is idle, or it is held by the one
execution whose compare-and-swap took it, or its message is active and waits for the FIFO
to drain. Only the holder writes, and it starts only on an empty FIFO, so that what a timed
out send has left behind makes the next ones give up and never mixes with them.
-/

namespace Wallace.DockTxOwner

open Runs DockTxModel Masks

variable {ι : Type*} {cfg : Config} {base : Base}

/-- The number of the send that an execution works for. -/
def sendOf : Pc → Option ℕ
  | .idle => none
  | .dataClaim n _ | .dataLock n _ | .dataRelease n | .atomClaim n _ | .atomAvail n _
  | .atomWrite n _ | .atomPoll n | .atomPollLast n | .atomRelease n _ => some n

/-- What an execution has put in the owner word and not yet taken out. -/
def owns : Pc → Option Owner
  | .idle | .dataClaim _ _ | .atomClaim _ _ => none
  | .dataLock _ _ | .dataRelease _ => some .async
  | .atomAvail _ _ | .atomWrite _ _ | .atomPoll _ | .atomPollLast _ | .atomRelease _ _ =>
    some .atomic

/-- An execution that has not written, and if it is about to return a refusal, will not. -/
def unwritten : Pc → Bool
  | .atomWrite _ _ | .atomPoll _ | .atomPollLast _ => false
  | .atomRelease _ ret => ret.refused
  | _ => true

lemma owns_ne_idle {pc : Pc} {o : Owner} (h : owns pc = some o) : o ≠ .idle := by
  cases pc <;> simp only [owns, Option.some.injEq, reduceCtorEq] at h <;> subst h <;> simp

/-! ### What one step of a send does -/

/-- The shared state after `send_data` has loaded its message. -/
def loaded (cfg : Config) (base : Base) (s : Shared) (n : ℕ) (m : List UInt8) : Shared :=
  ((if cfg.pollMode then ({ s with txActive := true, txSend := n } : Shared).put n
        (base.writePending m)
    else (({ s with txActive := true, txSend := n } : Shared).put n
        (base.writePending m)).irqEnable cfg.irqTx).ret n .ok)

/-- The effects a step of a send can have on the shared state. -/
inductive Effect (cfg : Config) (base : Base) (s : Shared) (pc : Pc) : Shared → Pc → Prop
  /-- It only looks, and starts to write only if the FIFO is empty. -/
  | look (pc' : Pc) (hsend : sendOf pc' = sendOf pc) (howns : owns pc' = owns pc)
      (hun : unwritten pc' = true → unwritten pc = true)
      (hw : ∀ n m, pc' = .atomWrite n m → s.hw = []) : Effect cfg base s pc s pc'
  | claim (n : ℕ) (o : Owner) (pc' : Pc) (hidle : s.owner = .idle)
      (hsend : sendOf pc = some n) (hun : unwritten pc = true) (hsend' : sendOf pc' = some n)
      (howns' : owns pc' = some o) (hw : ∀ n m, pc' ≠ .atomWrite n m) :
      Effect cfg base s pc { s with owner := o, holder := n } pc'
  | write (n : ℕ) (bs : List UInt8) (pc' : Pc) (hpc : ∃ m, pc = .atomWrite n m)
      (hsend' : sendOf pc' = some n) (howns' : owns pc' = some .atomic)
      (hun : unwritten pc' = false) : Effect cfg base s pc (s.put n bs) pc'
  | load (n : ℕ) (m : List UInt8) (hpc : pc = .dataLock n m) (hact : s.txActive = false)
      (hempty : s.hw = []) : Effect cfg base s pc (loaded cfg base s n m) .idle
  | free (n : ℕ) (o : Owner) (c : Code) (hsend : sendOf pc = some n) (howns : owns pc = some o)
      (hun : c.refused = true → unwritten pc = true) :
      Effect cfg base s pc ((s.cmpxchg o .idle).2.ret n c) .idle
  | refuse (n : ℕ) (c : Code) (hsend : sendOf pc = some n) (howns : owns pc = none)
      (hun : unwritten pc = true) : Effect cfg base s pc (s.ret n c) .idle

lemma txFree_eq (s : Shared) : s.txFree = fifoSize ↔ s.hw = [] := by
  unfold Shared.txFree fifoSize
  rw [← List.length_eq_zero_iff]
  omega

lemma txEmpty_eq (s : Shared) : base.txEmpty s.txFree = true ↔ s.hw = [] :=
  (base.txEmpty_iff _ (Nat.sub_le fifoSize s.hw.length)).trans (txFree_eq s)

/-- **One step of a send** has one of the effects. -/
theorem exec_effect (s : Shared) (e : Bool) (pc : Pc) (hpc : pc ≠ .idle) :
    Effect cfg base s pc (exec cfg base s e pc).1 (exec cfg base s e pc).2 := by
  cases pc with
  | idle => exact absurd rfl hpc
  | dataClaim n m =>
    cases ho : s.owner with
    | idle =>
      simp only [exec, Shared.cmpxchg, ho, if_true]
      exact .claim n .async _ ho rfl rfl rfl rfl nofun
    | _ =>
      simp only [exec, Shared.cmpxchg, ho, reduceCtorEq, if_false]
      exact .refuse n .ebusy rfl rfl rfl
  | dataLock n m =>
    simp only [exec, sendDataLocked]
    split_ifs with h1 h2
    · exact .look _ rfl rfl (fun _ => rfl) nofun
    all_goals
      simp only [Bool.or_eq_true, Bool.not_eq_true', not_or, Bool.not_eq_true,
        Bool.not_eq_false] at h1
      have hl := @Effect.load cfg base s _ n m rfl h1.1 ((txEmpty_eq s).mp h1.2)
      simpa [loaded, h2] using hl
  | dataRelease n => exact .free n .async .ebusy rfl rfl fun _ => rfl
  | atomClaim n m =>
    cases ho : s.owner with
    | idle =>
      simp only [exec, Shared.cmpxchg, ho, if_true]
      exact .claim n .atomic _ ho rfl rfl rfl rfl nofun
    | _ =>
      simp only [exec, Shared.cmpxchg, ho, reduceCtorEq, if_false]
      exact .refuse n .ebusy rfl rfl rfl
  | atomAvail n m =>
    simp only [exec]
    split_ifs with h
    · exact .look _ rfl rfl (fun _ => rfl) nofun
    · exact .look _ rfl rfl (fun _ => rfl) fun _ _ _ => (txFree_eq s).mp (not_not.mp h)
  | atomWrite n m =>
    simp only [exec]
    generalize m.drop _ = left
    refine .write n _ _ ⟨m, rfl⟩ ?_ ?_ ?_
    all_goals split_ifs <;> rfl
  | atomPoll n =>
    simp only [exec]
    split_ifs
    all_goals exact .look _ rfl rfl nofun nofun
  | atomPollLast n =>
    simp only [exec]
    split_ifs
    all_goals exact .look _ rfl rfl nofun nofun
  | atomRelease n ret => exact .free n .atomic ret rfl rfl id

/-! ### The invariant -/

/-- What holds of one execution. -/
structure Good (s : Shared) (next : ℕ) (pc : Pc) : Prop where
  own : ∀ o, owns pc = some o →
    s.owner = o ∧ sendOf pc = some s.holder ∧ s.txActive = false
  writing : ∀ n m, pc = .atomWrite n m → ∀ b ∈ s.hw, b.1 = n
  fresh : ∀ n, sendOf pc = some n →
    n < next ∧ (∀ c, (n, c) ∉ s.returned) ∧ (unwritten pc = true → ∀ b ∈ s.log, b.1 ≠ n)

/-- What holds of the shared state alone. -/
structure Sound (cfg : Config) (s : Shared) (next : ℕ) : Prop where
  active : s.txActive = true → s.owner = .async ∧ s.txSend = s.holder
  mask : s.irqMask &&& cfg.irqTx ≠ 0 → s.txActive = true ∧ cfg.pollMode = false
  single : ∀ b ∈ s.hw, ∀ b' ∈ s.hw, b.1 = b'.1
  log : ∀ b ∈ s.log, b.1 < next
  returned : ∀ r ∈ s.returned, r.1 < next ∧ (r.2.refused = true → ∀ b ∈ s.log, b.1 ≠ r.1)

structure Inv (cfg : Config) (s : St ι) : Prop where
  good : ∀ p, Good s.shared s.next (s.pc p)
  distinct : ∀ p q n, sendOf (s.pc p) = some n → sendOf (s.pc q) = some n → p = q
  held : s.shared.owner ≠ .idle →
    s.shared.txActive = true ∨ ∃ p, owns (s.pc p) = some s.shared.owner
  sound : Sound cfg s.shared s.next

lemma Good.idle (s : Shared) (next : ℕ) : Good s next .idle := ⟨nofun, nofun, nofun⟩

/-- Two executions never both own the FIFO. -/
lemma Inv.alone {s : St ι} (h : Inv cfg s) {p q : ι} {o o' : Owner}
    (hp : owns (s.pc p) = some o) (hq : owns (s.pc q) = some o') : p = q :=
  h.distinct p q _ ((h.good p).own o hp).2.1 ((h.good q).own o' hq).2.1

/-- What another send does to an execution: it may log and return under its own number, and
touches what an owner relies on only if this execution is none. -/
lemma Good.frame {s s' : Shared} {next next' n : ℕ} {pc : Pc} (h : Good s next pc)
    (hn : sendOf pc ≠ some n) (hnext : next ≤ next')
    (hown : owns pc = none ∨ s'.owner = s.owner ∧ s'.holder = s.holder ∧
      s'.txActive = s.txActive ∧ s'.hw ⊆ s.hw)
    (hlog : ∀ b ∈ s'.log, b ∈ s.log ∨ b.1 = n)
    (hret : ∀ r ∈ s'.returned, r ∈ s.returned ∨ r.1 = n) : Good s' next' pc := by
  refine ⟨?_, ?_, ?_⟩
  · intro o ho
    rcases hown with hown | ⟨h1, h2, h3, -⟩
    · rw [hown] at ho
      cases ho
    · rw [h1, h2, h3]
      exact h.own o ho
  · rintro k m rfl b hb
    rcases hown with hown | ⟨-, -, -, h4⟩
    · cases hown
    · exact h.writing k m rfl b (h4 hb)
  · intro k hk
    obtain ⟨h1, h2, h3⟩ := h.fresh k hk
    have hkn : k ≠ n := fun e => hn (e ▸ hk)
    refine ⟨by omega, fun c hc => ?_, fun hu b hb => ?_⟩
    · exact (hret _ hc).elim (h2 c) hkn
    · rcases hlog b hb with hb | hb
      · exact h3 hu b hb
      · exact fun e => hkn (e.symm.trans hb)

/-- If `p` owns the FIFO no other execution does. -/
lemma Inv.others {s : St ι} (h : Inv cfg s) {p q : ι} {o : Owner}
    (hp : owns (s.pc p) = some o) (hq : q ≠ p) : owns (s.pc q) = none := by
  cases hqo : owns (s.pc q) with
  | none => rfl
  | some o' => exact absurd (h.alone hqo hp) hq

lemma Inv.send_ne {s : St ι} (h : Inv cfg s) {p q : ι} {n : ℕ}
    (hp : sendOf (s.pc p) = some n) (hq : q ≠ p) : sendOf (s.pc q) ≠ some n :=
  fun hqn => hq (h.distinct q p n hqn hp)

section Sends

variable [DecidableEq ι]

/-- The parts that a move of `p` has to show. -/
lemma Inv.update {s : St ι} (h : Inv cfg s) (p : ι) {sh : Shared} {next : ℕ} {pc : Pc}
    (hgood : Good sh next pc) (hothers : ∀ q, q ≠ p → Good sh next (s.pc q))
    (hsend : ∀ q, q ≠ p → ∀ n, sendOf pc = some n → sendOf (s.pc q) ≠ some n)
    (hheld : sh.owner ≠ .idle → sh.txActive = true ∨ owns pc = some sh.owner ∨
      ∃ q, q ≠ p ∧ owns (s.pc q) = some sh.owner)
    (hsound : Sound cfg sh next) : Inv cfg ⟨sh, next, Function.update s.pc p pc⟩ := by
  refine ⟨?_, ?_, ?_, hsound⟩
  · intro q
    by_cases hq : q = p
    · subst hq
      simpa using hgood
    · simpa [Function.update_of_ne hq] using hothers q hq
  · intro q r n hqn hrn
    dsimp only at hqn hrn
    by_cases hq : q = p <;> by_cases hr : r = p
    · rw [hq, hr]
    · subst hq
      rw [Function.update_self] at hqn
      rw [Function.update_of_ne hr] at hrn
      exact absurd hrn (hsend r hr n hqn)
    · subst hr
      rw [Function.update_self] at hrn
      rw [Function.update_of_ne hq] at hqn
      exact absurd hqn (hsend q hq n hrn)
    · rw [Function.update_of_ne hq] at hqn
      rw [Function.update_of_ne hr] at hrn
      exact h.distinct q r n hqn hrn
  · intro ho
    rcases hheld ho with ha | hp | ⟨q, hq, hqo⟩
    · exact .inl ha
    · exact .inr ⟨p, by simpa using hp⟩
    · exact .inr ⟨q, by simpa [Function.update_of_ne hq] using hqo⟩

variable {s : St ι} {p : ι}

lemma inv_look (h : Inv cfg s) {pc : Pc} (hsend : sendOf pc = sendOf (s.pc p))
    (howns : owns pc = owns (s.pc p)) (hun : unwritten pc = true → unwritten (s.pc p) = true)
    (hw : ∀ n m, pc = .atomWrite n m → s.shared.hw = []) :
    Inv cfg (s.move p (s.shared, pc)) := by
  have hg := h.good p
  refine h.update p ⟨?_, ?_, ?_⟩ (fun q _ => h.good q) ?_ ?_ h.sound
  · rw [hsend, howns]
    exact hg.own
  · intro n m hpc b hb
    rw [hw n m hpc] at hb
    cases hb
  · intro n hn
    obtain ⟨h1, h2, h3⟩ := hg.fresh n (hsend ▸ hn)
    exact ⟨h1, h2, fun hu => h3 (hun hu)⟩
  · intro q hq n hn
    exact h.send_ne (hsend ▸ hn) hq
  · intro ho
    rcases h.held ho with ha | ⟨q, hq⟩
    · exact .inl ha
    · by_cases hqp : q = p
      · exact .inr (.inl (by rw [howns, ← hqp, hq]))
      · exact .inr (.inr ⟨q, hqp, hq⟩)

omit [DecidableEq ι] in
/-- With the word idle nobody owns the FIFO and no message is active. -/
lemma Inv.free (h : Inv cfg s) (hidle : s.shared.owner = .idle) :
    (∀ q, owns (s.pc q) = none) ∧ s.shared.txActive = false := by
  refine ⟨fun q => ?_, ?_⟩
  · cases hq : owns (s.pc q) with
    | none => rfl
    | some o => exact absurd (((h.good q).own o hq).1.symm.trans hidle) (owns_ne_idle hq)
  · by_contra ha
    have := (h.sound.active (by simpa using ha)).1
    rw [hidle] at this
    cases this

lemma inv_claim (h : Inv cfg s) {n : ℕ} {o : Owner} {pc : Pc}
    (hidle : s.shared.owner = .idle) (hsend : sendOf (s.pc p) = some n)
    (hun : unwritten (s.pc p) = true) (hsend' : sendOf pc = some n) (howns' : owns pc = some o)
    (hw : ∀ n m, pc ≠ .atomWrite n m) :
    Inv cfg (s.move p ({ s.shared with owner := o, holder := n }, pc)) := by
  obtain ⟨hnone, hact⟩ := h.free hidle
  have hs := h.sound
  refine h.update p ⟨?_, ?_, ?_⟩ ?_ ?_ ?_ ?_
  · intro o' ho'
    rw [howns'] at ho'
    cases ho'
    exact ⟨rfl, hsend', hact⟩
  · intro k m hpc
    exact absurd hpc (hw k m)
  · intro k hk
    rw [hsend'] at hk
    cases hk
    obtain ⟨h1, h2, h3⟩ := (h.good p).fresh n hsend
    exact ⟨h1, h2, fun _ => h3 hun⟩
  · intro q hq
    exact (h.good q).frame (h.send_ne hsend hq) (Nat.le_refl _) (.inl (hnone q))
      (fun b hb => .inl hb) fun r hr => .inl hr
  · intro q hq k hk
    rw [hsend'] at hk
    exact hk ▸ h.send_ne hsend hq
  · exact fun _ => .inr (.inl howns')
  · refine ⟨fun ha => ?_, hs.mask, hs.single, hs.log, hs.returned⟩
    rw [hact] at ha
    cases ha

lemma mem_tagged {n : ℕ} {bs : List UInt8} {l : List (ℕ × UInt8)} {b : ℕ × UInt8}
    (hb : b ∈ l ++ bs.map (n, ·)) : b ∈ l ∨ b.1 = n := by
  refine (List.mem_append.mp hb).imp_right fun hb => ?_
  obtain ⟨x, -, rfl⟩ := List.mem_map.mp hb
  rfl

/-- Writing under the number of a send that has not returned. -/
lemma Sound.logged {sh : Shared} {next n : ℕ} (hs : Sound cfg sh next) (hn : n < next)
    (hret : ∀ c, (n, c) ∉ sh.returned) (bs : List UInt8) :
    (∀ b ∈ sh.log ++ bs.map (n, ·), b.1 < next) ∧
      ∀ r ∈ sh.returned, r.1 < next ∧
        (r.2.refused = true → ∀ b ∈ sh.log ++ bs.map (n, ·), b.1 ≠ r.1) := by
  refine ⟨fun b hb => ?_, fun r hr => ?_⟩
  · rcases mem_tagged hb with hb | hb
    · exact hs.log b hb
    · rw [hb]
      exact hn
  · obtain ⟨h1, h2⟩ := hs.returned r hr
    refine ⟨h1, fun hc b hb => ?_⟩
    rcases mem_tagged hb with hb | hb
    · exact h2 hc b hb
    · intro e
      exact hret r.2 (by rw [← hb, e]; exact hr)

lemma inv_write (h : Inv cfg s) {n : ℕ} {m : List UInt8} {pc : Pc}
    (hpc : s.pc p = .atomWrite n m) (hsend' : sendOf pc = some n)
    (howns' : owns pc = some .atomic) (hun : unwritten pc = false) (bs : List UInt8) :
    Inv cfg (s.move p (s.shared.put n bs, pc)) := by
  have hg := h.good p
  have hs := h.sound
  have hsend : sendOf (s.pc p) = some n := by rw [hpc]; rfl
  have howns : owns (s.pc p) = some .atomic := by rw [hpc]; rfl
  obtain ⟨ho, hh, hact⟩ := hg.own _ howns
  obtain ⟨hn, hnret, -⟩ := hg.fresh n hsend
  obtain ⟨hlog, hret⟩ := hs.logged hn hnret bs
  have hhw : ∀ b ∈ (s.shared.put n bs).hw, b.1 = n := fun b hb =>
    (mem_tagged hb).elim (hg.writing n m hpc b) id
  refine h.update p ⟨?_, ?_, ?_⟩ ?_ ?_ ?_ ⟨hs.active, hs.mask, ?_, hlog, hret⟩
  · intro o' ho'
    rw [howns'] at ho'
    cases ho'
    exact ⟨ho, by rw [hsend', ← hsend, hh]; rfl, hact⟩
  · rintro k m' rfl
    cases hsend'
    exact hhw
  · intro k hk
    rw [hsend'] at hk
    cases hk
    exact ⟨hn, hnret, fun hu => by rw [hun] at hu; cases hu⟩
  · intro q hq
    exact (h.good q).frame (h.send_ne hsend hq) (Nat.le_refl _) (.inl (h.others howns hq))
      (fun b hb => mem_tagged hb) fun r hr => .inl hr
  · intro q hq k hk
    rw [hsend'] at hk
    exact hk ▸ h.send_ne hsend hq
  · exact fun _ => .inr (.inl (howns'.trans (congrArg some ho.symm)))
  · intro b hb b' hb'
    rw [hhw b hb, hhw b' hb']

/-- Returning with a code that fits what the send has written. -/
lemma Sound.ret {sh : Shared} {next n : ℕ} {c : Code} (hs : Sound cfg sh next) (hn : n < next)
    (hc : c.refused = true → ∀ b ∈ sh.log, b.1 ≠ n) : Sound cfg (sh.ret n c) next := by
  refine ⟨hs.active, hs.mask, hs.single, hs.log, ?_⟩
  intro r hr
  rcases List.mem_append.mp hr with hr | hr
  · exact hs.returned r hr
  · cases List.mem_singleton.mp hr
    exact ⟨hn, hc⟩

lemma mem_ret {sh : Shared} {n : ℕ} {c : Code} {r : ℕ × Code}
    (hr : r ∈ (sh.ret n c).returned) : r ∈ sh.returned ∨ r.1 = n := by
  rcases List.mem_append.mp hr with hr | hr
  · exact .inl hr
  · cases List.mem_singleton.mp hr
    exact .inr rfl

lemma loaded_owner (sh : Shared) (n : ℕ) (m : List UInt8) :
    (loaded cfg base sh n m).owner = sh.owner := by
  unfold loaded
  split_ifs <;> rfl

lemma loaded_txActive (sh : Shared) (n : ℕ) (m : List UInt8) :
    (loaded cfg base sh n m).txActive = true := by
  unfold loaded
  split_ifs <;> rfl

lemma loaded_log (sh : Shared) (n : ℕ) (m : List UInt8) :
    (loaded cfg base sh n m).log = sh.log ++ (base.writePending m).map (n, ·) := by
  unfold loaded
  split_ifs <;> rfl

lemma loaded_returned (sh : Shared) (n : ℕ) (m : List UInt8) :
    (loaded cfg base sh n m).returned = (sh.ret n .ok).returned := by
  unfold loaded
  split_ifs <;> rfl

lemma Sound.loaded {sh : Shared} {next n : ℕ} (hs : Sound cfg sh next) (hn : n < next)
    (hret : ∀ c, (n, c) ∉ sh.returned) (ho : sh.owner = .async) (hh : n = sh.holder)
    (hempty : sh.hw = []) (m : List UInt8) : Sound cfg (loaded cfg base sh n m) next := by
  obtain ⟨hlog, hret⟩ := hs.logged hn hret (base.writePending m)
  have hsingle : ∀ b ∈ sh.hw ++ (base.writePending m).map (n, ·),
      ∀ b' ∈ sh.hw ++ (base.writePending m).map (n, ·), b.1 = b'.1 := by
    intro b hb b' hb'
    rw [hempty] at hb hb'
    exact ((mem_tagged hb).resolve_left nofun).trans ((mem_tagged hb').resolve_left nofun).symm
  unfold DockTxOwner.loaded
  split_ifs with hpoll
  · refine Sound.ret ?_ hn nofun
    exact ⟨fun _ => ⟨ho, hh⟩, fun hm => ⟨rfl, (hs.mask hm).2⟩, hsingle, hlog, hret⟩
  · refine Sound.ret ?_ hn nofun
    exact ⟨fun _ => ⟨ho, hh⟩, fun _ => ⟨rfl, by simpa using hpoll⟩, hsingle, hlog, hret⟩

/-- The locked section that loads a message: `tx_active` takes over from the execution. -/
lemma inv_load (h : Inv cfg s) {n : ℕ} {m : List UInt8} (hpc : s.pc p = .dataLock n m)
    (hempty : s.shared.hw = []) : Inv cfg (s.move p (loaded cfg base s.shared n m, .idle)) := by
  have hsend : sendOf (s.pc p) = some n := by rw [hpc]; rfl
  have howns : owns (s.pc p) = some .async := by rw [hpc]; rfl
  obtain ⟨ho, hh, -⟩ := (h.good p).own _ howns
  have hhn : n = s.shared.holder := Option.some.inj (hsend.symm.trans hh)
  obtain ⟨hn, hret, -⟩ := (h.good p).fresh n hsend
  refine h.update p (.idle _ _) ?_ nofun ?_ (h.sound.loaded hn hret ho hhn hempty m)
  · intro q hq
    refine (h.good q).frame (h.send_ne hsend hq) (Nat.le_refl _) (.inl (h.others howns hq)) ?_ ?_
    · rw [loaded_log]
      exact fun b hb => mem_tagged hb
    · rw [loaded_returned]
      exact fun r hr => mem_ret hr
  · exact fun _ => .inl (loaded_txActive _ _ _)

lemma inv_free (h : Inv cfg s) {n : ℕ} {o : Owner} {c : Code}
    (hsend : sendOf (s.pc p) = some n) (howns : owns (s.pc p) = some o)
    (hun : c.refused = true → unwritten (s.pc p) = true) :
    Inv cfg (s.move p ((s.shared.cmpxchg o .idle).2.ret n c, .idle)) := by
  have hs := h.sound
  obtain ⟨ho, -, hact⟩ := (h.good p).own _ howns
  obtain ⟨hn, -, hlog⟩ := (h.good p).fresh n hsend
  have hcas : (s.shared.cmpxchg o .idle).2 = { s.shared with owner := .idle } := by
    simp [Shared.cmpxchg, ho]
  rw [hcas]
  refine h.update p (.idle _ _) ?_ nofun (fun hi => absurd rfl hi) ?_
  · intro q hq
    exact (h.good q).frame (h.send_ne hsend hq) (Nat.le_refl _) (.inl (h.others howns hq))
      (fun b hb => .inl hb) fun r hr => mem_ret hr
  · refine Sound.ret ⟨fun ha => ?_, hs.mask, hs.single, hs.log, hs.returned⟩ hn
      fun hc => hlog (hun hc)
    rw [show s.shared.txActive = true from ha] at hact
    cases hact

lemma inv_refuse (h : Inv cfg s) {n : ℕ} {c : Code} (hsend : sendOf (s.pc p) = some n)
    (howns : owns (s.pc p) = none) (hun : unwritten (s.pc p) = true) :
    Inv cfg (s.move p (s.shared.ret n c, .idle)) := by
  obtain ⟨hn, -, hlog⟩ := (h.good p).fresh n hsend
  refine h.update p (.idle _ _) ?_ nofun ?_ (h.sound.ret hn fun _ => hlog hun)
  · intro q hq
    exact (h.good q).frame (h.send_ne hsend hq) (Nat.le_refl _)
      (.inr ⟨rfl, rfl, rfl, List.Subset.refl _⟩) (fun b hb => .inl hb) fun r hr => mem_ret hr
  · intro ho
    rcases h.held ho with ha | ⟨q, hq⟩
    · exact .inl ha
    · refine .inr (.inr ⟨q, ?_, hq⟩)
      rintro rfl
      rw [howns] at hq
      cases hq

/-- **A step of a send keeps the invariant.** -/
theorem inv_move (h : Inv cfg s) {sh : Shared} {pc : Pc}
    (he : Effect cfg base s.shared (s.pc p) sh pc) : Inv cfg (s.move p (sh, pc)) := by
  cases he with
  | look _ hsend howns hun hw => exact inv_look h hsend howns hun hw
  | claim n o _ hidle hsend hun hsend' howns' hw =>
    exact inv_claim h hidle hsend hun hsend' howns' hw
  | write n bs _ hpc hsend' howns' hun =>
    obtain ⟨m, hpc⟩ := hpc
    exact inv_write h hpc hsend' howns' hun bs
  | load n m hpc hact hempty => exact inv_load h hpc hempty
  | free n o c hsend howns hun => exact inv_free h hsend howns hun
  | refuse n c hsend howns hun => exact inv_refuse h hsend howns hun

/-! ### The other steps -/

/-- What a send that begins does: it returns a refusal at once, or goes to its claim. -/
lemma inv_begin (h : Inv cfg s) (hidle : s.pc p = .idle) {r : Shared × Pc}
    (hr : (∃ c, r = (s.shared.ret s.next c, .idle)) ∨
      ∃ pc, r = (s.shared, pc) ∧ sendOf pc = some s.next ∧ owns pc = none) :
    Inv cfg (s.begin p r) := by
  have hs := h.sound
  have hnext : ∀ q, sendOf (s.pc q) ≠ some s.next := fun q hq =>
    absurd ((h.good q).fresh _ hq).1 (Nat.lt_irrefl _)
  have hsound : Sound cfg s.shared (s.next + 1) :=
    ⟨hs.active, hs.mask, hs.single, fun b hb => Nat.lt_succ_of_lt (hs.log b hb),
      fun r hr => ⟨Nat.lt_succ_of_lt (hs.returned r hr).1, (hs.returned r hr).2⟩⟩
  have hlog : ∀ b ∈ s.shared.log, b.1 ≠ s.next := fun b hb => Nat.ne_of_lt (hs.log b hb)
  have hheld : s.shared.owner ≠ .idle → s.shared.txActive = true ∨
      ∃ q, q ≠ p ∧ owns (s.pc q) = some s.shared.owner := by
    intro ho
    refine (h.held ho).imp_right ?_
    rintro ⟨q, hq⟩
    refine ⟨q, ?_, hq⟩
    rintro rfl
    rw [hidle] at hq
    cases hq
  rcases hr with ⟨c, rfl⟩ | ⟨pc, rfl, hsend, howns⟩
  · refine h.update p (.idle _ _) ?_ nofun (fun ho => (hheld ho).imp_right .inr)
      (hsound.ret (Nat.lt_succ_self _) fun _ => hlog)
    intro q hq
    exact (h.good q).frame (hnext q) (Nat.le_succ _) (.inr ⟨rfl, rfl, rfl, List.Subset.refl _⟩)
      (fun b hb => .inl hb) fun r hr => mem_ret hr
  · refine h.update p ⟨?_, ?_, ?_⟩ ?_ ?_ (fun ho => (hheld ho).imp_right .inr) hsound
    · intro o ho
      rw [howns] at ho
      cases ho
    · rintro n m rfl
      cases howns
    · intro n hn
      rw [hsend] at hn
      cases hn
      exact ⟨Nat.lt_succ_self _, fun c hc => absurd (hs.returned _ hc).1 (Nat.lt_irrefl _),
        fun _ => hlog⟩
    · intro q hq
      exact (h.good q).frame (hnext q) (Nat.le_succ _)
        (.inr ⟨rfl, rfl, rfl, List.Subset.refl _⟩) (fun b hb => .inl hb) fun r hr => .inl hr
    · intro q _ n hn
      rw [hsend] at hn
      exact hn ▸ hnext q

lemma begin_sendData (base : Base) (sh : Shared) (n : ℕ) (m : List UInt8) :
    (∃ c, sendData base sh n m = (sh.ret n c, .idle)) ∨
      ∃ pc, sendData base sh n m = (sh, pc) ∧ sendOf pc = some n ∧ owns pc = none := by
  unfold sendData
  split_ifs
  · exact .inl ⟨_, rfl⟩
  · exact .inl ⟨_, rfl⟩
  · exact .inr ⟨_, rfl, rfl, rfl⟩

lemma begin_sendAtomic (sh : Shared) (n : ℕ) (null : Bool) (m : List UInt8) (t : ℕ) :
    (∃ c, sendAtomic sh n null m t = (sh.ret n c, .idle)) ∨
      ∃ pc, sendAtomic sh n null m t = (sh, pc) ∧ sendOf pc = some n ∧ owns pc = none := by
  unfold sendAtomic
  split_ifs
  · exact .inl ⟨_, rfl⟩
  · exact .inl ⟨_, rfl⟩
  · exact .inr ⟨_, rfl, rfl, rfl⟩

omit [DecidableEq ι] in
/-- The message whose completion an interrupt or the work reports is the active one. -/
lemma inv_complete (h : Inv cfg s) (hact : s.shared.txActive = true) (mask : BitVec 32)
    (hm : mask &&& cfg.irqTx = 0) :
    Inv cfg { s with shared :=
      { s.shared with owner := .idle, txActive := false, irqMask := mask } } := by
  have hs := h.sound
  have hnone : ∀ q, owns (s.pc q) = none := by
    intro q
    cases hq : owns (s.pc q) with
    | none => rfl
    | some o =>
      have := ((h.good q).own o hq).2.2
      rw [hact] at this
      cases this
  refine ⟨?_, h.distinct, fun ho => absurd rfl ho, ⟨nofun, fun hm' => absurd hm hm', hs.single,
    hs.log, hs.returned⟩⟩
  intro q
  refine ⟨fun o ho => ?_, (h.good q).writing, (h.good q).fresh⟩
  rw [hnone q] at ho
  cases ho

omit [DecidableEq ι] in
/-- The handler clears `tx_active` only when the message is out of the FIFO. -/
lemma irqLocked_cases (base : Base) (hs : Sound cfg s.shared s.next) (flags : BitVec 32) :
    irqLocked cfg base s.shared flags = s.shared ∨
      s.shared.txActive = true ∧ s.shared.hw = [] ∧
        irqLocked cfg base s.shared flags = { s.shared with
          owner := .idle, txActive := false, irqMask := s.shared.irqMask &&& ~~~cfg.irqTx } := by
  unfold irqLocked
  dsimp only
  split_ifs with hp
  · rw [Bool.and_eq_true, decide_eq_true_eq, txEmpty_eq] at hp
    have hmask : s.shared.irqMask &&& cfg.irqTx ≠ 0 := by
      intro h0
      refine hp.1 ?_
      rw [BitVec.and_assoc flags, BitVec.and_assoc flags, BitVec.and_assoc,
        BitVec.and_comm (cfg.irqTx ||| cfg.irqRx), ← BitVec.and_assoc s.shared.irqMask, h0]
      simp
    have hact := (hs.mask hmask).1
    refine .inr ⟨hact, hp.2, ?_⟩
    simp [Shared.cmpxchg, Shared.irqDisable, (hs.active hact).1]
  · exact .inl rfl

omit [DecidableEq ι] in
lemma pollLocked_cases (base : Base) (hs : Sound cfg s.shared s.next) :
    pollLocked base s.shared = s.shared ∨
      s.shared.txActive = true ∧ s.shared.hw = [] ∧
        pollLocked base s.shared = { s.shared with owner := .idle, txActive := false } := by
  unfold pollLocked
  split_ifs with hp
  · rw [Bool.and_eq_true, txEmpty_eq] at hp
    refine .inr ⟨hp.1, hp.2, ?_⟩
    simp [Shared.cmpxchg, (hs.active hp.1).1]
  · exact .inl rfl

omit [DecidableEq ι] in
/-- With no send under way a shutdown finds the owner word idle. -/
lemma shutdown_eq (h : Inv cfg s) (hc : NoOverlap s .shutdown) :
    shutdown cfg s.shared = s.shared.irqDisable (cfg.irqTx ||| cfg.irqRx) := by
  obtain ⟨hidle, hact⟩ := hc
  have ho : s.shared.owner = .idle := by
    by_contra ho
    rcases h.held ho with ha | ⟨q, hq⟩
    · rw [hact] at ha
      cases ha
    · rw [hidle q] at hq
      cases hq
  simp [shutdown, Shared.cmpxchg, Shared.irqDisable, ho, ← hact]

/-- **One step keeps the invariant.** -/
theorem inv_step {s' : St ι} {a : Act ι} (h : Inv cfg s) (hc : NoOverlap s a)
    (hs : step cfg base s a = some s') : Inv cfg s' := by
  have hsound := h.sound
  cases a with
  | sendData p m =>
    simp only [step] at hs
    split_ifs at hs with hidle
    cases hs
    exact inv_begin h hidle (begin_sendData _ _ _ _)
  | sendAtomic p null m t =>
    simp only [step] at hs
    split_ifs at hs with hidle
    cases hs
    exact inv_begin h hidle (begin_sendAtomic _ _ _ _ _)
  | go p e =>
    simp only [step] at hs
    split_ifs at hs with hidle
    cases hs
    exact inv_move h (exec_effect _ _ _ hidle)
  | irq flags =>
    simp only [step] at hs
    split_ifs at hs
    cases hs
    rcases irqLocked_cases base hsound flags with he | ⟨hact, -, he⟩
    · rw [he]
      exact h
    · rw [he]
      exact inv_complete h hact _ (clear_and_self _ _)
  | poll =>
    simp only [step] at hs
    split_ifs at hs with hpoll
    cases hs
    rcases pollLocked_cases base hsound with he | ⟨hact, -, he⟩
    · rw [he]
      exact h
    · rw [he]
      refine inv_complete h hact _ ?_
      -- the polled mode never enables the transmit interrupt
      by_contra hm
      rw [(hsound.mask hm).2] at hpoll
      cases hpoll
  | drain =>
    cases hs
    refine ⟨fun q => ⟨(h.good q).own, fun n m hpc b hb => ?_, (h.good q).fresh⟩, h.distinct,
      h.held, ⟨hsound.active, hsound.mask, fun b hb b' hb' => ?_, hsound.log, hsound.returned⟩⟩
    · exact (h.good q).writing n m hpc b (List.mem_of_mem_tail hb)
    · exact hsound.single b (List.mem_of_mem_tail hb) b' (List.mem_of_mem_tail hb')
  | startup =>
    cases hs
    simp only [startup]
    split_ifs
    · exact h
    · refine ⟨fun q => ⟨(h.good q).own, (h.good q).writing, (h.good q).fresh⟩, h.distinct, h.held,
        ⟨hsound.active, fun hm => ?_, hsound.single, hsound.log, hsound.returned⟩⟩
      refine hsound.mask ?_
      rw [← set_and _ ((BitVec.and_comm _ _).trans cfg.disjoint)]
      exact hm
  | shutdown =>
    cases hs
    rw [shutdown_eq h hc]
    refine ⟨fun q => ⟨(h.good q).own, (h.good q).writing, (h.good q).fresh⟩, h.distinct, h.held,
      ⟨hsound.active, fun hm => ?_, hsound.single, hsound.log, hsound.returned⟩⟩
    exact hsound.mask (and_ne_of_clear hm)

omit [DecidableEq ι] in
lemma inv_init : Inv cfg (init : St ι) := by
  refine ⟨fun _ => .idle _ _, nofun, fun ho => absurd rfl ho, ⟨nofun, ?_, nofun, nofun, nofun⟩⟩
  intro hm
  simp [init] at hm

/-! ### One owner -/

/-- What the owner word and the lock are for. -/
structure OneOwner (cfg : Config) (s : Shared) : Prop where
  /-- The FIFO never holds bytes of two sends. -/
  single : ∀ b ∈ s.hw, ∀ b' ∈ s.hw, b.1 = b'.1
  active : s.txActive = true → s.owner = .async
  mask : s.irqMask &&& cfg.irqTx ≠ 0 → s.txActive = true
  /-- A refused send has written nothing. -/
  refused : ∀ r ∈ s.returned, r.2.refused = true → ∀ b ∈ s.log, b.1 ≠ r.1

/-- The action is by the execution that took the owner word, or reports the completion of
its message. -/
def ByHolder (s : St ι) : Act ι → Prop
  | .go p _ => sendOf (s.pc p) = some s.shared.holder
  | .irq _ | .poll =>
    s.shared.txActive = true ∧ s.shared.txSend = s.shared.holder ∧ s.shared.hw = []
  | _ => False

omit [DecidableEq ι] in
lemma byHolder_of_effect (h : Inv cfg s) {sh : Shared} {pc : Pc}
    (he : Effect cfg base s.shared (s.pc p) sh pc) (ho : s.shared.owner ≠ .idle)
    (hne : sh.owner ≠ s.shared.owner) :
    sh.owner = .idle ∧ sendOf (s.pc p) = some s.shared.holder := by
  cases he with
  | look => exact absurd rfl hne
  | claim n o _ hidle => exact absurd hidle ho
  | write => exact absurd rfl hne
  | load n m => exact absurd (loaded_owner _ _ _) hne
  | free n o c hsend howns =>
    obtain ⟨h1, h2, -⟩ := (h.good p).own o howns
    exact ⟨by simp [Shared.ret, Shared.cmpxchg, h1], h2⟩
  | refuse => exact absurd rfl hne

/-- A held owner word changes only to idle, and only by its holder. -/
lemma byHolder_step {s' : St ι} {a : Act ι} (h : Inv cfg s) (hc : NoOverlap s a)
    (hs : step cfg base s a = some s') (ho : s.shared.owner ≠ .idle)
    (hne : s'.shared.owner ≠ s.shared.owner) : s'.shared.owner = .idle ∧ ByHolder s a := by
  cases a with
  | sendData p m =>
    simp only [step] at hs
    split_ifs at hs
    cases hs
    rcases begin_sendData base s.shared s.next m with ⟨c, he⟩ | ⟨pc, he, -⟩
    · exact absurd (by simp [St.begin, St.move, he, Shared.ret]) hne
    · exact absurd (by simp [St.begin, St.move, he]) hne
  | sendAtomic p null m t =>
    simp only [step] at hs
    split_ifs at hs
    cases hs
    rcases begin_sendAtomic s.shared s.next null m t with ⟨c, he⟩ | ⟨pc, he, -⟩
    · exact absurd (by simp [St.begin, St.move, he, Shared.ret]) hne
    · exact absurd (by simp [St.begin, St.move, he]) hne
  | go p e =>
    simp only [step] at hs
    split_ifs at hs with hidle
    cases hs
    exact byHolder_of_effect h (exec_effect _ _ _ hidle) ho hne
  | irq flags =>
    simp only [step] at hs
    split_ifs at hs
    cases hs
    rcases irqLocked_cases base h.sound flags with he | ⟨hact, hempty, he⟩
    · exact absurd (congrArg Shared.owner he) hne
    · exact ⟨congrArg Shared.owner he, hact, (h.sound.active hact).2, hempty⟩
  | poll =>
    simp only [step] at hs
    split_ifs at hs
    cases hs
    rcases pollLocked_cases base h.sound with he | ⟨hact, hempty, he⟩
    · exact absurd (congrArg Shared.owner he) hne
    · exact ⟨congrArg Shared.owner he, hact, (h.sound.active hact).2, hempty⟩
  | drain => cases hs; exact absurd rfl hne
  | startup =>
    cases hs
    refine absurd ?_ hne
    simp only [startup]
    split_ifs <;> rfl
  | shutdown =>
    cases hs
    refine absurd ?_ hne
    simp only [shutdown_eq h hc, Shared.irqDisable]

/-- **One owner**: in every interleaving of sends, interrupts and polling, timed out sends
included, the FIFO holds bytes of one send at most, an active message owns the word, an
enabled transmit interrupt has an active message, a refused send has written nothing, and
the word goes back to idle only by the hand of its holder. -/
theorem one_owner {s : St ι} (h : Reach (step cfg base) NoOverlap init s) :
    OneOwner cfg s.shared ∧
      ∀ a s', NoOverlap s a → step cfg base s a = some s' → s.shared.owner ≠ .idle →
        s'.shared.owner ≠ s.shared.owner → s'.shared.owner = .idle ∧ ByHolder s a := by
  have hi : Inv cfg s := h.invariant (Inv cfg) inv_init fun _ _ _ hi hc hs => inv_step hi hc hs
  have hs := hi.sound
  refine ⟨⟨hs.single, fun ha => (hs.active ha).1, fun hm => (hs.mask hm).1, ?_⟩, ?_⟩
  · exact fun r hr => (hs.returned r hr).2
  · exact fun a s' hc hstep ho hne => byHolder_step hi hc hstep ho hne

end Sends

/-- The masks of the UART instance, and base functions that read `DATA_TX_FREE` and write
the whole message. -/
def uart : Config := ⟨uartMasks, false⟩

def plain : Base where
  txEmpty free := free = fifoSize
  valid m := m ≠ []
  writePending m := m
  txEmpty_iff := by simp
  writePending_isPrefix m := List.prefix_refl m

/-- An atomic send times out and leaves its byte behind; the next send is refused, the one
after the byte has drained goes through and its interrupt releases the word. -/
theorem one_owner_timeout : ∃ s : St (Fin 2), Reach (step uart plain) NoOverlap init s ∧
    s.shared.returned = [(0, .etimedout), (1, .ebusy), (2, .ok)] ∧
    s.shared.log = [(0, 7), (2, 9)] ∧ s.shared.owner = .idle ∧ OneOwner uart s.shared := by
  obtain ⟨s, hr, hs⟩ := exists_reach_of_run (step uart plain) NoOverlap (init : St (Fin 2))
    [.startup, .sendAtomic 0 false [7] 50, .go 0 false, .go 0 false, .go 0 false, .go 0 true,
      .go 0 true, .go 0 false, .sendData 1 [8], .go 1 false, .go 1 false, .go 1 false, .drain,
      .sendData 1 [9], .go 1 false, .go 1 false, .drain, .irq 6]
    (fun s => s.shared.returned = [(0, .etimedout), (1, .ebusy), (2, .ok)] ∧
      s.shared.log = [(0, 7), (2, 9)] ∧ s.shared.owner = .idle) (by decide)
  rw [decide_eq_true_eq] at hs
  exact ⟨s, hr, hs.1, hs.2.1, hs.2.2, (one_owner hr).1⟩

end Wallace.DockTxOwner
