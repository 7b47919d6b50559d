import Wallace.Runs
import Wallace.TicketSteps

/-!
Ticket numbers of different agents.

`queue add` scans the store for the highest number in the agent's block and later creates
the file; between the two steps other agents may scan and create. The store the adds start
from is arbitrary.
-/

namespace Wallace.TicketBlocks

open Wallace.Files Wallace.Runs Wallace.TicketModel Wallace.TicketSteps

variable {sh : Shell} {s s' : Store}

/-! ### The adds of the agents, interleaved -/

/-- The store, the number each agent has computed and not yet used, the numbers allocated so
far and the numbers of the tickets created so far. -/
structure Sys where
  store : Store
  pending : Agent → Option ℤ := fun _ => none
  allocated : List (Agent × ℤ) := []
  created : List ℤ := []

/-- The two steps of an add; `create` has the other arguments of the command. -/
inductive AddAct
  | scan (a : Agent)
  | create (a : Agent) (slug desc : Text) (opts : AddOpts) (needs : Needs) (now : ℕ)

/-- One step. An agent's next scan comes after its last add has ended; a scan that meets a
name which is not a number ends its add, and so does a slug with a slash in it. -/
def addStep (sh : Shell) (y : Sys) : AddAct → Option Sys
  | .scan a =>
    match y.pending a with
    | some _ => none
    | none => match nextSeq sh y.store a.name with
      | none => some y
      | some n => some { y with
          pending := Function.update y.pending a (some n), allocated := (a, n) :: y.allocated }
  | .create a slug desc opts needs now =>
    match y.pending a with
    | none => none
    | some n =>
      match create y.store (newTicket a.name slug desc opts needs (pad3 n) now) with
      | none => some { y with pending := Function.update y.pending a none }
      | some s => some { y with
          store := s, pending := Function.update y.pending a none, created := n :: y.created }

/-- The block of the agent. -/
def InBlock (a : Agent) (n : ℤ) : Prop := a.base ≤ n ∧ n ≤ a.base + 999

/-- No ticket has the last number of the block that is scanned. -/
def Roomy (sh : Shell) (y : Sys) : AddAct → Prop
  | .scan a => ∀ b ∈ scanned sh y.store, nameNum sh b ≠ some (a.base + 999)
  | .create .. => True

instance (sh : Shell) (y : Sys) (x : AddAct) : Decidable (Roomy sh y x) :=
  match x with
  | .scan a => inferInstanceAs
      (Decidable (∀ b ∈ scanned sh y.store, nameNum sh b ≠ some (a.base + 999)))
  | .create .. => isTrue trivial

/-! ### Numbers -/

lemma decimal_append (u v : Text) :
    decimal (u ++ v) = v.foldl (fun n c => 10 * n + (c.toNat - '0'.toNat)) (decimal u) := by
  unfold decimal
  rw [List.foldl_append]

lemma digitChar_val (d : ℕ) (h : d < 10) : (Nat.digitChar d).toNat - '0'.toNat = d := by
  revert d
  decide

/-- Reading the digits of a number gives the number. -/
lemma decimal_toDigits (n : ℕ) : decimal (Nat.toDigits 10 n) = n := by
  induction n using Nat.strongRecOn with
  | ind n ih =>
    rw [Nat.toDigits_eq_if (by decide)]
    split
    · rename_i h
      have := digitChar_val n h
      simpa [decimal] using this
    · have hlt : n / 10 < n := by omega
      have hd := digitChar_val (n % 10) (by omega)
      rw [decimal_append, ih _ hlt]
      simp only [List.foldl_cons, List.foldl_nil, hd]
      omega

lemma decimal_zeros (k : ℕ) (v : Text) : decimal (List.replicate k '0' ++ v) = decimal v := by
  induction k with
  | zero => rfl
  | succ k ih =>
    rw [List.replicate_succ, List.cons_append, ← ih]
    rfl

lemma pad3_digits {n : ℤ} (h : 0 ≤ n) : ∀ c ∈ pad3 n, c.isDigit = true := by
  intro c hc
  unfold pad3 at hc
  rw [if_neg (by omega)] at hc
  rcases List.mem_append.mp hc with hc | hc
  · rw [List.eq_of_mem_replicate hc]
    rfl
  · exact Nat.isDigit_of_mem_toDigits (by decide) (by decide) hc

lemma base10_pad3 {n : ℤ} (h : 0 ≤ n) (hn : n < 2 ^ 63) : base10 sh (pad3 n) = some n := by
  have hne : pad3 n ≠ [] := by
    unfold pad3
    rw [if_neg (by omega)]
    exact List.append_ne_nil_of_right_ne_nil _ Nat.toDigits_ne_nil
  have hval : decimal (pad3 n) = n.natAbs := by
    unfold pad3
    rw [if_neg (by omega), decimal_zeros, decimal_toDigits]
  unfold base10
  have hwrap : Int.bmod n (2 ^ 64) = n := Int.bmod_eq_of_le_mul_two (by omega) (by omega)
  rw [if_pos ⟨hne, List.all_eq_true.mpr (pad3_digits h)⟩, hval, Int.natAbs_of_nonneg h, hwrap]

/-- The number of a created file is the number it was created for. -/
lemma nameNum_ticketName {n : ℤ} (h : 0 ≤ n) (hn : n < 2 ^ 63) (slug : Text) :
    nameNum sh (ticketName (pad3 n) slug) = some n := by
  unfold nameNum ticketName
  have htake : (pad3 n ++ '-' :: (slug ++ json)).takeWhile (· ≠ '-') = pad3 n := by
    rw [List.takeWhile_append_of_pos]
    · simp
    · intro c hc
      have hd := pad3_digits h c hc
      simp only [ne_eq, decide_not, Bool.not_eq_eq_eq_not, Bool.not_true, decide_eq_false_iff_not]
      rintro rfl
      exact absurd hd (by decide)
  rw [htake, base10_pad3 h hn]

lemma isJson_ticketName {n : ℤ} (h : 0 ≤ n) (slug : Text) :
    isJson (ticketName (pad3 n) slug) = true := by
  unfold isJson ticketName
  rw [Bool.and_eq_true, List.isSuffixOf_iff_suffix]
  refine ⟨⟨pad3 n ++ '-' :: slug, by simp⟩, ?_⟩
  have hd := pad3_digits h
  cases hp : pad3 n with
  | nil => rfl
  | cons c l =>
    have hc := hd c (by simp [hp])
    have hdot : c ≠ '.' := by
      rintro rfl
      exact absurd hc (by decide)
    simp [List.isPrefixOf, hdot.symm]

/-! ### The scan -/

/-- What is scanned are the ticket files of all three directories. -/
lemma mem_scanned {b : Text} :
    b ∈ scanned sh s ↔ ∃ d t, read s ⟨d, b⟩ = some t ∧ isJson b = true := by
  unfold scanned
  simp only [List.mem_append, mem_list]
  constructor
  · rintro ((⟨⟨t, ht⟩, hj⟩ | ⟨⟨t, ht⟩, hj⟩) | ⟨⟨t, ht⟩, hj⟩)
    · exact ⟨.active, t, ht, hj⟩
    · exact ⟨.done, t, ht, hj⟩
    · exact ⟨.archive, t, ht, hj⟩
  · rintro ⟨d, t, ht, hj⟩
    cases d with
    | active => exact .inl (.inl ⟨⟨t, ht⟩, hj⟩)
    | done => exact .inl (.inr ⟨⟨t, ht⟩, hj⟩)
    | archive => exact .inr ⟨⟨t, ht⟩, hj⟩

/-- The loop, from any value of `m`: the result bounds what is selected, and it is the value
it began with or a number it met. -/
lemma scan_fold {sel : ℤ → Bool} {l : List Text} {m r : ℤ}
    (h : l.foldlM (fun m b => (nameNum sh b).map fun n => if sel n ∧ m < n then n else m) m =
      some r) :
    m ≤ r ∧ (∀ b ∈ l, ∀ n, nameNum sh b = some n → sel n = true → n ≤ r) ∧
      (r = m ∨ sel r = true ∧ ∃ b ∈ l, nameNum sh b = some r) := by
  induction l generalizing m with
  | nil =>
    cases h
    simp
  | cons b l ih =>
    rw [List.foldlM_cons, Option.bind_eq_bind, Option.bind_eq_some_iff] at h
    obtain ⟨m', hm', h⟩ := h
    obtain ⟨n, hn, e⟩ := Option.map_eq_some_iff.mp hm'
    obtain ⟨hle, hall, hlast⟩ := ih h
    have hm : m ≤ m' ∧ (sel n = true → n ≤ m') ∧ (m' = m ∨ sel m' = true ∧ m' = n) := by
      split_ifs at e with hc
      · subst e
        exact ⟨by omega, by omega, .inr ⟨hc.1, rfl⟩⟩
      · subst e
        refine ⟨by omega, fun hs => ?_, .inl rfl⟩
        by_contra hlt
        exact hc ⟨hs, by omega⟩
    obtain ⟨hmm, hsel, hor⟩ := hm
    refine ⟨by omega, ?_, ?_⟩
    · intro b' hb' k hk hs
      rcases List.mem_cons.mp hb' with rfl | hb'
      · rw [hn] at hk
        cases hk
        have := hsel hs
        omega
      · exact hall b' hb' k hk hs
    · rcases hlast with rfl | ⟨hs, b', hb', hk⟩
      · rcases hor with rfl | ⟨hs, rfl⟩
        · exact .inl rfl
        · exact .inr ⟨hs, b, by simp, hn⟩
      · exact .inr ⟨hs, b', by simp [hb'], hk⟩

/-- The number of every ticket in the agent's block is below `n`. -/
def Above (sh : Shell) (s : Store) (a : Agent) (n : ℤ) : Prop :=
  ∀ b ∈ scanned sh s, ∀ m, nameNum sh b = some m → InBlock a m → m < n

lemma tkAgentBase_name (a : Agent) : tkAgentBase a.name = some a.base := by
  cases a <;> decide

lemma base_pos (a : Agent) : 0 < a.base ∧ a.base + 999 < 2 ^ 63 := by
  cases a <;> decide

/-- **What a scan computes**: with room in the block, a number of the block that is above all
of its tickets. -/
lemma nextSeq_spec {a : Agent} {n : ℤ} (h : nextSeq sh s a.name = some n)
    (hroom : ∀ b ∈ scanned sh s, nameNum sh b ≠ some (a.base + 999)) :
    InBlock a n ∧ Above sh s a n := by
  have hpos := base_pos a
  unfold nextSeq at h
  rw [tkAgentBase_name] at h
  obtain ⟨bmax, hmax, e⟩ := Option.map_eq_some_iff.mp h
  obtain ⟨-, hall, hlast⟩ := scan_fold hmax
  simp only [decide_eq_true_eq] at hall hlast
  have habove : ∀ b ∈ scanned sh s, ∀ m, nameNum sh b = some m → InBlock a m → m ≤ bmax := by
    intro b hb m hm hin
    unfold InBlock at hin
    exact hall b hb m hm (by omega)
  have hlt : bmax < a.base ∨ a.base ≤ bmax ∧ bmax < a.base + 999 := by
    rcases hlast with rfl | ⟨hs, b, hb, hm⟩
    · omega
    · have hne : bmax ≠ a.base + 999 := fun e => hroom b hb (e ▸ hm)
      omega
  split_ifs at e with hc
  · subst e
    refine ⟨⟨by omega, by omega⟩, fun b hb m hm hin => ?_⟩
    have := habove b hb m hm hin
    unfold InBlock at hin
    omega
  · subst e
    refine ⟨⟨by omega, by omega⟩, fun b hb m hm hin => ?_⟩
    have := habove b hb m hm hin
    omega

/-! ### The invariant -/

/-- Blocks do not overlap. -/
lemma block_unique {a a' : Agent} {n : ℤ} (h : InBlock a n) (h' : InBlock a' n) : a = a' := by
  unfold InBlock at h h'
  cases a <;> cases a' <;> simp only [Agent.base] at h h' <;> first | rfl | omega

/-- A number that is pending is in its agent's block and above the tickets there; a number
that was used is one of a ticket. -/
structure Inv (sh : Shell) (s₀ : Store) (y : Sys) : Prop where
  kept : ∀ b ∈ scanned sh s₀, b ∈ scanned sh y.store
  pending : ∀ a n, y.pending a = some n → InBlock a n ∧ Above sh y.store a n
  allocated : ∀ p ∈ y.allocated, InBlock p.1 p.2
  used : ∀ n ∈ y.created, ∃ b ∈ scanned sh y.store, nameNum sh b = some n
  fresh : ∀ n ∈ y.created, ∀ b ∈ scanned sh s₀, nameNum sh b ≠ some n
  nodup : y.created.Nodup

lemma inv_scan {s₀ : Store} {y y' : Sys} {a : Agent} (h : Inv sh s₀ y)
    (hc : Roomy sh y (.scan a)) (hs : addStep sh y (.scan a) = some y') : Inv sh s₀ y' := by
  simp only [addStep] at hs
  split at hs
  · cases hs
  split at hs
  · cases hs
    exact h
  · rename_i n hn
    cases hs
    obtain ⟨hin, habove⟩ := nextSeq_spec hn hc
    refine ⟨h.kept, fun a' m hm => ?_, fun p hp => ?_, h.used, h.fresh, h.nodup⟩
    · by_cases e : a' = a
      · subst e
        simp only [Function.update_self] at hm
        cases hm
        exact ⟨hin, habove⟩
      · simp only [Function.update_of_ne e] at hm
        exact h.pending a' m hm
    · rcases List.mem_cons.mp hp with rfl | hp
      · exact hin
      · exact h.allocated p hp

/-- What a created file adds to the scan. -/
lemma scanned_write {f : File} {t : Ticket} {b : Text} :
    b ∈ scanned sh (write s f t) ↔ b ∈ scanned sh s ∨ b = f.name ∧ isJson b = true := by
  rw [mem_scanned, mem_scanned]
  constructor
  · rintro ⟨d, u, hu, hj⟩
    rw [read_write] at hu
    split at hu
    · rename_i e
      exact .inr ⟨by rw [← e], hj⟩
    · exact .inl ⟨d, u, hu, hj⟩
  · rintro (⟨d, u, hu, hj⟩ | ⟨rfl, hj⟩)
    · by_cases e : (⟨d, b⟩ : File) = f
      · exact ⟨d, t, by rw [read_write, if_pos e], hj⟩
      · exact ⟨d, u, by rw [read_write, if_neg e, hu], hj⟩
    · exact ⟨f.dir, t, by rw [read_write, if_pos rfl], hj⟩

lemma inv_create {s₀ : Store} {y y' : Sys} {a : Agent} {slug desc : Text} {opts : AddOpts}
    {needs : Needs} {now : ℕ} (h : Inv sh s₀ y)
    (hs : addStep sh y (.create a slug desc opts needs now) = some y') : Inv sh s₀ y' := by
  simp only [addStep] at hs
  split at hs
  · cases hs
  rename_i n hn
  obtain ⟨hin, habove⟩ := h.pending a n hn
  have hothers : ∀ a' m, Function.update y.pending a none a' = some m →
      a' ≠ a ∧ y.pending a' = some m := by
    intro a' m hm
    by_cases e : a' = a
    · subst e
      simp at hm
    · rw [Function.update_of_ne e] at hm
      exact ⟨e, hm⟩
  split at hs
  · cases hs
    exact ⟨h.kept, fun a' m hm => h.pending a' m (hothers a' m hm).2, h.allocated, h.used,
      h.fresh, h.nodup⟩
  · rename_i s hcreate
    cases hs
    unfold create at hcreate
    split at hcreate
    · cases hcreate
    cases hcreate
    have hpos := base_pos a
    have h0 : 0 ≤ n := by unfold InBlock at hin; omega
    have hlt : n < 2 ^ 63 := by unfold InBlock at hin; omega
    have hnum : nameNum sh (ticketName (pad3 n) slug) = some n := nameNum_ticketName h0 hlt slug
    have hnew : ∀ b ∈ scanned sh y.store, nameNum sh b ≠ some n := fun b hb e =>
      lt_irrefl n (habove b hb n e hin)
    refine ⟨fun b hb => scanned_write.mpr (.inl (h.kept b hb)), fun a' m hm => ?_, h.allocated,
      fun m hm => ?_, fun m hm b hb => ?_, ?_⟩
    · obtain ⟨hne, hm⟩ := hothers a' m hm
      obtain ⟨hin', habove'⟩ := h.pending a' m hm
      refine ⟨hin', fun b hb k hk hk' => ?_⟩
      rcases scanned_write.mp hb with hb | ⟨e, -⟩
      · exact habove' b hb k hk hk'
      · -- the new ticket is in another block
        have e' : b = ticketName (pad3 n) slug := e
        rw [e', hnum] at hk
        cases hk
        exact absurd (block_unique hk' hin) hne
    · rcases List.mem_cons.mp hm with rfl | hm
      · exact ⟨_, scanned_write.mpr (.inr ⟨rfl, isJson_ticketName h0 slug⟩), hnum⟩
      · obtain ⟨b, hb, hk⟩ := h.used m hm
        exact ⟨b, scanned_write.mpr (.inl hb), hk⟩
    · rcases List.mem_cons.mp hm with rfl | hm
      · exact hnew b (h.kept b hb)
      · exact h.fresh m hm b hb
    · refine List.nodup_cons.mpr ⟨fun hmem => ?_, h.nodup⟩
      obtain ⟨b, hb, hk⟩ := h.used n hmem
      exact hnew b hb hk

/-! ### Every interleaving -/

/-- **Numbers never collide**: in every interleaving of adds by the six agents in which no
scan finds the last number of its block taken, every number allocated is in its agent's
block, no two tickets created have the same number, and none has the number of a ticket that
was there before. -/
theorem numbers_never_collide (sh : Shell) (s₀ : Store) (y : Sys)
    (h : Reach (addStep sh) (Roomy sh) ⟨s₀, fun _ => none, [], []⟩ y) :
    (∀ p ∈ y.allocated, p.1.base ≤ p.2 ∧ p.2 ≤ p.1.base + 999) ∧ y.created.Nodup ∧
      ∀ n ∈ y.created, ∀ b ∈ scanned sh s₀, nameNum sh b ≠ some n := by
  have hinit : Inv sh s₀ ⟨s₀, fun _ => none, [], []⟩ :=
    ⟨fun _ hb => hb, by simp, by simp, by simp, by simp, List.nodup_nil⟩
  have hinv := h.invariant (Inv sh s₀) hinit ?_
  · exact ⟨hinv.allocated, hinv.nodup, hinv.fresh⟩
  · intro y x y' hi hc hs
    cases x with
    | scan a => exact inv_scan hi hc hs
    | create a slug desc opts needs now => exact inv_create hi hs

/-- Both agents scan before either creates its file. -/
def crossedAdds (a a' : Agent) : List AddAct :=
  [.scan a, .scan a', .create a "boot".toList "boot it".toList {} .rig 1,
    .create a' "smp".toList "boot all".toList {} .rig 2]

/-- On the empty store the crossed adds of `fable` and `opus` create 1000 and 2000. -/
theorem numbers_never_collide_crossed : ∃ y : Sys,
    Reach (addStep plainShell) (Roomy plainShell) ⟨Store.empty, fun _ => none, [], []⟩ y ∧
      y.created = [2000, 1000] ∧ y.created.Nodup := by
  obtain ⟨y, hy, hp⟩ := exists_reach_of_run (addStep plainShell) (Roomy plainShell)
    ⟨Store.empty, fun _ => none, [], []⟩ (crossedAdds .fable .opus)
    (fun y => y.created = [2000, 1000]) (by decide)
  exact ⟨y, hy, of_decide_eq_true hp, (numbers_never_collide plainShell Store.empty y hy).2.1⟩

/-- The store with the last ticket of `fable`'s block, archived. -/
def fullBlock : Store :=
  write Store.empty ⟨.archive, ticketName "1999".toList "last".toList⟩
    (newTicket Agent.fable.name "last".toList "the last one".toList {} .offline "1999".toList 0)

/-- A full block spills over: `fable` is given 2000, out of its block, and so is `opus`. -/
theorem full_block_collides : ∃ y : Sys,
    Reach (addStep plainShell) Any ⟨fullBlock, fun _ => none, [], []⟩ y ∧
      (Agent.fable, 2000) ∈ y.allocated ∧ ¬InBlock .fable 2000 ∧ ¬y.created.Nodup := by
  obtain ⟨y, hy, hp⟩ := exists_reach_of_run (addStep plainShell) Any
    ⟨fullBlock, fun _ => none, [], []⟩ (crossedAdds .opus .fable)
    (fun y => (Agent.fable, 2000) ∈ y.allocated ∧ ¬y.created.Nodup) (by decide)
  obtain ⟨hmem, hdup⟩ := of_decide_eq_true hp
  exact ⟨y, hy, hmem, fun h => absurd h.2 (by decide), hdup⟩

end Wallace.TicketBlocks
