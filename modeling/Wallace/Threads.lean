import Mathlib.Logic.Function.Basic
import Mathlib.Tactic.Common
import Wallace.Runs

/-!
Threads that share a state.

Each thread stands at a place of its code, and one of its atomic steps reads and writes the
shared state and moves it on; a step that has to wait is not possible. An invariant of all
interleavings is put together from a fact about the shared state and one about each thread
at its place: a thread keeps its own, and it does not disturb those of the others.
-/

namespace Wallace.Threads

open Runs

/-- The shared state and the place of each thread. -/
@[ext]
structure St (ι S P : Type*) where
  shared : S
  pc : ι → P

variable {ι S P I : Type*} [DecidableEq ι]

/-- A thread takes a step, on an input of its own. -/
def step (next : ι → S → P → I → Option (S × P)) (s : St ι S P) (a : ι × I) :
    Option (St ι S P) :=
  (next a.1 s.shared (s.pc a.1) a.2).map fun r => ⟨r.1, Function.update s.pc a.1 r.2⟩

/-- What a fact about the shared state and a fact about each thread have to satisfy to be
kept by every step. -/
structure Kept (next : ι → S → P → I → Option (S × P)) (G : S → Prop) (L : ι → S → P → Prop) :
    Prop where
  own : ∀ p s pc i s' pc', G s → L p s pc → next p s pc i = some (s', pc') → G s' ∧ L p s' pc'
  others : ∀ p q s pc pcq i s' pc', q ≠ p → G s → L p s pc → L q s pcq →
    next p s pc i = some (s', pc') → L q s' pcq

variable {next : ι → S → P → I → Option (S × P)} {G : S → Prop} {L : ι → S → P → Prop}

omit [DecidableEq ι] in
/-- **Rely and guarantee.** It is enough to say once what a step of a thread may change, and
that the facts about the other threads survive such changes. -/
lemma Kept.of_guarantee (R : ι → S → S → Prop)
    (own : ∀ p s pc i s' pc', G s → L p s pc → next p s pc i = some (s', pc') →
      G s' ∧ L p s' pc' ∧ R p s s')
    (stable : ∀ p q s s' pc, q ≠ p → L q s pc → R p s s' → L q s' pc) : Kept next G L := by
  refine ⟨fun p s pc i s' pc' hg hl h => ?_, fun p q s pc pcq i s' pc' hq hg hl hlq h => ?_⟩
  · obtain ⟨hg', hl', -⟩ := own p s pc i s' pc' hg hl h
    exact ⟨hg', hl'⟩
  · obtain ⟨-, -, hr⟩ := own p s pc i s' pc' hg hl h
    exact stable p q s s' pcq hq hlq hr

lemma Kept.step (hk : Kept next G L) {s s' : St ι S P} {a : ι × I}
    (hg : G s.shared) (hl : ∀ p, L p s.shared (s.pc p)) (hs : step next s a = some s') :
    G s'.shared ∧ ∀ p, L p s'.shared (s'.pc p) := by
  obtain ⟨⟨sh, pc⟩, hn, rfl⟩ := Option.map_eq_some_iff.mp hs
  obtain ⟨hg', hl'⟩ := hk.own _ _ _ _ _ _ hg (hl a.1) hn
  refine ⟨hg', fun q => ?_⟩
  by_cases hq : q = a.1
  · subst hq
    simpa using hl'
  · simpa [Function.update_of_ne hq] using hk.others _ q _ _ _ _ _ _ hq hg (hl a.1) (hl q) hn

/-- **The invariant rule for threads.** -/
theorem Kept.invariant (hk : Kept next G L) {s₀ s : St ι S P} (hg : G s₀.shared)
    (hl : ∀ p, L p s₀.shared (s₀.pc p)) (h : Reach (Threads.step next) Any s₀ s) :
    G s.shared ∧ ∀ p, L p s.shared (s.pc p) :=
  h.invariant (fun s => G s.shared ∧ ∀ p, L p s.shared (s.pc p)) ⟨hg, hl⟩
    fun _ _ _ hi _ hs => hk.step hi.1 hi.2 hs

end Wallace.Threads
