import Mathlib.Data.List.Basic
import Mathlib.Tactic.Common

/-!
Runs of a system of interleaved actions.

A system is a partial step function: an action is either possible in a state, and then it
has one successor, or it is not. Which process moves, what the environment does and how
far the clock advances are all part of the action, so that a list of actions is one
interleaving. A condition on the steps restricts the runs to those whose every step meets
it, in the state the step is taken from.
-/

namespace Wallace.Runs

variable {S A : Type*} {step : S → A → Option S} {C : S → A → Prop}

/-- The state after a list of actions, if each of them in turn meets `C` and is possible. -/
def run (step : S → A → Option S) (C : S → A → Prop) [∀ s a, Decidable (C s a)] :
    S → List A → Option S
  | s, [] => some s
  | s, a :: l => if C s a then (step s a).bind fun s' => run step C s' l else none

/-- A run whose steps all meet `C`, with the states it passes through, both ends
included. -/
inductive Trace (step : S → A → Option S) (C : S → A → Prop) (s₀ : S) : List S → S → Prop
  | refl : Trace step C s₀ [s₀] s₀
  | snoc {l s a s'} (h : Trace step C s₀ l s) (hc : C s a) (hs : step s a = some s') :
      Trace step C s₀ (l ++ [s']) s'

/-- The states that runs meeting `C` reach. -/
def Reach (step : S → A → Option S) (C : S → A → Prop) (s₀ s : S) : Prop :=
  ∃ l, Trace step C s₀ l s

/-- No condition: every interleaving. -/
def Any (_ : S) (_ : A) : Prop := True

instance (s : S) (a : A) : Decidable (Any s a) := isTrue trivial

/-- **The invariant rule**, for a property of the states seen and the state reached. -/
theorem Trace.invariant {s₀ : S} (I : List S → S → Prop) (h0 : I [s₀] s₀)
    (hstep : ∀ l s a s', I l s → s ∈ l → C s a → step s a = some s' → I (l ++ [s']) s')
    {l : List S} {s : S} (h : Trace step C s₀ l s) : I l s ∧ s ∈ l := by
  induction h with
  | refl => exact ⟨h0, by simp⟩
  | snoc _ hc hs ih => exact ⟨hstep _ _ _ _ ih.1 ih.2 hc hs, by simp⟩

/-- **The invariant rule**, for a property of the state reached. -/
theorem Reach.invariant {s₀ : S} (I : S → Prop) (h0 : I s₀)
    (hstep : ∀ s a s', I s → C s a → step s a = some s' → I s')
    {s : S} (h : Reach step C s₀ s) : I s := by
  obtain ⟨l, h⟩ := h
  exact (h.invariant (fun _ s => I s) h0 fun _ s a s' hi _ => hstep s a s' hi).1

/-- Weaker conditions admit more runs. -/
lemma Trace.mono {D : S → A → Prop} (hcd : ∀ s a, C s a → D s a) {s₀ s : S} {l : List S}
    (h : Trace step C s₀ l s) : Trace step D s₀ l s := by
  induction h with
  | refl => exact .refl
  | snoc _ hc hs ih => exact ih.snoc (hcd _ _ hc) hs

/-- A property of states that is part of the condition holds in all states passed. -/
lemma Trace.forall_mem {P : S → Prop} (hcp : ∀ s a, C s a → P s) {s₀ s : S} {l : List S}
    (h : Trace step C s₀ l s) (hs : P s) : ∀ t ∈ l, P t := by
  have hl := (h.invariant (fun l s => ∀ t ∈ l, t = s ∨ P t) (by simp) ?_).1
  · exact fun t ht => (hl t ht).elim (fun h => h ▸ hs) id
  · intro l s a s' hi _ hc _ t ht
    rcases List.mem_append.mp ht with ht | ht
    · exact .inr ((hi t ht).elim (fun h => h ▸ hcp s a hc) id)
    · exact .inl (List.mem_singleton.mp ht)

lemma Reach.refl (s : S) : Reach step C s s := ⟨_, .refl⟩

lemma Reach.snoc {s₀ s s' : S} {a : A} (h : Reach step C s₀ s) (hc : C s a)
    (hs : step s a = some s') : Reach step C s₀ s' := by
  obtain ⟨l, h⟩ := h
  exact ⟨_, h.snoc hc hs⟩

lemma Reach.trans {s₀ s s' : S} (h : Reach step C s₀ s) (h' : Reach step C s s') :
    Reach step C s₀ s' :=
  h'.invariant (fun s' => Reach step C s₀ s') h fun _ _ _ hr hc hs => hr.snoc hc hs

/-- What a list of actions computes, a run reaches. -/
lemma reach_of_run [∀ s a, Decidable (C s a)] {s₀ s : S} {l : List A}
    (h : run step C s₀ l = some s) : Reach step C s₀ s := by
  induction l generalizing s₀ with
  | nil => cases h; exact .refl _
  | cons a l ih =>
    simp only [run] at h
    split at h
    · rename_i hc
      obtain ⟨t, ht, h⟩ := Option.bind_eq_some_iff.mp h
      exact ((Reach.refl s₀).snoc hc ht).trans (ih h)
    · cases h

/-- A computed run that ends in a state with `p` is a run that ends so. -/
lemma exists_reach_of_run (step : S → A → Option S) (C : S → A → Prop)
    [∀ s a, Decidable (C s a)] (s₀ : S) (l : List A) (p : S → Bool)
    (h : (run step C s₀ l).any p = true) : ∃ s, Reach step C s₀ s ∧ p s = true := by
  obtain ⟨s, hs, hp⟩ := (Option.any_eq_true p _).mp h
  exact ⟨s, reach_of_run hs, hp⟩

end Wallace.Runs
