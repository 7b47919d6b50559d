import Mathlib.Data.List.Basic
import Mathlib.Data.List.Perm.Basic
import Mathlib.Tactic.Common

/-!
Loops over a list that pass over an element, count it, or give up.

The loop keeps the number of the elements it has counted and what it found last. Whether it
gives up, and how many it counts, does not depend on the order of the list; what it found last
does not either, if there is only one.
-/

namespace Wallace.Scan

variable {α β ε : Type*}

inductive Verdict (ε β : Type*)
  | skip
  | stop (e : ε)
  | found (b : β)

def Verdict.found? : Verdict ε β → Option β
  | .found b => some b
  | .skip | .stop _ => none

structure Tally (β : Type*) where
  count : ℕ
  last : β

def scan (f : α → Verdict ε β) : List α → Tally β → Except ε (Tally β)
  | [], t => .ok t
  | a :: l, t =>
    match f a with
    | .skip => scan f l t
    | .stop e => .error e
    | .found b => scan f l ⟨t.count + 1, b⟩

/-- The loop gives up somewhere. -/
def Stops (f : α → Verdict ε β) (l : List α) : Prop := ∃ a ∈ l, ∃ e, f a = .stop e

def finds (f : α → Verdict ε β) (l : List α) : List β := l.filterMap fun a => (f a).found?

variable {f : α → Verdict ε β} {l l' : List α}

lemma stops_perm (h : l.Perm l') : Stops f l ↔ Stops f l' := by
  unfold Stops
  simp only [h.mem_iff]

lemma finds_perm (h : l.Perm l') : (finds f l).Perm (finds f l') := h.filterMap _

lemma mem_finds {b : β} : b ∈ finds f l ↔ ∃ a ∈ l, f a = .found b := by
  unfold finds
  rw [List.mem_filterMap]
  refine exists_congr fun a => and_congr_right fun _ => ?_
  cases f a <;> simp [Verdict.found?]

/-- **A loop that does not give up** counts all it finds. -/
theorem scan_of_not_stops (h : ¬Stops f l) (t : Tally β) :
    scan f l t = .ok ⟨t.count + (finds f l).length, (finds f l).getLastD t.last⟩ := by
  induction l generalizing t with
  | nil => rfl
  | cons a l ih =>
    have hrest : ¬Stops f l := by
      rintro ⟨x, hx, e, he⟩
      exact h ⟨x, by simp [hx], e, he⟩
    cases hfa : f a with
    | skip =>
      have hf : finds f (a :: l) = finds f l := by simp [finds, hfa, Verdict.found?]
      rw [scan, hfa, hf]
      exact ih hrest t
    | stop e => exact absurd ⟨a, by simp, e, hfa⟩ h
    | found b =>
      have hf : finds f (a :: l) = b :: finds f l := by simp [finds, hfa, Verdict.found?]
      rw [scan, hfa, hf]
      refine (ih hrest _).trans ?_
      rw [List.length_cons, List.getLastD_cons, Nat.add_right_comm, Nat.add_assoc]

/-- **A loop that gives up** ends with the error of one of the elements. -/
theorem scan_of_stops (h : Stops f l) (t : Tally β) :
    ∃ e, scan f l t = .error e ∧ ∃ a ∈ l, f a = .stop e := by
  induction l generalizing t with
  | nil =>
    obtain ⟨a, ha, -⟩ := h
    cases ha
  | cons a l ih =>
    have hrest (t : Tally β) (hne : ∀ e, f a ≠ .stop e) :
        ∃ e, scan f l t = .error e ∧ ∃ x ∈ a :: l, f x = .stop e := by
      obtain ⟨x, hx, e, he⟩ := h
      rcases List.mem_cons.mp hx with rfl | hx
      · exact absurd he (hne e)
      · obtain ⟨e, hscan, x, hx, he⟩ := ih ⟨x, hx, e, he⟩ t
        exact ⟨e, hscan, x, by simp [hx], he⟩
    rw [scan]
    cases hfa : f a with
    | skip => exact hrest t (by simp [hfa])
    | stop e => exact ⟨e, rfl, a, by simp, hfa⟩
    | found b => exact hrest _ (by simp [hfa])

/-- **The order does not matter**, for what depends on the last find only if it is the only
one. -/
theorem scan_perm {γ : Type*} {g : Except ε (Tally β) → γ} (h : l.Perm l') (t : Tally β)
    (herr : ∀ a ∈ l, ∀ a' ∈ l, ∀ e e', f a = .stop e → f a' = .stop e' →
      g (.error e) = g (.error e'))
    (hok : ∀ n b b', n ≠ 1 → g (.ok ⟨t.count + n, b⟩) = g (.ok ⟨t.count + n, b'⟩)) :
    g (scan f l t) = g (scan f l' t) := by
  by_cases hs : Stops f l
  · obtain ⟨e, he, a, ha, hfa⟩ := scan_of_stops hs t
    obtain ⟨e', he', a', ha', hfa'⟩ := scan_of_stops ((stops_perm h).mp hs) t
    rw [he, he']
    exact herr a ha a' (h.mem_iff.mpr ha') e e' hfa hfa'
  · have hp := finds_perm (f := f) h
    rw [scan_of_not_stops hs, scan_of_not_stops (mt (stops_perm h).mpr hs), ← hp.length_eq]
    by_cases hn : (finds f l).length = 1
    · obtain ⟨b, hb⟩ := List.length_eq_one_iff.mp hn
      rw [hb] at hp
      rw [hb, List.singleton_perm.mp hp]
    · exact hok _ _ _ hn

end Wallace.Scan
