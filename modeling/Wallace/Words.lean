import Mathlib.Data.List.DropRight
import Mathlib.Tactic.Common

/-!
Words: the first occurrence of a pattern, and padding at the end.

A word that is followed by padding is cut from the right at its last letter that is no
padding, so that two ways to write a word with the same padded end are the same.
-/

namespace Wallace.Words

variable {α : Type*} [DecidableEq α]

/-! ### Occurrences -/

/-- The first occurrence of a pattern. -/
def find (pat : List α) : List α → Option ℕ
  | [] => if pat = [] then some 0 else none
  | c :: l => if pat.isPrefixOf (c :: l) then some 0 else (find pat l).map (· + 1)

variable {pat u w l : List α}

/-- What is found first is no later than a known occurrence. -/
lemma find_le (pat u t : List α) : ∃ j ≤ u.length, find pat (u ++ (pat ++ t)) = some j := by
  induction u with
  | nil =>
    refine ⟨0, le_rfl, ?_⟩
    rw [List.nil_append]
    cases h : pat ++ t with
    | nil => simp [find, (List.append_eq_nil_iff.mp h).1]
    | cons c l =>
      have hpre : pat <+: c :: l := h ▸ List.prefix_append pat t
      simp [find, hpre]
  | cons c u ih =>
    obtain ⟨j, hj, e⟩ := ih
    rw [List.cons_append, find]
    split
    · exact ⟨0, Nat.zero_le _, rfl⟩
    · exact ⟨j + 1, Nat.succ_le_succ hj, by rw [e]; rfl⟩

/-- A known occurrence that no other comes before is found. -/
lemma find_eq_length {t : List α}
    (h : ∀ k < u.length, ¬pat <+: (u ++ (pat ++ t)).drop k) :
    find pat (u ++ (pat ++ t)) = some u.length := by
  induction u with
  | nil =>
    obtain ⟨j, hj, e⟩ := find_le pat [] t
    rw [e, Nat.le_zero.mp hj]
    rfl
  | cons c u ih =>
    have hhead : ¬pat <+: c :: (u ++ (pat ++ t)) := h 0 (Nat.zero_lt_succ _)
    have hrest := ih fun k hk => h (k + 1) (Nat.succ_lt_succ hk)
    rw [List.cons_append, find]
    simp [hhead, hrest]

omit [DecidableEq α] in
/-- A pattern does not occur before its first letter does. -/
lemma not_occurs_of_head_notMem {c : α} {pat t : List α} (h : c ∉ u) {k : ℕ} (hk : k < u.length) :
    ¬c :: pat <+: (u ++ t).drop k := by
  intro hpre
  have hdrop : (u ++ t).drop k = u[k] :: (u.drop (k + 1) ++ t) := by
    rw [List.drop_append_of_le_length hk.le, List.drop_eq_getElem_cons hk, List.cons_append]
  rw [hdrop, List.cons_prefix_cons] at hpre
  exact h (hpre.1 ▸ List.getElem_mem hk)

lemma find_of_head_notMem {c : α} {pat t : List α} (h : c ∉ u) :
    find (c :: pat) (u ++ (c :: pat ++ t)) = some u.length :=
  find_eq_length fun _ hk => not_occurs_of_head_notMem h hk

/-! ### Padding -/

lemma rdropWhile_padded (l : List α) (z : α) (n : ℕ) :
    (l ++ List.replicate n z).rdropWhile (· = z) = l.rdropWhile (· = z) := by
  induction n with
  | zero => rw [List.replicate_zero, List.append_nil]
  | succ n ih =>
    rw [List.replicate_succ', ← List.append_assoc, List.rdropWhile_concat_pos _ _ _ (by simp), ih]

omit [DecidableEq α] in
lemma rdropWhile_append {p : α → Bool} (u : List α) (h : ∃ x ∈ w, ¬p x) :
    (u ++ w).rdropWhile p = u ++ w.rdropWhile p := by
  have hne : (w.reverse.dropWhile p).isEmpty = false := by
    rw [List.isEmpty_eq_false_iff, Ne, List.dropWhile_eq_nil_iff]
    obtain ⟨x, hx, hp⟩ := h
    exact fun hall => hp (hall x (List.mem_reverse.mpr hx))
  unfold List.rdropWhile
  rw [List.reverse_append, List.dropWhile_append, hne]
  simp

/-- **A padded word is cut in one way**: what stands before a word with a letter that is no
padding does not depend on the length of the padding. -/
theorem padded_cancel {v : List α} {z : α} {m n : ℕ} (hw : ∃ x ∈ w, x ≠ z)
    (h : u ++ (w ++ List.replicate m z) = v ++ (w ++ List.replicate n z)) : u = v := by
  have hw' : ∃ x ∈ w, ¬decide (x = z) := by simpa using hw
  have hcut : ∀ (u : List α) (m : ℕ), (u ++ (w ++ List.replicate m z)).rdropWhile (· = z) =
      u ++ w.rdropWhile (· = z) := by
    intro u m
    rw [← List.append_assoc, rdropWhile_padded, rdropWhile_append u hw']
  have hboth : u ++ w.rdropWhile (· = z) = v ++ w.rdropWhile (· = z) := by
    rw [← hcut u m, ← hcut v n, h]
  exact List.append_cancel_right hboth

end Wallace.Words
