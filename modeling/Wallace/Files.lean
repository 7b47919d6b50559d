import Mathlib.Data.List.AList
import Mathlib.Data.List.Sort
import Mathlib.Logic.Function.Basic
import Mathlib.Tactic.Common

/-!
Directories of named files.

A tree has one directory for each place, and a directory holds at most one file of a name.
Writing replaces the file of that name, if there is one, and moving a file replaces the
file of its name in the directory it is moved to.
-/

namespace Wallace.Files

variable {D N C : Type*}

/-- The contents of a directory. -/
abbrev Dir (N C : Type*) := AList fun _ : N => C

/-- A directory for each place. -/
abbrev Tree (D N C : Type*) := D → Dir N C

/-- A place and a name in it. -/
structure Path (D N : Type*) where
  dir : D
  name : N
  deriving DecidableEq

section Reading

variable [DecidableEq N]

def read (s : Tree D N C) (p : Path D N) : Option C := (s p.dir).lookup p.name

/-- The names of a directory that `sel` selects, in the order `le`. -/
def list (le : N → N → Bool) (s : Tree D N C) (d : D) (sel : N → Bool) : List N :=
  ((s d).keys.filter sel).insertionSort fun m n => le m n = true

@[simp]
lemma read_empty (p : Path D N) : read (fun _ : D => (∅ : Dir N C)) p = none :=
  AList.lookup_empty _

/-- What is listed is what is there and selected. -/
lemma mem_list {le : N → N → Bool} {s : Tree D N C} {d : D} {sel : N → Bool} {n : N} :
    n ∈ list le s d sel ↔ (∃ c, read s ⟨d, n⟩ = some c) ∧ sel n = true := by
  unfold list read
  rw [List.mem_insertionSort, List.mem_filter, ← AList.mem_keys, ← AList.lookup_isSome,
    Option.isSome_iff_exists]

/-- A collating order, total on names. -/
structure Collates (le : N → N → Bool) : Prop where
  total : ∀ m n, le m n = true ∨ le n m = true
  trans : ∀ l m n, le l m = true → le m n = true → le l n = true
  antisymm : ∀ m n, le m n = true → le n m = true → m = n

/-- Listings depend only on which names are there. -/
lemma list_congr {le : N → N → Bool} (hle : Collates le) {s s' : Tree D N C} {d : D}
    (h : ∀ n, (read s' ⟨d, n⟩).isSome = (read s ⟨d, n⟩).isSome) (sel : N → Bool) :
    list le s' d sel = list le s d sel := by
  have : Std.Total fun m n => le m n = true := ⟨hle.total⟩
  have : IsTrans N fun m n => le m n = true := ⟨hle.trans⟩
  have : Std.Antisymm fun m n => le m n = true := ⟨hle.antisymm⟩
  have hkeys : (s' d).keys.Perm (s d).keys := by
    rw [List.perm_ext_iff_of_nodup (s' d).keys_nodup (s d).keys_nodup]
    intro n
    have hn := h n
    unfold read at hn
    rw [← AList.mem_keys, ← AList.mem_keys, ← AList.lookup_isSome, ← AList.lookup_isSome, hn]
  unfold list
  refine List.Perm.eq_of_pairwise' (r := fun m n => le m n = true)
    (List.pairwise_insertionSort _ _) (List.pairwise_insertionSort _ _) ?_
  exact ((List.perm_insertionSort _ _).trans (hkeys.filter sel)).trans
    (List.perm_insertionSort _ _).symm

end Reading

variable [DecidableEq D] [DecidableEq N]

def write (s : Tree D N C) (p : Path D N) (c : C) : Tree D N C :=
  Function.update s p.dir ((s p.dir).insert p.name c)

def remove (s : Tree D N C) (p : Path D N) : Tree D N C :=
  Function.update s p.dir ((s p.dir).erase p.name)

/-- The file `p`, with contents `c`, moved into the directory `d` under its own name. -/
def move (s : Tree D N C) (p : Path D N) (d : D) (c : C) : Tree D N C :=
  write (remove s p) ⟨d, p.name⟩ c

lemma read_write (s : Tree D N C) (p q : Path D N) (c : C) :
    read (write s p c) q = if q = p then some c else read s q := by
  obtain ⟨d, n⟩ := p
  obtain ⟨e, m⟩ := q
  unfold read write
  by_cases hd : e = d
  · subst hd
    by_cases hn : m = n
    · subst hn
      simp
    · simp [hn, AList.lookup_insert_ne hn]
  · simp [hd]

lemma read_remove (s : Tree D N C) (p q : Path D N) :
    read (remove s p) q = if q = p then none else read s q := by
  obtain ⟨d, n⟩ := p
  obtain ⟨e, m⟩ := q
  unfold read remove
  by_cases hd : e = d
  · subst hd
    by_cases hn : m = n
    · subst hn
      simp
    · simp [hn, AList.lookup_erase_ne hn]
  · simp [hd]

lemma read_move (s : Tree D N C) (p q : Path D N) (d : D) (c : C) :
    read (move s p d c) q =
      if q = ⟨d, p.name⟩ then some c else if q = p then none else read s q := by
  unfold move
  rw [read_write, read_remove]

/-- The rule for a property of every file: a write keeps it if the new contents have it. -/
lemma forall_read_write {s : Tree D N C} {p : Path D N} {c : C} {P : Path D N → C → Prop}
    (h : ∀ q c, read s q = some c → P q c) (hc : P p c) :
    ∀ q c', read (write s p c) q = some c' → P q c' := by
  intro q c' hq
  rw [read_write] at hq
  split at hq
  · rename_i e
    cases hq
    exact e ▸ hc
  · exact h q c' hq

/-- The rule for a property of every file: a move keeps it if the moved file has it. -/
lemma forall_read_move {s : Tree D N C} {p : Path D N} {d : D} {c : C}
    {P : Path D N → C → Prop} (h : ∀ q c, read s q = some c → P q c) (hc : P ⟨d, p.name⟩ c) :
    ∀ q c', read (move s p d c) q = some c' → P q c' := by
  intro q c' hq
  rw [read_move] at hq
  split at hq
  · rename_i e
    cases hq
    exact e ▸ hc
  · split at hq
    · cases hq
    · exact h q c' hq

end Wallace.Files
