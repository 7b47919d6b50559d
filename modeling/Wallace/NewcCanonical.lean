import Mathlib.Data.List.Sort
import Wallace.NewcRoundTrip
import Wallace.Shell

/-!
The archive as a function of what a tree holds: the same bytes for every order in which its
directories are enumerated, every directory before what is in it, and inode numbers counted
from one.

A tree here may hold files of any type. At one that the writer does not archive, or with a
field that does not fit, it raises; what it has written until then is its output.
-/

namespace Wallace.NewcCanonical

open Wallace.NewcModel Wallace.NewcEntry Wallace.NewcRoundTrip

/-- A directory with everything below it, of any type. -/
structure AnyTree where
  stat : Stat
  entries : Forest
  isDir : isDir stat.mode = true
  named : entries.named = true

/-- The bytes a path is sorted by. -/
def sortKey (p : List Str) : Bytes := encode (asPosix p)

/-- `archive_paths`, with the name each path is archived under. -/
def AnyTree.files (t : AnyTree) : List (Str × Node) :=
  (['.'], .dir t.stat t.entries) ::
    (t.entries.paths.mergeSort fun p q => sortKey p.1 ≤ sortKey q.1).map
      fun p => ('.' :: '/' :: asPosix p.1, p.2)

/-- The loop of `main` and the trailer, with the bytes written so far when it raises, and
whether it gets to its end. -/
def output : ℕ → List (Str × Node) → List Bytes × Bool
  | inode, [] =>
    match writeEntry inode trailer 0 1 [] (0, 0) with
    | none => ([], false)
    | some entry => ([entry], true)
  | inode, (name, node) :: rest =>
    match entryOf node with
    | none => ([], false)
    | some (data, nlink, rdev) =>
      match writeEntry inode name node.stat.mode nlink data rdev with
      | none => ([], false)
      | some entry => (entry :: (output (inode + 1) rest).1, (output (inode + 1) rest).2)

/-- What reaches the output, entry by entry, and whether `main` returns. -/
def AnyTree.archive (t : AnyTree) : List Bytes × Bool := output 1 t.files

/-! ### What a tree holds -/

/-- Of a file: its mode, its contents or link target, and its device numbers. -/
structure Attrs where
  mode : ℕ
  data : Bytes
  rdev : ℕ × ℕ
  deriving DecidableEq

def attrs (n : Node) : Attrs where
  mode := n.stat.mode
  data := dataOf n
  rdev := if isChr n.stat.mode || isBlk n.stat.mode then (n.stat.major, n.stat.minor) else (0, 0)

/-- The relative paths of a tree with what they stand for. -/
def AnyTree.listing (t : AnyTree) : List (List Str × Attrs) :=
  t.entries.paths.map fun q => (q.1, attrs q.2)

variable {α : Type}

mutual
/-- What a path is in stands in the tree as well, and is a directory. -/
lemma forest_parents : ∀ f : Forest, f.named = true → ∀ p x n, (p ++ [x], n) ∈ f.paths →
    p = [] ∨ ∃ d, (p, d) ∈ f.paths ∧ isDir d.stat.mode = true
  | .nil, _ => by simp [Forest.paths]
  | .cons name node rest, h => by
    simp only [Forest.named, Bool.and_eq_true] at h
    intro p x n hmem
    simp only [Forest.paths] at hmem ⊢
    rcases List.mem_append.mp hmem with hmem | hmem
    · rcases List.mem_cons.mp hmem with he | hmem
      · have hp : p ++ [x] = [] ++ [name] := (Prod.mk.inj he).1
        exact .inl (List.append_inj' hp rfl).1
      · obtain ⟨⟨r, n'⟩, hr, he⟩ := List.mem_map.mp hmem
        obtain ⟨hp, rfl⟩ := Prod.mk.inj he
        obtain ⟨d, hd, hdir⟩ := node_parents name node h.1.2 p x n' r hp hr
        exact .inr ⟨d, List.mem_append_left _ hd, hdir⟩
    · rcases forest_parents rest h.2 p x n hmem with hp | ⟨d, hd, hdir⟩
      · exact .inl hp
      · exact .inr ⟨d, List.mem_append_right _ hd, hdir⟩

lemma node_parents (name : Str) : ∀ node : Node, node.named = true → ∀ p x n r,
    name :: r = p ++ [x] → (r, n) ∈ node.descendants →
    ∃ d, (p, d) ∈ ([name], node) :: (node.descendants.map fun q => (name :: q.1, q.2)) ∧
      isDir d.stat.mode = true
  | .leaf _ _, _ => by simp [Node.descendants]
  | .dir st entries, h => by
    simp only [Node.named, Bool.and_eq_true] at h
    intro p x n r hp hr
    simp only [Node.descendants] at hr ⊢
    have hne : r ≠ [] := ((forest_paths entries h.2).1.parts _ hr).1
    obtain ⟨r', y, rfl⟩ := (List.eq_nil_or_concat' r).resolve_left hne
    obtain ⟨rfl, -⟩ : name :: r' = p ∧ [y] = [x] :=
      List.append_inj' (by rw [← hp, List.cons_append]) rfl
    rcases forest_parents entries h.2 r' y n hr with rfl | ⟨d, hd, hdir⟩
    · exact ⟨_, List.mem_cons_self .., h.1⟩
    · exact ⟨d, List.mem_cons_of_mem _ (List.mem_map.mpr ⟨(r', d), hd, rfl⟩), hdir⟩
end

/-- An entry of the archive with an inode number and a name. -/
def IsEntry (inode : ℕ) (name : Str) (part : Bytes) : Prop :=
  ∃ mode nlink data rdev, writeEntry inode name mode nlink data rdev = some part

lemma length_hex8 (v : ℕ) : (hex8 v).length = max 8 (Nat.toDigits 16 v).length := by
  unfold hex8
  simp only
  rw [encode_append, encode_zeros, List.length_append, List.length_replicate,
    (encode_toDigits v).1]
  omega

/-- A header of the right length has an inode number of eight digits. -/
lemma inode_lt_of_writeEntry {inode : ℕ} {name : Str} {mode nlink : ℕ} {data : Bytes}
    {rdev : ℕ × ℕ} {part : Bytes} (h : writeEntry inode name mode nlink data rdev = some part) :
    inode < 2 ^ 32 ∧ ∃ rest, part = magic ++ hex8 inode ++ rest := by
  unfold writeEntry at h
  simp only at h
  split_ifs at h with hlen
  cases h
  have hmagic : magic.length = 6 := by decide
  have hdigits : (Nat.toDigits 16 inode).length ≤ 8 := by
    simp only [List.length_append, List.flatMap_cons, List.flatMap_nil, List.length_nil,
      length_hex8, hmagic, not_not] at hlen
    omega
  refine ⟨?_, ?_⟩
  · have hlt := (Nat.length_toDigits_le_iff (by decide) (by decide)).mp hdigits
    exact hlt
  · refine ⟨_, by simp only [List.flatMap_cons, List.append_assoc]; rfl⟩

/-- The inode number stands in the header as the reader reads it. -/
lemma IsEntry.inode {inode : ℕ} {name : Str} {part : Bytes} (h : IsEntry inode name part)
    (lenient : Bytes → Option ℤ) : int16 lenient (pySlice part 6 14) = some (inode : ℤ) := by
  obtain ⟨mode, nlink, data, rdev, hw⟩ := h
  obtain ⟨hlt, rest, hpart⟩ := inode_lt_of_writeEntry hw
  obtain ⟨h8, hread⟩ := hex8_spec hlt lenient
  rw [pySlice_of_eq magic (hex8 inode) rest hpart (by decide) (by rw [h8]; decide), hread]

/-! ### Every tree -/

end Wallace.NewcCanonical
