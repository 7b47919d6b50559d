import Mathlib.Algebra.Order.Ring.Int
import Mathlib.Data.List.DropRight
import Mathlib.Data.List.Infix
import Wallace.Script

/-!
What a shell does with text: lines and words, parameter expansion, `read` and numbers.

Text is a list of characters, so that the patterns of the shell are prefixes, suffixes and
infixes of lists.
-/

namespace Wallace.Shell

open Script (Text)

def lines (t : Text) : List Text := t.splitOn '\n'

/-- The characters of the default `IFS`. -/
def blank (c : Char) : Bool := c = ' ' ∨ c = '\t' ∨ c = '\n'

/-- Field splitting with the default `IFS`, and the fields of `awk`. -/
def words (t : Text) : List Text := (t.splitOnP blank).filter (· ≠ [])

/-- What a command substitution keeps of an output. -/
def subst (t : Text) : Text := t.rdropWhile (· = '\n')

/-- `${t%c*}`. -/
def cutLast (c : Char) (t : Text) : Text :=
  if c ∈ t then (t.rdropWhile (· ≠ c)).dropLast else t

/-- `${t#*c}`. -/
def cutFirst (c : Char) (t : Text) : Text :=
  if c ∈ t then (t.dropWhile (· ≠ c)).tail else t

/-- `printf '%s\n' "$t" | grep -q`, of a pattern that is anchored on both sides. -/
def grep (pattern : Text → Bool) (t : Text) : Bool := (lines t).any pattern

/-- `IFS=c read -r key value`. A delimiter at the end is dropped if the value is one field. -/
def readPair (c : Char) (line : Text) : Text × Text :=
  let rest := (line.dropWhile (· ≠ c)).tail
  let value := if rest.getLast? = some c ∧ c ∉ rest.dropLast then rest.dropLast else rest
  (line.takeWhile (· ≠ c), value)

/-- A number as `printf` and `$((…))` write it. -/
def decimal (n : ℕ) : Text := Nat.toDigits 10 n

/-- The value of a text of decimal digits. -/
def number (t : Text) : ℕ := Nat.ofDigitChars 10 t 0

/-- A number as `%t` and `%T` of `stat` write it. -/
def hex (n : ℕ) : Text := Nat.toDigits 16 n

def hexDigit (c : Char) : ℕ :=
  if c.isDigit then c.toNat - '0'.toNat
  else if 'a' ≤ c ∧ c ≤ 'f' then c.toNat - 'a'.toNat + 10
  else c.toNat - 'A'.toNat + 10

/-- The value of `$((0x…))`. -/
def hexNumber (t : Text) : ℕ := t.foldl (fun n c => 16 * n + hexDigit c) 0

/-- Pathname expansion, given the matches: a pattern without any stays as it is. -/
def expand (pattern : Text) : List Text → List Text
  | [] => [pattern]
  | l => l

lemma expand_perm (pattern : Text) {l l' : List Text} (h : l.Perm l') :
    (expand pattern l).Perm (expand pattern l') := by
  cases l with
  | nil => rw [h.nil_eq]
  | cons a l =>
    cases l' with
    | nil => exact absurd h.eq_nil (by simp)
    | cons b l' => exact h

/-! ### Cutting -/

variable {c : Char} {s t : Text}

lemma rdropWhile_append_cons (hs : c ∉ s) : (t ++ c :: s).rdropWhile (· ≠ c) = t ++ [c] := by
  induction s using List.reverseRecOn with
  | nil => exact List.rdropWhile_concat_neg _ _ _ (by simp)
  | append_singleton s x ih =>
    rw [List.mem_append, not_or] at hs
    have hx : x ≠ c := by
      rintro rfl
      exact hs.2 (by simp)
    rw [← List.cons_append, ← List.append_assoc,
      List.rdropWhile_concat_pos _ _ _ (by simpa using hx)]
    exact ih hs.1

@[simp]
lemma cutLast_append (hs : c ∉ s) : cutLast c (t ++ c :: s) = t := by
  rw [cutLast, if_pos (by simp), rdropWhile_append_cons hs, List.dropLast_concat]

@[simp]
lemma cutFirst_append (ht : c ∉ t) : cutFirst c (t ++ c :: s) = s := by
  rw [cutFirst, if_pos (by simp), List.dropWhile_append_of_pos]
  · simp
  · intro x hx
    have : x ≠ c := by
      rintro rfl
      exact ht hx
    simpa using this

/-- A text with `c` in it is cut at the last one. -/
lemma eq_cutLast_append (h : c ∈ t) : ∃ s, c ∉ s ∧ t = cutLast c t ++ c :: s := by
  induction t using List.reverseRecOn with
  | nil => cases h
  | append_singleton t x ih =>
    by_cases hx : x = c
    · subst hx
      exact ⟨[], by simp, by rw [cutLast_append (by simp)]⟩
    · have hmem : c ∈ t := by
        rcases List.mem_append.mp h with h | h
        · exact h
        · exact absurd (List.mem_singleton.mp h).symm hx
      obtain ⟨s, hs, ht⟩ := ih hmem
      have hs' : c ∉ s ++ [x] := by
        simp [hs, Ne.symm hx]
      have heq : t ++ [x] = cutLast c t ++ c :: (s ++ [x]) := by
        rw [← List.cons_append, ← List.append_assoc, ← ht]
      exact ⟨s ++ [x], hs', by rw [heq, cutLast_append hs']⟩

/-- **Direct children.** Cutting gives a text with `c` in it exactly if one part is left. -/
lemma cutLast_eq_iff (h : c ∈ t) {u : Text} : cutLast c u = t ↔ ∃ s, c ∉ s ∧ u = t ++ c :: s := by
  constructor
  · rintro rfl
    by_cases hu : c ∈ u
    · exact eq_cutLast_append hu
    · rw [cutLast, if_neg hu] at h
      exact absurd h hu
  · rintro ⟨s, hs, rfl⟩
    exact cutLast_append hs

/-- The texts that cutting passes through: what stands before one of the `c`. -/
lemma append_isPrefix_iff (h : c ∈ t) {b : Text} :
    b ++ [c] <+: t ↔ b = cutLast c t ∨ b ++ [c] <+: cutLast c t := by
  obtain ⟨s, hs, ht⟩ := eq_cutLast_append h
  generalize cutLast c t = p at ht
  subst ht
  constructor
  · rintro ⟨r, hr⟩
    rw [List.append_assoc, List.singleton_append] at hr
    rcases List.append_eq_append_iff.mp hr with ⟨a, rfl, ha⟩ | ⟨a, rfl, ha⟩
    · cases a with
      | nil => exact .inl (by simp)
      | cons x a =>
        rw [List.cons_append] at ha
        injection ha with hx ha
        subst hx
        exact .inr ⟨a, by simp⟩
    · cases a with
      | nil => exact .inl (by simp)
      | cons x a =>
        rw [List.cons_append] at ha
        injection ha with hx ha
        exact absurd (by rw [ha]; simp) hs
  · rintro (rfl | ⟨r, rfl⟩)
    · exact ⟨s, by simp⟩
    · exact ⟨r ++ c :: s, by simp⟩

/-! ### Marked lists -/

/-- The names seen, with a mark before, between and after them. -/
def marked (c : Char) (names : List Text) : Text := c :: names.flatMap (· ++ [c])

@[simp]
lemma marked_cons (c : Char) (x : Text) (names : List Text) :
    marked c (x :: names) = c :: (x ++ marked c names) := by
  simp [marked]

lemma marked_concat (c : Char) (names : List Text) (x : Text) :
    marked c (names ++ [x]) = marked c names ++ x ++ [c] := by
  simp [marked]

lemma isPrefix_append_cons_iff (hs : c ∉ s) (ht : c ∉ t) {r : Text} :
    s ++ [c] <+: t ++ c :: r ↔ s = t := by
  constructor
  · intro h
    induction s generalizing t with
    | nil =>
      cases t with
      | nil => rfl
      | cons y t =>
        simp only [List.nil_append, List.cons_append, List.cons_prefix_cons] at h
        exact absurd (by simp [h.1]) ht
    | cons x s ih =>
      cases t with
      | nil =>
        simp only [List.nil_append, List.cons_append, List.cons_prefix_cons] at h
        exact absurd (by simp [h.1]) hs
      | cons y t =>
        simp only [List.cons_append, List.cons_prefix_cons] at h
        simp only [List.mem_cons, not_or] at hs ht
        rw [h.1, ih hs.2 ht.2 h.2]
  · rintro rfl
    exact ⟨r, by simp⟩

lemma isInfix_append_iff (hs : c ∉ s) {x r : Text} : c :: x <:+: s ++ r ↔ c :: x <:+: r := by
  induction s with
  | nil => rfl
  | cons y s ih =>
    simp only [List.mem_cons, not_or] at hs
    rw [List.cons_append, List.infix_cons_iff, ih hs.2, List.cons_prefix_cons]
    simp [hs.1]

/-- **A name between marks** is one of the names, if no name has the mark in it. -/
theorem isInfix_marked_iff {x : Text} {names : List Text} (hx : c ∉ x)
    (hnames : ∀ y ∈ names, c ∉ y) : c :: x ++ [c] <:+: marked c names ↔ x ∈ names := by
  induction names with
  | nil =>
    have hnot : ¬c :: x ++ [c] <:+: [c] := by
      intro h
      have := h.length_le
      simp at this
    simpa [marked] using hnot
  | cons y names ih =>
    have hy : c ∉ y := hnames y (by simp)
    have hrest := ih fun z hz => hnames z (by simp [hz])
    have hfirst : x ++ [c] <+: y ++ marked c names ↔ x = y := isPrefix_append_cons_iff hx hy
    rw [marked_cons, List.infix_cons_iff, List.cons_append, List.cons_prefix_cons, hfirst,
      isInfix_append_iff hy, ← List.cons_append, hrest]
    simp

/-! ### Numbers -/

lemma hexDigit_digitChar : ∀ {d : ℕ}, d < 16 → hexDigit d.digitChar = d := by
  decide

lemma mem_hex {n : ℕ} (h : c ∈ hex n) : ∃ d < 16, c = d.digitChar := by
  unfold hex at h
  induction n using Nat.strongRecOn with
  | ind n ih =>
    rw [Nat.toDigits_eq_if (by decide)] at h
    split_ifs at h with hn
    · exact ⟨n, hn, List.mem_singleton.mp h⟩
    · rcases List.mem_append.mp h with h | h
      · exact ih (n / 16) (by omega) h
      · exact ⟨n % 16, by omega, List.mem_singleton.mp h⟩

/-- **The shell reads back** what `stat` writes. -/
@[simp]
theorem hexNumber_hex (n : ℕ) : hexNumber (hex n) = n := by
  unfold hexNumber hex
  induction n using Nat.strongRecOn with
  | ind n ih =>
    rw [Nat.toDigits_eq_if (by decide)]
    split_ifs with hn
    · simp [hexDigit_digitChar hn]
    · rw [List.foldl_append, ih (n / 16) (by omega)]
      simp only [List.foldl_cons, List.foldl_nil, hexDigit_digitChar (Nat.mod_lt n (by decide))]
      omega

@[simp]
lemma number_decimal (n : ℕ) : number (decimal n) = n :=
  Nat.ofDigitChars_toDigits (by decide) (by decide)

lemma not_mem_decimal {n : ℕ} (h : c.isDigit = false) : c ∉ decimal n := by
  intro hc
  have hd := Nat.isDigit_of_mem_toDigits (by decide) (by decide) hc
  rw [h] at hd
  cases hd

/-! ### Lines -/

lemma not_mem_of_mem_lines {l : Text} (h : l ∈ lines t) : '\n' ∉ l := by
  unfold lines at h
  induction t generalizing l with
  | nil =>
    rw [List.splitOn_nil, List.mem_singleton] at h
    rw [h]
    simp
  | cons x t ih =>
    rw [List.splitOn_cons_eq_if_modifyHead] at h
    split_ifs at h with hx
    · rcases List.mem_cons.mp h with rfl | h
      · simp
      · exact ih h
    · obtain ⟨y, ys, hys⟩ := List.exists_cons_of_ne_nil (List.splitOn_ne_nil '\n' t)
      rw [hys, List.modifyHead_cons] at h
      rcases List.mem_cons.mp h with rfl | h
      · have hy : '\n' ∉ y := ih (by rw [hys]; simp)
        have hne : '\n' ≠ x := by
          rintro rfl
          simp at hx
        simp [hne, hy]
      · exact ih (by rw [hys]; simp [h])

lemma mem_of_mem_readPair {line : Text} {x : Char} (h : x ∈ (readPair c line).2) : x ∈ line := by
  have hrest (h : x ∈ (line.dropWhile (· ≠ c)).tail) : x ∈ line :=
    (List.dropWhile_sublist _).subset (List.mem_of_mem_tail h)
  unfold readPair at h
  simp only at h
  split_ifs at h
  · exact hrest (List.mem_of_mem_dropLast h)
  · exact hrest h

end Wallace.Shell
