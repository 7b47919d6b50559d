import Wallace.Shell

/-!
Files of `KEY=value` lines, written one `echo` a line and read back by the first line that
starts with a key.

Nothing is escaped: a value with a line break in it goes on in the next line of the file. A
record reads back as its values as long as these are single lines.
-/

namespace Wallace.KeyValue

open Script (Text)
open Shell

/-- Keys with their values, in the order of the lines. -/
abbrev Rec := List (Text × Text)

/-- `echo "$key=$value"`, for each in turn. -/
def text (r : Rec) : Text := r.flatMap fun kv => kv.1 ++ '=' :: kv.2 ++ ['\n']

/-- `sed -n "s/^$key=//p" | head -1`. -/
def first (key file : Text) : Text :=
  match (lines file).find? fun l => (key ++ ['=']).isPrefixOf l with
  | some l => l.drop (key.length + 1) ++ ['\n']
  | none => []

/-- The same in a command substitution. -/
def get (file key : Text) : Text := subst (first key file)

/-! ### Lines of a text -/

/-- What stands before the first line break. -/
def firstLine (t : Text) : Text := t.takeWhile (· ≠ '\n')

lemma firstLine_eq_self_iff {t : Text} : firstLine t = t ↔ '\n' ∉ t := by
  rw [firstLine, List.takeWhile_eq_self_iff]
  constructor
  · intro h hmem
    exact absurd (h _ hmem) (by simp)
  · intro h x hx
    have : x ≠ '\n' := by
      rintro rfl
      exact h hx
    simpa using this

lemma not_mem_firstLine (t : Text) : '\n' ∉ firstLine t := by
  intro h
  exact absurd (List.mem_takeWhile_imp h) (by simp)

/-- The first line of a text is the one with that name. -/
lemma lines_eq_cons (t : Text) : lines t = firstLine t :: (lines t).tail := by
  induction t with
  | nil => rfl
  | cons x t ih =>
    unfold lines firstLine at ih ⊢
    rw [List.splitOn_cons_eq_if_modifyHead]
    split_ifs with hx
    · simp [eq_of_beq hx]
    · have hx' : x ≠ '\n' := by simpa using hx
      rw [ih, List.modifyHead_cons, List.takeWhile_cons_of_pos (by simpa using hx'),
        List.tail_cons]

lemma firstLine_append {p t : Text} (hp : '\n' ∉ p) : firstLine (p ++ t) = p ++ firstLine t := by
  rw [firstLine, List.takeWhile_append_of_pos, firstLine]
  intro x hx
  have : x ≠ '\n' := by
    rintro rfl
    exact hp hx
  simpa using this

lemma lines_append_newline (s t : Text) : lines (s ++ '\n' :: t) = lines s ++ lines t :=
  List.splitOn_append_cons_self s t

lemma subst_append_newline {t : Text} (h : '\n' ∉ t) : subst (t ++ ['\n']) = t := by
  rw [subst, List.rdropWhile_concat_pos _ _ _ (by simp), List.rdropWhile_eq_self_iff]
  intro hne hlast
  have : t.getLast hne = '\n' := by simpa using hlast
  exact h (this ▸ List.getLast_mem hne)

/-! ### Reading a record back -/

/-- A key without a line break or an equals sign. -/
def Plain (key : Text) : Prop := '\n' ∉ key ∧ '=' ∉ key

variable {k k' v : Text} {r : Rec}

lemma text_cons (k v : Text) (r : Rec) :
    text ((k, v) :: r) = (k ++ '=' :: v) ++ '\n' :: text r := by
  simp [text]

lemma lines_text_cons (k v : Text) (r : Rec) :
    lines (text ((k, v) :: r)) = lines (k ++ '=' :: v) ++ lines (text r) := by
  rw [text_cons, lines_append_newline]

lemma Plain.not_mem_append (hk : Plain k) : '\n' ∉ k ++ ['='] := by
  rw [List.mem_append, not_or]
  exact ⟨hk.1, by decide⟩

lemma Plain.append_not_mem (hk : Plain k) (hv : '\n' ∉ v) : '\n' ∉ k ++ '=' :: v := by
  simp only [List.mem_append, List.mem_cons, not_or]
  exact ⟨hk.1, by decide, hv⟩

/-- **The first line with the key** is its own one, cut at the first line break of the
value. -/
lemma get_cons_self (hk : Plain k) : get (text ((k, v) :: r)) k = firstLine v := by
  have hline : firstLine (k ++ '=' :: v) = (k ++ ['=']) ++ firstLine v := by
    rw [← firstLine_append hk.not_mem_append]
    simp
  have hlines : lines (text ((k, v) :: r)) =
      ((k ++ ['=']) ++ firstLine v) :: ((lines (k ++ '=' :: v)).tail ++ lines (text r)) := by
    rw [lines_text_cons, lines_eq_cons (k ++ '=' :: v), hline]
    simp
  have hpre : (k ++ ['=']).isPrefixOf ((k ++ ['=']) ++ firstLine v) = true :=
    List.isPrefixOf_iff_prefix.mpr (List.prefix_append ..)
  have hdrop : ((k ++ ['=']) ++ firstLine v).drop (k.length + 1) = firstLine v :=
    List.drop_left' (by simp)
  rw [get, first, hlines, List.find?_cons_of_pos hpre]
  simp only [hdrop]
  exact subst_append_newline (not_mem_firstLine v)

/-- A single line with another key is passed over. -/
lemma get_cons_of_ne (hk : Plain k) (hk' : Plain k') (hne : k ≠ k') (hv : '\n' ∉ v) :
    get (text ((k', v) :: r)) k = get (text r) k := by
  have hline : lines (k' ++ '=' :: v) = [k' ++ '=' :: v] :=
    List.splitOn_eq_singleton (hk'.append_not_mem hv)
  have hpre : ¬ (k ++ ['=']).isPrefixOf (k' ++ '=' :: v) = true := by
    rw [List.isPrefixOf_iff_prefix, isPrefix_append_cons_iff hk.2 hk'.2]
    exact hne
  rw [get, first, lines_text_cons, hline, List.singleton_append, List.find?_cons_of_neg hpre]
  rfl

/-- What is read is always one line. -/
lemma not_mem_get (file key : Text) : '\n' ∉ get file key := by
  unfold get first
  split
  next l hl =>
    have hmem : l ∈ lines file := List.mem_of_find?_eq_some hl
    have hdrop : '\n' ∉ l.drop (key.length + 1) :=
      fun h => not_mem_of_mem_lines hmem (List.mem_of_mem_drop h)
    rw [subst_append_newline hdrop]
    exact hdrop
  next => simp [subst]

end Wallace.KeyValue
