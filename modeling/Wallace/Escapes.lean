import Mathlib.Data.List.Basic
import Mathlib.Tactic.Common
import Wallace.Shell

/-!
Escapes: how a path stands in `/proc/mounts`, and what `awk -v` makes of a value.

The kernel writes blanks and backslashes of a path as a backslash with three octal digits; `awk`
reads such sequences back. Of a text without a backslash both make the text itself.
-/

namespace Wallace.Escapes

open Script (Text)

/-! ### Writing -/

def mangleChar (x : Char) : Text :=
  if x = ' ' then "\\040".toList
  else if x = '\t' then "\\011".toList
  else if x = '\n' then "\\012".toList
  else if x = '\\' then "\\134".toList
  else [x]

def mangle (t : Text) : Text := t.flatMap mangleChar

variable {s t : Text} {x : Char}

@[simp]
lemma mangle_append (s t : Text) : mangle (s ++ t) = mangle s ++ mangle t :=
  List.flatMap_append

lemma mangleChar_cases (x : Char) :
    mangleChar x = [x] ∧ Shell.blank x = false ∧ x ≠ '\\' ∨
      '\\' ∈ mangleChar x ∧ ∀ y ∈ mangleChar x, Shell.blank y = false := by
  unfold mangleChar
  split_ifs with h1 h2 h3 h4
  · exact .inr (by simp [Shell.blank])
  · exact .inr (by simp [Shell.blank])
  · exact .inr (by simp [Shell.blank])
  · exact .inr (by simp [Shell.blank])
  · exact .inl ⟨rfl, by simp [Shell.blank, h1, h2, h3], h4⟩

/-- A field of a line stays one field. -/
lemma blank_of_mem_mangle (h : x ∈ mangle t) : Shell.blank x = false := by
  obtain ⟨y, -, hx⟩ := List.mem_flatMap.mp h
  rcases mangleChar_cases y with ⟨he, hb, -⟩ | ⟨-, hb⟩
  · rw [he, List.mem_singleton] at hx
    rw [hx]
    exact hb
  · exact hb x hx

lemma mangle_ne_nil (h : t ≠ []) : mangle t ≠ [] := by
  cases t with
  | nil => exact absurd rfl h
  | cons y t =>
    intro he
    have hy : mangleChar y = [] := (List.append_eq_nil_iff.mp he).1
    rcases mangleChar_cases y with ⟨hc, -⟩ | ⟨hc, -⟩
    · rw [hc] at hy
      cases hy
    · rw [hy] at hc
      cases hc

/-- What is written without a backslash is written as it is. -/
lemma mangle_eq_self (h : '\\' ∉ mangle t) : mangle t = t := by
  induction t with
  | nil => rfl
  | cons y t ih =>
    have he : mangle (y :: t) = mangleChar y ++ mangle t := rfl
    rw [he, List.mem_append, not_or] at h
    rcases mangleChar_cases y with ⟨hc, -⟩ | ⟨hc, -⟩
    · rw [he, hc, ih h.2]
      rfl
    · exact absurd hc h.1

/-! ### Reading -/

def octalDigit (x : Char) : Option ℕ :=
  if '0' ≤ x ∧ x ≤ '7' then some (x.toNat - '0'.toNat) else none

/-- The character after a backslash, if it is not an octal digit. -/
def letter (x : Char) : Char :=
  if x = 'a' then Char.ofNat 7
  else if x = 'b' then Char.ofNat 8
  else if x = 'e' then Char.ofNat 27
  else if x = 'f' then Char.ofNat 12
  else if x = 'n' then '\n'
  else if x = 'r' then '\r'
  else if x = 't' then '\t'
  else if x = 'v' then Char.ofNat 11
  else x

/-- Where the reader is: in plain text, after a backslash, or after octal digits, with how many
more there may be. -/
inductive Mode
  | plain
  | slash
  | octal (more value : ℕ)

/-- The text from a mode on. A number stops before it would pass 255. -/
def scan : Mode → Text → Text
  | .plain, [] => []
  | .plain, x :: t => if x = '\\' then scan .slash t else x :: scan .plain t
  | .slash, [] => ['\\']
  | .slash, x :: t =>
    match octalDigit x with
    | some d => scan (.octal 2 d) t
    | none => letter x :: scan .plain t
  | .octal _ n, [] => [Char.ofNat n]
  | .octal more n, x :: t =>
    match more, octalDigit x with
    | k + 1, some d =>
      if 8 * n + d ≤ 255 then scan (.octal k (8 * n + d)) t
      else Char.ofNat n :: x :: scan .plain t
    | _, _ => Char.ofNat n :: if x = '\\' then scan .slash t else x :: scan .plain t

/-- The value of a variable that `awk -v` sets. -/
def unescape (t : Text) : Text := scan .plain t

lemma unescape_eq_self (h : '\\' ∉ t) : unescape t = t := by
  induction t with
  | nil => rfl
  | cons y t ih =>
    rw [List.mem_cons, not_or] at h
    have he : unescape (y :: t) = if y = '\\' then scan .slash t else y :: unescape t := rfl
    rw [he, if_neg (Ne.symm h.1), ih h.2]

example : unescape "/a\\040b\\134c\\q".toList = "/a b\\cq".toList := by decide

end Wallace.Escapes
