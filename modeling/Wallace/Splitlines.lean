import Mathlib.Data.List.Basic
import Mathlib.Tactic.Common
import Wallace.Script

/-!
Lines with their ends, as `str.splitlines(keepends=True)` cuts them.

A carriage return and a line feed end one line together, so the lines of a text are not the lines
of its parts one after the other. The pieces, which end at every boundary, are; a line is a piece,
or it is two of which the second is a line feed alone.
-/

namespace Wallace.Splitlines

open Script (Text)

/-- The characters that end a line. -/
def boundary (x : Char) : Bool :=
  x.toNat ∈ [0x0a, 0x0b, 0x0c, 0x0d, 0x1c, 0x1d, 0x1e, 0x85, 0x2028, 0x2029]

/-- A character in front of the first line. -/
def push (x : Char) : List Text → List Text
  | [] => [[x]]
  | l :: ls => (x :: l) :: ls

/-- `str.splitlines(keepends=True)`. -/
def splitlines : Text → List Text
  | [] => []
  | '\r' :: '\n' :: t => ['\r', '\n'] :: splitlines t
  | x :: t => if boundary x then [x] :: splitlines t else push x (splitlines t)

/-- The text, cut after every boundary. -/
def pieces : Text → List Text
  | [] => []
  | x :: t => if boundary x then [x] :: pieces t else push x (pieces t)

/-- How lines are made of pieces. -/
inductive Joins : List Text → List Text → Prop
  | nil : Joins [] []
  | same (l : Text) {ls ps : List Text} : Joins ls ps → Joins (l :: ls) (l :: ps)
  | crlf (a : Text) {ls ps : List Text} :
    Joins ls ps → Joins ((a ++ ['\r', '\n']) :: ls) ((a ++ ['\r']) :: ['\n'] :: ps)

variable {a b t : Text} {x : Char} {ls ps : List Text}

lemma Joins.push (h : Joins ls ps) (x : Char) : Joins (push x ls) (push x ps) := by
  cases h with
  | nil => exact .same _ .nil
  | same l h => exact .same _ h
  | crlf a h => exact .crlf (x :: a) h

lemma joins_pieces (t : Text) : Joins (splitlines t) (pieces t) := by
  induction t using splitlines.induct with
  | case1 => exact .nil
  | case2 t ih => exact .crlf [] ih
  | case3 x t hne hx ih =>
    rw [splitlines, if_pos hx, pieces, if_pos hx]
    · exact .same _ ih
    · exact hne
  | case4 x t hne hx ih =>
    rw [splitlines, if_neg hx, pieces, if_neg hx]
    · exact ih.push x
    · exact hne

/-- A function of lines that takes the two parts of an end one after the other may be given the
pieces. -/
lemma Joins.flatMap {β : Type*} {f : Text → List β} (h : Joins ls ps)
    (hf : ∀ a, f (a ++ ['\r', '\n']) = f (a ++ ['\r']) ++ f ['\n']) :
    ls.flatMap f = ps.flatMap f := by
  induction h with
  | nil => rfl
  | same l _ ih => rw [List.flatMap_cons, List.flatMap_cons, ih]
  | crlf a _ ih => rw [List.flatMap_cons, List.flatMap_cons, List.flatMap_cons, ih, hf,
      List.append_assoc]

/-! ### Pieces -/

@[simp]
lemma flatten_push (x : Char) (ls : List Text) : (push x ls).flatten = x :: ls.flatten := by
  cases ls <;> rfl

@[simp]
lemma flatten_pieces (t : Text) : (pieces t).flatten = t := by
  induction t with
  | nil => rfl
  | cons x t ih =>
    rw [pieces]
    split_ifs
    · rw [List.flatten_cons, ih, List.singleton_append]
    · rw [flatten_push, ih]

/-- Pieces as they are cut from a text: only the last may be without its end. -/
inductive Proper : List Text → Prop
  | nil : Proper []
  | last {l : Text} (hne : l ≠ []) (h : ∀ y ∈ l, boundary y = false) : Proper [l]
  | cons {a : Text} {x : Char} {ls : List Text} (ha : ∀ y ∈ a, boundary y = false)
    (hx : boundary x = true) (h : Proper ls) : Proper ((a ++ [x]) :: ls)

lemma Proper.push (h : Proper ls) (hx : boundary x = false) : Proper (push x ls) := by
  cases h with
  | nil => exact .last (by simp) (by simpa using hx)
  | last hne h => exact .last (by simp) (by simpa [hx] using h)
  | @cons a y ls ha hy h => exact .cons (a := x :: a) (by simpa [hx] using ha) hy h

lemma proper_pieces (t : Text) : Proper (pieces t) := by
  induction t with
  | nil => exact .nil
  | cons x t ih =>
    rw [pieces]
    split_ifs with hx
    · exact .cons (a := []) (by simp) hx ih
    · exact ih.push (by simpa using hx)

lemma Proper.tail {l : Text} (h : Proper (l :: ls)) : Proper ls := by
  cases h with
  | last hne h => exact .nil
  | cons ha hx h => exact h

/-- The text ends where a line does. -/
def Ended (t : Text) : Prop := ∀ x ∈ t.getLast?, boundary x = true

lemma ended_nil : Ended [] := by simp [Ended]

lemma ended_concat (a : Text) (hx : boundary x = true) : Ended (a ++ [x]) := by
  simpa [Ended] using hx

lemma Ended.append (hb : Ended b) (hne : b ≠ []) : Ended (a ++ b) := by
  rw [Ended, List.getLast?_append_of_ne_nil _ hne]
  exact hb

/-- **Cutting.** The pieces of a text are those of its parts, cut where a line ends. -/
theorem pieces_append (ha : Ended a) (b : Text) : pieces (a ++ b) = pieces a ++ pieces b := by
  induction a with
  | nil => rfl
  | cons x a ih =>
    rw [List.cons_append, pieces, pieces]
    by_cases hne : a = []
    · subst hne
      have hx : boundary x = true := ha x (by simp)
      rw [if_pos hx, if_pos hx]
      rfl
    · have htail : Ended a := by
        intro y hy
        exact ha y (by rwa [List.getLast?_cons_of_ne_nil hne])
      rw [ih htail]
      split_ifs
      · rfl
      · obtain ⟨l, ls, hls⟩ : ∃ l ls, pieces a = l :: ls := by
          cases hp : pieces a with
          | nil =>
            have := flatten_pieces a
            rw [hp] at this
            exact absurd this.symm hne
          | cons l ls => exact ⟨l, ls, rfl⟩
        rw [hls]
        rfl

lemma pieces_last {l : Text} (hne : l ≠ []) (h : ∀ y ∈ l, boundary y = false) :
    pieces l = [l] := by
  induction l with
  | nil => exact absurd rfl hne
  | cons x l ih =>
    rw [pieces, if_neg (by simpa using h x (by simp))]
    by_cases hl : l = []
    · rw [hl]
      rfl
    · rw [ih hl fun y hy => h y (by simp [hy])]
      rfl

lemma pieces_line (ha : ∀ y ∈ a, boundary y = false) (hx : boundary x = true) :
    pieces (a ++ [x]) = [a ++ [x]] := by
  induction a with
  | nil =>
    rw [List.nil_append, pieces, if_pos hx]
    rfl
  | cons y a ih =>
    rw [List.cons_append, pieces, if_neg (by simpa using ha y (by simp)),
      ih fun z hz => ha z (by simp [hz])]
    rfl

/-- **Round trip.** Proper pieces are the pieces of what they make up. -/
theorem pieces_flatten (h : Proper ls) : pieces ls.flatten = ls := by
  induction h with
  | nil => rfl
  | last hne h => simpa using pieces_last hne h
  | cons ha hx _ ih =>
    rw [List.flatten_cons, pieces_append (ended_concat _ hx), pieces_line ha hx, ih]
    rfl

lemma Proper.pieces_head {l : Text} (h : Proper (l :: ls)) : pieces l = [l] := by
  cases h with
  | last hne h => exact pieces_last hne h
  | cons ha hx h => exact pieces_line ha hx

lemma Proper.ne_nil {l : Text} (h : Proper (l :: ls)) : l ≠ [] := by
  rintro rfl
  cases h.pieces_head

/-- A line that is not the last one has its end. -/
lemma Proper.ended {l : Text} (h : Proper (l :: ls)) (hne : ls ≠ []) : Ended l := by
  cases h with
  | last _ _ => exact absurd rfl hne
  | cons _ hx _ => exact ended_concat _ hx

end Wallace.Splitlines
