import Mathlib.Data.List.Basic
import Mathlib.Tactic.Common
import Wallace.Checks
import Wallace.PmgrModel

/-!
Splitting the PMGR source.

The splitter may be given the pieces of the text, since a line that ends in a carriage return means
nothing to it. Where it is after a line depends on the line and on where it was, not on the text
that it has kept.
-/

namespace Wallace.PmgrSplit

open Wallace.PmgrModel
open Wallace.Splitlines
open Script (Text)

variable {a l t lit : Text} {ls ps : List Text} {place : Place} {parts : List Part}

/-! ### Patterns -/

lemma after_eq_some {r : Text} : after lit t = some r ↔ t = lit ++ r := by
  unfold after
  constructor
  · intro h
    split_ifs at h with hp
    obtain ⟨s, rfl⟩ := hp
    rw [List.drop_left, Option.some.injEq] at h
    rw [h]
  · rintro rfl
    rw [if_pos (List.prefix_append _ _), List.drop_left]

lemma rstrip_cr (a : Text) : rstrip (a ++ ['\r']) = a ++ ['\r'] :=
  List.rdropWhile_concat_neg _ _ _ (by decide)

lemma rstrip_crlf (a : Text) : rstrip (a ++ ['\r', '\n']) = a ++ ['\r'] := by
  have h : a ++ ['\r', '\n'] = (a ++ ['\r']) ++ ['\n'] := by simp
  rw [h, rstrip, List.rdropWhile_concat_pos _ _ _ (by decide)]
  exact rstrip_cr a

lemma rstrip_lf : rstrip ['\n'] = [] := by decide

lemma getLast?_of_domainStart {label : Text} (h : domainStart t = some label) :
    t.getLast? = some '{' := by
  unfold domainStart at h
  obtain ⟨r, hr, h⟩ := Option.bind_eq_some_iff.mp h
  obtain ⟨u, hu, h⟩ := Option.bind_eq_some_iff.mp h
  split_ifs at h with hc
  rw [after_eq_some] at hr hu
  rw [hr, ← List.takeWhile_append_dropWhile (p := labelChar) (l := r), hu,
    ← List.takeWhile_append_dropWhile (p := hexChar) (l := u), hc.2.2]
  simp [domainTail]

lemma head_of_domainStart {label : Text} (h : domainStart t = some label) :
    domainHead <+: t := by
  obtain ⟨r, hr, -⟩ := Option.bind_eq_some_iff.mp h
  exact ⟨r, (after_eq_some.mp hr).symm⟩

lemma getLast?_of_controllerOf {n : ℕ} (h : controllerOf t = some n) : t.getLast? = some '{' := by
  unfold controllerOf at h
  obtain ⟨r, hr, h⟩ := Option.bind_eq_some_iff.mp h
  rw [after_eq_some] at hr
  cases r with
  | nil => cases h
  | cons x r =>
    simp only at h
    split_ifs at h with hc
    rw [hr, hc.2]
    simp [domainTail]

/-- A line that starts a domain names no controller. -/
lemma controllerOf_of_domainStart {label : Text} (h : domainStart t = some label) :
    controllerOf t = none := by
  obtain ⟨r, rfl⟩ := head_of_domainStart h
  rw [Option.eq_none_iff_forall_ne_some]
  intro n hn
  unfold controllerOf at hn
  obtain ⟨u, hu, -⟩ := Option.bind_eq_some_iff.mp hn
  have hhead := congrArg List.head? (after_eq_some.mp hu)
  simp [domainHead, controllerHead] at hhead

/-- Nothing that the splitter looks for. -/
structure Inert (line : Text) : Prop where
  start : domainStart (rstrip line) = none
  controller : controllerOf (rstrip line) = none
  ends : rstrip line ≠ domainEnd

lemma inert_of_getLast? (hb : (rstrip l).getLast? ≠ some '{')
    (hs : (rstrip l).getLast? ≠ some ';') : Inert l where
  start := Option.eq_none_iff_forall_ne_some.mpr fun _ h => hb (getLast?_of_domainStart h)
  controller := Option.eq_none_iff_forall_ne_some.mpr fun _ h => hb (getLast?_of_controllerOf h)
  ends h := hs (by rw [h]; decide)

lemma inert_cr (a : Text) : Inert (a ++ ['\r']) :=
  inert_of_getLast? (by simp [rstrip_cr]) (by simp [rstrip_cr])

lemma inert_crlf (a : Text) : Inert (a ++ ['\r', '\n']) :=
  inert_of_getLast? (by simp [rstrip_crlf]) (by simp [rstrip_crlf])

lemma inert_lf : Inert ['\n'] :=
  inert_of_getLast? (by simp [rstrip_lf]) (by simp [rstrip_lf])

/-! ### Derivations -/

/-- How the splitter, at a place and with a text kept, cuts lines into parts. -/
inductive Splits : Place → Text → List Text → List Part → Prop
  | done (controller : Option ℕ) (plain : Text) :
    Splits (.outside controller) plain [] (flushPlain plain)
  | plain {controller : Option ℕ} {plain line : Text} {lines : List Text} {parts : List Part}
    (hl : domainStart (rstrip line) = none)
    (h : Splits (.outside ((controllerOf (rstrip line)).or controller)) (plain ++ line) lines
      parts) :
    Splits (.outside controller) plain (line :: lines) parts
  | start {controller : ℕ} {label plain line : Text} {lines : List Text} {parts : List Part}
    (hl : domainStart (rstrip line) = some label)
    (h : Splits (.inside controller label) line lines parts) :
    Splits (.outside (some controller)) plain (line :: lines) (flushPlain plain ++ parts)
  | line {controller : ℕ} {label block line : Text} {lines : List Text} {parts : List Part}
    (hl : rstrip line ≠ domainEnd)
    (h : Splits (.inside controller label) (block ++ line) lines parts) :
    Splits (.inside controller label) block (line :: lines) parts
  | ends {controller : ℕ} {label block line : Text} {lines : List Text} {parts : List Part}
    (hl : rstrip line = domainEnd)
    (h : Splits (.outside (some controller)) [] lines parts) :
    Splits (.inside controller label) block (line :: lines)
      (.domain ⟨label, controller, block ++ line⟩ :: parts)

lemma splits_of_splitLines {i : ℕ} (h : splitLines place t i ls = .ok parts) :
    Splits place t ls parts := by
  induction ls generalizing place t i parts with
  | nil =>
    cases place with
    | outside controller =>
      rw [splitLines] at h
      rw [← Except.ok.inj h]
      exact .done _ _
    | inside controller label => cases h
  | cons line lines ih =>
    cases place with
    | outside controller =>
      rw [splitLines] at h
      cases hs : domainStart (rstrip line) with
      | none =>
        rw [hs] at h
        exact .plain hs (ih h)
      | some label =>
        rw [hs, controllerOf_of_domainStart hs, Option.none_or] at h
        cases controller with
        | none => cases h
        | some controller =>
          obtain ⟨rest, hrest, rfl⟩ := Checks.map_ok h
          exact .start hs (ih hrest)
    | inside controller label =>
      rw [splitLines] at h
      split_ifs at h with he
      · obtain ⟨rest, hrest, rfl⟩ := Checks.map_ok h
        exact .ends he (ih hrest)
      · exact .line he (ih h)

lemma splitLines_of_splits (h : Splits place t ls parts) (i : ℕ) :
    splitLines place t i ls = .ok parts := by
  induction h generalizing i with
  | done controller plain => rfl
  | plain hl h ih =>
    rw [splitLines, hl]
    exact ih _
  | start hl h ih =>
    rw [splitLines, hl, controllerOf_of_domainStart hl, Option.none_or]
    simp only [ih]
    rfl
  | line hl h ih => rw [splitLines, if_neg hl, ih]
  | ends hl h ih =>
    rw [splitLines, if_pos hl, ih]
    rfl

/-- A line that means nothing is only kept. -/
lemma splits_inert (hl : Inert l) :
    Splits place t (l :: ls) parts ↔ Splits place (t ++ l) ls parts := by
  constructor
  · intro h
    cases h with
    | plain _ h => rwa [hl.controller, Option.none_or] at h
    | start hs h => rw [hl.start] at hs; cases hs
    | line _ h => exact h
    | ends he h => exact absurd he hl.ends
  · intro h
    cases place with
    | outside controller =>
      refine .plain hl.start ?_
      rwa [hl.controller, Option.none_or]
    | inside controller label => exact .line hl.ends h

/-- What is cut off a line at the front depends on that line only. -/
lemma Splits.cons_mono (hs : Splits place t (l :: ls) parts)
    (h : ∀ place t parts, Splits place t ls parts → Splits place t ps parts) :
    Splits place t (l :: ps) parts := by
  cases hs with
  | plain hl hs => exact .plain hl (h _ _ _ hs)
  | start hl hs => exact .start hl (h _ _ _ hs)
  | line hl hs => exact .line hl (h _ _ _ hs)
  | ends hl hs => exact .ends hl (h _ _ _ hs)

lemma splits_joins (h : Joins ls ps) : Splits place t ls parts ↔ Splits place t ps parts := by
  induction h generalizing place t parts with
  | nil => exact Iff.rfl
  | same l _ ih =>
    exact ⟨fun h => h.cons_mono fun _ _ _ => ih.mp, fun h => h.cons_mono fun _ _ _ => ih.mpr⟩
  | crlf a _ ih =>
    rw [splits_inert (inert_crlf a), splits_inert (inert_cr a), splits_inert inert_lf, ih]
    simp

/-- **Splitting.** The splitter cuts the pieces of a text as it cuts its lines. -/
theorem splitSource_eq_ok :
    splitSource t = .ok parts ↔ Splits (.outside none) [] (pieces t) parts := by
  rw [← splits_joins (joins_pieces t)]
  exact ⟨splits_of_splitLines, fun h => splitLines_of_splits h 0⟩

lemma flatten_flushPlain (plain : Text) : ((flushPlain plain).map Part.text).flatten = plain := by
  unfold flushPlain
  split_ifs with h
  · rw [h]
    rfl
  · simp [Part.text]

/-- The parts make up the text again. -/
lemma Splits.flatten (h : Splits place t ls parts) :
    (parts.map Part.text).flatten = t ++ ls.flatten := by
  induction h with
  | done controller plain => rw [flatten_flushPlain, List.flatten_nil, List.append_nil]
  | plain hl h ih => rw [ih, List.flatten_cons, List.append_assoc]
  | start hl h ih =>
    rw [List.map_append, List.flatten_append, flatten_flushPlain, ih, List.flatten_cons]
  | line hl h ih => rw [ih, List.flatten_cons, List.append_assoc]
  | ends hl h ih => simp [ih, Part.text]

end Wallace.PmgrSplit
