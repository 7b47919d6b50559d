import Mathlib.Data.List.Basic
import Mathlib.Tactic.Common
import Wallace.PmgrLines

/-!
The output of the PMGR variant tool, line by line.

The blocks of excluded domains go with all their lines; of the other blocks the lines of parents
are rewritten. What is left is split at the same places, and is left alone when it is edited again.
-/

namespace Wallace.PmgrEdit

open Wallace.PmgrModel Wallace.PmgrSplit Wallace.PmgrLines
open Wallace.Splitlines
open Script (Text)

variable (excluded : List Text) (flat : Bool)

/-- The lines of the output. -/
def edit : Place → List Text → List Text
  | _, [] => []
  | .outside controller, line :: lines =>
    match domainStart (rstrip line), (controllerOf (rstrip line)).or controller with
    | none, controller => line :: edit (.outside controller) lines
    | some _, none => []
    | some label, some controller =>
      (if label ∈ excluded then [] else [line]) ++ edit (.inside controller label) lines
  | .inside controller label, line :: lines =>
    (if label ∈ excluded then [] else
      (rewriteLine excluded (flat && controller = 1) line).1) ++
      if rstrip line = domainEnd then edit (.outside (some controller)) lines
      else edit (.inside controller label) lines

/-- Where the splitter is in the output. -/
def shadow : Place → Place
  | .outside controller => .outside controller
  | .inside controller label =>
    if label ∈ excluded then .outside (some controller) else .inside controller label

/-- The text of a block, rewritten. -/
def rewriteText (all : Bool) (t : Text) : Text :=
  (pieces t).flatMap fun l => (rewriteLine excluded all l).1.flatten

/-- What has become of the text that is kept at a place. -/
def before : Place → Text → Text
  | .outside _, t => t
  | .inside controller label, t =>
    if label ∈ excluded then [] else rewriteText excluded (flat && controller = 1) t

/-- The text kept in a block consists of whole lines. -/
def Whole : Place → Text → Prop
  | .outside _, _ => True
  | .inside _ _, t => Ended t

variable {excluded flat} {l t : Text} {ls : List Text} {place : Place} {parts : List Part}

lemma edit_nil : edit excluded flat place [] = [] := by
  cases place <;> rfl

lemma edit_plain {controller : Option ℕ} (h : domainStart (rstrip l) = none) :
    edit excluded flat (.outside controller) (l :: ls) =
      l :: edit excluded flat (.outside ((controllerOf (rstrip l)).or controller)) ls := by
  rw [edit, h]

lemma edit_start {controller : ℕ} {label : Text} (h : domainStart (rstrip l) = some label) :
    edit excluded flat (.outside (some controller)) (l :: ls) =
      (if label ∈ excluded then [] else [l]) ++
        edit excluded flat (.inside controller label) ls := by
  rw [edit, h, controllerOf_of_domainStart h, Option.none_or]

lemma edit_line {controller : ℕ} {label : Text} (h : rstrip l ≠ domainEnd) :
    edit excluded flat (.inside controller label) (l :: ls) =
      (if label ∈ excluded then [] else (rewriteLine excluded (flat && controller = 1) l).1) ++
        edit excluded flat (.inside controller label) ls := by
  rw [edit, if_neg h]

lemma edit_ends {controller : ℕ} {label : Text} (h : rstrip l = domainEnd) :
    edit excluded flat (.inside controller label) (l :: ls) =
      (if label ∈ excluded then [] else [l]) ++
        edit excluded flat (.outside (some controller)) ls := by
  rw [edit, if_pos h, rewriteLine_of_none (powerDomains_of_domainEnd h)]

/-! ### The text -/

lemma rewriteText_line {all : Bool} (h : pieces l = [l]) :
    rewriteText excluded all l = (rewriteLine excluded all l).1.flatten := by
  rw [rewriteText, h, List.flatMap_singleton]

lemma rewriteText_append {all : Bool} (ht : Ended t) (hl : pieces l = [l]) :
    rewriteText excluded all (t ++ l) =
      rewriteText excluded all t ++ (rewriteLine excluded all l).1.flatten := by
  rw [rewriteText, pieces_append ht, List.flatMap_append, hl, List.flatMap_singleton]
  rfl

lemma rewriteParents_lines (d : Domain) : (rewriteParents d excluded flat).1 =
    (splitlines d.text).flatMap fun l =>
      (rewriteLine excluded (flat && d.controller = 1) l).1.flatten := by
  rw [rewriteParents, List.flatMap_map, ← List.flatMap_id, List.flatMap_assoc]
  simp only [List.flatMap_id]

lemma rewriteParents_fst (d : Domain) : (rewriteParents d excluded flat).1 =
    rewriteText excluded (flat && d.controller = 1) d.text := by
  have hjoins := (joins_pieces d.text).flatMap
    (f := fun l => (rewriteLine excluded (flat && d.controller = 1) l).1.flatten) fun a => by
      rw [rewriteLine_of_none (powerDomains_crlf a), rewriteLine_of_none (powerDomains_cr a),
        rewriteLine_of_none powerDomains_lf]
      simp
  rw [rewriteText, ← hjoins, rewriteParents_lines]

/-- No line in a block is the last one. -/
lemma ended_of_splits {label : Text} {controller : ℕ} (hls : Proper (l :: ls))
    (h : Splits (.inside controller label) t ls parts) : Ended l := by
  refine hls.ended ?_
  rintro rfl
  cases h

lemma flatten_emit_flushPlain (plain : Text) :
    ((flushPlain plain).map fun p => (emit excluded flat p).1).flatten = plain := by
  unfold flushPlain
  split_ifs with h
  · rw [h]
    rfl
  · simp [emit]

/-- **The output** is the text of the edited lines. -/
theorem flatten_emit (h : Splits place t ls parts) (hls : Proper ls) (ht : Whole place t) :
    (parts.map fun p => (emit excluded flat p).1).flatten =
      before excluded flat place t ++ (edit excluded flat place ls).flatten := by
  induction h with
  | done controller plain => rw [flatten_emit_flushPlain, edit_nil]; simp [before]
  | plain hl h ih =>
    rw [ih hls.tail trivial, edit_plain hl]
    simp [before]
  | @start controller label plain line lines parts hl h ih =>
    have hline := ended_of_splits hls h
    rw [List.map_append, List.flatten_append, flatten_emit_flushPlain, ih hls.tail hline,
      edit_start hl]
    simp only [before, rewriteText_line hls.pieces_head,
      rewriteLine_of_none (powerDomains_of_domainStart hl)]
    split_ifs <;> simp
  | @line controller label block line lines parts hl h ih =>
    have hline := (ended_of_splits hls h).append (a := block) hls.ne_nil
    rw [ih hls.tail hline, edit_line hl]
    simp only [before, rewriteText_append ht hls.pieces_head]
    split_ifs <;> simp
  | @ends controller label block line lines parts hl h ih =>
    rw [List.map_cons, List.flatten_cons, ih hls.tail trivial, edit_ends hl]
    simp only [emit, before]
    split_ifs with hlabel
    · simp
    · rw [rewriteParents_fst, rewriteText_append ht hls.pieces_head,
        rewriteLine_of_none (powerDomains_of_domainEnd hl)]
      simp

/-! ### The lines -/

lemma proper_cons_line (hl : Line l) (h : Proper ls) : Proper (l :: ls) := by
  obtain ⟨a, x, ha, hx, rfl⟩ := hl
  exact .cons ha hx h

/-- The rest after a line may be replaced, as long as nothing is put after the last line. -/
lemma Proper.replace {ls' : List Text} (h : Proper (l :: ls)) (h' : Proper ls')
    (hnil : ls = [] → ls' = []) : Proper (l :: ls') := by
  cases h with
  | last hne hl =>
    rw [hnil rfl]
    exact .last hne hl
  | cons ha hx _ => exact .cons ha hx h'

lemma proper_rewriteLine {all : Bool} {ls' : List Text} (h : Proper (l :: ls)) (h' : Proper ls')
    (hnil : ls = [] → ls' = []) : Proper ((rewriteLine excluded all l).1 ++ ls') := by
  rcases rewriteLine_cases excluded all l with he | he | ⟨l', he, -, hl'⟩
  · rw [he]
    exact Proper.replace h h' hnil
  · rw [he]
    exact h'
  · rw [he]
    exact proper_cons_line hl' h'

/-- The edited lines are those of the output. -/
lemma proper_edit (h : Splits place t ls parts) (hls : Proper ls) :
    Proper (edit excluded flat place ls) := by
  induction h with
  | done controller plain => rw [edit_nil]; exact .nil
  | plain hl h ih =>
    rw [edit_plain hl]
    exact Proper.replace hls (ih hls.tail) (by rintro rfl; exact edit_nil)
  | start hl h ih =>
    rw [edit_start hl]
    split_ifs
    · exact ih hls.tail
    · exact Proper.replace hls (ih hls.tail) (by rintro rfl; exact edit_nil)
  | line hl h ih =>
    rw [edit_line hl]
    split_ifs
    · exact ih hls.tail
    · exact proper_rewriteLine hls (ih hls.tail) (by rintro rfl; exact edit_nil)
  | ends hl h ih =>
    rw [edit_ends hl]
    split_ifs
    · exact ih hls.tail
    · exact Proper.replace hls (ih hls.tail) (by rintro rfl; exact edit_nil)

/-! ### Splitting the output -/

/-- What the modes look at. -/
def key (d : Domain) : Text × ℕ := (d.label, d.controller)

lemma domains_append (ps qs : List Part) : domains (ps ++ qs) = domains ps ++ domains qs :=
  List.filterMap_append

lemma domains_flushPlain (plain : Text) : domains (flushPlain plain) = [] := by
  unfold flushPlain
  split_ifs <;> rfl

/-- **Splitting again** finds the domains that were kept, each at its controller. -/
theorem splits_edit (excluded : List Text) (flat : Bool) (h : Splits place t ls parts) (t' : Text) :
    ∃ parts', Splits (shadow excluded place) t' (edit excluded flat place ls) parts' ∧
      (domains parts').map key =
        ((domains parts).map key).filter fun k => k.1 ∉ excluded := by
  induction h generalizing t' with
  | done controller plain =>
    refine ⟨flushPlain t', ?_, by rw [domains_flushPlain, domains_flushPlain]; rfl⟩
    rw [edit_nil]
    exact .done _ _
  | plain hl h ih =>
    obtain ⟨parts', hs, hk⟩ := ih _
    rw [edit_plain hl]
    exact ⟨parts', .plain hl hs, hk⟩
  | @start controller label plain line lines parts hl h ih =>
    rw [edit_start hl, domains_append, domains_flushPlain, List.nil_append]
    by_cases hlabel : label ∈ excluded
    · obtain ⟨parts', hs, hk⟩ := ih t'
      rw [shadow, if_pos hlabel] at hs
      rw [if_pos hlabel]
      exact ⟨parts', hs, hk⟩
    · obtain ⟨parts', hs, hk⟩ := ih line
      rw [shadow, if_neg hlabel] at hs
      rw [if_neg hlabel]
      refine ⟨flushPlain t' ++ parts', .start hl hs, ?_⟩
      rw [domains_append, domains_flushPlain, List.nil_append, hk]
  | @line controller label block line lines parts hl h ih =>
    rw [edit_line hl]
    by_cases hlabel : label ∈ excluded
    · rw [if_pos hlabel]
      exact ih t'
    · rw [if_neg hlabel]
      rcases rewriteLine_cases excluded (flat && controller = 1) line with he | he | ⟨l', he, hp, -⟩
      · obtain ⟨parts', hs, hk⟩ := ih (t' ++ line)
        rw [shadow, if_neg hlabel] at hs ⊢
        rw [he]
        exact ⟨parts', .line hl hs, hk⟩
      · rw [he]
        exact ih t'
      · obtain ⟨parts', hs, hk⟩ := ih (t' ++ l')
        rw [shadow, if_neg hlabel] at hs ⊢
        rw [he]
        exact ⟨parts', .line (rstrip_ne_domainEnd hp) hs, hk⟩
  | @ends controller label block line lines parts hl h ih =>
    rw [edit_ends hl]
    by_cases hlabel : label ∈ excluded
    · obtain ⟨parts', hs, hk⟩ := ih t'
      rw [shadow, if_pos hlabel, if_pos hlabel]
      refine ⟨parts', hs, ?_⟩
      rw [hk]
      simp [domains, Part.domain?, key, hlabel]
    · obtain ⟨parts', hs, hk⟩ := ih []
      rw [shadow, if_neg hlabel, if_neg hlabel]
      refine ⟨.domain ⟨label, controller, t' ++ line⟩ :: parts', .ends hl hs, ?_⟩
      have hcons : ∀ d ps, domains (.domain d :: ps) = d :: domains ps := fun _ _ => rfl
      rw [hcons, hcons, List.map_cons, List.map_cons, hk]
      simp [key, hlabel]

/-- **Editing again** changes nothing. -/
theorem edit_edit (h : Splits place t ls parts) :
    edit [] flat (shadow excluded place) (edit excluded flat place ls) =
      edit excluded flat place ls := by
  induction h with
  | done controller plain => rw [edit_nil, edit_nil]
  | plain hl h ih =>
    rw [edit_plain hl, shadow, edit_plain hl]
    exact congrArg _ ih
  | @start controller label plain line lines parts hl h ih =>
    rw [edit_start hl]
    by_cases hlabel : label ∈ excluded
    · rw [shadow, if_pos hlabel] at ih
      rw [if_pos hlabel, shadow]
      exact ih
    · rw [shadow, if_neg hlabel] at ih
      rw [if_neg hlabel, shadow, List.singleton_append, edit_start hl, ih]
      simp
  | @line controller label block line lines parts hl h ih =>
    rw [edit_line hl]
    by_cases hlabel : label ∈ excluded
    · rw [if_pos hlabel]
      exact ih
    · rw [if_neg hlabel]
      rw [shadow, if_neg hlabel] at ih ⊢
      rcases rewriteLine_cases excluded (flat && controller = 1) line with he | he | ⟨l', he, hp, -⟩
      · have hagain : rewriteLine [] (flat && controller = 1) line = ([line], 0) :=
          rewriteLine_again _ _ line (by rw [he]; simp)
        rw [he, List.singleton_append, edit_line hl, ih, hagain]
        simp
      · rw [he]
        exact ih
      · have hagain : rewriteLine [] (flat && controller = 1) l' = ([l'], 0) :=
          rewriteLine_again _ _ line (by rw [he]; simp)
        rw [he, List.singleton_append, edit_line (rstrip_ne_domainEnd hp), ih, hagain]
        simp
  | @ends controller label block line lines parts hl h ih =>
    rw [edit_ends hl]
    rw [shadow] at ih
    by_cases hlabel : label ∈ excluded
    · rw [if_pos hlabel, shadow, if_pos hlabel]
      exact ih
    · rw [if_neg hlabel, shadow, if_neg hlabel, List.singleton_append, edit_ends hl, ih]
      simp

end Wallace.PmgrEdit
