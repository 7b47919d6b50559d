import Mathlib.Data.List.Basic
import Mathlib.Tactic.Common
import Wallace.PmgrSplit

/-!
The lines of a domain block, and the references on them.

A line that lists parents is left alone, dropped, or written anew. None of the three can be taken
for the start or the end of a block.
-/

namespace Wallace.PmgrLines

open Wallace.PmgrModel Wallace.PmgrSplit
open Wallace.Splitlines
open Script (Text)

variable {l t body label : Text} {x : Char} {labels excluded : List Text} {all : Bool}

/-! ### References -/

lemma mem_label_of_mem_findall (h : label ∈ findall t) : ∀ x ∈ label, labelChar x = true := by
  induction t with
  | nil => cases h
  | cons y t ih =>
    rw [findall] at h
    cases hp : phandle (y :: t) with
    | none =>
      rw [hp] at h
      exact ih h
    | some label' =>
      rw [hp] at h
      rcases List.mem_cons.mp h with rfl | h
      · unfold phandle at hp
        obtain ⟨r, -, hp⟩ := Option.bind_eq_some_iff.mp hp
        simp only at hp
        split_ifs at hp with hc
        rw [← Option.some.inj hp]
        exact fun x hx => List.mem_takeWhile_imp hx
      · exact ih h

/-- Whatever has no reference is passed over. -/
lemma findall_append (h : ∀ x ∈ l, x ≠ '<') (t : Text) : findall (l ++ t) = findall t := by
  induction l with
  | nil => rfl
  | cons y l ih =>
    have hp : phandle (y :: (l ++ t)) = none := by
      rw [Option.eq_none_iff_forall_ne_some]
      intro label hl
      unfold phandle at hl
      obtain ⟨r, hr, -⟩ := Option.bind_eq_some_iff.mp hl
      have hhead := congrArg List.head? (after_eq_some.mp hr)
      have hy : y = '<' := by simpa [phandleHead] using hhead
      exact h y (by simp) hy
    rw [List.cons_append, findall, hp]
    exact ih fun x hx => h x (by simp [hx])

/-- A label as `PHANDLE_RE` has it. -/
def IsLabel (label : Text) : Prop := label ≠ [] ∧ ∀ x ∈ label, labelChar x = true

lemma phandle_ref (h : IsLabel label) (t : Text) : phandle (ref label ++ t) = some label := by
  have hafter : after phandleHead (ref label ++ t) = some (label ++ '>' :: t) :=
    after_eq_some.mpr (by simp [ref])
  have hstop : labelChar '>' = false := by decide
  rw [phandle, hafter, Option.bind_eq_bind, Option.bind_some, List.takeWhile_append_of_pos h.2,
    List.dropWhile_append_of_pos h.2, List.takeWhile_cons_of_neg (by simp [hstop]),
    List.dropWhile_cons_of_neg (by simp [hstop]), List.append_nil]
  simp [h.1]

lemma ne_lt_of_labelChar (h : labelChar x = true) : x ≠ '<' := by
  rintro rfl
  revert h
  decide

lemma findall_ref (h : IsLabel label) (t : Text) :
    findall (ref label ++ t) = label :: findall t := by
  have hsplit : ref label ++ t = '<' :: ("&ps_".toList ++ label ++ ['>'] ++ t) := by
    simp [ref, phandleHead]
  have hrest : ∀ x ∈ "&ps_".toList ++ label ++ ['>'], x ≠ '<' := by
    intro x hx
    simp only [List.mem_append, List.mem_singleton] at hx
    rcases hx with (hx | hx) | rfl
    · rintro rfl
      revert hx
      decide
    · exact ne_lt_of_labelChar (h.2 x hx)
    · decide
  rw [hsplit, findall, ← hsplit, phandle_ref h, findall_append hrest]

/-- Every reference in a text is found. -/
lemma mem_findall_of_isInfix (h : IsLabel label) (hi : ref label <:+: t) : label ∈ findall t := by
  obtain ⟨s, r, rfl⟩ := hi
  induction s with
  | nil => rw [List.nil_append, findall_ref h]; simp
  | cons y s ih =>
    rw [List.cons_append, List.cons_append, findall]
    cases phandle (y :: (s ++ ref label ++ r)) with
    | none => exact ih
    | some label' => exact List.mem_cons_of_mem _ ih

/-- A comma-separated list of references, with blanks around the commas. -/
inductive Lists : Text → List Text → Prop
  | nil : Lists [] []
  | one {label : Text} (h : IsLabel label) : Lists (ref label) [label]
  | cons {label before after rest : Text} {labels : List Text} (h : IsLabel label)
    (hb : ∀ x ∈ before ++ after, x = ' ' ∨ x = '\t') (hne : labels ≠ []) (hr : Lists rest labels) :
    Lists (ref label ++ before ++ [','] ++ after ++ rest) (label :: labels)

/-- The labels that the code finds on a line are those of the list. -/
lemma Lists.findall (h : Lists body labels) : findall body = labels := by
  induction h with
  | nil => rfl
  | @one label h =>
    have := findall_ref h []
    rwa [List.append_nil] at this
  | @cons label before after rest labels h hb hne hr ih =>
    have hskip : ∀ x ∈ before ++ [','] ++ after, x ≠ '<' := by
      intro x hx
      simp only [List.mem_append, List.mem_singleton] at hx hb
      rcases hx with (hx | rfl) | hx
      · rcases hb x (.inl hx) with rfl | rfl <;> decide
      · decide
      · rcases hb x (.inr hx) with rfl | rfl <;> decide
    have hassoc : ref label ++ before ++ [','] ++ after ++ rest =
        ref label ++ (before ++ [','] ++ after ++ rest) := by
      simp only [List.append_assoc]
    rw [hassoc, findall_ref h, findall_append hskip, ih]

/-! ### Lines of parents -/

lemma powerDomains_eq_some (h : powerDomains l = some body) :
    l = powerDomainsHead ++ body ++ ";\n".toList := by
  unfold powerDomains at h
  obtain ⟨r, hr, h⟩ := Option.bind_eq_some_iff.mp h
  split_ifs at h with hc
  rw [after_eq_some.mp hr, ← Option.some.inj h, List.append_assoc, ← hc,
    List.takeWhile_append_dropWhile]

/-- A line of parents ends in a semicolon and a line feed. -/
lemma powerDomains_eq_none (h : ∀ r, l ≠ r ++ [';', '\n']) : powerDomains l = none := by
  rw [Option.eq_none_iff_forall_ne_some]
  intro body hb
  exact h (powerDomainsHead ++ body) (by rw [powerDomains_eq_some hb]; rfl)

lemma powerDomains_cr (a : Text) : powerDomains (a ++ ['\r']) = none := by
  refine powerDomains_eq_none fun r h => ?_
  have hlast := congrArg List.getLast? h
  simp at hlast

lemma powerDomains_crlf (a : Text) : powerDomains (a ++ ['\r', '\n']) = none := by
  refine powerDomains_eq_none fun r h => ?_
  have hlast := (List.append_inj' h rfl).2
  simp at hlast

lemma powerDomains_lf : powerDomains ['\n'] = none := by decide

/-- What a line of parents begins with is in no other line that the splitter looks for. -/
lemma powerDomains_of_rstrip {head : Text} (hlen : head.length ≤ powerDomainsHead.length)
    (hne : ¬ head <+: powerDomainsHead) (h : head <+: rstrip l) : powerDomains l = none := by
  rw [Option.eq_none_iff_forall_ne_some]
  intro body hb
  have hhead : powerDomainsHead <+: l := by
    rw [powerDomains_eq_some hb, List.append_assoc]
    exact List.prefix_append _ _
  exact hne (List.prefix_of_prefix_length_le (h.trans (List.rdropWhile_prefix _ _)) hhead hlen)

lemma powerDomains_of_domainStart (h : domainStart (rstrip l) = some label) :
    powerDomains l = none :=
  powerDomains_of_rstrip (by decide +kernel) (by decide +kernel) (head_of_domainStart h)

lemma powerDomains_of_domainEnd (h : rstrip l = domainEnd) : powerDomains l = none := by
  have hp : domainEnd <+: rstrip l := by rw [h]
  exact powerDomains_of_rstrip (by decide +kernel) (by decide +kernel) hp

/-! ### Lines that are written -/

/-- One line with its end. -/
def Line (l : Text) : Prop :=
  ∃ a x, (∀ y ∈ a, boundary y = false) ∧ boundary x = true ∧ l = a ++ [x]

lemma boundary_of_labelChar (h : labelChar x = true) : boundary x = false := by
  have hrange : (97 ≤ x.toNat ∧ x.toNat ≤ 122) ∨ (48 ≤ x.toNat ∧ x.toNat ≤ 57) ∨
      x.toNat = 95 := by
    have hl : ('a' ≤ x ∧ x ≤ 'z') ∨ x.isDigit ∨ x = '_' := by simpa [labelChar] using h
    rcases hl with ⟨ha, hz⟩ | hd | rfl
    · exact .inl ⟨ha, hz⟩
    · exact .inr (.inl (Char.isDigit_iff_toNat.mp hd))
    · exact .inr (.inr rfl)
  unfold boundary
  simp only [decide_eq_false_iff_not, List.mem_cons, List.not_mem_nil, or_false, not_or]
  omega

lemma boundary_of_all (h : (l.all fun x => !boundary x) = true) : ∀ x ∈ l, boundary x = false := by
  simpa using h

lemma boundary_of_mem_refs (h : ∀ label ∈ labels, ∀ x ∈ label, labelChar x = true) :
    ∀ x ∈ refs labels, boundary x = false := by
  have href : ∀ label ∈ labels, ∀ x ∈ ref label, boundary x = false := by
    intro label hl x hx
    simp only [ref, List.mem_append] at hx
    rcases hx with (hx | hx) | hx
    · exact boundary_of_all (by decide +kernel) x hx
    · exact boundary_of_labelChar (h label hl x hx)
    · exact boundary_of_all (by decide +kernel) x hx
  induction labels with
  | nil => simp [refs]
  | cons label labels ih =>
    have hrest := ih (fun label hl => h label (by simp [hl])) fun label hl =>
      href label (by simp [hl])
    unfold refs at hrest ⊢
    by_cases hne : labels = []
    · subst hne
      simpa using href label (by simp)
    · rw [List.map_cons, List.intercalate_cons_of_ne_nil (by simpa using hne)]
      intro x hx
      rcases List.mem_append.mp hx with hx | hx
      · rcases List.mem_append.mp hx with hx | hx
        · exact href label (by simp) x hx
        · exact boundary_of_all (by decide +kernel) x hx
      · exact hrest x hx

lemma mem_keptParents (h : label ∈ keptParents excluded all labels) : label ∈ labels := by
  unfold keptParents at h
  split_ifs at h
  · cases h
  · exact (List.mem_filter.mp h).1

/-- What becomes of a line: it stays, it goes, or it lists some of its references anew. -/
lemma rewriteLine_cases (excluded : List Text) (all : Bool) (l : Text) :
    rewriteLine excluded all l = ([l], 0) ∨ rewriteLine excluded all l = ([], 1) ∨
      ∃ l', rewriteLine excluded all l = ([l'], 1) ∧ powerDomainsHead <+: l' ∧ Line l' := by
  unfold rewriteLine
  cases hp : powerDomains l with
  | none => exact .inl rfl
  | some body =>
    simp only
    split_ifs with hkept hnil
    · exact .inl rfl
    · exact .inr (.inl rfl)
    · refine .inr (.inr ⟨_, rfl, ?_, ?_⟩)
      · rw [List.append_assoc]
        exact List.prefix_append _ _
      · refine ⟨powerDomainsHead ++ refs (keptParents excluded all (findall body)) ++ [';'], '\n',
          ?_, by decide, by simp⟩
        intro y hy
        rcases List.mem_append.mp hy with hy | hy
        · rcases List.mem_append.mp hy with hy | hy
          · exact boundary_of_all (by decide +kernel) y hy
          · refine boundary_of_mem_refs (fun label hl => ?_) y hy
            exact mem_label_of_mem_findall (mem_keptParents hl)
        · exact boundary_of_all (by decide +kernel) y hy

/-- No line of references is the end of a block. -/
lemma rstrip_ne_domainEnd (h : powerDomainsHead <+: l) : rstrip l ≠ domainEnd := by
  intro he
  have hend : domainEnd <+: l := by
    rw [← he]
    exact List.rdropWhile_prefix _ _
  have hp : domainEnd <+: powerDomainsHead :=
    List.prefix_of_prefix_length_le hend h (by decide +kernel)
  revert hp
  decide +kernel

lemma rewriteLine_of_none (h : powerDomains l = none) : rewriteLine excluded all l = ([l], 0) := by
  rw [rewriteLine, h]

/-- If nothing is excluded, every line stays. -/
lemma rewriteLine_nil (l : Text) : rewriteLine [] false l = ([l], 0) := by
  unfold rewriteLine
  cases powerDomains l with
  | none => rfl
  | some body => simp [keptParents]

/-- Nothing is rewritten twice. -/
lemma rewriteLine_again (excluded : List Text) (all : Bool) (l : Text) {l' : Text}
    (h : l' ∈ (rewriteLine excluded all l).1) : rewriteLine [] all l' = ([l'], 0) := by
  cases all with
  | false => exact rewriteLine_nil l'
  | true =>
    -- a line of which everything goes is dropped, or it had nothing on it
    unfold rewriteLine at h ⊢
    cases hp : powerDomains l with
    | none =>
      rw [hp] at h
      obtain rfl := List.mem_singleton.mp h
      rw [hp]
    | some body =>
      rw [hp] at h
      simp only [keptParents, if_true] at h
      by_cases hnil : [] = findall body
      · rw [if_pos hnil] at h
        obtain rfl := List.mem_singleton.mp h
        rw [hp]
        simp [keptParents, ← hnil]
      · rw [if_neg hnil] at h
        cases h

end Wallace.PmgrLines
