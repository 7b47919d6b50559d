import Mathlib.Data.List.Dedup
import Mathlib.Tactic.Common
import Wallace.PmgrEdit

/-!
The PMGR variant tool changes the topology only.

Its output is the input without the blocks of the excluded domains and without the references to
them; all references that are left lead to a block, and the tool leaves its own output alone.
-/

namespace Wallace.PmgrVariant

open Wallace.PmgrModel Wallace.PmgrSplit Wallace.PmgrLines Wallace.PmgrEdit
open Wallace.Splitlines
open Script (Text)

/-! ### Statements -/

/-- A domain block: it begins with the line that names the domain, and ends with its first closing
line. -/
def IsBlock (d : Domain) : Prop :=
  ∃ start middle last, pieces d.text = start :: middle ++ [last] ∧
    domainStart (rstrip start) = some d.label ∧ rstrip last = domainEnd ∧
    ∀ l ∈ middle, rstrip l ≠ domainEnd

/-- Ordinary text has no line that starts a domain; the other parts are blocks. -/
def IsPart : Part → Prop
  | .plain text => ∀ l ∈ pieces text, domainStart (rstrip l) = none
  | .domain d => IsBlock d

/-- The controller after a text: that of its last controller line. -/
def lastController (controller : Option ℕ) (text : Text) : Option ℕ :=
  (pieces text).foldl (fun c l => (controllerOf (rstrip l)).or c) controller

/-- Every domain has the controller that the ordinary text before it names last. -/
def Under : Option ℕ → List Part → Prop
  | _, [] => True
  | controller, .plain text :: parts => Under (lastController controller text) parts
  | controller, .domain d :: parts => controller = some d.controller ∧ Under controller parts

/-- The lines of parents in the domain blocks are comma-separated lists of references. -/
def ListsParents (t : Text) : Prop :=
  ∀ parts, splitSource t = .ok parts → ∀ d ∈ domains parts, ∀ line ∈ splitlines d.text,
    ∀ body, powerDomains line = some body → ∃ labels, Lists body labels

def parentsLine (body : Text) : Text := powerDomainsHead ++ body ++ ";\n".toList

/-- A line of a block, and the same line without the references that go. -/
inductive Pruned (gone : Text → Prop) : Text → Text → Prop
  | other {line : Text} (h : powerDomains line = none) : Pruned gone line line
  | kept {body : Text} {labels : List Text} (h : Lists body labels)
    (hall : ∀ x ∈ labels, ¬ gone x) : Pruned gone (parentsLine body) (parentsLine body)
  | dropped {body : Text} {labels : List Text} (h : Lists body labels) (hne : labels ≠ [])
    (hall : ∀ x ∈ labels, gone x) : Pruned gone (parentsLine body) []
  | pruned {body : Text} {labels left : List Text} (h : Lists body labels)
    (hgone : ∃ x ∈ labels, gone x) (hne : left ≠ [])
    (hleft : ∃ p : Text → Bool, (∀ x, p x = true ↔ ¬ gone x) ∧ left = labels.filter p) :
    Pruned gone (parentsLine body) (parentsLine (refs left))

/-- The references that go from the block of a domain. -/
def Gone (mode : Mode) (ds : List Domain) (d : Domain) (x : Text) : Prop :=
  x ∈ mode.excluded ds ∨ mode = .pmgr1ReparentOnly ∧ d.controller = 1

/-- A part of the source, and what the output has of it. -/
inductive Edited (mode : Mode) (ds : List Domain) : Part → Text → Prop
  | plain (text : Text) : Edited mode ds (.plain text) text
  | excluded {d : Domain} (h : d.label ∈ mode.excluded ds) : Edited mode ds (.domain d) []
  | kept {d : Domain} {lines : List Text} (h : d.label ∉ mode.excluded ds)
    (hlines : List.Forall₂ (Pruned (Gone mode ds d)) (splitlines d.text) lines) :
    Edited mode ds (.domain d) lines.flatten

variable {mode : Mode} {t out : Text} {ls : List Text} {parts : List Part} {ds : List Domain}
  {place : Place}

/-! ### Parts -/

/-- The text that is kept at a place, with lines left or not. -/
def Opens : Place → Text → List Text → Prop
  | .outside _, t, ls => (∀ l ∈ pieces t, domainStart (rstrip l) = none) ∧ (ls ≠ [] → Ended t)
  | .inside _ label, t, _ => Ended t ∧ ∃ start middle, pieces t = start :: middle ∧
      domainStart (rstrip start) = some label ∧ ∀ l ∈ middle, rstrip l ≠ domainEnd

lemma isPart_flushPlain {plain : Text} (h : ∀ l ∈ pieces plain, domainStart (rstrip l) = none) :
    ∀ p ∈ flushPlain plain, IsPart p := by
  intro p hp
  unfold flushPlain at hp
  split_ifs at hp
  · cases hp
  · rw [List.mem_singleton.mp hp]
    exact h

/-- The parts are what they stand for. -/
theorem isPart_of_splits (h : Splits place t ls parts) (hls : Proper ls) (ho : Opens place t ls) :
    ∀ p ∈ parts, IsPart p := by
  induction h with
  | done controller plain => exact isPart_flushPlain ho.1
  | @plain controller plain line lines parts hl h ih =>
    obtain ⟨hstart, hended⟩ := ho
    refine ih hls.tail ⟨?_, fun hne => (hls.ended hne).append hls.ne_nil⟩
    rw [pieces_append (hended (by simp)), hls.pieces_head]
    intro l hmem
    rcases List.mem_append.mp hmem with hmem | hmem
    · exact hstart l hmem
    · rw [List.mem_singleton.mp hmem]
      exact hl
  | @start controller label plain line lines parts hl h ih =>
    intro p hp
    rcases List.mem_append.mp hp with hp | hp
    · exact isPart_flushPlain ho.1 p hp
    · exact ih hls.tail ⟨ended_of_splits hls h, line, [], hls.pieces_head, hl, by simp⟩ p hp
  | @line controller label block line lines parts hl h ih =>
    obtain ⟨hended, start, middle, hpieces, hstart, hmiddle⟩ := ho
    refine ih hls.tail ⟨(ended_of_splits hls h).append hls.ne_nil, start,
      middle ++ [line], ?_, hstart, fun l hmem => ?_⟩
    · rw [pieces_append hended, hls.pieces_head, hpieces]
      rfl
    · rcases List.mem_append.mp hmem with hmem | hmem
      · exact hmiddle l hmem
      · rw [List.mem_singleton.mp hmem]
        exact hl
  | @ends controller label block line lines parts hl h ih =>
    obtain ⟨hended, start, middle, hpieces, hstart, hmiddle⟩ := ho
    intro p hp
    rcases List.mem_cons.mp hp with rfl | hp
    · refine ⟨start, middle, line, ?_, hstart, hl, hmiddle⟩
      rw [pieces_append hended, hls.pieces_head, hpieces]
    · exact ih hls.tail ⟨by simp [pieces], fun _ => ended_nil⟩ p hp

/-- The controller at a place, with the text that is kept there. -/
def Controls (first : Option ℕ) : Place → Text → List Text → Prop
  | .outside controller, t, ls => lastController first t = controller ∧ (ls ≠ [] → Ended t)
  | .inside controller _, _, _ => first = some controller

lemma lastController_append {a b : Text} (ha : Ended a) (controller : Option ℕ) :
    lastController controller (a ++ b) = lastController (lastController controller a) b := by
  unfold lastController
  rw [pieces_append ha, List.foldl_append]

lemma under_flushPlain {controller : Option ℕ} {plain : Text} :
    Under controller (flushPlain plain ++ parts) ↔
      Under (lastController controller plain) parts := by
  unfold flushPlain
  split_ifs with h
  · rw [h]
    exact Iff.rfl
  · exact Iff.rfl

/-- The controllers of the blocks are those of the source. -/
theorem under_of_splits {first : Option ℕ} (h : Splits place t ls parts) (hls : Proper ls)
    (hc : Controls first place t ls) : Under first parts := by
  induction h generalizing first with
  | done controller plain =>
    rw [← List.append_nil (flushPlain plain), under_flushPlain]
    trivial
  | @plain controller plain line lines parts hl h ih =>
    obtain ⟨hfirst, hended⟩ := hc
    refine ih hls.tail ⟨?_, fun hne => (hls.ended hne).append hls.ne_nil⟩
    rw [lastController_append (hended (by simp)), hfirst, lastController, hls.pieces_head]
    rfl
  | start hl h ih =>
    rw [under_flushPlain]
    exact ih hls.tail hc.1
  | line hl h ih => exact ih hls.tail hc
  | ends hl h ih => exact ⟨hc, ih hls.tail ⟨hc, fun _ => ended_nil⟩⟩

/-! ### Results -/

def result (mode : Mode) (parts : List Part) : Text :=
  (parts.map fun p => (emit (mode.excluded (domains parts)) mode.flattenPmgr1 p).1).flatten

def keptLabels (mode : Mode) (parts : List Part) : List Text :=
  ((domains parts).map Domain.label).filter (· ∉ mode.excluded (domains parts))

/-- Nothing dangles. -/
lemma dangling_eq_nil {found labels : List Text} :
    sortedSet (found.filter (· ∉ labels)) = [] ↔ ∀ x ∈ found, x ∈ labels := by
  unfold sortedSet
  rw [← List.length_eq_zero_iff, List.length_mergeSort, List.length_eq_zero_iff,
    List.dedup_eq_nil, List.filter_eq_nil_iff]
  simp

/-- **When the tool succeeds**, and with what. -/
theorem transform_eq_ok : (∃ summary, transform t mode = .ok (out, summary)) ↔
    ∃ parts, splitSource t = .ok parts ∧ out = result mode parts ∧
      ∀ x ∈ findall out, x ∈ keptLabels mode parts := by
  have hresult : ∀ parts, ((parts.map (emit (mode.excluded (domains parts))
      mode.flattenPmgr1)).map Prod.fst).flatten = result mode parts := by
    intro parts
    rw [List.map_map]
    rfl
  constructor
  · rintro ⟨summary, h⟩
    obtain ⟨parts, hparts, h⟩ := Checks.bind_ok h
    simp only [hresult] at h
    split at h
    · cases h
    case isFalse hd =>
      rw [not_not, dangling_eq_nil] at hd
      obtain rfl : result mode parts = out := congrArg Prod.fst (Except.ok.inj h)
      exact ⟨parts, hparts, rfl, hd⟩
  · rintro ⟨parts, hparts, rfl, hlabels⟩
    have hd := not_not.mpr (dangling_eq_nil.mpr hlabels)
    unfold keptLabels at hd
    simp only [transform, hparts, bind, Except.bind, hresult]
    rw [if_neg hd]
    exact ⟨_, rfl⟩

/-! ### What is deleted -/

/-- The references on one line. -/
lemma pruned_rewriteLine {d : Domain} {line : Text}
    (hlist : ∀ body, powerDomains line = some body → ∃ labels, Lists body labels) :
    Pruned (Gone mode ds d) line
      (rewriteLine (mode.excluded ds) (mode.flattenPmgr1 && d.controller = 1) line).1.flatten := by
  cases hp : powerDomains line with
  | none =>
    rw [rewriteLine_of_none hp, List.flatten_singleton]
    exact .other hp
  | some body =>
    obtain ⟨labels, hl⟩ := hlist body hp
    have hline : line = parentsLine body := powerDomains_eq_some hp
    unfold rewriteLine
    rw [hp]
    simp only [hl.findall]
    by_cases hall : mode = .pmgr1ReparentOnly ∧ d.controller = 1
    · -- everything goes
      have hb : (mode.flattenPmgr1 && decide (d.controller = 1)) = true := by
        simpa [Mode.flattenPmgr1] using hall
      have hkept : ∀ ls, keptParents (mode.excluded ds) true ls = [] := fun _ => rfl
      rw [hb, hkept]
      by_cases hnil : [] = labels
      · rw [if_pos hnil, hline, List.flatten_singleton]
        exact .kept hl (by rw [← hnil]; simp)
      · rw [if_neg hnil, if_pos rfl, hline]
        exact .dropped hl (Ne.symm hnil) fun x _ => .inr hall
    · have hb : (mode.flattenPmgr1 && decide (d.controller = 1)) = false := by
        rw [← Bool.not_eq_true]
        simpa [Mode.flattenPmgr1] using hall
      have hkept : ∀ ls, keptParents (mode.excluded ds) false ls =
          ls.filter (· ∉ mode.excluded ds) := fun _ => rfl
      have hgone : ∀ x, Gone mode ds d x ↔ x ∈ mode.excluded ds :=
        fun x => ⟨fun h => h.resolve_right hall, .inl⟩
      rw [hb, hkept]
      split_ifs with hsame hnil
      · rw [hline, List.flatten_singleton]
        refine .kept hl fun x hx => ?_
        rw [hgone]
        simpa using List.filter_eq_self.mp hsame x hx
      · rw [hline]
        refine .dropped hl ?_ fun x hx => ?_
        · rintro rfl
          exact hsame rfl
        · rw [hgone]
          simpa using List.filter_eq_nil_iff.mp hnil x hx
      · rw [hline, List.flatten_singleton]
        refine .pruned hl ?_ hnil ⟨(· ∉ mode.excluded ds), fun x => ?_, rfl⟩
        · by_contra hnone
          refine hsame (List.filter_eq_self.mpr fun x hx => ?_)
          have hx' : ¬ Gone mode ds d x := fun hg => hnone ⟨x, hx, hg⟩
          rw [hgone] at hx'
          simpa using hx'
        · rw [hgone]
          simp

/-- One part of the source. -/
lemma edited_emit (hlist : ∀ d ∈ domains parts, ∀ line ∈ splitlines d.text, ∀ body,
      powerDomains line = some body → ∃ labels, Lists body labels) {p : Part} (hp : p ∈ parts) :
    Edited mode ds p (emit (mode.excluded ds) mode.flattenPmgr1 p).1 := by
  cases p with
  | plain text => exact .plain text
  | domain d =>
    have hd : d ∈ domains parts := List.mem_filterMap.mpr ⟨.domain d, hp, rfl⟩
    rw [emit]
    split_ifs with hlabel
    · exact .excluded hlabel
    · rw [rewriteParents_lines, List.flatMap_def]
      refine .kept hlabel (List.forall₂_map_right_iff.mpr ?_)
      exact List.forall₂_same.mpr fun line hline => pruned_rewriteLine (hlist d hd line hline)

lemma rewriteText_nil (t : Text) : rewriteText [] false t = t := by
  unfold rewriteText
  simp only [rewriteLine_nil, List.flatten_singleton]
  exact List.flatMap_id.trans (flatten_pieces t)

/-- In the mode `raw` nothing is. -/
lemma result_raw (parts : List Part) : result .raw parts = (parts.map Part.text).flatten := by
  unfold result
  congr 1
  refine List.map_congr_left fun p _ => ?_
  cases p with
  | plain text => rfl
  | domain d =>
    have hex : Mode.excluded .raw (domains parts) = [] := by simp [Mode.excluded, Mode.excludes]
    rw [hex, emit, if_neg (List.not_mem_nil), rewriteParents_fst]
    exact rewriteText_nil d.text

/-! ### Again -/

lemma excludes_congr {d d' : Domain} (h : key d = key d') : mode.excludes d = mode.excludes d' := by
  obtain ⟨hl, hc⟩ := Prod.mk.inj h
  cases mode <;> simp [Mode.excludes, hl, hc]

/-- Of the domains that are kept, none is excluded. -/
lemma excluded_eq_nil {parts' : List Part} (hk : (domains parts').map key =
      ((domains parts).map key).filter fun k => k.1 ∉ mode.excluded (domains parts)) :
    mode.excluded (domains parts') = [] := by
  unfold Mode.excluded
  rw [List.map_eq_nil_iff, List.filter_eq_nil_iff]
  intro d' hd' hex
  have hmem : key d' ∈ (domains parts').map key := List.mem_map_of_mem hd'
  rw [hk, List.mem_filter] at hmem
  obtain ⟨hmem, hout⟩ := hmem
  obtain ⟨d, hd, hkey⟩ := List.mem_map.mp hmem
  rw [← excludes_congr hkey] at hex
  rw [← hkey] at hout
  refine of_decide_eq_true hout ?_
  exact List.mem_map_of_mem (List.mem_filter.mpr ⟨hd, hex⟩)

lemma map_label (ds : List Domain) : ds.map Domain.label = (ds.map key).map Prod.fst := by
  rw [List.map_map]
  rfl

/-- **The output again.** It is split into the domains that were kept, and stays as it is. -/
theorem transform_again (hparts : splitSource t = .ok parts) (hout : out = result mode parts)
    (hlabels : ∀ x ∈ findall out, x ∈ keptLabels mode parts) :
    ∃ parts', splitSource out = .ok parts' ∧
      (domains parts').map Domain.label = keptLabels mode parts ∧ out = result mode parts' ∧
      ∀ x ∈ findall out, x ∈ keptLabels mode parts' := by
  have hs := splitSource_eq_ok.mp hparts
  have hproper := proper_pieces t
  have hlines : out = (edit (mode.excluded (domains parts)) mode.flattenPmgr1 (.outside none)
      (pieces t)).flatten := by
    rw [hout, result, flatten_emit hs hproper trivial]
    rfl
  have hpieces : pieces out = edit (mode.excluded (domains parts)) mode.flattenPmgr1
      (.outside none) (pieces t) := by
    rw [hlines, pieces_flatten (proper_edit hs hproper)]
  obtain ⟨parts', hs', hk⟩ := splits_edit (mode.excluded (domains parts)) mode.flattenPmgr1 hs []
  have hex : mode.excluded (domains parts') = [] := excluded_eq_nil hk
  have hsame : (domains parts').map Domain.label = keptLabels mode parts := by
    rw [map_label, hk, keptLabels, map_label]
    generalize (domains parts).map key = keys
    rw [List.filter_map]
    rfl
  have hkept : keptLabels mode parts' = keptLabels mode parts := by
    rw [← hsame, keptLabels, hex]
    simp
  rw [← hpieces] at hs'
  refine ⟨parts', splitSource_eq_ok.mpr hs', hsame, ?_, by rw [hkept]; exact hlabels⟩
  rw [result, hex, flatten_emit hs' (proper_pieces out) trivial, hpieces, edit_edit hs]
  exact hlines

/-- **Topology only.** The parts of a source make it up. The output has all of it but the blocks of
the excluded domains and the references that go; no reference is left without its domain, and
nothing changes if the tool is run again. -/
theorem variant_topology_only (t : Text) (mode : Mode) (hlists : ListsParents t) :
    (∀ parts, splitSource t = .ok parts →
      (parts.map Part.text).flatten = t ∧ (∀ p ∈ parts, IsPart p) ∧ Under none parts) ∧
    ∀ out summary, transform t mode = .ok (out, summary) →
      (∃ parts texts, splitSource t = .ok parts ∧
        List.Forall₂ (Edited mode (domains parts)) parts texts ∧ out = texts.flatten) ∧
      (mode = .raw → out = t) ∧
      (∀ label, IsLabel label → ref label <:+: out →
        ∃ parts, splitSource out = .ok parts ∧ ∃ d ∈ domains parts, d.label = label) ∧
      ∃ summary', transform out mode = .ok (out, summary') := by
  constructor
  · intro parts hparts
    have hs := splitSource_eq_ok.mp hparts
    refine ⟨by rw [hs.flatten, flatten_pieces]; rfl, ?_, ?_⟩
    · exact isPart_of_splits hs (proper_pieces t) ⟨by simp [pieces], fun _ => ended_nil⟩
    · exact under_of_splits hs (proper_pieces t) ⟨rfl, fun _ => ended_nil⟩
  · intro out summary h
    obtain ⟨parts, hparts, hout, hlabels⟩ := transform_eq_ok.mp ⟨summary, h⟩
    obtain ⟨parts', hparts', hsame, hout', hlabels'⟩ := transform_again hparts hout hlabels
    refine ⟨⟨parts, _, hparts, ?_, hout⟩, ?_, ?_, ?_⟩
    · exact List.forall₂_map_right_iff.mpr (List.forall₂_same.mpr fun p hp =>
        edited_emit (hlists parts hparts) hp)
    · rintro rfl
      rw [hout, result_raw, (splitSource_eq_ok.mp hparts).flatten, flatten_pieces]
      rfl
    · intro label hlabel href
      have hmem := hlabels label (mem_findall_of_isInfix hlabel href)
      rw [← hsame] at hmem
      obtain ⟨d, hd, hl⟩ := List.mem_map.mp hmem
      exact ⟨parts', hparts', d, hd, hl⟩
    · exact transform_eq_ok.mpr ⟨parts', hparts', hout', hlabels'⟩

/-- A source with three domains, one of them excluded in the mode `curated`. -/
def sample : Text :=
  ("&pmgr0 \x7b\n\tps_afr: power-controller@0 \x7b\n\t\x7d;\n" ++
    "\tps_fab_afr: power-controller@8 \x7b\n\t\tpower-domains = <&ps_afr>;\n\t\x7d;\n" ++
    "\tps_ans: power-controller@10 \x7b\n\t\tpower-domains = <&ps_afr>, <&ps_fab_afr>;\n" ++
    "\t\x7d;\n\x7d;\n").toList

def sampleCurated : Text :=
  ("&pmgr0 \x7b\n\tps_afr: power-controller@0 \x7b\n\t\x7d;\n" ++
    "\tps_ans: power-controller@10 \x7b\n\t\tpower-domains = <&ps_afr>;\n\t\x7d;\n\x7d;\n").toList

lemma listsParents_sample : ListsParents sample := by
  have hlines : (splitSource sample).toOption.all (fun parts : List Part =>
      (domains parts).all fun d => (splitlines d.text).all fun line => decide (powerDomains line ∈
        [none, some "<&ps_afr>".toList, some "<&ps_afr>, <&ps_fab_afr>".toList])) = true := by
    decide +kernel
  have hafr : IsLabel "afr".toList := ⟨by simp, by simp [labelChar]⟩
  have hfab : IsLabel "fab_afr".toList := ⟨by simp, by simp [labelChar]⟩
  intro parts hparts d hd line hline body hb
  rw [hparts] at hlines
  have hmem := of_decide_eq_true
    (List.all_eq_true.mp (List.all_eq_true.mp hlines d hd) line hline)
  rw [hb] at hmem
  simp only [List.mem_cons, List.not_mem_nil, or_false, reduceCtorEq, false_or,
    Option.some.injEq] at hmem
  rcases hmem with rfl | rfl
  · exact ⟨_, .one hafr⟩
  · have hlist : Lists (ref "afr".toList ++ [] ++ [','] ++ [' '] ++ ref "fab_afr".toList)
        ["afr".toList, "fab_afr".toList] :=
      .cons hafr (by simp) (by simp) (.one hfab)
    exact ⟨_, hlist⟩

/-- The mode `curated` on the sample, twice. -/
theorem sample_topology_only : ∃ summary summary',
    transform sample .curated = .ok (sampleCurated, summary) ∧
      transform sampleCurated .curated = .ok (sampleCurated, summary') := by
  have hrun : (transform sample .curated).toOption.any (fun r : Text × Summary =>
      r.1 = sampleCurated) = true := by
    decide +kernel
  obtain ⟨⟨out, summary⟩, h, hout⟩ := Checks.exists_ok_of_any hrun
  obtain rfl : out = sampleCurated := of_decide_eq_true hout
  obtain ⟨-, -, -, summary', hagain⟩ :=
    (variant_topology_only sample .curated listsParents_sample).2 _ summary h
  exact ⟨summary, summary', h, hagain⟩

end Wallace.PmgrVariant
