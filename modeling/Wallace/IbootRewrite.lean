import Mathlib.Data.List.Basic
import Mathlib.Tactic.Common
import Wallace.IbootReserve

/-!
The reservations of iBoot's memory map before they were driven from one table: the block for
`TrustCache` and the loop over the firmware chain, against the loop of `IbootReserve`.

Before, `ADT_GETPROP_ARRAY` copied a property as long as it was into two words on the stack, and
compared its length only then. What happens after such a copy has gone past the two words nobody
knows; here the old version stops there. An entry whose end wraps, as it is or when it is rounded
up, it reserved all the same.
-/

namespace Wallace.IbootRewrite

open Align Bytes IbootReserve

/-- Why a version goes no further. -/
inductive Halt
  /-- `bail`. -/
  | bails
  /-- It has written past the two words. -/
  | overruns

section Old

variable (m : Option MemoryMap) (addFails : String → Bool)

/-- The block for a region: what it does, and whether it ends there. -/
def oldTurn (name : String) : List Event × Option Halt :=
  match m with
  | none => ([.notReserving name], none)
  | some m =>
    match m name with
    | none => ([.notReserving name], none)
    | some prop =>
      let n := prop.bytes.length
      if 16 < n then ([.copy name n], some .overruns)
      else if n ≠ 16 then ([.copy name n, .notReserving name], none)
      else
        let region := regionOf prop.bytes
        if region.2 = 0 ∨ region.1 = ~~~0 then ([.copy name n, .notReserving name], none)
        else
          let start := alignDown 14 region.1
          let stop := alignUp 14 (region.1 + region.2)
          ([.copy name n, .reserving name start stop, .addMemRsv name start (stop - start)],
            if addFails name then some .bails else none)

/-- `TrustCache`, and then `fw_regions`. -/
def oldRegions : List String :=
  ["TrustCache", "SEPFW", "SEPPatches", "uStuff", "preoslog", "BootArgs", "RTBuddySeg"]

/-- Turns until one of them halts. -/
def loopOf (turn : String → List Event × Option Halt) :
    List String → List Event × Option (Halt × String)
  | [] => ([], none)
  | name :: names =>
    match (turn name).2 with
    | some why => ((turn name).1, some (why, name))
    | none => ((turn name).1 ++ (loopOf turn names).1, (loopOf turn names).2)

def oldReserveRegions : List Event × Option (Halt × String) :=
  loopOf (oldTurn m addFails) oldRegions

/-- A turn of the new loop. -/
def newTurn (name : String) : List Event × Option Halt :=
  ((turn m addFails name).1, if (turn m addFails name).2 then some .bails else none)

end Old

/-! ### Loops -/

section Loops

variable {turn : String → List Event × Option Halt} {names : List String} {name : String}

lemma loopOf_cons_some {why : Halt} (h : (turn name).2 = some why) :
    loopOf turn (name :: names) = ((turn name).1, some (why, name)) := by
  rw [loopOf, h]

lemma loopOf_cons_none (h : (turn name).2 = none) :
    loopOf turn (name :: names) =
      ((turn name).1 ++ (loopOf turn names).1, (loopOf turn names).2) := by
  rw [loopOf, h]

/-- The new loop is one of these. -/
lemma loop_eq_loopOf (m : Option MemoryMap) (addFails : String → Bool) (names : List String) :
    loop m addFails names =
      ((loopOf (newTurn m addFails) names).1,
        (loopOf (newTurn m addFails) names).2.map Prod.snd) := by
  induction names with
  | nil => rfl
  | cons name names ih =>
    rw [loop, ih]
    cases h : (IbootReserve.turn m addFails name).2 with
    | true =>
      have hturn : (newTurn m addFails name).2 = some .bails := by simp [newTurn, h]
      rw [loopOf_cons_some hturn]
      rfl
    | false =>
      have hturn : (newTurn m addFails name).2 = none := by simp [newTurn, h]
      rw [loopOf_cons_none hturn]
      rfl

/-- A loop halts in a turn that does. -/
lemma loopOf_halt {why : Halt} (h : (loopOf turn names).2 = some (why, name)) :
    name ∈ names ∧ (turn name).2 = some why := by
  induction names with
  | nil => cases h
  | cons name' names ih =>
    cases ht : (turn name').2 with
    | some why' =>
      rw [loopOf_cons_some ht] at h
      cases h
      exact ⟨List.mem_cons_self, ht⟩
    | none =>
      rw [loopOf_cons_none ht] at h
      exact ⟨List.mem_cons_of_mem _ (ih h).1, (ih h).2⟩

lemma loopOf_halts : (loopOf turn names).2.isSome ↔ ∃ name ∈ names, (turn name).2.isSome := by
  induction names with
  | nil => simp [loopOf]
  | cons name names ih =>
    cases ht : (turn name).2 with
    | some why => simp [loopOf_cons_some ht, ht]
    | none => simp [loopOf_cons_none ht, ht, ih]

/-- What a loop does is done in one of its turns. -/
lemma mem_loopOf {e : Event} (h : e ∈ (loopOf turn names).1) : ∃ name, e ∈ (turn name).1 := by
  induction names with
  | nil => cases h
  | cons name names ih =>
    cases ht : (turn name).2 with
    | some why =>
      rw [loopOf_cons_some ht] at h
      exact ⟨name, h⟩
    | none =>
      rw [loopOf_cons_none ht] at h
      exact (List.mem_append.mp h).elim (fun h => ⟨name, h⟩) ih

/-- If no turn halts, each has done its part. -/
lemma loopOf_events (h : ∀ name ∈ names, (turn name).2 = none) :
    (loopOf turn names).1 = names.flatMap fun name => (turn name).1 := by
  induction names with
  | nil => rfl
  | cons name names ih =>
    rw [loopOf_cons_none (h name List.mem_cons_self), List.flatMap_cons,
      ih fun n hn => h n (List.mem_cons_of_mem _ hn)]

lemma reservations_append (l l' : List Event) (name : String) :
    reservations (l ++ l') name = reservations l name ++ reservations l' name :=
  List.filterMap_append

lemma reservations_of_other {l : List Event} {other : String} (h : ∀ e ∈ l, e.name = other)
    (hne : other ≠ name) : reservations l name = [] := by
  rw [reservations, List.filterMap_eq_nil_iff]
  intro e he
  have hname := h e he
  cases e with
  | addMemRsv name' start size => exact if_neg fun e => hne (hname.symm.trans e)
  | _ => rfl

/-- What a region gets is what its own turn reserves. -/
lemma reservations_flatMap (hnodup : names.Nodup) (hname : ∀ n, ∀ e ∈ (turn n).1, e.name = n)
    (name : String) :
    reservations (names.flatMap fun n => (turn n).1) name =
      if name ∈ names then reservations (turn name).1 name else [] := by
  induction names with
  | nil => rfl
  | cons n names ih =>
    rw [List.nodup_cons] at hnodup
    rw [List.flatMap_cons, reservations_append, ih hnodup.2]
    by_cases hn : n = name
    · subst hn
      simp [hnodup.1]
    · rw [reservations_of_other (hname n) hn]
      simp [Ne.symm hn]

end Loops

/-! ### One turn -/

/-- What there is of a region is no longer than two words. -/
def Fits (m : Option MemoryMap) (name : String) : Prop :=
  ∀ map prop, m = some map → map name = some prop → prop.bytes.length ≤ 16

/-- An entry that is not empty and not all ones ends, rounded up, below `2 ^ 64`. -/
def Tame (m : Option MemoryMap) (name : String) : Prop :=
  ∀ base len, entry m name = some (base, len) → len ≠ 0 → base ≠ ~~~0 →
    ceilTo 16384 (base.toNat + len.toNat) < 2 ^ 64

section Turn

variable {m : Option MemoryMap} {addFails : String → Bool} {name : String}

/-- **Everything that an old turn does.** -/
lemma oldTurn_cases (m : Option MemoryMap) (addFails : String → Bool) (name : String) :
    (¬ Fits m name ∧ ∃ n, oldTurn m addFails name = ([.copy name n], some .overruns)) ∨
    (Fits m name ∧ entry m name = none ∧
      (oldTurn m addFails name = ([.notReserving name], none) ∨
        ∃ n, oldTurn m addFails name = ([.copy name n, .notReserving name], none))) ∨
    (Fits m name ∧ ∃ base size, entry m name = some (base, size) ∧
      (((size = 0 ∨ base = ~~~0) ∧
        oldTurn m addFails name = ([.copy name 16, .notReserving name], none)) ∨
      (¬ (size = 0 ∨ base = ~~~0) ∧
        oldTurn m addFails name = ([.copy name 16,
          .reserving name (alignDown 14 base) (alignUp 14 (base + size)),
          .addMemRsv name (alignDown 14 base) (alignUp 14 (base + size) - alignDown 14 base)],
          if addFails name then some .bails else none)))) := by
  cases m with
  | none => exact .inr (.inl ⟨fun _ _ h => (by cases h), rfl, .inl rfl⟩)
  | some m =>
    cases hp : m name with
    | none =>
      refine .inr (.inl ⟨fun map prop hm hn => ?_, by simp [entry, hp], .inl ?_⟩)
      · cases hm
        rw [hp] at hn
        cases hn
      · simp only [oldTurn, hp]
    | some prop =>
      rw [entry_eq hp]
      by_cases hlong : 16 < prop.bytes.length
      · refine .inl ⟨fun h => ?_, prop.bytes.length, ?_⟩
        · exact absurd (h m prop rfl hp) (Nat.not_le.mpr hlong)
        · simp only [oldTurn, hp, hlong, if_true]
      have hfits : Fits (some m) name := by
        intro map prop' hm hn
        cases hm
        rw [hp] at hn
        cases hn
        exact Nat.not_lt.mp hlong
      by_cases hlen : prop.bytes.length = 16
      · refine .inr (.inr ⟨hfits, _, _, if_pos hlen, ?_⟩)
        by_cases hbad : (regionOf prop.bytes).2 = 0 ∨ (regionOf prop.bytes).1 = ~~~0
        · refine .inl ⟨hbad, ?_⟩
          simp only [oldTurn, hp, hlen, lt_irrefl, if_false, ne_eq, not_true_eq_false, hbad,
            if_true]
        · refine .inr ⟨hbad, ?_⟩
          simp only [oldTurn, hp, hlen, lt_irrefl, if_false, ne_eq, not_true_eq_false, hbad]
          rfl
      · refine .inr (.inl ⟨hfits, if_neg hlen, .inr ⟨prop.bytes.length, ?_⟩⟩)
        simp only [oldTurn, hp, hlong, if_false, ne_eq, hlen, not_false_eq_true, if_true]

lemma oldTurn_name (name : String) : ∀ e ∈ (oldTurn m addFails name).1, e.name = name := by
  rcases oldTurn_cases m addFails name with
    ⟨-, n, h⟩ | ⟨-, -, h | ⟨n, h⟩⟩ | ⟨-, base, size, -, ⟨-, h⟩ | ⟨-, h⟩⟩ <;>
  simp [h, Event.name]

/-- A turn overruns exactly on an entry that does not fit. -/
lemma oldTurn_overruns_iff :
    (oldTurn m addFails name).2 = some .overruns ↔ ¬ Fits m name := by
  rcases oldTurn_cases m addFails name with
    ⟨hf, n, h⟩ | ⟨hf, -, h | ⟨n, h⟩⟩ | ⟨hf, base, size, -, ⟨-, h⟩ | ⟨-, h⟩⟩
  · simp [h, hf]
  · simp [h, hf]
  · simp [h, hf]
  · simp [h, hf]
  · cases ha : addFails name <;> simp [h, hf, ha]

lemma copy_le_of_mem_turn {n : ℕ} (h : .copy name n ∈ (turn m addFails name).1) : n ≤ 16 := by
  rcases turn_cases m addFails name with ⟨-, ht⟩ | ⟨base, size, -, ht⟩
  · simp [ht] at h
  · rcases ht with ⟨-, ht⟩ | ⟨-, -, ht⟩ | ⟨-, -, ht⟩ <;> simp [ht] at h <;> omega

lemma reservable_iff {base size : Word} :
    Reservable base.toNat size.toNat ↔ ¬ (size = 0 ∨ base = ~~~0) ∧
      ceilTo 16384 (base.toNat + size.toNat) < 2 ^ 64 := by
  have hzero : size = 0 ↔ size.toNat = 0 := by
    rw [← BitVec.toNat_inj]
    rfl
  have hones : base = ~~~0 ↔ base.toNat = 2 ^ 64 - 1 := by
    rw [← BitVec.toNat_inj]
    rfl
  rw [Reservable, hzero, hones, not_or, Nat.pos_iff_ne_zero, and_assoc]

/-- **A tame entry is treated as before**: the same reservation, and the same end. -/
lemma turn_of_tame (hf : Fits m name) (h : Tame m name) :
    reservations (newTurn m addFails name).1 name =
        reservations (oldTurn m addFails name).1 name ∧
      (newTurn m addFails name).2 = (oldTurn m addFails name).2 := by
  rcases oldTurn_cases m addFails name with ⟨hn, -⟩ | ⟨-, he, ho⟩ | ⟨-, base, size, he, ho⟩
  · exact absurd hf hn
  · rcases turn_cases m addFails name with ⟨-, ht⟩ | ⟨base, size, he', -⟩
    · rcases ho with ho | ⟨n, ho⟩ <;> simp [newTurn, ho, ht, reservations]
    · rw [he] at he'
      cases he'
  rcases turn_cases m addFails name with ⟨he', -⟩ | ⟨base', size', he', ht⟩
  · rw [he] at he'
    cases he'
  rw [he] at he'
  cases he'
  rcases ho with ⟨hbad, ho⟩ | ⟨hok, ho⟩
  · rcases ht with ⟨-, ht⟩ | ⟨hrej, -⟩ | ⟨hrej, -⟩
    · simp [newTurn, ho, ht, reservations]
    · exact absurd (hbad.imp_right .inl) hrej
    · exact absurd (hbad.imp_right .inl) hrej
  · have hpart := not_or.mp hok
    obtain ⟨hrej, hlt⟩ := lt_of_reservable
      (reservable_iff.mpr ⟨hok, h base size he hpart.1 hpart.2⟩)
    rcases ht with ⟨hrej', -⟩ | ⟨-, hle, -⟩ | ⟨-, -, ht⟩
    · exact absurd hrej' hrej
    · exact absurd hlt (BitVec.not_lt.mpr hle)
    · simp [newTurn, ho, ht, reservations]

/-- What fits and is reserved as before is tame. -/
lemma tame_of_turn (hf : Fits m name)
    (h : reservations (newTurn m addFails name).1 name =
      reservations (oldTurn m addFails name).1 name) : Tame m name := by
  intro base len he hlen hbase
  rcases oldTurn_cases m addFails name with ⟨hn, -⟩ | ⟨-, he', -⟩ | ⟨-, base', size', he', ho⟩
  · exact absurd hf hn
  · rw [he] at he'
    cases he'
  rw [he] at he'
  cases he'
  rcases ho with ⟨hbad, -⟩ | ⟨-, ho⟩
  · exact absurd hbad (not_or.mpr ⟨hlen, hbase⟩)
  rcases reservations_turn m addFails name with hnone | ⟨base', len', start, size, he', hc, -⟩
  · rw [newTurn, hnone, ho] at h
    simp [reservations] at h
  · rw [he] at he'
    cases he'
    exact (ceilTo_le (by decide) hc.aligned.2 hc.inside.2).trans_lt hc.word

end Turn

lemma mem_oldRegions (name : String) : name ∈ oldRegions ↔ name ∈ mmapRegions := by
  simp only [oldRegions, mmapRegions, List.mem_cons, List.not_mem_nil, or_false]
  tauto

lemma nodup_oldRegions : oldRegions.Nodup := by decide

section Versions

variable {m : Option MemoryMap} {addFails : String → Bool}

lemma reserveRegions_eq :
    reserveRegions m addFails =
      ((loopOf (newTurn m addFails) mmapRegions).1,
        (loopOf (newTurn m addFails) mmapRegions).2.map Prod.snd) :=
  loop_eq_loopOf m addFails mmapRegions

/-- The new version copies no more than two words. -/
lemma copy_le_of_mem {name : String} {n : ℕ}
    (h : .copy name n ∈ (reserveRegions m addFails).1) : n ≤ 16 := by
  rw [reserveRegions_eq] at h
  obtain ⟨name', hmem⟩ := mem_loopOf h
  obtain rfl : name = name' := turn_name name' _ hmem
  exact copy_le_of_mem_turn hmem

lemma not_overruns (h : ∀ name ∈ mmapRegions, Fits m name) (name : String) :
    (oldReserveRegions m addFails).2 ≠ some (.overruns, name) := by
  intro ho
  obtain ⟨hmem, ht⟩ := loopOf_halt ho
  exact oldTurn_overruns_iff.mp ht (h name ((mem_oldRegions name).mp hmem))

/-- Both versions bail out, or neither does. -/
lemma bails_iff (h : ∀ name ∈ mmapRegions, Fits m name ∧ Tame m name) :
    (reserveRegions m addFails).2.isSome ↔ (oldReserveRegions m addFails).2.isSome := by
  rw [reserveRegions_eq, Option.isSome_map, oldReserveRegions, loopOf_halts, loopOf_halts]
  refine exists_congr fun name => ?_
  rw [mem_oldRegions]
  refine and_congr_right fun hmem => ?_
  rw [(turn_of_tame (h name hmem).1 (h name hmem).2).2]

/-- Where nothing is refused, an old version that has not overrun has come to its end. -/
lemma fits_of_not_overruns
    (h : ∀ name, (oldReserveRegions m fun _ => false).2 ≠ some (.overruns, name)) :
    ∀ name ∈ mmapRegions, Fits m name := by
  by_contra hn
  push Not at hn
  obtain ⟨name, hmem, hf⟩ := hn
  have hsome : (oldReserveRegions m fun _ => false).2.isSome := by
    refine loopOf_halts.mpr ⟨name, (mem_oldRegions name).mpr hmem, ?_⟩
    rw [oldTurn_overruns_iff.mpr hf]
    rfl
  obtain ⟨⟨why, name'⟩, hw⟩ := Option.isSome_iff_exists.mp hsome
  obtain ⟨-, ht⟩ := loopOf_halt hw
  rcases oldTurn_cases m (fun _ => false) name' with
    ⟨-, n, ho⟩ | ⟨-, -, ho | ⟨n, ho⟩⟩ | ⟨-, base, size, -, ⟨-, ho⟩ | ⟨-, ho⟩⟩ <;>
  rw [ho] at ht <;> cases ht
  exact h name' hw

/-- Where nothing is refused and all fits, both versions do all of their turns. -/
lemma reservations_of_fits (h : ∀ name ∈ mmapRegions, Fits m name) (name : String) :
    reservations (reserveRegions m fun _ => false).1 name =
        (if name ∈ mmapRegions then reservations (newTurn m (fun _ => false) name).1 name
        else []) ∧
      reservations (oldReserveRegions m fun _ => false).1 name =
        if name ∈ mmapRegions then reservations (oldTurn m (fun _ => false) name).1 name
        else [] := by
  have hnew : ∀ name ∈ mmapRegions, (newTurn m (fun _ => false) name).2 = none := by
    intro name _
    refine if_neg fun hb => ?_
    cases addFails_of_bails hb
  have hold : ∀ name ∈ oldRegions, (oldTurn m (fun _ => false) name).2 = none := by
    intro name hmem
    have hf := h name ((mem_oldRegions name).mp hmem)
    rcases oldTurn_cases m (fun _ => false) name with
      ⟨hn, -⟩ | ⟨-, -, ho | ⟨n, ho⟩⟩ | ⟨-, base, size, -, ⟨-, ho⟩ | ⟨-, ho⟩⟩
    · exact absurd hf hn
    · rw [ho]
    · rw [ho]
    · rw [ho]
    · rw [ho]
      rfl
  rw [reserveRegions_eq, oldReserveRegions, loopOf_events hnew, loopOf_events hold,
    reservations_flatMap nodup_mmapRegions turn_name,
    reservations_flatMap nodup_oldRegions oldTurn_name]
  simp only [mem_oldRegions, and_self]

end Versions

/-- **The rewrite agrees exactly on tame memory maps of short entries.** It never copies more than
two words. If no entry of the table is longer, and every one that is neither empty nor all ones
ends, rounded up to 16 KiB, below `2 ^ 64`, then the old version does not overrun them either, and
the two bail out for the same answers of `fdt_add_mem_rsv`. When nothing is refused, the old
version runs without an overrun and reserves the same for every region exactly on these maps,
though in another order. -/
theorem rewrite_agrees_iff_tame (m : Option MemoryMap) :
    (∀ addFails name n, .copy name n ∈ (reserveRegions m addFails).1 → n ≤ 16) ∧
    ((∀ name ∈ mmapRegions, Fits m name ∧ Tame m name) → ∀ addFails : String → Bool,
      (∀ name, (oldReserveRegions m addFails).2 ≠ some (.overruns, name)) ∧
      ((reserveRegions m addFails).2.isSome ↔ (oldReserveRegions m addFails).2.isSome)) ∧
    (((∀ name, (oldReserveRegions m fun _ => false).2 ≠ some (.overruns, name)) ∧
        ∀ name, reservations (reserveRegions m fun _ => false).1 name =
          reservations (oldReserveRegions m fun _ => false).1 name) ↔
      ∀ name ∈ mmapRegions, Fits m name ∧ Tame m name) := by
  refine ⟨fun addFails name n h => copy_le_of_mem h, fun h addFails => ?_, fun h => ?_, fun h => ?_⟩
  · exact ⟨not_overruns fun name hmem => (h name hmem).1, bails_iff h⟩
  · have hf := fits_of_not_overruns h.1
    refine fun name hmem => ⟨hf name hmem, ?_⟩
    have heq := h.2 name
    rw [(reservations_of_fits hf name).1, (reservations_of_fits hf name).2, if_pos hmem,
      if_pos hmem] at heq
    exact tame_of_turn (hf name hmem) heq
  · have hf : ∀ name ∈ mmapRegions, Fits m name := fun name hmem => (h name hmem).1
    refine ⟨not_overruns hf, fun name => ?_⟩
    rw [(reservations_of_fits hf name).1, (reservations_of_fits hf name).2]
    split_ifs with hmem
    · exact (turn_of_tame (hf name hmem) (h name hmem).2).1
    · rfl

end Wallace.IbootRewrite
