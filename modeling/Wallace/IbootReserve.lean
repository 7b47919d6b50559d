import Mathlib.Data.List.Basic
import Mathlib.Tactic.Common
import Wallace.Align
import Wallace.Bytes

/-!
The reservations of iBoot's memory map: `adt_memory_map_region` of `kboot.c`, and the loop of
`kboot_prepare_dt` over the regions it names.

A region is two words of 64 bits, so both its end and the end rounded up may wrap. The first is
caught when the entry is read, the second by comparing the ends.
-/

namespace Wallace.IbootReserve

open Wallace.Align Wallace.Bytes

abbrev Word := BitVec 64

/-- A property of the ADT; its length has 32 bits. -/
structure Property where
  bytes : List UInt8
  short : bytes.length < 2 ^ 32

/-- `/chosen/memory-map`: what `adt_getprop` finds there. -/
abbrev MemoryMap := String → Option Property

/-- What the loop does, each with the region it does it for. -/
inductive Event
  | copy (name : String) (n : ℕ)
  | notReserving (name : String)
  | badRange (name : String) (base size : Word)
  | reserving (name : String) (start stop : Word)
  | addMemRsv (name : String) (start size : Word)

def Event.name : Event → String
  | .copy name _ | .notReserving name | .badRange name _ _ | .reserving name _ _
  | .addMemRsv name _ _ => name

def mmapRegions : List String :=
  ["TrustCache", "RTBuddySeg", "SEPFW", "SEPPatches", "uStuff", "preoslog", "BootArgs"]

/-- The two words of a region. -/
def regionOf (b : List UInt8) : Word × Word :=
  (BitVec.ofNat 64 (leNat (sub b 0 8)), BitVec.ofNat 64 (leNat (sub b 8 8)))

/-- `adt_memory_map_region`: what it copies, and what it reports. -/
def adtMemoryMapRegion (m : MemoryMap) (name : String) : List Event × Option (Word × Word) :=
  match m name with
  | none => ([], none)
  | some prop =>
    if BitVec.ofNat 32 prop.bytes.length ≠ 16 then ([], none)
    else
      let region := regionOf prop.bytes
      ([.copy name 16],
        if region.2 = 0 ∨ region.1 = ~~~0 ∨ region.1 + region.2 < region.1 then none
        else some region)

section Loop

-- `addFails` is how `fdt_add_mem_rsv` answers the call for a region
variable (m : Option MemoryMap) (addFails : String → Bool)

/-- One turn of the loop, and whether it bails out. Without a memory map there is no region. -/
def turn (name : String) : List Event × Bool :=
  match m with
  | none => ([.notReserving name], false)
  | some m =>
    match adtMemoryMapRegion m name with
    | (copied, none) => (copied ++ [.notReserving name], false)
    | (copied, some (base, size)) =>
      let start := alignDown 14 base
      let stop := alignUp 14 (base + size)
      if stop ≤ start then (copied ++ [.badRange name base size], false)
      else
        (copied ++ [.reserving name start stop, .addMemRsv name start (stop - start)],
          addFails name)

/-- The loop: what it does, and the region for which the reservation could not be added. -/
def loop : List String → List Event × Option String
  | [] => ([], none)
  | name :: names =>
    if (turn m addFails name).2 then ((turn m addFails name).1, some name)
    else
      let (events, failed) := loop names
      ((turn m addFails name).1 ++ events, failed)

def reserveRegions : List Event × Option String := loop m addFails mmapRegions

end Loop

/-! ### What is promised -/

/-- The entry of a region: two words, if it is 16 bytes long. -/
def entry (m : Option MemoryMap) (name : String) : Option (Word × Word) := do
  let prop ← (← m) name
  if prop.bytes.length = 16 then some (regionOf prop.bytes) else none

/-- The calls of `fdt_add_mem_rsv` for a region. -/
def reservations (events : List Event) (name : String) : List (Word × Word) :=
  events.filterMap fun
    | .addMemRsv name' start size => if name' = name then some (start, size) else none
    | _ => none

/-- The bytes that are copied of the property of a region. -/
def copied (events : List Event) (name : String) : ℕ :=
  (events.filterMap fun
    | .copy name' n => if name' = name then some n else none
    | _ => none).sum

/-- A reservation of the region with the given base and size: whole blocks of 16 KiB, all of the
region, and less than a block more at each end. -/
structure Covers (base len start size : ℕ) : Prop where
  aligned : 16384 ∣ start ∧ 16384 ∣ start + size
  nonempty : 0 < size
  word : start + size < 2 ^ 64
  inside : start ≤ base ∧ base + len ≤ start + size
  tight : size < len + 2 * 16384

/-- An entry that must be reserved. -/
def Reservable (base len : ℕ) : Prop :=
  0 < len ∧ base ≠ 2 ^ 64 - 1 ∧ ceilTo 16384 (base + len) < 2 ^ 64

/-! ### One turn -/

section Turn

/-- The entries that `adt_memory_map_region` reports as absent. -/
def Rejected (base size : Word) : Prop := size = 0 ∨ base = ~~~0 ∨ base + size < base

instance (base size : Word) : Decidable (Rejected base size) :=
  inferInstanceAs (Decidable (size = 0 ∨ base = ~~~0 ∨ base + size < base))

lemma ofNat_length_eq {prop : Property} :
    BitVec.ofNat 32 prop.bytes.length = 16 ↔ prop.bytes.length = 16 := by
  have h := prop.short
  rw [← BitVec.toNat_inj, BitVec.toNat_ofNat, Nat.mod_eq_of_lt h]
  rfl

lemma entry_eq {m : MemoryMap} {name : String} {prop : Property} (h : m name = some prop) :
    entry (some m) name = if prop.bytes.length = 16 then some (regionOf prop.bytes) else none := by
  show (m name).bind _ = _
  rw [h]
  rfl

/-- **Everything that a turn does.** -/
lemma turn_cases (m : Option MemoryMap) (addFails : String → Bool) (name : String) :
    (entry m name = none ∧ turn m addFails name = ([.notReserving name], false)) ∨
    ∃ base size, entry m name = some (base, size) ∧
      ((Rejected base size ∧
        turn m addFails name = ([.copy name 16, .notReserving name], false)) ∨
      (¬ Rejected base size ∧ alignUp 14 (base + size) ≤ alignDown 14 base ∧
        turn m addFails name = ([.copy name 16, .badRange name base size], false)) ∨
      (¬ Rejected base size ∧ alignDown 14 base < alignUp 14 (base + size) ∧
        turn m addFails name = ([.copy name 16,
          .reserving name (alignDown 14 base) (alignUp 14 (base + size)),
          .addMemRsv name (alignDown 14 base) (alignUp 14 (base + size) - alignDown 14 base)],
          addFails name))) := by
  cases m with
  | none => exact .inl ⟨rfl, rfl⟩
  | some m =>
    cases hp : m name with
    | none => exact .inl ⟨by simp [entry, hp], by simp only [turn, adtMemoryMapRegion, hp]; rfl⟩
    | some prop =>
      rw [entry_eq hp]
      by_cases hlen : prop.bytes.length = 16
      swap
      · have h32 := mt ofNat_length_eq.mp hlen
        refine .inl ⟨if_neg hlen, ?_⟩
        simp only [turn, adtMemoryMapRegion, hp, ne_eq, h32, not_false_eq_true, if_true]
        rfl
      have h32 := ofNat_length_eq.mpr hlen
      refine .inr ⟨_, _, if_pos hlen, ?_⟩
      have hregion : adtMemoryMapRegion m name = ([.copy name 16],
          if Rejected (regionOf prop.bytes).1 (regionOf prop.bytes).2 then none
          else some (regionOf prop.bytes)) := by
        simp only [adtMemoryMapRegion, hp, ne_eq, h32, not_true_eq_false, if_false]
        rfl
      by_cases hrej : Rejected (regionOf prop.bytes).1 (regionOf prop.bytes).2
      · rw [if_pos hrej] at hregion
        refine .inl ⟨hrej, ?_⟩
        simp only [turn, hregion]
        rfl
      rw [if_neg hrej] at hregion
      refine .inr ?_
      by_cases hle : alignUp 14 ((regionOf prop.bytes).1 + (regionOf prop.bytes).2) ≤
          alignDown 14 (regionOf prop.bytes).1
      · refine .inl ⟨hrej, hle, ?_⟩
        simp only [turn, hregion, hle, if_true]
        rfl
      · refine .inr ⟨hrej, BitVec.not_le.mp hle, ?_⟩
        simp only [turn, hregion, hle, if_false]
        rfl

/-- Neither end of what a turn reserves has wrapped. -/
lemma covers_of_lt {base size : Word} (hrej : ¬ Rejected base size)
    (hlt : alignDown 14 base < alignUp 14 (base + size)) :
    Covers base.toNat size.toNat (alignDown 14 base).toNat
      (alignUp 14 (base + size) - alignDown 14 base).toNat := by
  have hsum : (base + size).toNat = base.toNat + size.toNat := by
    have hwrap : ¬ (base + size).toNat < base.toNat := fun h => hrej (.inr (.inr h))
    rw [BitVec.toNat_add] at hwrap ⊢
    have := base.isLt
    have := size.isLt
    omega
  have hlt' : (alignDown 14 base).toNat < (alignUp 14 (base + size)).toNat := hlt
  have hceil : ceilTo (2 ^ 14) (base + size).toNat < 2 ^ 64 := by
    by_contra h
    rw [alignUp_of_wrap (by decide) (Nat.not_lt.mp h)] at hlt'
    omega
  have hup := toNat_alignUp (by decide) hceil
  have hdown := toNat_alignDown 14 base
  have hsub : (alignUp 14 (base + size) - alignDown 14 base).toNat =
      (alignUp 14 (base + size)).toNat - (alignDown 14 base).toNat :=
    BitVec.toNat_sub_of_le (BitVec.le_of_lt hlt)
  have hfloor := floorTo_le (2 ^ 14) base.toNat
  have hfloor' := lt_floorTo_add (c := 2 ^ 14) (by decide) base.toNat
  have hle := le_ceilTo (c := 2 ^ 14) (by decide) (base + size).toNat
  have hge := ceilTo_lt (c := 2 ^ 14) (by decide) (base + size).toNat
  have hadd : (alignDown 14 base).toNat + ((alignUp 14 (base + size)).toNat -
      (alignDown 14 base).toNat) = ceilTo (2 ^ 14) (base + size).toNat := by omega
  rw [hsub]
  refine ⟨⟨?_, ?_⟩, by omega, by omega, ?_, by omega⟩
  · rw [hdown]
    exact dvd_floorTo _ _
  · rw [hadd]
    exact dvd_ceilTo _ _
  · omega

/-- An entry that must be reserved is not rejected, and its ends do not meet. -/
lemma lt_of_reservable {base size : Word} (h : Reservable base.toNat size.toNat) :
    ¬ Rejected base size ∧ alignDown 14 base < alignUp 14 (base + size) := by
  obtain ⟨hpos, hones, hceil⟩ := h
  have hle := le_ceilTo (c := 16384) (by decide) (base.toNat + size.toNat)
  have hsum : (base + size).toNat = base.toNat + size.toNat := by
    rw [BitVec.toNat_add]
    omega
  refine ⟨?_, ?_⟩
  · rintro (h | h | h)
    · rw [h] at hpos
      exact absurd hpos (by decide)
    · rw [h] at hones
      exact absurd rfl hones
    · have : (base + size).toNat < base.toNat := h
      omega
  · rw [← hsum] at hceil
    have hfloor := floorTo_le (2 ^ 14) base.toNat
    show (alignDown 14 base).toNat < (alignUp 14 (base + size)).toNat
    rw [toNat_alignUp (by decide) hceil, toNat_alignDown]
    have hle' : (base + size).toNat ≤ ceilTo (2 ^ 14) (base + size).toNat :=
      le_ceilTo (by decide) _
    omega

variable {m : Option MemoryMap} {addFails : String → Bool}

lemma turn_name (name : String) : ∀ e ∈ (turn m addFails name).1, e.name = name := by
  rcases turn_cases m addFails name with ⟨-, h⟩ | ⟨base, size, -, h⟩
  · simp [h, Event.name]
  · rcases h with ⟨-, h⟩ | ⟨-, -, h⟩ | ⟨-, -, h⟩ <;> simp [h, Event.name]

lemma addFails_of_bails {name : String} (h : (turn m addFails name).2 = true) :
    addFails name = true := by
  rcases turn_cases m addFails name with ⟨-, ht⟩ | ⟨base, size, -, ht⟩
  · rw [ht] at h
    cases h
  · rcases ht with ⟨-, ht⟩ | ⟨-, -, ht⟩ | ⟨-, -, ht⟩
    · rw [ht] at h
      cases h
    · rw [ht] at h
      cases h
    · rw [ht] at h
      exact h

lemma copied_turn (name : String) : copied (turn m addFails name).1 name ≤ 16 := by
  rcases turn_cases m addFails name with ⟨-, h⟩ | ⟨base, size, -, h⟩
  · simp [h, copied]
  · rcases h with ⟨-, h⟩ | ⟨-, -, h⟩ | ⟨-, -, h⟩ <;> simp [h, copied]

/-- A turn reserves nothing, or what covers its entry. -/
lemma reservations_turn (m : Option MemoryMap) (addFails : String → Bool) (name : String) :
    reservations (turn m addFails name).1 name = [] ∨
    ∃ base len start size, entry m name = some (base, len) ∧
      Covers base.toNat len.toNat start.toNat size.toNat ∧
      reservations (turn m addFails name).1 name = [(start, size)] := by
  rcases turn_cases m addFails name with ⟨-, h⟩ | ⟨base, size, he, h⟩
  · simp [h, reservations]
  · rcases h with ⟨-, h⟩ | ⟨-, -, h⟩ | ⟨hrej, hlt, h⟩
    · simp [h, reservations]
    · simp [h, reservations]
    · exact .inr ⟨base, size, _, _, he, covers_of_lt hrej hlt, by simp [h, reservations]⟩

lemma reservations_of_reservable {name : String} {base len : Word}
    (he : entry m name = some (base, len)) (h : Reservable base.toNat len.toNat) :
    ∃ r, reservations (turn m addFails name).1 name = [r] := by
  obtain ⟨hrej, hlt⟩ := lt_of_reservable h
  rcases turn_cases m addFails name with ⟨he', -⟩ | ⟨base', size', he', ht⟩
  · rw [he] at he'
    cases he'
  · rw [he] at he'
    cases he'
    rcases ht with ⟨hrej', -⟩ | ⟨-, hle, -⟩ | ⟨-, -, ht⟩
    · exact absurd hrej' hrej
    · exact absurd hlt (BitVec.not_lt.mpr hle)
    · exact ⟨(alignDown 14 base, alignUp 14 (base + len) - alignDown 14 base),
        by simp [ht, reservations]⟩

end Turn

/-! ### The loop -/

section Loop

variable {m : Option MemoryMap} {addFails : String → Bool}

/-- The events for a region. -/
def about (events : List Event) (name : String) : List Event :=
  events.filter fun e => e.name = name

lemma reservations_about (events : List Event) (name : String) :
    reservations (about events name) name = reservations events name := by
  rw [reservations, about, List.filterMap_filter]
  refine List.filterMap_congr fun e _ => ?_
  by_cases h : e.name = name
  · rw [if_pos (decide_eq_true h)]
  · rw [if_neg (by simpa using h)]
    cases e <;> first | rfl | exact (if_neg h).symm

lemma copied_about (events : List Event) (name : String) :
    copied (about events name) name = copied events name := by
  rw [copied, about, List.filterMap_filter]
  refine congrArg List.sum (List.filterMap_congr fun e _ => ?_)
  by_cases h : e.name = name
  · rw [if_pos (decide_eq_true h)]
  · rw [if_neg (by simpa using h)]
    cases e <;> first | rfl | exact (if_neg h).symm

lemma about_turn_self (name : String) :
    about (turn m addFails name).1 name = (turn m addFails name).1 :=
  List.filter_eq_self.mpr fun e he => by simp [turn_name name e he]

lemma about_turn_ne {name other : String} (h : other ≠ name) :
    about (turn m addFails other).1 name = [] :=
  List.filter_eq_nil_iff.mpr fun e he => by simp [turn_name other e he, h]

lemma about_loop_of_not_mem {name : String} {names : List String} (h : name ∉ names) :
    about (loop m addFails names).1 name = [] := by
  induction names with
  | nil => rfl
  | cons other names ih =>
    rw [List.mem_cons, not_or] at h
    rw [loop]
    split_ifs
    · exact about_turn_ne (Ne.symm h.1)
    · show about (_ ++ _) name = []
      rw [about, List.filter_append]
      exact List.append_eq_nil_iff.mpr ⟨about_turn_ne (Ne.symm h.1), ih h.2⟩

/-- **The loop**: a region has one turn, unless the loop was left in an earlier one. -/
lemma about_loop {names : List String} (hnodup : names.Nodup) {before after : List String}
    {name : String} (h : names = before ++ name :: after) :
    about (loop m addFails names).1 name = (turn m addFails name).1 ∨
    about (loop m addFails names).1 name = [] ∧
      ∃ earlier ∈ before, addFails earlier = true ∧
        (loop m addFails names).2 = some earlier := by
  subst h
  induction before with
  | nil =>
    have hnot : name ∉ after := (List.nodup_cons.mp hnodup).1
    rw [List.nil_append, loop]
    refine .inl ?_
    split_ifs
    · exact about_turn_self name
    · show about (_ ++ _) name = _
      rw [about, List.filter_append]
      show about _ name ++ about _ name = _
      rw [about_turn_self, about_loop_of_not_mem hnot, List.append_nil]
  | cons other before ih =>
    rw [List.cons_append, List.nodup_cons] at hnodup
    have hne : other ≠ name := by
      rintro rfl
      exact hnodup.1 (by simp)
    rw [List.cons_append, loop]
    split_ifs with hbail
    · exact .inr ⟨about_turn_ne hne, other, by simp, addFails_of_bails hbail, rfl⟩
    · have hcons : about ((turn m addFails other).1 ++
          (loop m addFails (before ++ name :: after)).1) name =
          about (loop m addFails (before ++ name :: after)).1 name := by
        rw [about, List.filter_append]
        show about _ name ++ _ = _
        rw [about_turn_ne hne, List.nil_append]
        rfl
      rcases ih hnodup.2 with hturn | ⟨hnil, earlier, hmem, hfail⟩
      · exact .inl (hcons.trans hturn)
      · exact .inr ⟨hcons.trans hnil, earlier, List.mem_cons_of_mem _ hmem, hfail⟩

lemma nodup_mmapRegions : mmapRegions.Nodup := by decide

/-- Each region has its turn, or none. -/
lemma about_reserveRegions (name : String) :
    about (reserveRegions m addFails).1 name = (turn m addFails name).1 ∨
      about (reserveRegions m addFails).1 name = [] := by
  by_cases hmem : name ∈ mmapRegions
  · obtain ⟨before, after, h⟩ := List.append_of_mem hmem
    rcases about_loop nodup_mmapRegions h with hturn | ⟨hnil, -⟩
    · exact .inl hturn
    · exact .inr hnil
  · exact .inr (about_loop_of_not_mem hmem)

end Loop

/-- **The reservations are exact**, for every memory map. Each region gets at most one; it is of
whole blocks, covers the region, and no end has wrapped; an entry that can be covered is, unless
the loop was left because `fdt_add_mem_rsv` refused an earlier one; and no more than 16 bytes of
a property are copied. -/
theorem reserveRegions_exact (m : Option MemoryMap) (addFails : String → Bool) :
    (∀ name, (reservations (reserveRegions m addFails).1 name).length ≤ 1) ∧
    (∀ name start size, (start, size) ∈ reservations (reserveRegions m addFails).1 name →
      ∃ base len, entry m name = some (base, len) ∧
        Covers base.toNat len.toNat start.toNat size.toNat) ∧
    (∀ before name after, mmapRegions = before ++ name :: after →
      ∀ base len, entry m name = some (base, len) → Reservable base.toNat len.toNat →
      (∃ r, reservations (reserveRegions m addFails).1 name = [r]) ∨
        ∃ earlier ∈ before, addFails earlier = true ∧
          (reserveRegions m addFails).2 = some earlier) ∧
    ∀ name, copied (reserveRegions m addFails).1 name ≤ 16 := by
  refine ⟨fun name => ?_, fun name start size h => ?_, fun before name after h base len he hr => ?_,
    fun name => ?_⟩
  · rw [← reservations_about]
    rcases about_reserveRegions name with ha | ha
    · rw [ha]
      rcases reservations_turn m addFails name with h | ⟨_, _, _, _, -, -, h⟩
      · simp [h]
      · simp [h]
    · simp [ha, reservations]
  · rw [← reservations_about] at h
    rcases about_reserveRegions name with ha | ha
    · rw [ha] at h
      rcases reservations_turn m addFails name with ht | ⟨base, len, start', size', he, hc, ht⟩
      · rw [ht] at h
        cases h
      · rw [ht] at h
        cases List.mem_singleton.mp h
        exact ⟨base, len, he, hc⟩
    · rw [ha] at h
      cases h
  · rw [← reservations_about]
    rcases about_loop nodup_mmapRegions h with ha | ⟨-, hfail⟩
    · refine .inl ?_
      rw [reserveRegions, ha]
      exact reservations_of_reservable he hr
    · exact .inr hfail
  · rw [← copied_about]
    rcases about_reserveRegions name with ha | ha
    · rw [ha]
      exact copied_turn name
    · rw [ha]
      exact Nat.zero_le _

end Wallace.IbootReserve
