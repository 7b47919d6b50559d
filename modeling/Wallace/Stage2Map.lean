import Mathlib.Data.List.Forall2
import Mathlib.Data.List.Nodup
import Mathlib.Data.Set.Card
import Mathlib.Tactic.Common
import Wallace.Align

/-!
The device slots of U-Boot's stage-2 map, `t6040_build_stage2_dev_map`.

Three loops share one slot counter: over the compatibles, over the nodes with the compatible, and
over the registers of a node. The device tree is behind three functions of U-Boot.
`ofnode_by_compatible` gives the next node with a compatible after a given one, and none after the
last; `ofnode_get_addr_size_index` gives a register, or `FDT_ADDR_T_NONE` where there is none.
-/

namespace Wallace.Stage2Map

open Wallace.Align

abbrev Word := BitVec 64

def fdtAddrTNone : Word := -1

def devSlots : ℕ := 24

def compats : List String := ["apple,t8103-pmgr", "apple,t8110-dart", "snps,dwc3"]

/-- A device tree: its nodes in order, and what is read of each. -/
structure Tree (ν : Type) where
  nodes : List ν
  nodup : nodes.Nodup
  compatible : ν → String → Bool
  enabled : ν → Bool
  regs : ν → List (Word × Word)

section Tree

variable {ν : Type} [DecidableEq ν] (t : Tree ν)

/-- The nodes after a given one, or all. -/
def Tree.after : Option ν → List ν
  | none => t.nodes
  | some n => (t.nodes.dropWhile (· ≠ n)).tail

/-- `ofnode_by_compatible`. -/
def Tree.byCompatible (node : Option ν) (compat : String) : Option ν :=
  (t.after node).find? fun n => t.compatible n compat

/-- `ofnode_get_addr_size_index`. -/
def Tree.getAddrSizeIndex (n : ν) (idx : ℕ) : Word × Word :=
  ((t.regs n)[idx]?).getD (fdtAddrTNone, 0)

end Tree

/-- A slot that is filled. -/
structure Write where
  slot : ℕ
  virt : Word
  phys : Word
  size : Word
  deriving DecidableEq

/-- The counter, and what has been written. -/
structure State where
  slot : ℕ := 0
  writes : List Write := []
  deriving DecidableEq

/-- One turn of the loop over the registers. -/
def State.fill (s : State) (reg : Word × Word) : State :=
  let base := reg.1
  let size := reg.2 + (base - alignDown 12 base)
  let base := alignDown 12 base
  let size := alignUp 12 size
  ⟨s.slot + 1, s.writes ++ [⟨s.slot, base, base, size⟩]⟩

section Loops

variable {ν : Type} [DecidableEq ν] (t : Tree ν)

/-- The loop over the registers of a node. -/
def regLoop (n : ν) : ℕ → ℕ → State → Option State
  | 0, _, _ => none
  | fuel + 1, idx, s =>
    if s.slot < devSlots then
      let (base, size) := t.getAddrSizeIndex n idx
      if base = fdtAddrTNone then some s else regLoop n fuel (idx + 1) (s.fill (base, size))
    else some s

/-- The loop over the nodes with a compatible. -/
def nodeLoop (regFuel : ℕ) (compat : String) : ℕ → Option ν → State → Option State
  | 0, _, _ => none
  | fuel + 1, node, s =>
    if s.slot < devSlots then
      match t.byCompatible node compat with
      | none => some s
      | some n =>
        if !t.enabled n then nodeLoop regFuel compat fuel (some n) s
        else (regLoop t n regFuel 0 s).bind fun s => nodeLoop regFuel compat fuel (some n) s
    else some s

/-- `t6040_build_stage2_dev_map`, with at most so many turns of each of the inner loops. -/
def buildStage2DevMap (fuel : ℕ) : Option State :=
  compats.foldlM (fun s compat => nodeLoop t fuel compat fuel none s) {}

end Loops

/-! ### What is to be mapped -/

/-- A window: a compatible, a node and the index of a register. -/
structure Source (ν : Type) where
  compat : String
  node : ν
  idx : ℕ

section Sources

variable {ν : Type} (t : Tree ν)

/-- The registers that are read: those before the first with the base `FDT_ADDR_T_NONE`. -/
def Tree.windows (n : ν) : List (Word × Word) :=
  (t.regs n).takeWhile fun r => r.1 ≠ fdtAddrTNone

/-- A register of an enabled node with an allowed compatible. -/
structure Mapped (src : Source ν) (reg : Word × Word) : Prop where
  compat : src.compat ∈ compats
  node : src.node ∈ t.nodes
  compatible : t.compatible src.node src.compat = true
  enabled : t.enabled src.node = true
  reg : (t.windows src.node)[src.idx]? = some reg

end Sources

/-- The end of a window, rounded. -/
def roundedEnd (base len : ℕ) : ℕ := ceilTo 4096 (base + len)

/-- The window is inside the address space when it is rounded, and not all of it. -/
def Fits (base len : ℕ) : Prop :=
  roundedEnd base len ≤ 2 ^ 64 ∧ roundedEnd base len - floorTo 4096 base < 2 ^ 64

instance (base len : ℕ) : Decidable (Fits base len) := inferInstanceAs (Decidable (_ ∧ _))

/-- The smallest interval of whole pages around a window. -/
structure Smallest (base len start size : ℕ) : Prop where
  aligned : 4096 ∣ start ∧ 4096 ∣ start + size
  contains : start ≤ base ∧ base + len ≤ start + size
  least : ∀ a b, 4096 ∣ a → 4096 ∣ b → a ≤ base → base + len ≤ b → a ≤ start ∧ start + size ≤ b

/-! ### Slots -/

section Slots

variable (s : State)

/-- Fills slots with registers as long as there are any. -/
def State.fillUpTo (l : List (Word × Word)) : State :=
  (l.take (devSlots - s.slot)).foldl State.fill s

@[simp] lemma slot_fill (r : Word × Word) : (s.fill r).slot = s.slot + 1 := rfl

lemma slot_foldl_fill (l : List (Word × Word)) :
    (l.foldl State.fill s).slot = s.slot + l.length := by
  induction l generalizing s with
  | nil => rfl
  | cons r l ih =>
    rw [List.foldl_cons, ih, List.length_cons, slot_fill]
    omega

lemma slot_fillUpTo (l : List (Word × Word)) :
    (s.fillUpTo l).slot = s.slot + min (devSlots - s.slot) l.length := by
  rw [State.fillUpTo, slot_foldl_fill, List.length_take]

@[simp] lemma fillUpTo_nil : s.fillUpTo [] = s := by
  rw [State.fillUpTo, List.take_nil]
  rfl

lemma fillUpTo_full (h : ¬ s.slot < devSlots) (l : List (Word × Word)) : s.fillUpTo l = s := by
  rw [State.fillUpTo, Nat.sub_eq_zero_of_le (Nat.not_lt.mp h), List.take_zero]
  rfl

lemma fillUpTo_append (l l' : List (Word × Word)) :
    s.fillUpTo (l ++ l') = (s.fillUpTo l).fillUpTo l' := by
  have hroom : devSlots - (s.fillUpTo l).slot = devSlots - s.slot - l.length := by
    rw [slot_fillUpTo]
    omega
  calc s.fillUpTo (l ++ l')
      = (l'.take (devSlots - s.slot - l.length)).foldl State.fill (s.fillUpTo l) := by
        rw [State.fillUpTo, List.take_append, List.foldl_append]
        rfl
    _ = (s.fillUpTo l).fillUpTo l' := by
        rw [← hroom]
        rfl

lemma fillUpTo_cons (h : s.slot < devSlots) (r : Word × Word) (l : List (Word × Word)) :
    s.fillUpTo (r :: l) = (s.fill r).fillUpTo l := by
  rw [State.fillUpTo, State.fillUpTo, slot_fill,
    show devSlots - s.slot = devSlots - (s.slot + 1) + 1 by omega, List.take_succ_cons,
    List.foldl_cons]

end Slots

/-! ### The loops -/

section Loops

variable {ν : Type} [DecidableEq ν] {t : Tree ν}

omit [DecidableEq ν] in
/-- **The loop over the registers** takes no more turns than there are slots. -/
lemma regLoop_eq (n : ν) {fuel idx : ℕ} {s : State} (hle : s.slot ≤ devSlots)
    (hfuel : devSlots < s.slot + fuel) :
    regLoop t n fuel idx s =
      some (s.fillUpTo (((t.regs n).drop idx).takeWhile fun r => r.1 ≠ fdtAddrTNone)) := by
  induction fuel generalizing idx s with
  | zero => omega
  | succ fuel ih =>
    rw [regLoop]
    by_cases hs : s.slot < devSlots
    swap
    · rw [if_neg hs, fillUpTo_full s hs]
    rw [if_pos hs]
    cases hreg : (t.regs n)[idx]? with
    | none =>
      have hdrop : (t.regs n).drop idx = [] :=
        List.drop_eq_nil_of_le (List.getElem?_eq_none_iff.mp hreg)
      simp [Tree.getAddrSizeIndex, hreg, hdrop]
    | some r =>
      obtain ⟨hlt, hget⟩ := List.getElem?_eq_some_iff.mp hreg
      have hdrop : (t.regs n).drop idx = r :: (t.regs n).drop (idx + 1) := by
        rw [List.drop_eq_getElem_cons hlt, hget]
      have hread : t.getAddrSizeIndex n idx = r := by
        rw [Tree.getAddrSizeIndex, hreg]
        rfl
      simp only [hread]
      by_cases hnone : r.1 = fdtAddrTNone
      · rw [if_pos hnone, hdrop, List.takeWhile_cons_of_neg (by simpa using hnone), fillUpTo_nil]
      · rw [if_neg hnone, hdrop, List.takeWhile_cons_of_pos (by simpa using hnone),
          fillUpTo_cons s hs]
        exact ih (by rw [slot_fill]; omega) (by rw [slot_fill]; omega)

/-- The nodes after one of the nodes. -/
lemma after_of_split {before rest : List ν} {n : ν} (h : t.nodes = before ++ n :: rest) :
    t.after (some n) = rest := by
  have hnot : ∀ x ∈ before, x ≠ n := by
    rintro x hx rfl
    have hnodup := t.nodup
    rw [h] at hnodup
    exact (List.nodup_append.mp hnodup).2.2 x hx x (by simp) rfl
  rw [Tree.after, h, List.dropWhile_append_of_pos (by simpa using hnot),
    List.dropWhile_cons_of_neg (by simp), List.tail_cons]

/-- The registers that are read for a compatible, of some nodes. -/
def Tree.windowsOf (t : Tree ν) (compat : String) (nodes : List ν) : List (Word × Word) :=
  (nodes.filter fun n => t.compatible n compat && t.enabled n).flatMap t.windows

/-- **The loop over the nodes.** -/
lemma nodeLoop_eq {regFuel : ℕ} (hreg : devSlots < regFuel) (compat : String) {fuel : ℕ}
    {node : Option ν} {s : State} (hsuffix : t.after node <:+ t.nodes)
    (hle : s.slot ≤ devSlots) (hfuel : (t.after node).length < fuel) :
    nodeLoop t regFuel compat fuel node s =
      some (s.fillUpTo (t.windowsOf compat (t.after node))) := by
  induction fuel generalizing node s with
  | zero => omega
  | succ fuel ih =>
    rw [nodeLoop]
    by_cases hs : s.slot < devSlots
    swap
    · rw [if_neg hs, fillUpTo_full s hs]
    rw [if_pos hs]
    cases hfind : t.byCompatible node compat with
    | none =>
      have hnone := List.find?_eq_none.mp hfind
      have hfilter : (t.after node).filter (fun n => t.compatible n compat && t.enabled n) = [] :=
        List.filter_eq_nil_iff.mpr fun n hn => by simp [hnone n hn]
      simp [Tree.windowsOf, hfilter]
    | some n =>
      obtain ⟨hcompat, skipped, rest, hsplit, hskip⟩ := List.find?_eq_some_iff_append.mp hfind
      obtain ⟨before, hbefore⟩ := hsuffix
      have hnodes : t.nodes = before ++ skipped ++ n :: rest := by
        rw [← hbefore, hsplit, List.append_assoc]
      have hrest : t.after (some n) = rest := after_of_split hnodes
      have hsuffix' : t.after (some n) <:+ t.nodes :=
        ⟨before ++ skipped ++ [n], by rw [hrest, ← hbefore, hsplit]; simp⟩
      have hskipped : skipped.filter (fun n => t.compatible n compat && t.enabled n) = [] :=
        List.filter_eq_nil_iff.mpr fun x hx => by
          have := hskip x hx
          simp_all
      have hlen : (t.after (some n)).length < fuel := by
        rw [hsplit, List.length_append, List.length_cons] at hfuel
        rw [hrest]
        omega
      have hwindows : t.windowsOf compat (t.after node) =
          (if t.enabled n then t.windows n else []) ++ t.windowsOf compat rest := by
        rw [Tree.windowsOf, hsplit, List.filter_append, hskipped, List.nil_append,
          List.filter_cons, hcompat]
        cases t.enabled n <;> simp [Tree.windowsOf]
      simp only
      cases hen : t.enabled n with
      | false =>
        simp only [hwindows, hen, Bool.not_false, if_true]
        rw [ih hsuffix' hle hlen, hrest]
        simp
      | true =>
        have hturn : regLoop t n regFuel 0 s = some (s.fillUpTo (t.windows n)) :=
          regLoop_eq n hle (by omega)
        have hle' : (s.fillUpTo (t.windows n)).slot ≤ devSlots := by
          rw [slot_fillUpTo]
          omega
        simp only [hwindows, hen, Bool.not_true, Bool.false_eq_true, if_false, if_true]
        rw [hturn, Option.bind_some, ih hsuffix' hle' hlen, hrest, fillUpTo_append]

/-- **All loops**: they end, and fill the slots with the registers in order. -/
lemma build_eq {fuel : ℕ} (hslots : devSlots < fuel) (hnodes : t.nodes.length < fuel) :
    buildStage2DevMap t fuel = some (State.fillUpTo {}
      (compats.flatMap fun compat => t.windowsOf compat t.nodes)) := by
  have hfold : ∀ (l : List String) (s : State), s.slot ≤ devSlots →
      l.foldlM (fun s compat => nodeLoop t fuel compat fuel none s) s =
        some (s.fillUpTo (l.flatMap fun compat => t.windowsOf compat t.nodes)) := by
    intro l
    induction l with
    | nil =>
      intro s _
      rw [List.flatMap_nil, fillUpTo_nil]
      rfl
    | cons compat l ih =>
      intro s hs
      have hturn : nodeLoop t fuel compat fuel none s =
          some (s.fillUpTo (t.windowsOf compat t.nodes)) :=
        nodeLoop_eq hslots compat (List.suffix_refl _) hs hnodes
      have hs' : (s.fillUpTo (t.windowsOf compat t.nodes)).slot ≤ devSlots := by
        rw [slot_fillUpTo]
        omega
      rw [List.foldlM_cons, hturn, List.flatMap_cons, fillUpTo_append]
      exact ih _ hs'
  exact hfold compats {} (Nat.zero_le _)

end Loops

/-! ### Where the slots come from -/

section Sources

variable {ν : Type} {t : Tree ν}

/-- The windows of some nodes for a compatible, in the order in which they are read. -/
def Tree.sourcesOf (t : Tree ν) (compat : String) (nodes : List ν) :
    List (Source ν × (Word × Word)) :=
  (nodes.filter fun n => t.compatible n compat && t.enabled n).flatMap fun n =>
    (t.windows n).mapIdx fun i r => (⟨compat, n, i⟩, r)

/-- All of them. -/
def Tree.sources (t : Tree ν) : List (Source ν × (Word × Word)) :=
  compats.flatMap fun compat => t.sourcesOf compat t.nodes

lemma map_sources : t.sources.map Prod.snd =
    compats.flatMap fun compat => t.windowsOf compat t.nodes := by
  have hnode : ∀ compat n, ((t.windows n).mapIdx fun i r =>
      ((⟨compat, n, i⟩, r) : Source ν × (Word × Word))).map Prod.snd = t.windows n := by
    intro compat n
    refine List.ext_getElem? fun i => ?_
    rw [List.getElem?_map, List.getElem?_mapIdx]
    cases (t.windows n)[i]? <;> rfl
  simp only [Tree.sources, Tree.sourcesOf, Tree.windowsOf, List.map_flatMap, hnode]

lemma mem_sources {src : Source ν} {reg : Word × Word} :
    (src, reg) ∈ t.sources ↔ Mapped t src reg := by
  simp only [Tree.sources, Tree.sourcesOf, List.mem_flatMap, List.mem_filter, List.mem_mapIdx,
    Bool.and_eq_true]
  constructor
  · rintro ⟨compat, hcompat, n, ⟨hn, hc, he⟩, i, hi, heq⟩
    obtain ⟨rfl, rfl⟩ := Prod.mk.inj heq
    exact ⟨hcompat, hn, hc, he, List.getElem?_eq_getElem hi⟩
  · rintro ⟨hcompat, hn, hc, he, hreg⟩
    obtain ⟨hi, hget⟩ := List.getElem?_eq_some_iff.mp hreg
    exact ⟨src.compat, hcompat, src.node, ⟨hn, hc, he⟩, src.idx, hi, by rw [hget]⟩

lemma nodup_sources : (t.sources.map Prod.fst).Nodup := by
  rw [Tree.sources, List.map_flatMap]
  refine List.nodup_flatMap.mpr ⟨fun compat _ => ?_, ?_⟩
  · rw [Tree.sourcesOf, List.map_flatMap]
    refine List.nodup_flatMap.mpr ⟨fun n _ => ?_, ?_⟩
    · rw [List.nodup_iff_getElem?_ne_getElem?]
      intro i j hij hj
      simp only [List.length_map, List.length_mapIdx] at hj
      simp only [List.getElem?_map, List.getElem?_mapIdx]
      rw [List.getElem?_eq_getElem hj, List.getElem?_eq_getElem (by omega)]
      simp only [Option.map_some, ne_eq, Option.some.injEq, Source.mk.injEq, true_and]
      omega
    · refine (t.nodup.filter _).imp fun {n n'} hne => ?_
      simp only [Function.onFun, List.Disjoint, List.mem_map, List.mem_mapIdx]
      rintro src ⟨_, ⟨i, _, rfl⟩, rfl⟩ ⟨_, ⟨j, _, rfl⟩, heq⟩
      exact hne (Source.mk.inj heq).2.1.symm
  · have hcompats : compats.Nodup := by decide
    refine hcompats.imp fun {c c'} hne => ?_
    simp only [Function.onFun, List.Disjoint, List.mem_map, Tree.sourcesOf, List.mem_flatMap,
      List.mem_mapIdx]
    rintro src ⟨_, ⟨n, _, i, _, rfl⟩, rfl⟩ ⟨_, ⟨n', _, j, _, rfl⟩, heq⟩
    exact hne (Source.mk.inj heq).1.symm

end Sources

/-! ### One slot -/

/-- What is written for a register. -/
def writeOf (slot : ℕ) (reg : Word × Word) : Write :=
  ⟨slot, alignDown 12 reg.1, alignDown 12 reg.1, alignUp 12 (reg.2 + (reg.1 - alignDown 12 reg.1))⟩

lemma writes_foldl_fill (s : State) (l : List (Word × Word)) :
    (l.foldl State.fill s).writes = s.writes ++ l.mapIdx fun i r => writeOf (s.slot + i) r := by
  induction l generalizing s with
  | nil => simp
  | cons r l ih =>
    have hfill : (s.fill r).writes = s.writes ++ [writeOf s.slot r] := rfl
    rw [List.foldl_cons, ih, List.mapIdx_cons, hfill, slot_fill, List.append_assoc]
    simp only [Nat.add_zero, List.singleton_append, Nat.add_comm, Nat.add_left_comm]

/-- Rounding the size, with what the base loses, is rounding the end. -/
lemma toNat_size {reg : Word × Word} (h : Fits reg.1.toNat reg.2.toNat) (slot : ℕ) :
    (writeOf slot reg).virt.toNat = floorTo 4096 reg.1.toNat ∧
    (writeOf slot reg).virt.toNat + (writeOf slot reg).size.toNat =
      roundedEnd reg.1.toNat reg.2.toNat := by
  obtain ⟨base, size⟩ := reg
  obtain ⟨-, hsize⟩ := h
  simp only [roundedEnd] at hsize ⊢
  have hdown : (alignDown 12 base).toNat = floorTo 4096 base.toNat := toNat_alignDown 12 base
  have hfloor := floorTo_le 4096 base.toNat
  have hend := le_ceilTo (c := 4096) (by decide) (base.toNat + size.toNat)
  have hoff : (base - alignDown 12 base).toNat = base.toNat - floorTo 4096 base.toNat := by
    rw [BitVec.toNat_sub_of_le (by rw [BitVec.le_def, hdown]; exact hfloor), hdown]
  have hsum : (size + (base - alignDown 12 base)).toNat =
      base.toNat + size.toNat - floorTo 4096 base.toNat := by
    rw [BitVec.toNat_add, hoff]
    omega
  have hceil : ceilTo (2 ^ 12) (size + (base - alignDown 12 base)).toNat =
      ceilTo 4096 (base.toNat + size.toNat) - floorTo 4096 base.toNat := by
    rw [hsum]
    exact ceilTo_sub_of_dvd (dvd_floorTo 4096 base.toNat) (by omega)
  have hword : ceilTo (2 ^ 12) (size + (base - alignDown 12 base)).toNat < 2 ^ 64 := by
    rw [hceil]
    exact hsize
  have hup := toNat_alignUp (by decide) hword
  refine ⟨hdown, ?_⟩
  show (alignDown 12 base).toNat + (alignUp 12 (size + (base - alignDown 12 base))).toNat = _
  rw [hup, hceil, hdown]
  omega

/-- **A slot is the smallest interval** around its window. -/
lemma smallest_writeOf {reg : Word × Word} (h : Fits reg.1.toNat reg.2.toNat) (slot : ℕ) :
    Smallest reg.1.toNat reg.2.toNat (writeOf slot reg).virt.toNat
      (writeOf slot reg).size.toNat := by
  obtain ⟨hvirt, hend⟩ := toNat_size h slot
  refine ⟨⟨?_, ?_⟩, ⟨?_, ?_⟩, fun a b ha hb hab hbe => ⟨?_, ?_⟩⟩
  · rw [hvirt]
    exact dvd_floorTo _ _
  · rw [hend]
    exact dvd_ceilTo _ _
  · rw [hvirt]
    exact floorTo_le _ _
  · rw [hend]
    exact le_ceilTo (by decide) _
  · rw [hvirt]
    exact le_floorTo ha hab
  · rw [hend]
    exact ceilTo_le (by decide) hb hbe

/-! ### The map -/

section Map

variable {ν : Type} [DecidableEq ν] (t : Tree ν)

/-- The windows that get a slot. -/
def Tree.chosen : List (Source ν × (Word × Word)) := t.sources.take devSlots

/-- What is written in the end. -/
def Tree.devMap : State := State.fillUpTo {} (t.sources.map Prod.snd)

omit [DecidableEq ν] in
lemma writes_devMap : t.devMap.writes = (t.chosen.map Prod.snd).mapIdx writeOf := by
  have htake : (t.sources.map Prod.snd).take (devSlots - 0) = t.chosen.map Prod.snd := by
    rw [Tree.chosen, List.map_take]
    rfl
  have hwrites := writes_foldl_fill {} (t.chosen.map Prod.snd)
  rw [Tree.devMap, State.fillUpTo, htake, hwrites]
  simp only [List.nil_append, Nat.zero_add]

omit [DecidableEq ν] in
lemma ncard_sources : {src | ∃ reg, Mapped t src reg}.ncard = t.sources.length := by
  classical
  have hset : {src | ∃ reg, Mapped t src reg} = ((t.sources.map Prod.fst).toFinset : Set _) := by
    ext src
    simp [mem_sources]
  rw [hset, Set.ncard_coe_finset, List.toFinset_card_of_nodup nodup_sources, List.length_map]

omit [DecidableEq ν] in
lemma slots_devMap : t.devMap.writes.map Write.slot = List.range t.chosen.length := by
  rw [writes_devMap]
  refine List.ext_getElem (by simp) fun i hi hi' => ?_
  rw [List.getElem_map, List.getElem_mapIdx, List.getElem_range]
  rfl

end Map

/-- **The device slots are the reviewed windows.** For every tree whose windows fit: the loops
end with one result, each of the 24 device slots is written at most once and no other slot is,
and the slots in order come from different windows, each mapped to itself as the smallest
interval of pages around it; if there are no more than 24 windows, all of them are mapped. -/
theorem devMap_of_fits {ν : Type} [DecidableEq ν] (t : Tree ν)
    (hfit : ∀ src reg, Mapped t src reg → Fits reg.1.toNat reg.2.toNat) :
    ∃ s : State, (∀ fuel, max 24 t.nodes.length < fuel → buildStage2DevMap t fuel = some s) ∧
      (∀ w ∈ s.writes, w.slot < 24) ∧ (s.writes.map Write.slot).Nodup ∧
      ∃ sources : List (Source ν), sources.Nodup ∧
        List.Forall₂ (fun w src => w.virt = w.phys ∧ ∃ reg, Mapped t src reg ∧
          Smallest reg.1.toNat reg.2.toNat w.virt.toNat w.size.toNat) s.writes sources ∧
        ({src | ∃ reg, Mapped t src reg}.ncard ≤ 24 →
          ∀ src reg, Mapped t src reg → src ∈ sources) := by
  refine ⟨t.devMap, fun fuel hfuel => ?_, ?_, ?_, t.chosen.map Prod.fst, ?_, ?_, ?_⟩
  · have hslots : devSlots < fuel := by
      rw [devSlots]
      omega
    rw [build_eq hslots (by omega), ← map_sources]
    rfl
  · intro w hw
    have hslot := List.mem_map_of_mem (f := Write.slot) hw
    rw [slots_devMap, List.mem_range] at hslot
    have hlen : t.chosen.length ≤ 24 := List.length_take_le _ _
    omega
  · rw [slots_devMap]
    exact List.nodup_range
  · exact nodup_sources.sublist ((List.take_sublist _ _).map _)
  · rw [writes_devMap, List.forall₂_iff_get]
    refine ⟨by simp, fun i hi hi' => ?_⟩
    have hi'' : i < t.chosen.length := by simpa using hi'
    have hmem := mem_sources.mp (List.mem_of_mem_take (List.getElem_mem hi''))
    simp only [List.get_eq_getElem, List.getElem_mapIdx, List.getElem_map]
    exact ⟨rfl, _, hmem, smallest_writeOf (hfit _ _ hmem) i⟩
  · intro hle src reg hsrc
    rw [ncard_sources] at hle
    have hall : t.chosen = t.sources := List.take_of_length_le hle
    rw [hall]
    exact List.mem_map_of_mem (mem_sources.mpr hsrc)

/-- The regions of a PMGR, of a DART with two registers, and of two USB cores, of which the first
is disabled. -/
def smallBoard : Tree (Fin 4) where
  nodes := [0, 1, 2, 3]
  nodup := by decide
  compatible := fun n compat =>
    compat = ["apple,t8110-dart", "snps,dwc3", "apple,t8103-pmgr", "snps,dwc3"].getD n ""
  enabled := fun n => n ≠ 1
  regs := fun n =>
    [[(0x1004, 0x1ff0), (0x8000, 0x4000)], [(0x20000, 0x1000)], [(0x30ffc, 8)],
      [(0x40000, 0x8000), (-1, 0)]].getD n []

/-- Four windows are mapped, two of them over parts of pages. -/
theorem devMap_of_smallBoard :
    (∀ src reg, Mapped smallBoard src reg → Fits reg.1.toNat reg.2.toNat) ∧
    ∃ s, buildStage2DevMap smallBoard 25 = some s ∧
      s.writes.map (fun w => (w.slot, w.virt, w.size)) =
        [(0, 0x30000, 0x2000), (1, 0x1000, 0x2000), (2, 0x8000, 0x4000), (3, 0x40000, 0x8000)] ∧
      (∀ w ∈ s.writes, w.slot < 24) := by
  have hfit : ∀ src reg, Mapped smallBoard src reg → Fits reg.1.toNat reg.2.toNat := by
    have hall (n : Fin 4) :
        (smallBoard.windows n).all (fun reg => Fits reg.1.toNat reg.2.toNat) = true := by
      revert n
      decide +kernel
    intro src reg h
    exact of_decide_eq_true (List.all_eq_true.mp (hall src.node) reg (List.mem_of_getElem? h.reg))
  obtain ⟨s, hs, hslots, -⟩ := devMap_of_fits _ hfit
  have hbuild := hs 25 (by decide)
  refine ⟨hfit, s, hbuild, ?_, hslots⟩
  have hrun : (buildStage2DevMap smallBoard 25).map
      (fun s => s.writes.map fun w => (w.slot, w.virt, w.size)) =
        some [(0, 0x30000, 0x2000), (1, 0x1000, 0x2000), (2, 0x8000, 0x4000),
          (3, 0x40000, 0x8000)] := by
    decide +kernel
  rw [hbuild] at hrun
  exact Option.some.inj hrun

/-- A tree with one enabled USB core and its registers. -/
def usbTree (regs : List (Word × Word)) : Tree Unit where
  nodes := [()]
  nodup := List.nodup_singleton ()
  compatible := fun _ compat => compat = "snps,dwc3"
  enabled := fun _ => true
  regs := fun _ => regs

/-- **The whole address space**: the window does not exceed it when it is rounded, but its size
wraps, and the slot that is filled maps nothing. -/
theorem devMap_of_whole_space :
    (∀ reg ∈ (usbTree [(0, -1)]).regs (), roundedEnd reg.1.toNat reg.2.toNat ≤ 2 ^ 64) ∧
    buildStage2DevMap (usbTree [(0, -1)]) 25 = some ⟨1, [⟨0, 0, 0, 0⟩]⟩ ∧
    ¬ ∃ src reg, Mapped (usbTree [(0, -1)]) src reg ∧
      Smallest reg.1.toNat reg.2.toNat (0 : Word).toNat (0 : Word).toNat := by
  refine ⟨?_, by decide, ?_⟩
  · intro reg hreg
    rw [List.mem_singleton.mp hreg]
    unfold roundedEnd ceilTo
    decide +kernel
  rintro ⟨src, reg, h, hsmallest⟩
  have hmem : reg ∈ [((0 : Word), (-1 : Word))] :=
    List.takeWhile_subset _ (List.mem_of_getElem? h.reg)
  rw [List.mem_singleton.mp hmem] at hsmallest
  exact absurd hsmallest.contains.2 (by decide)

end Wallace.Stage2Map
