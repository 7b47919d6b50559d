import Wallace.Runs
import Wallace.SartModel

/-!
The reference accounting of the power-managed SART.

Between calls there is one reference for each used entry; in the course of a call there is
one more. What each function does with the two is said once, and the loops keep it.
-/

namespace Wallace.SartPower

open Wallace.Runs Wallace.SartModel

variable {d d' : Dev} {i : Index} {l : List Index}

/-! ### The properties -/

/-- What is never to happen: a put without a user, an access to an entry of a SART that is not
known to be active, a write to an entry of the boot loader, a request to go inactive while an
entry is in use. -/
def Safe : Event → Prop
  | .readEntry _ users active => 0 < users ∧ active = true
  | .writeEntry _ users active isProtected => 0 < users ∧ active = true ∧ isProtected = false
  | .put users => 0 < users
  | .askInactive used => used = ∅

/-- Everything so far was safe. -/
def Clean (hw : Hw) : Prop := ∀ e ∈ hw.log, Safe e

/-- Between calls: one reference for each used entry. -/
structure Settled (d : Dev) : Prop where
  users : d.sart.powerUsers = d.sart.usedEntries.card
  active : 0 < d.sart.powerUsers → d.hw.active = true
  clean : Clean d.hw

/-- In a call: one reference more. -/
structure Held (d : Dev) : Prop where
  users : d.sart.powerUsers = d.sart.usedEntries.card + 1
  active : d.hw.active = true
  clean : Clean d.hw

lemma clean_note {e : Event} (h : Clean d.hw) (he : Safe e) : Clean (d.note e).hw := by
  intro e' hm
  rcases List.mem_append.mp hm with hm | hm
  · exact h e' hm
  · rw [List.mem_singleton.mp hm]
    exact he

/-! ### Power -/

/-- A get that succeeds adds a reference and changes nothing else of the driver's data. -/
lemma sartPowerGet_none {polled : Bool} (h : Settled d)
    (hg : sartPowerGet polled d = (none, d')) :
    Held d' ∧ d'.sart = { d.sart with powerUsers := d.sart.powerUsers + 1 } ∧
      d'.hw.regs = d.hw.regs := by
  unfold sartPowerGet at hg
  split_ifs at hg with hz hp
  · cases hg
    have hu := h.users
    exact ⟨⟨by simp only; omega, rfl, h.clean⟩, by simp [hz], rfl⟩
  · cases hg
  · cases hg
    have hu := h.users
    exact ⟨⟨by simp only; omega, h.active (by omega), h.clean⟩, rfl, rfl⟩

/-- A get that fails leaves the driver's data and the entries alone. -/
lemma sartPowerGet_some {polled : Bool} {e : Err} (h : Settled d)
    (hg : sartPowerGet polled d = (some e, d')) :
    Settled d' ∧ d'.sart = d.sart ∧ d'.hw.regs = d.hw.regs := by
  unfold sartPowerGet at hg
  split_ifs at hg with hz hp
  · cases hg
  · cases hg
    exact ⟨⟨h.users, fun hpos => absurd hz (Nat.pos_iff_ne_zero.mp hpos), h.clean⟩, rfl, rfl⟩
  · cases hg

/-- A put takes the call's reference back. -/
lemma settled_put (h : Held d) : Settled (sartPowerPut d) := by
  have hu := h.users
  have hput : Clean (d.note (.put d.sart.powerUsers)).hw :=
    clean_note h.clean (by simp only [Safe]; omega)
  unfold sartPowerPut
  simp only
  split_ifs with hz hlast
  · simp only [Dev.note] at hz
    omega
  · simp only [Dev.note] at hz hlast
    have hempty : d.sart.usedEntries = ∅ := Finset.card_eq_zero.mp (by omega)
    refine ⟨?_, fun hpos => ?_, ?_⟩
    · simp [Dev.note, hempty, hlast]
    · simp only [Dev.note] at hpos
      omega
    · exact clean_note (d := { d.note (.put d.sart.powerUsers) with
        sart.powerUsers := d.sart.powerUsers - 1 }) hput hempty
  · simp only [Dev.note] at hz hlast
    exact ⟨by simp only [Dev.note]; omega, fun _ => h.active, hput⟩

/-- A put of the reference of an entry that is no longer used leaves that of the call. -/
lemma held_put (hu : d.sart.powerUsers = d.sart.usedEntries.card + 2)
    (ha : d.hw.active = true) (hc : Clean d.hw) : Held (sartPowerPut d) := by
  have hput : Clean (d.note (.put d.sart.powerUsers)).hw :=
    clean_note hc (by simp only [Safe]; omega)
  unfold sartPowerPut
  simp only
  split_ifs with hz hlast
  · simp only [Dev.note] at hz
    omega
  · simp only [Dev.note] at hlast
    omega
  · exact ⟨by simp only [Dev.note]; omega, ha, hput⟩

/-- A put changes one number of the driver's data. -/
lemma put_sart (d : Dev) : (sartPowerPut d).sart =
    { d.sart with powerUsers := d.sart.powerUsers - 1 } := by
  unfold sartPowerPut
  simp only
  split_ifs with hz
  · simp only [Dev.note] at hz ⊢
    rw [hz]
    cases hs : d.sart
    simp_all
  · rfl
  · rfl

lemma put_regs (d : Dev) : (sartPowerPut d).hw.regs = d.hw.regs := by
  unfold sartPowerPut
  simp only
  split_ifs <;> rfl

/-! ### Entries -/

lemma held_get (h : Held d) : Held (sart3GetEntry i d).2 := by
  have hu := h.users
  exact ⟨h.users, h.active, clean_note h.clean ⟨by omega, h.active⟩⟩

/-- An entry that is not protected may be written while there is a user. -/
lemma clean_set {flags : BitVec 8} {paddr size : BitVec 64} (hu : 0 < d.sart.powerUsers)
    (ha : d.hw.active = true) (hp : i ∉ d.sart.protectedEntries) (hc : Clean d.hw) :
    Clean (sart3SetEntry i flags paddr size d).hw :=
  clean_note hc ⟨hu, ha, by simp [hp]⟩

lemma held_set (h : Held d) (hp : i ∉ d.sart.protectedEntries) :
    Held (sart3SetEntry i 0 0 0 d) := by
  have hu := h.users
  exact ⟨h.users, h.active, clean_set (by omega) h.active hp h.clean⟩

/-- A region that is refused changes nothing; one that is not writes its entry. -/
lemma sartSetEntry_cases (flags : BitVec 8) (paddr size : BitVec 64) :
    sartSetEntry i flags paddr size d = (some .einval, d) ∨
      sartSetEntry i flags paddr size d =
        (none, sart3SetEntry i flags (paddr >>> 12) (size >>> 12) d) := by
  unfold sartSetEntry
  split_ifs
  · exact .inl rfl
  · exact .inl rfl
  · exact .inl rfl
  · exact .inr rfl

/-! ### The loops -/

lemma held_scanLoop (h : Held d) : Held (scanLoop l d) := by
  induction l generalizing d with
  | nil => exact h
  | cons i l ih =>
    unfold scanLoop
    simp only
    split
    · exact ih (held_get h)
    · have hg := held_get (i := i) h
      exact ih ⟨hg.users, hg.active, hg.clean⟩

/-- `add` ends with one reference for each used entry, and with an error only if everything
is as it was before the get. -/
lemma addLoop_spec {paddr size : BitVec 64} (h : Held d) :
    Settled (addLoop paddr size l d).2 ∧
      ((addLoop paddr size l d).1 ≠ none →
        (addLoop paddr size l d).2.sart =
          { d.sart with powerUsers := d.sart.powerUsers - 1 } ∧
        (addLoop paddr size l d).2.hw.regs = d.hw.regs) := by
  induction l generalizing d with
  | nil => exact ⟨settled_put h, fun _ => ⟨put_sart d, put_regs d⟩⟩
  | cons i l ih =>
    have hu := h.users
    unfold addLoop
    split_ifs with hp hi
    · exact ih h
    · exact ih h
    · have hcard := Finset.card_insert_of_notMem hi
      simp only
      rcases sartSetEntry_cases (i := i)
        (d := { d with sart.usedEntries := insert i d.sart.usedEntries }) flagsAllow paddr size
        with e | e
      · rw [e]
        simp only [Finset.erase_insert hi]
        exact ⟨settled_put h, fun _ => ⟨put_sart d, put_regs d⟩⟩
      · rw [e]
        refine ⟨⟨?_, fun _ => h.active, ?_⟩, fun hne => absurd rfl hne⟩
        · simp only [sart3SetEntry, Dev.note]
          omega
        · exact clean_set (d := { d with sart.usedEntries := insert i d.sart.usedEntries })
            (by simp only; omega) h.active hp h.clean

/-- The entry that `remove` finds: the first that is not protected and reads back as the
region. -/
def firstMatch (s : Sart) (regs : Index → Entry) (paddr size : BitVec 64) :
    List Index → Option Index :=
  List.find? fun i => i ∉ s.protectedEntries ∧ (regs i).addr = paddr ∧ (regs i).len = size

lemma firstMatch_skip {s : Sart} {regs : Index → Entry} {paddr size : BitVec 64}
    (h : ¬(i ∉ s.protectedEntries ∧ (regs i).addr = paddr ∧ (regs i).len = size)) :
    firstMatch s regs paddr size (i :: l) = firstMatch s regs paddr size l := by
  unfold firstMatch
  rw [List.find?_cons_of_neg]
  simpa using h

lemma firstMatch_here {s : Sart} {regs : Index → Entry} {paddr size : BitVec 64}
    (h : i ∉ s.protectedEntries ∧ (regs i).addr = paddr ∧ (regs i).len = size) :
    firstMatch s regs paddr size (i :: l) = some i := by
  unfold firstMatch
  rw [List.find?_cons_of_pos]
  simpa using h

/-- `remove` ends with one reference for each used entry if the entry it finds is used, and
with an error only if everything is as it was before the get. -/
lemma removeLoop_spec {paddr size : BitVec 64} (h : Held d) :
    ((∀ i ∈ firstMatch d.sart d.hw.regs paddr size l, i ∈ d.sart.usedEntries) →
      Settled (removeLoop paddr size l d).2) ∧
      ((removeLoop paddr size l d).1 ≠ none →
        (removeLoop paddr size l d).2.sart =
          { d.sart with powerUsers := d.sart.powerUsers - 1 } ∧
        (removeLoop paddr size l d).2.hw.regs = d.hw.regs) := by
  induction l generalizing d with
  | nil => exact ⟨fun _ => settled_put h, fun _ => ⟨put_sart d, put_regs d⟩⟩
  | cons i l ih =>
    have hg := held_get (i := i) h
    unfold removeLoop
    simp only
    split_ifs with hp hne
    · obtain ⟨hs, he⟩ := ih h
      refine ⟨fun hm => hs ?_, he⟩
      rwa [firstMatch_skip (fun hc => hc.1 hp)] at hm
    · obtain ⟨hs, he⟩ := ih hg
      refine ⟨fun hm => hs ?_, he⟩
      rw [firstMatch_skip (fun hc => hne.elim (· hc.2.1) (· hc.2.2))] at hm
      exact hm
    · refine ⟨fun hm => ?_, fun hn => absurd rfl hn⟩
      push Not at hne
      have hused : i ∈ d.sart.usedEntries := hm i (firstMatch_here ⟨hp, hne⟩)
      have hcard := Finset.card_erase_add_one hused
      have hset := held_set (i := i) hg hp
      refine settled_put (held_put ?_ hset.active hset.clean)
      have hu := hset.users
      simp only [sart3SetEntry, sart3GetEntry, Dev.note] at hu ⊢
      omega

lemma held_clearLoop (h : Held d) : Held (clearLoop l d) := by
  induction l generalizing d with
  | nil => exact h
  | cons i l ih =>
    unfold clearLoop
    split_ifs with hp
    · exact ih h
    · exact ih (held_set h hp)

lemma held_dropLoop (h : Held d) : Held (dropLoop l d) := by
  induction l generalizing d with
  | nil => exact h
  | cons i l ih =>
    unfold dropLoop
    split_ifs with hi
    · have hcard := Finset.card_erase_add_one hi
      have hu := h.users
      exact ih (held_put (by simp only; omega) h.active h.clean)
    · exact ih h

/-! ### The calls -/

lemma settled_fresh {hw : Hw} (h : Clean hw) : Settled ⟨hw, {}⟩ :=
  ⟨rfl, fun hpos => absurd hpos (Nat.lt_irrefl 0), h⟩

/-- What holds between calls, of a device that is bound or not yet. -/
def SettledSys (y : Sys) : Prop :=
  Clean y.hw ∧ ∀ s, y.sart = some s → Settled ⟨y.hw, s⟩

/-- What a call that returns an error leaves as it was. -/
def Unchanged (y y' : Sys) : Prop := y'.sart = y.sart ∧ y'.hw.regs = y.hw.regs

/-- The entry that a removal finds, if its lookup is powered, is a used one. -/
def FindsUsed (y : Sys) : Call → Prop
  | .remove paddr size polled => ∀ s ∈ y.sart, (0 < s.powerUsers ∨ polled = true) →
      ∀ i ∈ firstMatch s y.hw.regs paddr size indices, i ∈ s.usedEntries
  | _ => True

/-- The data after a call's reference is given back is the data before the call. -/
lemma sart_restored {s s₁ s₂ : Sart} (h₁ : s₁ = { s with powerUsers := s.powerUsers + 1 })
    (h₂ : s₂ = { s₁ with powerUsers := s₁.powerUsers - 1 }) : s₂ = s := by
  subst h₁
  subst h₂
  rfl

lemma probe_spec {y : Sys} (h : SettledSys y) (hn : y.sart = none) (setup : Option Err)
    (polled : Bool) :
    let r := appleSartProbe setup polled y.hw
    SettledSys ⟨r.2.1, r.2.2⟩ ∧ (r.1 ≠ none → Unchanged y ⟨r.2.1, r.2.2⟩) := by
  have hbase := settled_fresh h.1
  unfold appleSartProbe
  cases setup with
  | some e => exact ⟨⟨h.1, by simp⟩, fun _ => ⟨hn.symm, rfl⟩⟩
  | none =>
    cases hg : sartPowerGet polled ⟨y.hw, {}⟩ with
    | mk r d =>
      cases r with
      | some e =>
        obtain ⟨hs, -, hregs⟩ := sartPowerGet_some hbase hg
        exact ⟨⟨hs.clean, by simp⟩, fun _ => ⟨hn.symm, hregs⟩⟩
      | none =>
        have hheld := (sartPowerGet_none hbase hg).1
        have hset := settled_put (held_scanLoop (l := indices) hheld)
        refine ⟨⟨hset.clean, fun s hs => ?_⟩, fun hne => absurd rfl hne⟩
        cases hs
        exact hset

lemma add_spec (h : Settled d) (paddr size : BitVec 64) (polled : Bool) :
    let r := appleSartAddAllowedRegion paddr size polled d
    Settled r.2 ∧ (r.1 ≠ none → r.2.sart = d.sart ∧ r.2.hw.regs = d.hw.regs) := by
  unfold appleSartAddAllowedRegion
  cases hg : sartPowerGet polled d with
  | mk r d₁ =>
    cases r with
    | some e =>
      obtain ⟨hs, hsart, hregs⟩ := sartPowerGet_some h hg
      exact ⟨hs, fun _ => ⟨hsart, hregs⟩⟩
    | none =>
      obtain ⟨hheld, hsart, hregs⟩ := sartPowerGet_none h hg
      obtain ⟨hset, herr⟩ := addLoop_spec (l := indices) hheld
      refine ⟨hset, fun hne => ?_⟩
      obtain ⟨hs, hr⟩ := herr hne
      exact ⟨sart_restored hsart hs, hr.trans hregs⟩

lemma remove_spec (h : Settled d) (paddr size : BitVec 64) (polled : Bool) :
    let r := appleSartRemoveAllowedRegion paddr size polled d
    (((0 < d.sart.powerUsers ∨ polled = true) →
        ∀ i ∈ firstMatch d.sart d.hw.regs paddr size indices, i ∈ d.sart.usedEntries) →
      Settled r.2) ∧ (r.1 ≠ none → r.2.sart = d.sart ∧ r.2.hw.regs = d.hw.regs) := by
  unfold appleSartRemoveAllowedRegion
  cases hg : sartPowerGet polled d with
  | mk r d₁ =>
    cases r with
    | some e =>
      obtain ⟨hs, hsart, hregs⟩ := sartPowerGet_some h hg
      exact ⟨fun _ => hs, fun _ => ⟨hsart, hregs⟩⟩
    | none =>
      obtain ⟨hheld, hsart, hregs⟩ := sartPowerGet_none h hg
      obtain ⟨hset, herr⟩ := removeLoop_spec (l := indices) hheld
      refine ⟨fun hm => hset ?_, fun hne => ?_⟩
      · have hpowered : 0 < d.sart.powerUsers ∨ polled = true := by
          unfold sartPowerGet at hg
          split_ifs at hg with hz hp
          · exact .inr hp
          · cases hg
          · exact .inl (Nat.pos_of_ne_zero hz)
        rw [hsart, hregs]
        exact hm hpowered
      · obtain ⟨hs, hr⟩ := herr hne
        exact ⟨sart_restored hsart hs, hr.trans hregs⟩

lemma shutdown_spec (h : Settled d) (polled : Bool) : Settled (appleSartShutdown polled d) := by
  unfold appleSartShutdown
  cases hg : sartPowerGet polled d with
  | mk r d₁ =>
    cases r with
    | some e => exact (sartPowerGet_some h hg).1
    | none =>
      have hheld := (sartPowerGet_none h hg).1
      exact settled_put (held_dropLoop (held_clearLoop hheld))

/-- **What one call preserves**, and what it leaves as it was if it returns an error. -/
theorem call_spec {y y' : Sys} {c : Call} {r : Ret} (h : SettledSys y)
    (hc : call y c = some (r, y')) :
    (FindsUsed y c → SettledSys y') ∧ (r ≠ none → Unchanged y y') := by
  cases c with
  | probe setup polled =>
    cases hy : y.sart with
    | some s => simp [call, hy] at hc
    | none =>
      obtain ⟨hs, he⟩ := probe_spec h hy setup polled
      simp only [call, hy, Option.some.injEq, Prod.mk.injEq] at hc
      obtain ⟨rfl, rfl⟩ := hc
      exact ⟨fun _ => hs, he⟩
  | add paddr size polled =>
    obtain ⟨s, hs, e⟩ := Option.map_eq_some_iff.mp hc
    cases e
    obtain ⟨hset, herr⟩ := add_spec (h.2 s hs) paddr size polled
    refine ⟨fun _ => ⟨hset.clean, fun s' hs' => ?_⟩, fun hne => ?_⟩
    · cases hs'
      exact hset
    · exact ⟨(congrArg some (herr hne).1).trans hs.symm, (herr hne).2⟩
  | remove paddr size polled =>
    obtain ⟨s, hs, e⟩ := Option.map_eq_some_iff.mp hc
    cases e
    obtain ⟨hset, herr⟩ := remove_spec (h.2 s hs) paddr size polled
    refine ⟨fun hu => ?_, fun hne => ?_⟩
    · have hset := hset (hu s hs)
      refine ⟨hset.clean, fun s' hs' => ?_⟩
      cases hs'
      exact hset
    · exact ⟨(congrArg some (herr hne).1).trans hs.symm, (herr hne).2⟩
  | shutdown polled =>
    obtain ⟨s, hs, e⟩ := Option.map_eq_some_iff.mp hc
    cases e
    have hset := shutdown_spec (h.2 s hs) polled
    refine ⟨fun _ => ⟨hset.clean, fun s' hs' => ?_⟩, fun hne => absurd rfl hne⟩
    cases hs'
    exact hset

/-! ### Every sequence of calls -/

/-- **The references add up**: after every sequence of calls whose removals find used entries,
there is one reference for each used entry, no put ran without a user, no entry was accessed
but with a user and after a confirmed activation, no entry of the boot loader was written, the
SART was never asked to go inactive while an entry was used, and a call that returns an error
leaves the driver's data and the entries as they were. -/
theorem references_add_up (regs : Index → Entry) (y : Sys)
    (h : Reach step FindsUsed ⟨{ regs }, none⟩ y) :
    (∀ s, y.sart = some s → s.powerUsers = s.usedEntries.card) ∧ (∀ e ∈ y.hw.log, Safe e) ∧
      ∀ c r y', call y c = some (r, y') → r ≠ none → Unchanged y y' := by
  have hinit : SettledSys ⟨{ regs }, none⟩ := ⟨by simp [Clean], by simp⟩
  have hset := h.invariant SettledSys hinit ?_
  · exact ⟨fun s hs => (hset.2 s hs).users, hset.1, fun c r y' hc => (call_spec hset hc).2⟩
  · intro y c y' hi hu hs
    obtain ⟨⟨r, z⟩, hz, rfl⟩ := Option.map_eq_some_iff.mp hs
    exact (call_spec hi hz).1 hu

instance (y : Sys) (c : Call) : Decidable (FindsUsed y c) :=
  match c with
  | .remove paddr size polled => inferInstanceAs (Decidable (∀ s ∈ y.sart,
      (0 < s.powerUsers ∨ polled = true) →
        ∀ i ∈ firstMatch s y.hw.regs paddr size indices, i ∈ s.usedEntries))
  | .probe _ _ => isTrue trivial
  | .add _ _ _ => isTrue trivial
  | .shutdown _ => isTrue trivial

/-- Entries as the boot loader may leave them: the first is its own, the others are clear. -/
def bootRegs : Index → Entry := fun i => if i = 0 then ⟨0xff, 0x800000, 0x100⟩ else ⟨0, 0, 0⟩

/-- Probing, adding two regions and removing one of them leaves one reference. -/
theorem references_add_up_remove : ∃ y s, Reach step FindsUsed ⟨{ regs := bootRegs }, none⟩ y ∧
    y.sart = some s ∧ s.usedEntries = {2} ∧ s.powerUsers = s.usedEntries.card := by
  obtain ⟨y, hy, hp⟩ := exists_reach_of_run step FindsUsed ⟨{ regs := bootRegs }, none⟩
    [.probe none true, .add 0x1000 0x1000 true, .add 0x4000 0x2000 true,
      .remove 0x1000 0x1000 true]
    (fun y => y.sart.any fun s => s.usedEntries = {2}) (by decide)
  obtain ⟨s, hs, hu⟩ := (Option.any_eq_true _ _).mp hp
  exact ⟨y, s, hy, hs, of_decide_eq_true hu, (references_add_up bootRegs y hy).1 s hs⟩

/-- `remove(0, 0)` finds an unused entry and gives back two references where only its own is
due: the SART is asked to go inactive although the region that was added is still in use. -/
theorem unused_entry_removed : ∃ y s, Reach step Any ⟨{ regs := bootRegs }, none⟩ y ∧
    y.sart = some s ∧ s.powerUsers ≠ s.usedEntries.card ∧ ∃ e ∈ y.hw.log, ¬Safe e := by
  obtain ⟨y, hy, hp⟩ := exists_reach_of_run step Any ⟨{ regs := bootRegs }, none⟩
    [.probe none true, .add 0x1000 0x1000 true, .remove 0 0 true]
    (fun y => (y.sart.any fun s => s.powerUsers ≠ s.usedEntries.card) &&
      decide (.askInactive {1} ∈ y.hw.log)) (by decide)
  rw [Bool.and_eq_true, Option.any_eq_true] at hp
  obtain ⟨⟨s, hs, hne⟩, hlog⟩ := hp
  refine ⟨y, s, hy, hs, of_decide_eq_true hne, _, of_decide_eq_true hlog, ?_⟩
  simp [Safe]

end Wallace.SartPower
