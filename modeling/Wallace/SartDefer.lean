import Mathlib.Data.Finset.Card
import Mathlib.Data.Fintype.Basic
import Mathlib.Data.List.FinRange
import Mathlib.Tactic.Common
import Wallace.SartModel
import Wallace.Threads

/-!
The SART with the scan of the boot loader's entries put off to the first use.

Any number of threads add and remove regions and shut the device down at once. A step is one
register access, one bit operation on `protected_entries` or `used_entries`, or one section
under `power_lock`; the scan holds `entries_lock` over all its reads, and a thread that wants
the lock waits. Whether an activation is confirmed in time is an input.

An entry belongs to the boot loader if it carries flags when the device is probed. No thread
ever writes one, however the calls are interleaved: the first register write comes after a
complete scan.
-/

namespace Wallace.SartDefer

open Runs Threads SartModel

/-! ### The calls, step by step -/

structure Region where
  paddr : BitVec 64
  size : BitVec 64
  deriving DecidableEq

inductive Op
  | add (r : Region)
  | remove (r : Region)
  | shutdown
  deriving DecidableEq

/-- The registers of an entry, in the order `sart3_set_entry` writes them. -/
inductive Part | paddr | size | config
  deriving DecidableEq

/-- One of the writes of `sart3_set_entry`. -/
def Part.write (old new : Entry) : Part → Entry
  | .paddr => { old with paddr := new.paddr }
  | .size => { old with size := new.size }
  | .config => { old with config := new.config }

/-- Where `sart3_set_entry` was called. -/
inductive Back
  | added
  | removed
  | cleared (left : List Index)
  deriving DecidableEq

/-- Where a thread stands. A loop over the entries carries those that are left. -/
inductive Pc
  | idle
  | shutTest
  | powerGet (op : Op)
  | scanLock (op : Op)
  | scanTest (op : Op)
  | scanRead (op : Op) (left : List Index)
  | addTest (r : Region) (left : List Index)
  | addClaim (r : Region) (i : Index) (left : List Index)
  | addUndo (i : Index)
  | removeTest (r : Region) (left : List Index)
  | removePaddr (r : Region) (i : Index) (left : List Index)
  | removeSize (r : Region) (paddr : BitVec 32) (i : Index) (left : List Index)
  | removeUnuse (i : Index)
  | clearTest (left : List Index)
  | setEntry (i : Index) (e : Entry) (part : Part) (back : Back)
  | dropTest (left : List Index)
  | dropPut (left : List Index)
  | put (n : ℕ)
  deriving DecidableEq

/-- `struct apple_sart` and the entry registers. -/
structure Shared (ι : Type*) where
  regs : Index → Entry
  sart : Sart := {}
  entriesScanned : Bool := false
  entriesLock : Option ι := none

/-- A call begins, or a thread goes on; `polled` says that an activation is confirmed. -/
inductive Input
  | call (op : Op)
  | go (polled : Bool)

variable {ι : Type*}

def Shared.protect (s : Shared ι) (i : Index) : Shared ι :=
  { s with sart.protectedEntries := insert i s.sart.protectedEntries }

def Shared.use (s : Shared ι) (i : Index) : Shared ι :=
  { s with sart.usedEntries := insert i s.sart.usedEntries }

def Shared.unuse (s : Shared ι) (i : Index) : Shared ι :=
  { s with sart.usedEntries := s.sart.usedEntries.erase i }

def Shared.write (s : Shared ι) (i : Index) (e : Entry) (part : Part) : Shared ι :=
  { s with regs := Function.update s.regs i (part.write (s.regs i) e) }

/-- `sart_power_put`, which leaves a count of zero as it is. -/
def Shared.powerPut (managed : Bool) (s : Shared ι) : Shared ι :=
  if managed then { s with sart.powerUsers := s.sart.powerUsers - 1 } else s

/-- Where `sart_power_get` returns to. -/
def Op.powered : Op → Pc
  | .shutdown => .clearTest indices
  | op => .scanLock op

/-- `sart_power_get`. -/
def powerGet (managed : Bool) (s : Shared ι) (op : Op) (polled : Bool) : Shared ι × Pc :=
  if !managed then (s, op.powered)
  else if s.sart.powerUsers = 0 && !polled then (s, .idle)
  else ({ s with sart.powerUsers := s.sart.powerUsers + 1 }, op.powered)

/-- Where `sart_scan_entries` returns to. -/
def Op.scanned : Op → Pc
  | .add r => .addTest r indices
  | .remove r => .removeTest r indices
  | .shutdown => .idle

/-- The checks of `sart_set_entry`, and the entry to be written. -/
def Region.entry (r : Region) : Option Entry :=
  if r.size &&& 0xfff ≠ 0 then none
  else if r.paddr &&& 0xfff ≠ 0 then none
  else if r.size >>> 12 > sizeMax then none
  else some ⟨flagsAllow.setWidth 32, (r.paddr >>> 12).setWidth 32, (r.size >>> 12).setWidth 32⟩

/-- What follows the last write of `sart3_set_entry`. -/
def Back.pc (i : Index) : Back → Pc
  | .added => .idle
  | .removed => .removeUnuse i
  | .cleared left => .clearTest left

/-- What follows one write of `sart3_set_entry`. -/
def Part.pc (i : Index) (e : Entry) (back : Back) : Part → Pc
  | .paddr => .setEntry i e .size back
  | .size => .setEntry i e .config back
  | .config => back.pc i

/-- The next step of a thread. -/
def go [DecidableEq ι] (managed polled : Bool) (p : ι) (s : Shared ι) : Pc → Option (Shared ι × Pc)
  | .idle => none
  | .shutTest =>
    if managed && decide (s.sart.usedEntries = ∅) then some (s, .idle)
    else some (s, .powerGet .shutdown)
  | .powerGet op => some (powerGet managed s op polled)
  | .scanLock op =>
    if s.entriesLock = none then some ({ s with entriesLock := some p }, .scanTest op) else none
  | .scanTest op =>
    if s.entriesScanned then some ({ s with entriesLock := none }, op.scanned)
    else some (s, .scanRead op indices)
  | .scanRead op (i :: left) =>
    some (if (s.regs i).flags = 0 then s else s.protect i, .scanRead op left)
  | .scanRead op [] =>
    some ({ s with entriesScanned := true, entriesLock := none }, op.scanned)
  | .addTest r (i :: left) =>
    some (s, if i ∈ s.sart.protectedEntries then .addTest r left else .addClaim r i left)
  | .addTest _ [] => some (s, .put 1)
  | .addClaim r i left =>
    if i ∈ s.sart.usedEntries then some (s, .addTest r left)
    else some (s.use i, match r.entry with
      | some e => .setEntry i e .paddr .added
      | none => .addUndo i)
  | .addUndo i => some (s.unuse i, .put 1)
  | .removeTest r (i :: left) =>
    some (s, if i ∈ s.sart.protectedEntries then .removeTest r left else .removePaddr r i left)
  | .removeTest _ [] => some (s, .put 1)
  | .removePaddr r i left => some (s, .removeSize r (s.regs i).paddr i left)
  | .removeSize r paddr i left =>
    let e : Entry := ⟨0, paddr, (s.regs i).size⟩
    some (s, if e.addr ≠ r.paddr ∨ e.len ≠ r.size then .removeTest r left
      else .setEntry i ⟨0, 0, 0⟩ .paddr .removed)
  -- the region's reference and that of this lookup
  | .removeUnuse i => some (s.unuse i, .put 2)
  | .clearTest (i :: left) =>
    some (s, if i ∈ s.sart.protectedEntries then .clearTest left
      else .setEntry i ⟨0, 0, 0⟩ .paddr (.cleared left))
  | .clearTest [] => some (s, .dropTest indices)
  | .setEntry i e part back => some (s.write i e part, part.pc i e back)
  | .dropTest (i :: left) =>
    if i ∈ s.sart.usedEntries then some (s.unuse i, .dropPut left) else some (s, .dropTest left)
  | .dropTest [] => some (s, .put 1)
  | .dropPut left => some (s.powerPut managed, .dropTest left)
  | .put 0 => some (s, .idle)
  | .put (n + 1) => some (s.powerPut managed, .put n)

/-- A thread that is idle may begin any call. -/
def next [DecidableEq ι] (managed : Bool) (p : ι) (s : Shared ι) (pc : Pc) :
    Input → Option (Shared ι × Pc)
  | .call op =>
    if pc = .idle then some (s, if op = .shutdown then .shutTest else .powerGet op) else none
  | .go polled => go managed polled p s pc

/-- `apple_sart_probe`: only a SART that is not power-managed is scanned at once. -/
def probe (managed : Bool) (regs : Index → Entry) : Shared ι where
  regs
  sart := if managed then {} else (scanLoop indices ⟨{ regs }, {}⟩).sart
  entriesScanned := !managed

def init (managed : Bool) (regs : Index → Entry) : St ι (Shared ι) Pc where
  shared := probe managed regs
  pc _ := .idle

/-! ### The invariant -/

/-- The entries of the boot loader. -/
def Firm (regs : Index → Entry) (i : Index) : Prop := (regs i).flags ≠ 0

section Scan

variable {l : List Index} {d : Dev}

lemma mem_scanLoop (i : Index) : i ∈ (scanLoop l d).sart.protectedEntries ↔
    i ∈ d.sart.protectedEntries ∨ i ∈ l ∧ Firm d.hw.regs i := by
  induction l generalizing d with
  | nil => simp [scanLoop]
  | cons j l ih =>
    unfold scanLoop
    simp only
    split_ifs with hj
    · rw [ih]
      simp only [sart3GetEntry, Dev.note, List.mem_cons]
      constructor
      · exact Or.imp_right fun h => ⟨.inr h.1, h.2⟩
      · rintro (h | ⟨rfl | h, hf⟩)
        · exact .inl h
        · exact absurd hj hf
        · exact .inr ⟨h, hf⟩
    · rw [ih]
      simp only [sart3GetEntry, Dev.note, Finset.mem_insert, List.mem_cons]
      constructor
      · rintro ((rfl | h) | ⟨h, hf⟩)
        · exact .inr ⟨.inl rfl, hj⟩
        · exact .inl h
        · exact .inr ⟨.inr h, hf⟩
      · rintro (h | ⟨rfl | h, hf⟩)
        · exact .inl (.inr h)
        · exact .inl (.inl rfl)
        · exact .inr ⟨h, hf⟩

lemma scanLoop_used : (scanLoop l d).sart.usedEntries = d.sart.usedEntries := by
  induction l generalizing d with
  | nil => rfl
  | cons i l ih =>
    unfold scanLoop
    simp only
    split_ifs <;> exact ih

end Scan

variable {managed : Bool} {regs₀ : Index → Entry}

/-- What holds of the shared state. -/
structure Good (managed : Bool) (regs₀ : Index → Entry) (s : Shared ι) : Prop where
  kept : ∀ i, Firm regs₀ i → s.regs i = regs₀ i ∧ i ∉ s.sart.usedEntries
  firm : ∀ i ∈ s.sart.protectedEntries, Firm regs₀ i
  full : s.entriesScanned = true → ∀ i, Firm regs₀ i → i ∈ s.sart.protectedEntries
  early : s.entriesScanned = false → s.regs = regs₀ ∧ s.sart.usedEntries = ∅
  unmanaged : managed = false → s.entriesScanned = true

/-- A thread past the test of `protected_entries` for an entry. -/
def Past (regs₀ : Index → Entry) (s : Shared ι) (i : Index) : Prop :=
  s.entriesScanned = true ∧ ¬ Firm regs₀ i

/-- What holds of a thread at its place. -/
def Local (regs₀ : Index → Entry) (p : ι) (s : Shared ι) : Pc → Prop
  | .idle | .shutTest | .put _ | .powerGet (.add _) | .powerGet (.remove _) => True
  | .scanLock op => op ≠ .shutdown
  | .powerGet .shutdown | .addTest _ _ | .removeTest _ _ | .clearTest _ | .dropTest _
  | .dropPut _ => s.entriesScanned = true
  | .scanTest op => s.entriesLock = some p ∧ op ≠ .shutdown
  | .scanRead op left => s.entriesLock = some p ∧ op ≠ .shutdown ∧ s.entriesScanned = false ∧
      ∀ i, Firm regs₀ i → i ∉ left → i ∈ s.sart.protectedEntries
  | .addClaim _ i _ | .addUndo i | .removePaddr _ i _ | .removeSize _ _ i _ | .removeUnuse i =>
    Past regs₀ s i
  | .setEntry i _ _ _ => Past regs₀ s i

lemma good_probe : Good managed regs₀ (probe managed regs₀ : Shared ι) := by
  cases managed with
  | true =>
    exact ⟨fun i _ => ⟨rfl, by simp [probe]⟩, by simp [probe], by simp [probe],
      fun _ => ⟨rfl, rfl⟩, by simp⟩
  | false =>
    refine ⟨fun i _ => ⟨rfl, ?_⟩, ?_, ?_, by simp [probe], fun _ => rfl⟩
    · simp [probe, scanLoop_used]
    · intro i hi
      simp only [probe, Bool.false_eq_true, if_false, mem_scanLoop] at hi
      exact (hi.resolve_left (by simp)).2
    · intro _ i hi
      simp only [probe, Bool.false_eq_true, if_false, mem_scanLoop]
      exact .inr ⟨List.mem_finRange i, hi⟩

/-- What a step of one thread may do to what the others rely on. -/
structure Change (p : ι) (s s' : Shared ι) : Prop where
  lock : s.entriesLock = none ∨ s.entriesLock = some p ∨ s'.entriesLock = s.entriesLock
  scanned : s'.entriesScanned = s.entriesScanned ∨
    s.entriesLock = some p ∧ s'.entriesScanned = true
  marks : s.sart.protectedEntries ⊆ s'.sart.protectedEntries

lemma Change.refl (p : ι) (s : Shared ι) : Change p s s :=
  ⟨.inr (.inr rfl), .inl rfl, fun _ h => h⟩

lemma Change.mono {p : ι} {s s' : Shared ι} (h : Change p s s') (hs : s.entriesScanned = true) :
    s'.entriesScanned = true :=
  h.scanned.elim (fun e => e.trans hs) And.right

lemma Local.stable {p q : ι} {s s' : Shared ι} {pc : Pc} (h : Local regs₀ q s pc) (hq : q ≠ p)
    (hc : Change p s s') : Local regs₀ q s' pc := by
  have hlock : s.entriesLock = some q → s'.entriesLock = some q := by
    intro hl
    rcases hc.lock with h | h | h
    · rw [h] at hl
      cases hl
    · rw [h] at hl
      exact absurd (Option.some.inj hl).symm hq
    · exact h.trans hl
  cases pc with
  | idle | shutTest | put _ => trivial
  | scanLock op => exact h
  | powerGet op => cases op with
    | add _ | remove _ => trivial
    | shutdown => exact hc.mono h
  | addTest _ _ | removeTest _ _ | clearTest _ | dropTest _ | dropPut _ => exact hc.mono h
  | scanTest op => exact ⟨hlock h.1, h.2⟩
  | scanRead op left =>
    refine ⟨hlock h.1, h.2.1, ?_, fun i hi hl => hc.marks (h.2.2.2 i hi hl)⟩
    rcases hc.scanned with hs | ⟨hp, -⟩
    · exact hs.trans h.2.2.1
    · rw [h.1] at hp
      exact absurd (Option.some.inj hp) hq
  | addClaim _ _ _ | addUndo _ | removePaddr _ _ _ | removeSize _ _ _ _ | removeUnuse _
  | setEntry _ _ _ _ =>
    exact ⟨hc.mono h.1, h.2⟩

/-! ### The steps -/

section Steps

variable {p : ι} {s s' : Shared ι} {pc' : Pc}

/-- A step that touches neither the registers nor the bits nor the scan. -/
lemma Good.congr (h : Good managed regs₀ s) (hr : s'.regs = s.regs)
    (hp : s'.sart.protectedEntries = s.sart.protectedEntries)
    (hu : s'.sart.usedEntries = s.sart.usedEntries)
    (hs : s'.entriesScanned = s.entriesScanned) : Good managed regs₀ s' := by
  refine ⟨?_, ?_, ?_, ?_, ?_⟩
  · rw [hr, hu]
    exact h.kept
  · rw [hp]
    exact h.firm
  · rw [hs, hp]
    exact h.full
  · rw [hs, hr, hu]
    exact h.early
  · rw [hs]
    exact h.unmanaged

lemma Good.protect (h : Good managed regs₀ s) {i : Index} (hi : Firm regs₀ i) :
    Good managed regs₀ (s.protect i) := by
  refine ⟨h.kept, ?_, fun hs j hj => Finset.mem_insert_of_mem (h.full hs j hj), h.early,
    h.unmanaged⟩
  intro j hj
  rcases Finset.mem_insert.mp hj with rfl | hj
  · exact hi
  · exact h.firm j hj

lemma Good.use (h : Good managed regs₀ s) {i : Index} (hi : Past regs₀ s i) :
    Good managed regs₀ (s.use i) := by
  refine ⟨fun j hj => ⟨(h.kept j hj).1, fun hm => ?_⟩, h.firm, h.full, fun hs => ?_, h.unmanaged⟩
  · rcases Finset.mem_insert.mp hm with rfl | hm
    · exact hi.2 hj
    · exact (h.kept j hj).2 hm
  · exact absurd hi.1 (by rw [show s.entriesScanned = false from hs]; decide)

lemma Good.unuse (h : Good managed regs₀ s) (hs : s.entriesScanned = true) (i : Index) :
    Good managed regs₀ (s.unuse i) := by
  refine ⟨fun j hj => ⟨(h.kept j hj).1, fun hm => ?_⟩, h.firm, h.full, fun hs' => ?_, h.unmanaged⟩
  · exact (h.kept j hj).2 (Finset.mem_of_mem_erase hm)
  · exact absurd hs (by rw [show s.entriesScanned = false from hs']; decide)

/-- A register write past the test goes to an entry that is not the boot loader's. -/
lemma Good.write (h : Good managed regs₀ s) {i : Index} (hi : Past regs₀ s i) (e : Entry)
    (part : Part) : Good managed regs₀ (s.write i e part) := by
  refine ⟨fun j hj => ⟨?_, (h.kept j hj).2⟩, h.firm, h.full, fun hs => ?_, h.unmanaged⟩
  · have hji : j ≠ i := fun e => hi.2 (e ▸ hj)
    exact (Function.update_of_ne hji _ _).trans (h.kept j hj).1
  · exact absurd hi.1 (by rw [show s.entriesScanned = false from hs]; decide)

lemma Good.powerPut (h : Good managed regs₀ s) : Good managed regs₀ (s.powerPut managed) := by
  unfold Shared.powerPut
  split_ifs
  · exact h.congr rfl rfl rfl rfl
  · exact h

/-- An entry that is not protected after the scan is not the boot loader's. -/
lemma Good.past (h : Good managed regs₀ s) (hs : s.entriesScanned = true) {i : Index}
    (hi : i ∉ s.sart.protectedEntries) : Past regs₀ s i :=
  ⟨hs, fun hf => hi (h.full hs i hf)⟩

/-- Where a call goes on after the scan. -/
lemma local_scanned {op : Op} (hop : op ≠ .shutdown) (hs : s.entriesScanned = true) :
    Local regs₀ p s op.scanned := by
  cases op with
  | add _ | remove _ => exact hs
  | shutdown => exact absurd rfl hop

lemma local_part {i : Index} {e : Entry} {back : Back} (h : Past regs₀ s i) (part : Part) :
    Local regs₀ p s (part.pc i e back) := by
  cases part with
  | paddr | size => exact h
  | config =>
    cases back with
    | added => trivial
    | removed => exact h
    | cleared left => exact h.1

lemma powerGet_spec {op : Op} (polled : Bool) (hg : Good managed regs₀ s)
    (hl : Local regs₀ p s (.powerGet op)) :
    Good managed regs₀ (powerGet managed s op polled).1 ∧
      Local regs₀ p (powerGet managed s op polled).1 (powerGet managed s op polled).2 ∧
      Change p s (powerGet managed s op polled).1 := by
  have hop : ∀ t : Shared ι, t.entriesScanned = s.entriesScanned → Local regs₀ p t op.powered := by
    intro t ht
    cases op with
    | add _ | remove _ => exact fun h => by cases h
    | shutdown => exact ht.trans hl
  unfold powerGet
  split_ifs
  · exact ⟨hg, hop s rfl, .refl p s⟩
  · exact ⟨hg, trivial, .refl p s⟩
  · exact ⟨hg.congr rfl rfl rfl rfl, hop _ rfl, ⟨.inr (.inr rfl), .inl rfl, fun _ h => h⟩⟩

variable [DecidableEq ι]

/-- **One step of a thread.** -/
theorem go_spec {polled : Bool} {pc : Pc} (hg : Good managed regs₀ s)
    (hl : Local regs₀ p s pc) (h : go managed polled p s pc = some (s', pc')) :
    Good managed regs₀ s' ∧ Local regs₀ p s' pc' ∧ Change p s s' := by
  have hrefl := Change.refl p s
  have hbits : ∀ t : Shared ι, t.entriesLock = s.entriesLock →
      t.entriesScanned = s.entriesScanned →
      t.sart.protectedEntries = s.sart.protectedEntries → Change p s t :=
    fun t h1 h2 h3 => ⟨.inr (.inr h1), .inl h2, by rw [h3]⟩
  cases pc with
  | idle => cases h
  | shutTest =>
    simp only [go] at h
    split_ifs at h with hu
    · cases h
      exact ⟨hg, trivial, hrefl⟩
    · cases h
      refine ⟨hg, ?_, hrefl⟩
      -- a used entry was claimed after the scan
      show s.entriesScanned = true
      by_contra hs
      simp only [Bool.not_eq_true] at hs
      cases managed with
      | false =>
        rw [hg.unmanaged rfl] at hs
        cases hs
      | true => exact hu (by simpa using (hg.early hs).2)
  | powerGet op =>
    have hp := powerGet_spec polled hg hl
    rwa [Option.some.inj h] at hp
  | scanLock op =>
    simp only [go] at h
    split_ifs at h with hlock
    cases h
    exact ⟨hg.congr rfl rfl rfl rfl, ⟨rfl, hl⟩, .inl hlock, .inl rfl, fun _ h => h⟩
  | scanTest op =>
    simp only [go] at h
    split_ifs at h with hs
    · cases h
      exact ⟨hg.congr rfl rfl rfl rfl, local_scanned hl.2 hs, .inr (.inl hl.1), .inl rfl,
        fun _ h => h⟩
    · cases h
      exact ⟨hg, ⟨hl.1, hl.2, by simpa using hs, fun i _ hi => absurd (List.mem_finRange i) hi⟩,
        hrefl⟩
  | scanRead op left =>
    obtain ⟨hlock, hop, hs, hmarks⟩ := hl
    cases left with
    | nil =>
      cases h
      have hfull : ∀ i, Firm regs₀ i → i ∈ s.sart.protectedEntries :=
        fun i hi => hmarks i hi List.not_mem_nil
      refine ⟨⟨hg.kept, hg.firm, fun _ => hfull, by simp, fun _ => rfl⟩, local_scanned hop rfl,
        .inr (.inl hlock), .inr ⟨hlock, rfl⟩, fun _ h => h⟩
    | cons i left =>
      have hi : s.regs i = regs₀ i := by rw [(hg.early hs).1]
      simp only [go] at h
      split_ifs at h with hf
      · cases h
        refine ⟨hg, ⟨hlock, hop, hs, fun j hj hm => hmarks j hj ?_⟩, hrefl⟩
        refine fun hm' => (List.mem_cons.mp hm').elim (fun e => hj ?_) hm
        rw [e, ← hi, hf]
      · cases h
        refine ⟨hg.protect (by rwa [Firm, ← hi]), ⟨hlock, hop, hs, fun j hj hm => ?_⟩,
          .inr (.inr rfl), .inl rfl, Finset.subset_insert _ _⟩
        by_cases hji : j = i
        · exact hji ▸ Finset.mem_insert_self _ _
        · exact Finset.mem_insert_of_mem (hmarks j hj (by simp [hji, hm]))
  | addTest r left =>
    cases left with
    | nil =>
      cases h
      exact ⟨hg, trivial, hrefl⟩
    | cons i left =>
      simp only [go] at h
      split_ifs at h with hi
      · cases h
        exact ⟨hg, hl, hrefl⟩
      · cases h
        exact ⟨hg, hg.past hl hi, hrefl⟩
  | addClaim r i left =>
    simp only [go] at h
    split_ifs at h with hu
    · cases h
      exact ⟨hg, hl.1, hrefl⟩
    · cases he : r.entry with
      | none | some e =>
        rw [he] at h
        cases h
        exact ⟨hg.use hl, hl, hbits _ rfl rfl rfl⟩
  | addUndo i =>
    cases h
    exact ⟨hg.unuse hl.1 i, trivial, hbits _ rfl rfl rfl⟩
  | removeTest r left =>
    cases left with
    | nil =>
      cases h
      exact ⟨hg, trivial, hrefl⟩
    | cons i left =>
      simp only [go] at h
      split_ifs at h with hi
      · cases h
        exact ⟨hg, hl, hrefl⟩
      · cases h
        exact ⟨hg, hg.past hl hi, hrefl⟩
  | removePaddr r i left =>
    cases h
    exact ⟨hg, hl, hrefl⟩
  | removeSize r paddr i left =>
    simp only [go] at h
    split_ifs at h
    · cases h
      exact ⟨hg, hl.1, hrefl⟩
    · cases h
      exact ⟨hg, hl, hrefl⟩
  | removeUnuse i =>
    cases h
    exact ⟨hg.unuse hl.1 i, trivial, hbits _ rfl rfl rfl⟩
  | clearTest left =>
    cases left with
    | nil =>
      cases h
      exact ⟨hg, hl, hrefl⟩
    | cons i left =>
      simp only [go] at h
      split_ifs at h with hi
      · cases h
        exact ⟨hg, hl, hrefl⟩
      · cases h
        exact ⟨hg, hg.past hl hi, hrefl⟩
  | setEntry i e part back =>
    cases h
    exact ⟨hg.write hl e part, local_part hl part, hbits _ rfl rfl rfl⟩
  | dropTest left =>
    cases left with
    | nil =>
      cases h
      exact ⟨hg, trivial, hrefl⟩
    | cons i left =>
      simp only [go] at h
      split_ifs at h with hi
      · cases h
        exact ⟨hg.unuse hl i, hl, hbits _ rfl rfl rfl⟩
      · cases h
        exact ⟨hg, hl, hrefl⟩
  | dropPut left =>
    cases h
    refine ⟨hg.powerPut, ?_, ?_⟩
    · cases managed <;> exact hl
    · cases managed <;> exact hbits _ rfl rfl rfl
  | put n =>
    cases n with
    | zero =>
      cases h
      exact ⟨hg, trivial, hrefl⟩
    | succ n =>
      cases h
      exact ⟨hg.powerPut, trivial, by cases managed <;> exact hbits _ rfl rfl rfl⟩

/-- The facts about the device and its threads are kept by every step. -/
lemma kept : Kept (next managed) (Good managed regs₀) (Local regs₀ : ι → Shared ι → Pc → Prop) := by
  refine .of_guarantee Change (fun p s pc i s' pc' hg hl h => ?_)
    fun p q s s' pc hq hl hc => hl.stable hq hc
  cases i with
  | go polled => exact go_spec hg hl h
  | call op =>
    simp only [next] at h
    split_ifs at h with hpc
    · cases h
      exact ⟨hg, trivial, .refl p s⟩
    · cases h
      exact ⟨hg, by cases op <;> trivial, .refl p s⟩

end Steps

/-! ### The boot loader's entries -/

variable [DecidableEq ι]

/-- **The boot loader's entries are never touched.** In every interleaving of adds, removes and
shutdowns: an entry that carried flags at the probe keeps its registers and is never claimed;
nothing is written and no entry claimed before the scan is complete; and from then on exactly
these entries are protected. -/
theorem boot_entries_kept {s : St ι (Shared ι) Pc}
    (h : Reach (step (next managed)) Any (init managed regs₀) s) :
    (∀ i, Firm regs₀ i → s.shared.regs i = regs₀ i ∧ i ∉ s.shared.sart.usedEntries) ∧
      (s.shared.entriesScanned = false →
        s.shared.regs = regs₀ ∧ s.shared.sart.usedEntries = ∅) ∧
      (s.shared.entriesScanned = true →
        ∀ i, i ∈ s.shared.sart.protectedEntries ↔ Firm regs₀ i) := by
  have h0 : Good managed regs₀ (init managed regs₀ : St ι (Shared ι) Pc).shared := good_probe
  obtain ⟨hg, -⟩ := kept.invariant h0 (fun _ => trivial) h
  exact ⟨hg.kept, hg.early, fun hs i => ⟨hg.firm i, hg.full hs i⟩⟩

/-- A boot loader that left entry 0, for a device of two threads. -/
def bootRegs : Index → Entry := fun i => if i.val = 0 then ⟨0xff, 1, 1⟩ else ⟨0, 0, 0⟩

/-- The second thread wants the lock in the course of the first one's scan, and then
overtakes it. -/
def twoAdds : List (Bool × Input) :=
  [(false, .call (.add ⟨0x1000, 0x4000⟩)), (true, .call (.add ⟨0x8000, 0x4000⟩)),
    (false, .go true), (true, .go true)] ++
  List.replicate 20 (false, .go true) ++ List.replicate 7 (true, .go true) ++
  List.replicate 7 (false, .go true) ++ [(true, .go true)]

theorem boot_entries_kept_twoAdds : ∃ s : St Bool (Shared Bool) Pc,
    Reach (step (next true)) Any (init true bootRegs) s ∧ (s.shared.regs 1).addr = 0x8000 ∧
      (s.shared.regs 2).addr = 0x1000 ∧ s.shared.regs 0 = bootRegs 0 := by
  obtain ⟨s, hs, hp⟩ := exists_reach_of_run (step (next true)) Any (init true bootRegs) twoAdds
    (fun s : St Bool (Shared Bool) Pc => (s.shared.regs 1).addr = 0x8000 ∧
      (s.shared.regs 2).addr = 0x1000) (by decide +kernel)
  simp only [Bool.decide_and, Bool.and_eq_true, decide_eq_true_eq] at hp
  exact ⟨s, hs, hp.1, hp.2, ((boot_entries_kept hs).1 0 (by unfold Firm; decide)).1⟩

end Wallace.SartDefer
