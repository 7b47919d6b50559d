import Mathlib.Data.Finset.Basic
import Mathlib.Data.Fintype.Basic
import Mathlib.Data.List.FinRange
import Mathlib.Data.List.Nodup
import Mathlib.Tactic.Common
import Wallace.Threads

/-!
The lifetime of the ports of the DockChannel TTY driver.

Platform devices are probed and removed and TTYs installed and cleaned up by any number of
threads at once. A step is one section under `apple_dctty_ports_lock`, one change of a
reference count, or one of the other effects a device can see. A device is numbered when it is
allocated. Every reference is numbered when it is taken, and the count of a port is the number
of those that are left: `tty_port_get` fails when there is none, and the `tty_port_put` that
takes the last one runs `apple_dctty_port_destruct`. A TTY whose installation fails is not
cleaned up by the TTY core, so that its reference is lost.

Of the numbers, of `slot`, of who holds a reference and of the log no operation reads anything.
-/

namespace Wallace.TtyPorts

open Runs Threads

/-- `APPLE_DCTTY_MAX_PORTS` of them. -/
abbrev Slot := Fin 8

structure Shared (ι : Type*) where
  /-- `apple_dctty_ports`. -/
  table : Slot → Option ℕ := fun _ => none
  /-- `dctty->id`, once it is not negative. -/
  id : ℕ → Option Slot := fun _ => none
  refs : ℕ → Finset ℕ := fun _ => ∅
  freed : List ℕ := []
  next : ℕ := 0
  nextRef : ℕ := 0
  /-- The slot that the probe of a device took, and the reference that the probe began with. -/
  slot : ℕ → Option Slot := fun _ => none
  first : ℕ → ℕ := fun _ => 0
  holder : ℕ → Option ι := fun _ => none
  dying : ℕ → Option ι := fun _ => none
  lost : List ℕ := []

inductive Pc
  | idle
  | probeSlot (d r : ℕ)
  | probeId (d r : ℕ) (k : Slot)
  | probeMbox (d r : ℕ)
  | probeRegister (d r : ℕ)
  | bound (d r : ℕ)
  | install (k : Slot)
  | portInstall (d r : ℕ)
  | portInstallNull (d : ℕ)
  | tty (d r : ℕ)
  | ttyNull (d : ℕ)
  | put (d r : ℕ)
  | destructLock (d : ℕ)
  | destructFree (d : ℕ)
  deriving DecidableEq

/-- What begins; or a thread goes on, and `ok` says whether what it calls succeeds. -/
inductive Input
  | probe (allocated : Bool)
  | remove
  | install (k : Slot)
  | cleanup
  | go (ok : Bool)

variable {ι : Type*}

section Actions

variable (s : Shared ι)

/-- `kzalloc_obj`, `kfifo_alloc` and `tty_port_init`. -/
def Shared.alloc (p : ι) : Shared ι :=
  { s with
    next := s.next + 1
    nextRef := s.nextRef + 1
    refs := Function.update s.refs s.next {s.nextRef}
    first := Function.update s.first s.next s.nextRef
    holder := Function.update s.holder s.nextRef (some p) }

def Shared.setSlot (d : ℕ) (k : Slot) : Shared ι :=
  { s with
    table := Function.update s.table k (some d)
    slot := Function.update s.slot d (some k) }

def Shared.setId (d : ℕ) (k : Slot) : Shared ι :=
  { s with id := Function.update s.id d (some k) }

/-- `tty_port_get`, on a port with references. -/
def Shared.get (p : ι) (d : ℕ) : Shared ι :=
  { s with
    nextRef := s.nextRef + 1
    refs := Function.update s.refs d (insert s.nextRef (s.refs d))
    holder := Function.update s.holder s.nextRef (some p) }

/-- `tty_port_put`. -/
def Shared.put (p : ι) (d r : ℕ) : Shared ι :=
  let left := (s.refs d).erase r
  { s with
    refs := Function.update s.refs d left
    holder := Function.update s.holder r none
    dying := if left = ∅ then Function.update s.dying d (some p) else s.dying }

/-- A reference that nobody will put. -/
def Shared.lose (r : ℕ) : Shared ι :=
  { s with
    holder := Function.update s.holder r none
    lost := s.lost ++ [r] }

/-- The locked section of `apple_dctty_port_destruct`. -/
def Shared.unslot (d : ℕ) : Shared ι :=
  match s.id d with
  | some k => if s.table k = some d then { s with table := Function.update s.table k none } else s
  | none => s

/-- `kfree`. -/
def Shared.free (d : ℕ) : Shared ι :=
  { s with
    freed := s.freed ++ [d]
    dying := Function.update s.dying d none }

end Actions

/-- `for (ret = 0; ret < APPLE_DCTTY_MAX_PORTS; ret++)`, up to the first slot that is free. -/
def freeSlot (s : Shared ι) : Option Slot :=
  (List.finRange 8).find? fun k => (s.table k).isNone

/-- The next step of a thread. -/
def go (p : ι) (s : Shared ι) (ok : Bool) : Pc → Option (Shared ι × Pc)
  | .idle | .bound _ _ | .tty _ _ | .ttyNull _ => none
  | .probeSlot d r =>
    match freeSlot s with
    | some k => some (s.setSlot d k, .probeId d r k)
    | none => some (s, .put d r)
  | .probeId d r k => some (s.setId d k, .probeMbox d r)
  | .probeMbox d r => some (s, if ok then .probeRegister d r else .put d r)
  | .probeRegister d r => some (s, if ok then .bound d r else .put d r)
  | .install k =>
    match s.table k with
    | none => some (s, .idle)
    | some d =>
      if s.refs d = ∅ then some (s, .portInstallNull d)
      else some (s.get p d, .portInstall d s.nextRef)
  | .portInstall d r => if ok then some (s, .tty d r) else some (s.lose r, .idle)
  -- the device was found, but `port` is still `NULL`
  | .portInstallNull d => some (s, if ok then .ttyNull d else .idle)
  | .put d r => some (s.put p d r, if (s.refs d).erase r = ∅ then .destructLock d else .idle)
  | .destructLock d => some (s.unslot d, .destructFree d)
  | .destructFree d => some (s.free d, .idle)

def next (p : ι) (s : Shared ι) (pc : Pc) : Input → Option (Shared ι × Pc)
  | .go ok => go p s ok pc
  | .probe allocated =>
    if pc = .idle then
      if allocated then some (s.alloc p, .probeSlot s.next s.nextRef) else some (s, .idle)
    else none
  | .install k => if pc = .idle then some (s, .install k) else none
  | .remove =>
    match pc with
    | .bound d r => some (s, .put d r)
    | _ => none
  | .cleanup =>
    match pc with
    | .tty d r => some (s, .put d r)
    | .ttyNull _ => some (s, .idle)
    | _ => none

def init : St ι (Shared ι) Pc where
  shared := {}
  pc _ := .idle

/-- The device a thread holds a reference on, and the reference. -/
def held : Pc → Option (ℕ × ℕ)
  | .probeSlot d r | .probeId d r _ | .probeMbox d r | .probeRegister d r | .bound d r
  | .portInstall d r | .tty d r | .put d r => some (d, r)
  | _ => none

/-- The device that a thread takes down. -/
def destructs : Pc → Option ℕ
  | .destructLock d | .destructFree d => some d
  | _ => none

/-! ### The invariant -/

/-- What holds of the shared state. -/
structure Good (s : Shared ι) : Prop where
  born : ∀ d, s.next ≤ d →
    s.refs d = ∅ ∧ s.dying d = none ∧ d ∉ s.freed ∧ s.slot d = none ∧ s.id d = none
  refs : ∀ d, ∀ r ∈ s.refs d, r < s.nextRef ∧ (s.holder r ≠ none ∨ r ∈ s.lost)
  apart : ∀ d d' r, r ∈ s.refs d → r ∈ s.refs d' → d = d'
  table : ∀ k d, s.table k = some d → s.slot d = some k ∧ d < s.next ∧ d ∉ s.freed
  ids : ∀ d, s.slot d ≠ s.id d → s.first d ∈ s.refs d
  freed : s.freed.Nodup ∧ ∀ d ∈ s.freed, s.refs d = ∅
  dying : ∀ d, s.dying d ≠ none → s.refs d = ∅ ∧ d ∉ s.freed
  ended : ∀ d < s.next, s.refs d = ∅ → s.dying d ≠ none ∨ d ∈ s.freed
  fresh : ∀ r, s.nextRef ≤ r → s.holder r = none

/-- What holds of a thread at its place, beside what it holds. -/
def Place (s : Shared ι) : Pc → Prop
  | .probeSlot d r => s.first d = r ∧ s.slot d = none ∧ s.id d = none
  | .probeId d r k => s.first d = r ∧ s.slot d = some k
  | .probeMbox d r | .probeRegister d r | .bound d r | .portInstall d r | .tty d r | .put d r =>
    s.first d = r → s.slot d = s.id d
  | .portInstallNull d | .ttyNull d => d < s.next ∧ s.refs d = ∅
  | .destructLock d => d < s.next ∧ s.refs d = ∅ ∧ s.slot d = s.id d
  | .destructFree d => d < s.next ∧ s.refs d = ∅ ∧ ∀ k, s.table k ≠ some d
  | .idle | .install _ => True

/-- What holds of a thread. -/
structure Local (p : ι) (s : Shared ι) (pc : Pc) : Prop where
  holds : ∀ r, s.holder r = some p ↔ ∃ d, held pc = some (d, r)
  live : ∀ d r, held pc = some (d, r) → r ∈ s.refs d ∧ d < s.next
  dying : ∀ d, s.dying d = some p ↔ destructs pc = some d
  place : Place s pc

/-- What a step of one thread may do to what the others rely on. -/
structure Change (p : ι) (s s' : Shared ι) : Prop where
  holder : ∀ r q, q ≠ p → (s'.holder r = some q ↔ s.holder r = some q)
  dying : ∀ d q, q ≠ p → (s'.dying d = some q ↔ s.dying d = some q)
  next : s.next ≤ s'.next
  refs : ∀ d < s.next, ∀ r ∈ s.refs d, r ∈ s'.refs d ∨ s.holder r = some p
  gone : ∀ d < s.next, s.refs d = ∅ → s'.refs d = ∅
  first : ∀ d < s.next, s'.first d = s.first d
  ids : ∀ d, s'.slot d = s.slot d ∧ s'.id d = s.id d ∨
    s.holder (s.first d) = some p ∧ s.refs d ≠ ∅
  table : ∀ k d, s'.table k = some d → s.table k = some d ∨ s.refs d ≠ ∅

lemma Change.refl (p : ι) (s : Shared ι) : Change p s s :=
  ⟨fun _ _ _ => Iff.rfl, fun _ _ _ => Iff.rfl, Nat.le_refl _, fun _ _ _ h => .inl h,
    fun _ _ h => h, fun _ _ => rfl, fun _ => .inl ⟨rfl, rfl⟩, fun _ _ h => .inl h⟩

section Stable

variable {p q : ι} {s s' : Shared ι}

/-- The probe of a device is the only one to change its slot and its number. -/
lemma Change.ids_of_holder (hc : Change p s s') (hq : q ≠ p) {d : ℕ}
    (h : s.holder (s.first d) = some q) : s'.slot d = s.slot d ∧ s'.id d = s.id d :=
  (hc.ids d).resolve_right fun h' => hq (Option.some.inj (h.symm.trans h'.1))

lemma Change.ids_of_gone (hc : Change p s s') {d : ℕ} (h : s.refs d = ∅) :
    s'.slot d = s.slot d ∧ s'.id d = s.id d :=
  (hc.ids d).resolve_right fun h' => h'.2 h

lemma Local.stable {pc : Pc} (h : Local q s pc) (hq : q ≠ p) (hc : Change p s s') :
    Local q s' pc := by
  have hlive : ∀ d r, held pc = some (d, r) → s.holder r = some q ∧ d < s.next :=
    fun d r hh => ⟨(h.holds r).mpr ⟨d, hh⟩, (h.live d r hh).2⟩
  refine ⟨fun r => (hc.holder r q hq).trans (h.holds r), fun d r hh => ?_,
    fun d => (hc.dying d q hq).trans (h.dying d), ?_⟩
  · obtain ⟨ho, hd⟩ := hlive d r hh
    refine ⟨(hc.refs d hd r (h.live d r hh).1).resolve_right fun e => ?_,
      Nat.lt_of_lt_of_le hd hc.next⟩
    exact hq (Option.some.inj (ho.symm.trans e))
  have hp := h.place
  cases pc with
  | idle | install _ => trivial
  | probeSlot d r =>
    obtain ⟨ho, hd⟩ := hlive d r rfl
    obtain ⟨h1, h2, h3⟩ := hp
    obtain ⟨h4, h5⟩ := hc.ids_of_holder hq (h1 ▸ ho)
    exact ⟨(hc.first d hd).trans h1, h4.trans h2, h5.trans h3⟩
  | probeId d r k =>
    obtain ⟨ho, hd⟩ := hlive d r rfl
    obtain ⟨h1, h2⟩ := hp
    exact ⟨(hc.first d hd).trans h1, (hc.ids_of_holder hq (h1 ▸ ho)).1.trans h2⟩
  | probeMbox d r | probeRegister d r | bound d r | portInstall d r | tty d r | put d r =>
    obtain ⟨ho, hd⟩ := hlive d r rfl
    intro hf
    rw [hc.first d hd] at hf
    obtain ⟨h4, h5⟩ := hc.ids_of_holder hq (hf ▸ ho)
    rw [h4, h5]
    exact hp hf
  | portInstallNull d | ttyNull d =>
    exact ⟨Nat.lt_of_lt_of_le hp.1 hc.next, hc.gone d hp.1 hp.2⟩
  | destructLock d =>
    obtain ⟨hd, hr, hi⟩ := hp
    obtain ⟨h4, h5⟩ := hc.ids_of_gone hr
    exact ⟨Nat.lt_of_lt_of_le hd hc.next, hc.gone d hd hr, by rw [h4, h5, hi]⟩
  | destructFree d =>
    obtain ⟨hd, hr, ht⟩ := hp
    refine ⟨Nat.lt_of_lt_of_le hd hc.next, hc.gone d hd hr, fun k hk => ?_⟩
    exact (hc.table k d hk).elim (ht k) fun h => h hr

end Stable

/-! ### The steps -/

section Steps

variable {p : ι} {s : Shared ι} {d r : ℕ} {k : Slot}

lemma update_ne_iff {α : Type*} [DecidableEq α] {f : α → Option ι} {a b : α} {x : Option ι}
    {q : ι} (ha : f a ≠ some q) (hx : x ≠ some q) :
    Function.update f a x b = some q ↔ f b = some q := by
  by_cases h : b = a
  · subst h
    rw [Function.update_self]
    exact ⟨fun e => absurd e hx, fun e => absurd e ha⟩
  · rw [Function.update_of_ne h]

lemma alloc_refs_of_ne (p : ι) {e : ℕ} (h : e ≠ s.next) : (s.alloc p).refs e = s.refs e :=
  Function.update_of_ne h _ _

lemma get_refs_of_ne (p : ι) {e : ℕ} (h : e ≠ d) : (s.get p d).refs e = s.refs e :=
  Function.update_of_ne h _ _

lemma put_refs_of_ne (p : ι) {e : ℕ} (h : e ≠ d) : (s.put p d r).refs e = s.refs e :=
  Function.update_of_ne h _ _

lemma Good.alloc (hg : Good s) (p : ι) : Good (s.alloc p) := by
  obtain ⟨-, hdy, hfr, hsl, hid⟩ := hg.born s.next (Nat.le_refl _)
  have hrefs : ∀ d, d ≠ s.next → (s.alloc p).refs d = s.refs d := fun _ h => alloc_refs_of_ne p h
  have hnew : (s.alloc p).refs s.next = {s.nextRef} := Function.update_self _ _ _
  have hold : ∀ d, d ≠ s.next → ∀ r ∈ (s.alloc p).refs d, r ∈ s.refs d ∧ r < s.nextRef :=
    fun d hd r hr => ⟨hrefs d hd ▸ hr, (hg.refs d r (hrefs d hd ▸ hr)).1⟩
  refine ⟨fun d hd => ?_, fun d r hr => ?_, fun d d' r hr hr' => ?_, fun k d hk => ?_,
    fun d hd => ?_, ⟨hg.freed.1, fun d hd => ?_⟩, fun d hd => ?_, fun d hd hr => ?_,
    fun r hr => ?_⟩
  · have hd' : s.next < d := hd
    rw [hrefs d (by omega)]
    exact hg.born d (by omega)
  · by_cases hd : d = s.next
    · rw [hd, hnew, Finset.mem_singleton] at hr
      subst hr
      exact ⟨Nat.lt_succ_self _, .inl (by simp [Shared.alloc])⟩
    · obtain ⟨hm, hlt⟩ := hold d hd r hr
      refine ⟨Nat.lt_succ_of_lt hlt, (hg.refs d r hm).2.imp_left fun h => ?_⟩
      exact (Function.update_of_ne (Nat.ne_of_lt hlt) _ _).trans_ne h
  · by_cases hd : d = s.next <;> by_cases hd' : d' = s.next
    · rw [hd, hd']
    · rw [hd, hnew, Finset.mem_singleton] at hr
      exact absurd (hold d' hd' r hr').2 (by omega)
    · rw [hd', hnew, Finset.mem_singleton] at hr'
      exact absurd (hold d hd r hr).2 (by omega)
    · exact hg.apart d d' r (hold d hd r hr).1 (hold d' hd' r hr').1
  · obtain ⟨h1, h2, h3⟩ := hg.table k d hk
    exact ⟨h1, Nat.lt_succ_of_lt h2, h3⟩
  · have hne : d ≠ s.next := fun e => hd (e ▸ hsl.trans hid.symm)
    have hfirst : (s.alloc p).first d = s.first d := Function.update_of_ne hne _ _
    rw [hrefs d hne, hfirst]
    exact hg.ids d hd
  · rw [hrefs d (fun e => hfr (e ▸ hd))]
    exact hg.freed.2 d hd
  · rw [hrefs d (fun e => hd (e ▸ hdy))]
    exact hg.dying d hd
  · by_cases hn : d = s.next
    · rw [hn, hnew] at hr
      exact absurd hr (Finset.singleton_ne_empty _)
    · have hlt : d < s.next + 1 := hd
      exact hg.ended d (by omega) (hrefs d hn ▸ hr)
  · have hr' : s.nextRef < r := hr
    exact (Function.update_of_ne (by omega) _ _).trans (hg.fresh r (by omega))

lemma Good.setSlot (hg : Good s) (hk : s.table k = none) (hd : d < s.next) (hr : r ∈ s.refs d)
    (hf : s.first d = r) (hs : s.slot d = none) : Good (s.setSlot d k) := by
  have hfr : d ∉ s.freed := fun h => absurd hr (by rw [hg.freed.2 d h]; simp)
  refine ⟨fun e he => ?_, hg.refs, hg.apart, fun j e he => ?_, fun e he => ?_, hg.freed, hg.dying,
    hg.ended, hg.fresh⟩
  · have hne : e ≠ d := fun h => absurd hd (Nat.not_lt.mpr (h ▸ he))
    have hsl : (s.setSlot d k).slot e = s.slot e := Function.update_of_ne hne _ _
    rw [hsl]
    exact hg.born e he
  · by_cases hj : j = k
    · subst hj
      simp only [Shared.setSlot, Function.update_self, Option.some.injEq] at he
      subst he
      exact ⟨Function.update_self _ _ _, hd, hfr⟩
    · have ht : s.table j = some e := (Function.update_of_ne hj _ _).symm.trans he
      obtain ⟨h1, h2, h3⟩ := hg.table j e ht
      have hne : e ≠ d := fun h => by rw [h, hs] at h1; cases h1
      exact ⟨(Function.update_of_ne hne _ _).trans h1, h2, h3⟩
  · by_cases hne : e = d
    · subst hne
      rw [← hf] at hr
      exact hr
    · have hsl : (s.setSlot d k).slot e = s.slot e := Function.update_of_ne hne _ _
      rw [hsl] at he
      exact hg.ids e he

lemma Good.setId (hg : Good s) (hd : d < s.next) (hs : s.slot d = some k) :
    Good (s.setId d k) := by
  refine ⟨fun e he => ?_, hg.refs, hg.apart, hg.table, fun e he => ?_, hg.freed, hg.dying,
    hg.ended, hg.fresh⟩
  · have hne : e ≠ d := fun h => absurd hd (Nat.not_lt.mpr (h ▸ he))
    have hid : (s.setId d k).id e = s.id e := Function.update_of_ne hne _ _
    rw [hid]
    exact hg.born e he
  · by_cases hne : e = d
    · subst hne
      exact absurd hs (fun h => he (by simp [Shared.setId, h]))
    · have hid : (s.setId d k).id e = s.id e := Function.update_of_ne hne _ _
      rw [hid] at he
      exact hg.ids e he

lemma Good.get (hg : Good s) (p : ι) (hd : d < s.next) (hr : s.refs d ≠ ∅) : Good (s.get p d) := by
  have hrefs : ∀ e, e ≠ d → (s.get p d).refs e = s.refs e := fun _ h => get_refs_of_ne p h
  have hnew : (s.get p d).refs d = insert s.nextRef (s.refs d) := Function.update_self _ _ _
  have hmem : ∀ e, ∀ x ∈ (s.get p d).refs e, x ∈ s.refs e ∨ e = d ∧ x = s.nextRef := by
    intro e x hx
    by_cases he : e = d
    · subst he
      rw [hnew, Finset.mem_insert] at hx
      exact hx.symm.imp_right fun h => ⟨rfl, h⟩
    · exact .inl (hrefs e he ▸ hx)
  have hold : ∀ e, ∀ x ∈ s.refs e, x < s.nextRef := fun e x hx => (hg.refs e x hx).1
  refine ⟨fun e he => ?_, fun e x hx => ?_, fun e e' x hx hx' => ?_, hg.table, fun e he => ?_,
    ⟨hg.freed.1, fun e he => ?_⟩, fun e he => ?_, fun e he hre => ?_, fun x hx => ?_⟩
  · rw [hrefs e (fun h => absurd hd (Nat.not_lt.mpr (h ▸ he)))]
    exact hg.born e he
  · rcases hmem e x hx with hx | ⟨-, rfl⟩
    · have hlt := hold e x hx
      refine ⟨Nat.lt_succ_of_lt hlt, (hg.refs e x hx).2.imp_left fun h => ?_⟩
      exact (Function.update_of_ne (Nat.ne_of_lt hlt) _ _).trans_ne h
    · exact ⟨Nat.lt_succ_self _, .inl (by simp [Shared.get])⟩
  · rcases hmem e x hx with h | ⟨rfl, h⟩ <;> rcases hmem e' x hx' with h' | ⟨rfl, h'⟩
    · exact hg.apart e e' x h h'
    · exact absurd (hold e x h) (by omega)
    · exact absurd (hold e' x h') (by omega)
    · rfl
  · by_cases hne : e = d
    · subst hne
      rw [hnew]
      exact Finset.mem_insert_of_mem (hg.ids e he)
    · rw [hrefs e hne]
      exact hg.ids e he
  · rw [hrefs e (fun h => hr (h ▸ hg.freed.2 e he))]
    exact hg.freed.2 e he
  · rw [hrefs e (fun h => hr (h ▸ (hg.dying e he).1))]
    exact hg.dying e he
  · by_cases hne : e = d
    · rw [hne, hnew] at hre
      exact absurd hre (Finset.insert_ne_empty _ _)
    · exact hg.ended e he (hrefs e hne ▸ hre)
  · have hx' : s.nextRef < x := hx
    exact (Function.update_of_ne (by omega) _ _).trans (hg.fresh x (by omega))

lemma Good.put (hg : Good s) (hd : d < s.next) (hr : r ∈ s.refs d) (p : ι)
    (hf : s.first d = r → s.slot d = s.id d) : Good (s.put p d r) := by
  have hrefs : ∀ e, e ≠ d → (s.put p d r).refs e = s.refs e := fun _ h => put_refs_of_ne p h
  have hnew : (s.put p d r).refs d = (s.refs d).erase r := Function.update_self _ _ _
  have hmem : ∀ e, ∀ x ∈ (s.put p d r).refs e, x ∈ s.refs e ∧ x ≠ r := by
    intro e x hx
    by_cases he : e = d
    · subst he
      rw [hnew, Finset.mem_erase] at hx
      exact hx.symm
    · rw [hrefs e he] at hx
      exact ⟨hx, fun h => he (hg.apart e d r (h ▸ hx) hr)⟩
  have hdying : ∀ e, e ≠ d → (s.put p d r).dying e = s.dying e := by
    intro e he
    simp only [Shared.put]
    split_ifs
    · exact Function.update_of_ne he _ _
    · rfl
  have hd0 : s.refs d ≠ ∅ := Finset.ne_empty_of_mem hr
  have hfr : d ∉ s.freed := fun h => hd0 (hg.freed.2 d h)
  have hdd : s.dying d = none := by
    by_contra h
    exact hd0 (hg.dying d h).1
  refine ⟨fun e he => ?_, fun e x hx => ?_, fun e e' x hx hx' => ?_, hg.table, fun e he => ?_,
    ⟨hg.freed.1, fun e he => ?_⟩, fun e he => ?_, fun e he hre => ?_, fun x hx => ?_⟩
  · have hne : e ≠ d := fun h => absurd hd (Nat.not_lt.mpr (h ▸ he))
    rw [hrefs e hne, hdying e hne]
    exact hg.born e he
  · obtain ⟨hx, hne⟩ := hmem e x hx
    obtain ⟨h1, h2⟩ := hg.refs e x hx
    exact ⟨h1, h2.imp_left fun h => (Function.update_of_ne hne _ _).trans_ne h⟩
  · exact hg.apart e e' x (hmem e x hx).1 (hmem e' x hx').1
  · by_cases hne : e = d
    · subst hne
      rw [hnew]
      exact Finset.mem_erase.mpr ⟨fun h => he (hf h), hg.ids e he⟩
    · rw [hrefs e hne]
      exact hg.ids e he
  · rw [hrefs e (fun h => hfr (h ▸ he))]
    exact hg.freed.2 e he
  · by_cases hne : e = d
    · subst hne
      refine ⟨?_, hfr⟩
      by_contra hleft
      rw [hnew] at hleft
      simp only [Shared.put, hleft, if_false] at he
      exact he hdd
    · rw [hdying e hne] at he
      rw [hrefs e hne]
      exact hg.dying e he
  · by_cases hne : e = d
    · subst hne
      rw [hnew] at hre
      exact .inl (by simp [Shared.put, hre])
    · rw [hdying e hne]
      exact hg.ended e he (hrefs e hne ▸ hre)
  · by_cases hxr : x = r
    · exact hxr ▸ Function.update_self _ _ _
    · exact (Function.update_of_ne hxr _ _).trans (hg.fresh x hx)

lemma Good.lose (hg : Good s) : Good (s.lose r) := by
  refine ⟨hg.born, fun e x hx => ⟨(hg.refs e x hx).1, ?_⟩, hg.apart, hg.table, hg.ids, hg.freed,
    hg.dying, hg.ended, fun x hx => ?_⟩
  · by_cases hxr : x = r
    · exact .inr (by simp [Shared.lose, hxr])
    · refine (hg.refs e x hx).2.imp (fun h => ?_) fun h => List.mem_append_left _ h
      exact (Function.update_of_ne hxr _ _).trans_ne h
  · by_cases hxr : x = r
    · exact hxr ▸ Function.update_self _ _ _
    · exact (Function.update_of_ne hxr _ _).trans (hg.fresh x hx)

/-- The table may only lose entries. -/
lemma Good.shrink (hg : Good s) {t : Slot → Option ℕ}
    (h : ∀ k d, t k = some d → s.table k = some d) : Good { s with table := t } :=
  ⟨hg.born, hg.refs, hg.apart, fun k d hk => hg.table k d (h k d hk), hg.ids, hg.freed, hg.dying,
    hg.ended, hg.fresh⟩

lemma unslot_eq (s : Shared ι) (d : ℕ) : ∃ t : Slot → Option ℕ, s.unslot d = { s with table := t } ∧
    ∀ k e, t k = some e → s.table k = some e := by
  unfold Shared.unslot
  cases s.id d with
  | none => exact ⟨s.table, rfl, fun _ _ h => h⟩
  | some k =>
    simp only
    split_ifs
    · refine ⟨_, rfl, fun j e h => ?_⟩
      by_cases hj : j = k
      · subst hj
        rw [Function.update_self] at h
        cases h
      · rwa [Function.update_of_ne hj] at h
    · exact ⟨s.table, rfl, fun _ _ h => h⟩

/-- The slot of a device that is taken down is found through its number. -/
lemma unslot_table (hg : Good s) (hs : s.slot d = s.id d) (k : Slot) :
    (s.unslot d).table k ≠ some d := by
  intro hk
  obtain ⟨t, ht, hsub⟩ := unslot_eq s d
  have htk : t k = some d := by
    rw [ht] at hk
    exact hk
  have hid := hs.symm.trans (hg.table k d (hsub k d htk)).1
  simp only [Shared.unslot, hid, if_pos (hsub k d htk), Function.update_self] at hk
  cases hk

lemma Good.free (hg : Good s) (hd : d < s.next) (hdy : s.dying d ≠ none)
    (ht : ∀ k, s.table k ≠ some d) : Good (s.free d) := by
  obtain ⟨hr, hfr⟩ := hg.dying d hdy
  have hdying : ∀ e, e ≠ d → (s.free d).dying e = s.dying e :=
    fun e h => Function.update_of_ne h _ _
  have hfreed : ∀ e, e ∈ (s.free d).freed ↔ e ∈ s.freed ∨ e = d := by simp [Shared.free]
  refine ⟨fun e he => ?_, hg.refs, hg.apart, fun k e he => ?_, hg.ids, ⟨?_, fun e he => ?_⟩,
    fun e he => ?_, fun e he hre => ?_, hg.fresh⟩
  · have hne : e ≠ d := fun h => absurd hd (Nat.not_lt.mpr (h ▸ he))
    obtain ⟨h1, h2, h3, h4⟩ := hg.born e he
    exact ⟨h1, (hdying e hne).trans h2, fun h => ((hfreed e).mp h).elim h3 hne, h4⟩
  · obtain ⟨h1, h2, h3⟩ := hg.table k e he
    exact ⟨h1, h2, fun h => ((hfreed e).mp h).elim h3 fun h => ht k (h ▸ he)⟩
  · exact List.nodup_append_comm.mp (List.nodup_cons.mpr ⟨hfr, hg.freed.1⟩)
  · exact ((hfreed e).mp he).elim (hg.freed.2 e) fun h => h ▸ hr
  · have hne : e ≠ d := fun h => he (by simp [h, Shared.free])
    rw [hdying e hne] at he
    obtain ⟨h1, h2⟩ := hg.dying e he
    exact ⟨h1, fun h => ((hfreed e).mp h).elim h2 hne⟩
  · by_cases hne : e = d
    · exact .inr ((hfreed e).mpr (.inr hne))
    · rw [hdying e hne, hfreed e]
      exact (hg.ended e he hre).imp_right .inl

/-! What each of them changes -/

lemma change_alloc (hg : Good s) (p : ι) : Change p s (s.alloc p) := by
  have hne : ∀ d < s.next, d ≠ s.next := fun d h => Nat.ne_of_lt h
  refine ⟨fun r q hq => ?_, fun _ _ _ => Iff.rfl, Nat.le_succ _, fun d hd r hr => .inl ?_,
    fun d hd hr => ?_, fun d hd => Function.update_of_ne (hne d hd) _ _,
    fun _ => .inl ⟨rfl, rfl⟩, fun _ _ h => .inl h⟩
  · refine update_ne_iff ?_ fun e => hq (Option.some.inj e).symm
    rw [hg.fresh _ (Nat.le_refl _)]
    exact (Option.some_ne_none q).symm
  · rwa [alloc_refs_of_ne p (hne d hd)]
  · rwa [alloc_refs_of_ne p (hne d hd)]

lemma change_setSlot (ho : s.holder r = some p) (hr : r ∈ s.refs d) (hf : s.first d = r) :
    Change p s (s.setSlot d k) := by
  have hd0 : s.refs d ≠ ∅ := Finset.ne_empty_of_mem hr
  refine ⟨fun _ _ _ => Iff.rfl, fun _ _ _ => Iff.rfl, Nat.le_refl _, fun _ _ _ h => .inl h,
    fun _ _ h => h, fun _ _ => rfl, fun e => ?_, fun j e h => ?_⟩
  · by_cases he : e = d
    · subst he
      exact .inr ⟨hf ▸ ho, hd0⟩
    · exact .inl ⟨Function.update_of_ne he _ _, rfl⟩
  · by_cases hj : j = k
    · subst hj
      simp only [Shared.setSlot, Function.update_self, Option.some.injEq] at h
      exact .inr (h ▸ hd0)
    · exact .inl ((Function.update_of_ne hj _ _).symm.trans h)

lemma change_setId (ho : s.holder r = some p) (hr : r ∈ s.refs d) (hf : s.first d = r) :
    Change p s (s.setId d k) := by
  refine ⟨fun _ _ _ => Iff.rfl, fun _ _ _ => Iff.rfl, Nat.le_refl _, fun _ _ _ h => .inl h,
    fun _ _ h => h, fun _ _ => rfl, fun e => ?_, fun _ _ h => .inl h⟩
  by_cases he : e = d
  · subst he
    exact .inr ⟨hf ▸ ho, Finset.ne_empty_of_mem hr⟩
  · exact .inl ⟨rfl, Function.update_of_ne he _ _⟩

lemma change_get (hg : Good s) (p : ι) (hr : s.refs d ≠ ∅) : Change p s (s.get p d) := by
  refine ⟨fun x q hq => ?_, fun _ _ _ => Iff.rfl, Nat.le_refl _, fun e _ x hx => .inl ?_,
    fun e _ he => ?_, fun _ _ => rfl, fun _ => .inl ⟨rfl, rfl⟩, fun _ _ h => .inl h⟩
  · refine update_ne_iff ?_ fun e => hq (Option.some.inj e).symm
    rw [hg.fresh _ (Nat.le_refl _)]
    exact (Option.some_ne_none q).symm
  · by_cases h : e = d
    · subst h
      simp [Shared.get, hx]
    · rwa [get_refs_of_ne p h]
  · have hne : e ≠ d := fun h => hr (h ▸ he)
    rwa [get_refs_of_ne p hne]

lemma change_put (ho : s.holder r = some p) (hdd : s.dying d = none) :
    Change p s (s.put p d r) := by
  refine ⟨fun x q hq => ?_, fun e q hq => ?_, Nat.le_refl _, fun e _ x hx => ?_,
    fun e _ he => ?_, fun _ _ => rfl, fun _ => .inl ⟨rfl, rfl⟩, fun _ _ h => .inl h⟩
  · refine update_ne_iff ?_ (Option.some_ne_none q).symm
    rw [ho]
    exact fun e => hq (Option.some.inj e).symm
  · simp only [Shared.put]
    split_ifs
    · refine update_ne_iff ?_ fun e => hq (Option.some.inj e).symm
      rw [hdd]
      exact (Option.some_ne_none q).symm
    · rfl
  · by_cases hxr : x = r
    · exact .inr (hxr ▸ ho)
    · refine .inl ?_
      by_cases h : e = d
      · subst h
        simp [Shared.put, hxr, hx]
      · rwa [put_refs_of_ne p h]
  · by_cases h : e = d
    · subst h
      simp [Shared.put, he]
    · rwa [put_refs_of_ne p h]

lemma change_lose (ho : s.holder r = some p) : Change p s (s.lose r) := by
  refine ⟨fun x q hq => ?_, fun _ _ _ => Iff.rfl, Nat.le_refl _, fun _ _ _ h => .inl h,
    fun _ _ h => h, fun _ _ => rfl, fun _ => .inl ⟨rfl, rfl⟩, fun _ _ h => .inl h⟩
  refine update_ne_iff ?_ (Option.some_ne_none q).symm
  rw [ho]
  exact fun e => hq (Option.some.inj e).symm

lemma change_shrink {t : Slot → Option ℕ} (h : ∀ k d, t k = some d → s.table k = some d) :
    Change p s { s with table := t } :=
  ⟨fun _ _ _ => Iff.rfl, fun _ _ _ => Iff.rfl, Nat.le_refl _, fun _ _ _ h => .inl h,
    fun _ _ h => h, fun _ _ => rfl, fun _ => .inl ⟨rfl, rfl⟩, fun k d hk => .inl (h k d hk)⟩

lemma change_free (hdy : s.dying d = some p) : Change p s (s.free d) := by
  refine ⟨fun _ _ _ => Iff.rfl, fun e q hq => ?_, Nat.le_refl _, fun _ _ _ h => .inl h,
    fun _ _ h => h, fun _ _ => rfl, fun _ => .inl ⟨rfl, rfl⟩, fun _ _ h => .inl h⟩
  refine update_ne_iff ?_ (Option.some_ne_none q).symm
  rw [hdy]
  exact fun e => hq (Option.some.inj e).symm

/-! ### The threads -/

variable {s' : Shared ι} {pc pc' : Pc}

/-- A thread that took a new reference holds just that. -/
lemma holds_new (h : ∀ x, s.holder x ≠ some p)
    (hs : s'.holder = Function.update s.holder r (some p)) (hpc : held pc' = some (d, r)) (x : ℕ) :
    s'.holder x = some p ↔ ∃ e, held pc' = some (e, x) := by
  rw [hs, hpc]
  by_cases hx : x = r
  · subst hx
    simp
  · rw [Function.update_of_ne hx]
    simp only [h, Option.some.injEq, Prod.mk.injEq, false_iff, not_exists, not_and]
    exact fun _ _ e => hx e.symm

/-- A thread that gave its reference up holds none. -/
lemma holds_none (hl : Local p s pc) (hpc : held pc = some (d, r))
    (hs : s'.holder = Function.update s.holder r none) (hpc' : held pc' = none) (x : ℕ) :
    s'.holder x = some p ↔ ∃ e, held pc' = some (e, x) := by
  rw [hs, hpc']
  by_cases hx : x = r
  · subst hx
    simp
  · rw [Function.update_of_ne hx, hl.holds x, hpc]
    simp only [Option.some.injEq, Prod.mk.injEq, reduceCtorEq, exists_false, iff_false, not_exists,
      not_and]
    exact fun _ _ e => hx e.symm

lemma freeSlot_spec (h : freeSlot s = some k) : s.table k = none := by
  have := List.find?_some h
  simpa using this

/-- **One step of a thread.** -/
theorem go_spec {ok : Bool} (hg : Good s) (hl : Local p s pc) (h : go p s ok pc = some (s', pc')) :
    Good s' ∧ Local p s' pc' ∧ Change p s s' := by
  have hrefl := Change.refl p s
  have hsame : ∀ q : Pc, held q = held pc → destructs q = destructs pc → Place s q →
      Local p s q := by
    intro q h1 h2 h3
    refine ⟨fun r => ?_, fun d r => ?_, fun d => ?_, h3⟩
    · rw [h1]
      exact hl.holds r
    · rw [h1]
      exact hl.live d r
    · rw [h2]
      exact hl.dying d
  have hown : ∀ d r, held pc = some (d, r) → s.holder r = some p ∧ r ∈ s.refs d ∧ d < s.next :=
    fun d r hh => ⟨(hl.holds r).mpr ⟨d, hh⟩, hl.live d r hh⟩
  have hno : held pc = none → ∀ x, s.holder x ≠ some p := by
    intro hn x hx
    obtain ⟨d, hd⟩ := (hl.holds x).mp hx
    rw [hn] at hd
    cases hd
  have hp := hl.place
  cases pc with
  | idle | bound _ _ | tty _ _ | ttyNull _ => cases h
  | probeSlot d r =>
    obtain ⟨ho, hr, hd⟩ := hown d r rfl
    obtain ⟨h1, h2, h3⟩ := hp
    simp only [go] at h
    split at h
    · rename_i k hk
      cases h
      refine ⟨hg.setSlot (freeSlot_spec hk) hd hr h1 h2, ?_, change_setSlot ho hr h1⟩
      exact ⟨hl.holds, hl.live, hl.dying, h1, by simp [Shared.setSlot]⟩
    · cases h
      exact ⟨hg, hsame _ rfl rfl fun _ => h2.trans h3.symm, hrefl⟩
  | probeId d r k =>
    obtain ⟨ho, hr, hd⟩ := hown d r rfl
    obtain ⟨h1, h2⟩ := hp
    cases h
    refine ⟨hg.setId hd h2, ?_, change_setId ho hr h1⟩
    refine ⟨hl.holds, hl.live, hl.dying, fun _ => ?_⟩
    simpa [Shared.setId] using h2
  | probeMbox d r =>
    cases h
    cases ok <;> exact ⟨hg, hsame _ rfl rfl hp, hrefl⟩
  | probeRegister d r =>
    cases h
    cases ok <;> exact ⟨hg, hsame _ rfl rfl hp, hrefl⟩
  | install k =>
    simp only [go] at h
    split at h
    · cases h
      exact ⟨hg, hsame _ rfl rfl trivial, hrefl⟩
    · rename_i d hk
      obtain ⟨-, hd, -⟩ := hg.table k d hk
      split_ifs at h with hr
      · cases h
        exact ⟨hg, hsame _ rfl rfl ⟨hd, hr⟩, hrefl⟩
      · cases h
        refine ⟨hg.get p hd hr, ⟨holds_new (hno rfl) rfl rfl, ?_, hl.dying, fun hf => ?_⟩,
          change_get hg p hr⟩
        · intro e x hx
          cases hx
          exact ⟨by simp [Shared.get], hd⟩
        · by_contra hne
          exact absurd (hg.refs d _ (hg.ids d hne)).1
            (by rw [show s.first d = s.nextRef from hf]; omega)
  | portInstall d r =>
    obtain ⟨ho, hr, hd⟩ := hown d r rfl
    simp only [go] at h
    split_ifs at h
    · cases h
      exact ⟨hg, hsame _ rfl rfl hp, hrefl⟩
    · cases h
      exact ⟨hg.lose, ⟨holds_none hl rfl rfl rfl, fun _ _ h => (by cases h), hl.dying, trivial⟩,
        change_lose ho⟩
  | portInstallNull d =>
    cases h
    cases ok
    · exact ⟨hg, hsame _ rfl rfl trivial, hrefl⟩
    · exact ⟨hg, hsame _ rfl rfl hp, hrefl⟩
  | put d r =>
    obtain ⟨ho, hr, hd⟩ := hown d r rfl
    have hdd : s.dying d = none := by
      by_contra hne
      exact Finset.ne_empty_of_mem hr (hg.dying d hne).1
    have hdy : ∀ e, s.dying e ≠ some p := fun e he => by cases (hl.dying e).mp he
    simp only [go] at h
    split_ifs at h with hleft
    · cases h
      refine ⟨hg.put hd hr p hp, ?_, change_put ho hdd⟩
      refine ⟨holds_none hl rfl rfl rfl, fun _ _ h => (by cases h), fun e => ?_, hd, ?_, ?_⟩
      · simp only [Shared.put, hleft, if_true, destructs, Option.some.injEq]
        by_cases he : e = d
        · subst he
          simp
        · rw [Function.update_of_ne he]
          exact ⟨fun h => absurd h (hdy e), fun h => absurd h.symm he⟩
      · exact (Function.update_self _ _ _).trans hleft
      · by_contra hne
        have hf := hg.ids d hne
        by_cases hfr : s.first d = r
        · exact hne (hp hfr)
        · exact absurd (Finset.mem_erase.mpr ⟨hfr, hf⟩) (by rw [hleft]; simp)
    · cases h
      refine ⟨hg.put hd hr p hp, ?_, change_put ho hdd⟩
      refine ⟨holds_none hl rfl rfl rfl, fun _ _ h => (by cases h), fun e => ?_, trivial⟩
      simp only [Shared.put, hleft, if_false]
      exact ⟨fun h => absurd h (hdy e), fun h => by cases h⟩
  | destructLock d =>
    obtain ⟨hd, hr, hi⟩ := hp
    obtain ⟨t, ht, hsub⟩ := unslot_eq s d
    have htab := unslot_table hg hi
    cases h
    rw [ht] at htab ⊢
    exact ⟨hg.shrink hsub, ⟨hl.holds, hl.live, hl.dying, hd, hr, htab⟩, change_shrink hsub⟩
  | destructFree d =>
    obtain ⟨hd, hr, ht⟩ := hp
    have hdy : s.dying d = some p := (hl.dying d).mpr rfl
    cases h
    refine ⟨hg.free hd (by rw [hdy]; simp) ht, ⟨hl.holds, fun _ _ h => (by cases h), fun e => ?_,
      trivial⟩, change_free hdy⟩
    by_cases he : e = d
    · subst he
      simp [Shared.free, destructs]
    · simp only [Shared.free, Function.update_of_ne he, hl.dying e, destructs, reduceCtorEq,
        iff_false, Option.some.injEq]
      exact fun h => he h.symm

lemma kept : Kept next Good (Local : ι → Shared ι → Pc → Prop) := by
  refine .of_guarantee Change (fun p s pc i s' pc' hg hl h => ?_)
    fun p q s s' pc hq hl hc => hl.stable hq hc
  cases i with
  | go ok => exact go_spec hg hl h
  | probe allocated =>
    simp only [next] at h
    split_ifs at h with hpc
    · cases h
      subst hpc
      have hno : ∀ x, s.holder x ≠ some p := fun x hx => by
        obtain ⟨d, hd⟩ := (hl.holds x).mp hx
        cases hd
      obtain ⟨-, -, -, hsl, hid⟩ := hg.born s.next (Nat.le_refl _)
      refine ⟨hg.alloc p, ⟨holds_new hno rfl rfl, fun e x hx => ?_, hl.dying, ?_⟩,
        change_alloc hg p⟩
      · cases hx
        exact ⟨by simp [Shared.alloc], Nat.lt_succ_self _⟩
      · exact ⟨Function.update_self _ _ _, hsl, hid⟩
    · cases h
      subst hpc
      exact ⟨hg, hl, .refl p s⟩
  | install k =>
    simp only [next] at h
    split_ifs at h with hpc
    cases h
    subst hpc
    exact ⟨hg, ⟨hl.holds, hl.live, hl.dying, trivial⟩, .refl p s⟩
  | remove =>
    cases pc with
    | bound d r =>
      cases h
      exact ⟨hg, ⟨hl.holds, hl.live, hl.dying, hl.place⟩, .refl p s⟩
    | _ => cases h
  | cleanup =>
    cases pc with
    | tty d r =>
      cases h
      exact ⟨hg, ⟨hl.holds, hl.live, hl.dying, hl.place⟩, .refl p s⟩
    | ttyNull d =>
      cases h
      exact ⟨hg, ⟨hl.holds, fun _ _ h => (by cases h), hl.dying, trivial⟩, .refl p s⟩
    | _ => cases h

end Steps

/-! ### The lifetime of a port -/

variable [DecidableEq ι]

/-- The device that a thread may touch through a reference of its own. -/
def uses (pc : Pc) : Option ℕ := (held pc).map Prod.fst

/-- **The lifetime of a port.** In every interleaving of probes, removals, installations and
cleanups: the table holds no freed device and none twice; no device is freed twice, and none
that a thread has a reference on; a device whose references are gone is being taken down by one
thread until it is freed; and every reference that is left is held by one thread or was lost by
a failed installation. A TTY is installed without a port only on a device that has no reference
left. -/
theorem port_lifetime {s : St ι (Shared ι) Pc} (h : Reach (step next) Any init s) :
    (∀ k d, s.shared.table k = some d →
      d ∉ s.shared.freed ∧ ∀ k', s.shared.table k' = some d → k' = k) ∧
    s.shared.freed.Nodup ∧
    (∀ p d, uses (s.pc p) = some d → d ∉ s.shared.freed) ∧
    (∀ d < s.shared.next, s.shared.refs d = ∅ → d ∉ s.shared.freed →
      ∃! p, destructs (s.pc p) = some d) ∧
    (∀ d, ∀ r ∈ s.shared.refs d, r ∈ s.shared.lost ∨ ∃! p, held (s.pc p) = some (d, r)) ∧
    (∀ p d, s.pc p = .ttyNull d → s.shared.refs d = ∅) := by
  have h0 : Good (init : St ι (Shared ι) Pc).shared := by
    constructor <;> simp [init]
  have h1 : ∀ p, Local p (init : St ι (Shared ι) Pc).shared ((init : St ι (Shared ι) Pc).pc p) :=
    fun p => ⟨fun r => by simp [init, held], fun d r h => (by cases h),
      fun d => by simp [init, destructs], trivial⟩
  obtain ⟨hg, hl⟩ := kept.invariant h0 h1 h
  refine ⟨fun k d hk => ?_, hg.freed.1, fun p d hu => ?_, fun d hd hr hf => ?_, fun d r hr => ?_,
    fun p d hp => ?_⟩
  · obtain ⟨h1, -, h3⟩ := hg.table k d hk
    refine ⟨h3, fun k' hk' => ?_⟩
    exact Option.some.inj ((hg.table k' d hk').1.symm.trans h1)
  · obtain ⟨⟨e, r⟩, he, rfl⟩ := Option.map_eq_some_iff.mp hu
    intro hf
    exact Finset.ne_empty_of_mem ((hl p).live e r he).1 (hg.freed.2 e hf)
  · obtain ⟨p, hp⟩ := Option.ne_none_iff_exists'.mp ((hg.ended d hd hr).resolve_right hf)
    refine ⟨p, ((hl p).dying d).mp hp, fun q hq => ?_⟩
    exact Option.some.inj ((((hl q).dying d).mpr hq).symm.trans hp)
  · refine (hg.refs d r hr).2.symm.imp_right fun ho => ?_
    obtain ⟨p, hp⟩ := Option.ne_none_iff_exists'.mp ho
    obtain ⟨e, he⟩ := ((hl p).holds r).mp hp
    have hed : e = d := hg.apart e d r ((hl p).live e r he).1 hr
    refine ⟨p, hed ▸ he, fun q hq => ?_⟩
    exact Option.some.inj ((((hl q).holds r).mpr ⟨d, hq⟩).symm.trans hp)
  · have := (hl p).place
    rw [hp] at this
    exact this.2

/-- A device is probed in slot 0, a TTY installed on it, and the device removed before the TTY
is cleaned up. -/
def removedUnderTty : List (Bool × Input) :=
  [(false, .probe true), (false, .go true), (false, .go true), (false, .go true),
    (false, .go true), (true, .install 0), (true, .go true), (true, .go true), (false, .remove),
    (false, .go true)]

theorem port_lifetime_removedUnderTty : ∃ s : St Bool (Shared Bool) Pc,
    Reach (step next) Any init s ∧ s.pc true = .tty 0 1 ∧ 0 ∉ s.shared.freed := by
  obtain ⟨s, hs, hp⟩ := exists_reach_of_run (step next) Any init removedUnderTty
    (fun s : St Bool (Shared Bool) Pc => s.pc true = .tty 0 1) (by decide +kernel)
  simp only [decide_eq_true_eq] at hp
  exact ⟨s, hs, hp, (port_lifetime hs).2.2.1 true 0 (by rw [hp]; rfl)⟩

/-- A TTY that is installed between the last put and the locked section of the destructor has no
port, and its device is freed under it. -/
theorem install_without_port : ∃ s : St Bool (Shared Bool) Pc,
    Reach (step next) Any init s ∧ s.pc true = .ttyNull 0 ∧ 0 ∈ s.shared.freed := by
  obtain ⟨s, hs, hp⟩ := exists_reach_of_run (step next) Any init
    [(false, .probe true), (false, .go true), (false, .go true), (false, .go true),
      (false, .go true), (true, .install 0), (false, .remove), (false, .go true), (true, .go true),
      (true, .go true), (false, .go true), (false, .go true)]
    (fun s : St Bool (Shared Bool) Pc => s.pc true = .ttyNull 0 ∧ 0 ∈ s.shared.freed)
    (by decide +kernel)
  exact ⟨s, hs, by simpa using hp⟩

end Wallace.TtyPorts
