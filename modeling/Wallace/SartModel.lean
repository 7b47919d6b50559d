import Mathlib.Data.Finset.Card
import Mathlib.Data.Fintype.Basic
import Mathlib.Data.List.FinRange
import Mathlib.Tactic.Common

/-!
The power-managed SART: `sart.c` with the third register layout and CoastGuard power control.

A call runs to its end before the next one begins. Whether a power poll confirms the state
that was asked for is up to the hardware, and is part of the call; one call polls at most once
in each direction. Every access to an entry register, every put and every request to go
inactive is logged with what the driver knew at that moment.
-/

namespace Wallace.SartModel

/-- `APPLE_SART_MAX_ENTRIES` entries. -/
abbrev Index := Fin 16

/-- The three registers of an entry. -/
structure Entry where
  config : BitVec 32
  paddr : BitVec 32
  size : BitVec 32
  deriving DecidableEq

/-- `struct apple_sart`, without what never changes. -/
structure Sart where
  protectedEntries : Finset Index := ∅
  usedEntries : Finset Index := ∅
  powerUsers : ℕ := 0
  deriving DecidableEq

/-- What happened, in the order it happened. `users` is `power_users` and `active` says that
an activation was confirmed and no request to go inactive came after it. -/
inductive Event
  | readEntry (i : Index) (users : ℕ) (active : Bool)
  | writeEntry (i : Index) (users : ℕ) (active isProtected : Bool)
  | put (users : ℕ)
  | askInactive (used : Finset Index)
  deriving DecidableEq

/-- The entry registers and the power state, with the log. -/
structure Hw where
  regs : Index → Entry
  active : Bool := false
  log : List Event := []

/-- The hardware and the driver's data, in the course of a call. -/
structure Dev where
  hw : Hw
  sart : Sart

/-- The error codes of the calls. -/
inductive Err | einval | ebusy | enomem | etimedout
  deriving DecidableEq

/-- What a call returns: an error, or none. -/
abbrev Ret := Option Err

def Dev.note (d : Dev) (e : Event) : Dev := { d with hw.log := d.hw.log ++ [e] }

/-! ### Power -/

/-- `sart_power_get`. `polled` is whether the activation is confirmed in time, if it comes to
that. -/
def sartPowerGet (polled : Bool) (d : Dev) : Ret × Dev :=
  if d.sart.powerUsers = 0 then
    if polled then (none, { d with hw.active := true, sart.powerUsers := 1 })
    else (some .etimedout, { d with hw.active := false })
  else (none, { d with sart.powerUsers := d.sart.powerUsers + 1 })

/-- `sart_power_put`. That a deactivation is not confirmed in time is only reported. -/
def sartPowerPut (d : Dev) : Dev :=
  let d := d.note (.put d.sart.powerUsers)
  if d.sart.powerUsers = 0 then d
  else
    let d := { d with sart.powerUsers := d.sart.powerUsers - 1 }
    if d.sart.powerUsers = 0 then
      { d.note (.askInactive d.sart.usedEntries) with hw.active := false }
    else d

/-! ### Entries -/

/-- The fields of an entry as `sart3_get_entry` gives them. -/
def Entry.flags (e : Entry) : BitVec 8 := e.config.setWidth 8
def Entry.addr (e : Entry) : BitVec 64 := e.paddr.setWidth 64 <<< 12
def Entry.len (e : Entry) : BitVec 64 := e.size.setWidth 64 <<< 12

/-- `sart3_get_entry`. -/
def sart3GetEntry (i : Index) (d : Dev) : Entry × Dev :=
  (d.hw.regs i, d.note (.readEntry i d.sart.powerUsers d.hw.active))

/-- `sart3_set_entry`. -/
def sart3SetEntry (i : Index) (flags : BitVec 8) (paddrShifted sizeShifted : BitVec 64) (d : Dev) :
    Dev :=
  let d := d.note
    (.writeEntry i d.sart.powerUsers d.hw.active (decide (i ∈ d.sart.protectedEntries)))
  let e : Entry := ⟨flags.setWidth 32, paddrShifted.setWidth 32, sizeShifted.setWidth 32⟩
  { d with hw.regs := Function.update d.hw.regs i e }

def sizeMax : BitVec 64 := 0x3fffffff

/-- `sart_set_entry`: sizes and addresses in pages, and not more than the register holds. -/
def sartSetEntry (i : Index) (flags : BitVec 8) (paddr size : BitVec 64) (d : Dev) : Ret × Dev :=
  if size &&& 0xfff ≠ 0 then (some .einval, d)
  else if paddr &&& 0xfff ≠ 0 then (some .einval, d)
  else if size >>> 12 > sizeMax then (some .einval, d)
  else (none, sart3SetEntry i flags (paddr >>> 12) (size >>> 12) d)

/-! ### The calls -/

/-- `for (i = 0; i < APPLE_SART_MAX_ENTRIES; ++i)`. -/
def indices : List Index := List.finRange 16

/-- The boot-entry scan: an entry with flags belongs to the boot loader. -/
def scanLoop : List Index → Dev → Dev
  | [], d => d
  | i :: rest, d =>
    let (e, d) := sart3GetEntry i d
    if e.flags = 0 then scanLoop rest d
    else scanLoop rest
      { d with sart.protectedEntries := insert i d.sart.protectedEntries }

/-- `apple_sart_probe`, with a new `struct apple_sart`; `setup` is an error of the allocation
or of the mapping of the registers. -/
def appleSartProbe (setup : Option Err) (polled : Bool) (hw : Hw) : Ret × Hw × Option Sart :=
  match setup with
  | some e => (some e, hw, none)
  | none =>
    match sartPowerGet polled ⟨hw, {}⟩ with
    | (none, d) =>
      let d := sartPowerPut (scanLoop indices d)
      (none, d.hw, some d.sart)
    | (e, d) => (e, d.hw, none)

def flagsAllow : BitVec 8 := 0xff

def addLoop (paddr size : BitVec 64) : List Index → Dev → Ret × Dev
  | [], d => (some .ebusy, sartPowerPut d)
  | i :: rest, d =>
    if i ∈ d.sart.protectedEntries then addLoop paddr size rest d
    else if i ∈ d.sart.usedEntries then addLoop paddr size rest d
    else
      let d := { d with sart.usedEntries := insert i d.sart.usedEntries }
      match sartSetEntry i flagsAllow paddr size d with
      | (none, d) => (none, d)
      | (e, d) =>
        (e, sartPowerPut { d with sart.usedEntries := d.sart.usedEntries.erase i })

/-- `apple_sart_add_allowed_region`. -/
def appleSartAddAllowedRegion (paddr size : BitVec 64) (polled : Bool) (d : Dev) : Ret × Dev :=
  match sartPowerGet polled d with
  | (none, d) => addLoop paddr size indices d
  | (e, d) => (e, d)

def removeLoop (paddr size : BitVec 64) : List Index → Dev → Ret × Dev
  | [], d => (some .einval, sartPowerPut d)
  | i :: rest, d =>
    if i ∈ d.sart.protectedEntries then removeLoop paddr size rest d
    else
      let (e, d) := sart3GetEntry i d
      if e.addr ≠ paddr ∨ e.len ≠ size then removeLoop paddr size rest d
      else
        let d := sart3SetEntry i 0 0 0 d
        let d := { d with sart.usedEntries := d.sart.usedEntries.erase i }
        -- the region's reference and that of this lookup
        (none, sartPowerPut (sartPowerPut d))

/-- `apple_sart_remove_allowed_region`. -/
def appleSartRemoveAllowedRegion (paddr size : BitVec 64) (polled : Bool) (d : Dev) : Ret × Dev :=
  match sartPowerGet polled d with
  | (none, d) => removeLoop paddr size indices d
  | (e, d) => (e, d)

def clearLoop : List Index → Dev → Dev
  | [], d => d
  | i :: rest, d =>
    if i ∈ d.sart.protectedEntries then clearLoop rest d
    else clearLoop rest (sart3SetEntry i 0 0 0 d)

def dropLoop : List Index → Dev → Dev
  | [], d => d
  | i :: rest, d =>
    if i ∈ d.sart.usedEntries then
      dropLoop rest
        (sartPowerPut { d with sart.usedEntries := d.sart.usedEntries.erase i })
    else dropLoop rest d

/-- `apple_sart_shutdown`, which returns nothing. -/
def appleSartShutdown (polled : Bool) (d : Dev) : Dev :=
  match sartPowerGet polled d with
  | (none, d) => sartPowerPut (dropLoop indices (clearLoop indices d))
  | (_, d) => d

/-! ### Sequences of calls -/

/-- The hardware, and the driver's data once the device is bound. -/
structure Sys where
  hw : Hw
  sart : Option Sart := none

inductive Call
  | probe (setup : Option Err) (polled : Bool)
  | add (paddr size : BitVec 64) (polled : Bool)
  | remove (paddr size : BitVec 64) (polled : Bool)
  | shutdown (polled : Bool)

/-- One call and what it returns. A device is probed while it is not bound, and the other
calls are for a bound one. -/
def call (y : Sys) : Call → Option (Ret × Sys)
  | .probe setup polled =>
    match y.sart with
    | some _ => none
    | none => let (r, hw, s) := appleSartProbe setup polled y.hw; some (r, ⟨hw, s⟩)
  | .add paddr size polled => y.sart.map fun s =>
    let (r, d) := appleSartAddAllowedRegion paddr size polled ⟨y.hw, s⟩
    (r, ⟨d.hw, some d.sart⟩)
  | .remove paddr size polled => y.sart.map fun s =>
    let (r, d) := appleSartRemoveAllowedRegion paddr size polled ⟨y.hw, s⟩
    (r, ⟨d.hw, some d.sart⟩)
  | .shutdown polled => y.sart.map fun s =>
    let d := appleSartShutdown polled ⟨y.hw, s⟩
    (none, ⟨d.hw, some d.sart⟩)

/-- A call as a step. -/
def step (y : Sys) (c : Call) : Option Sys := (call y c).map Prod.snd

end Wallace.SartModel
