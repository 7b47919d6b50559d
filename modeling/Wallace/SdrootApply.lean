import Mathlib.Data.List.Basic
import Mathlib.Data.List.Infix
import Mathlib.Tactic.Common
import Wallace.Runs

/-!
The remote half of the installation onto the SD root, `t6040-sdroot-apply-remote`: a script under
`set -e` with a trap on its exit and on `INT` and `TERM`.

Every command succeeds or fails, and signals come between any two of them. The trap takes the
status of the last command, whatever that was; once it has removed itself, a signal ends the
script, and so does, under `set -e`, a command outside of a condition that fails: the `sync`, or
the `echo` of a `STOP`. Whether there is something to unmount is asked of `mountpoint -q`, which
may be wrong. Of the outcomes the kernel refuses some: a device is not detached that is not
attached, and a file system with an attached file is not unmounted. A loop device that is detached
while it is mounted stays attached until it is not.
-/

namespace Wallace.SdrootApply

open Runs

/-- The commands of the script, with the conditions that stop it. -/
inductive Cmd
  | mkdir
  | labelIs
  | typeIs
  | readFlags
  | flagsClean
  | mountSd
  | imageSizeIs
  | losetupFree
  | losetup
  | uuidIs
  | rootTypeIs
  | readState
  | stateClean
  | mountRoot
  /-- `[ -e ... ] || cp -p ...`. -/
  | backup
  | cp (file : String)
  | chmod (mode : String)
  | link (name : String)
  | hashes
  | sync
  | umountRoot
  | losetupDetach
  | clearLoop
  | umountSd
  | untrap
  | applied
  deriving DecidableEq

def program : List Cmd :=
  [.mkdir, .labelIs, .typeIs, .readFlags, .flagsClean, .mountSd, .imageSizeIs, .losetupFree,
    .losetup, .uuidIs, .rootTypeIs, .readState, .stateClean, .mountRoot, .backup, .cp "inittab",
    .cp "t6040-sdroot-early-console", .cp "t6040-sdroot-openrc", .cp "t6040-sdroot-powerctl",
    .chmod "0644", .chmod "0755", .link "reboot", .link "poweroff", .hashes, .sync, .umountRoot,
    .losetupDetach, .clearLoop, .umountSd, .untrap, .applied]

/-- What the script has mounted and attached, and whether `LOOP` is set. -/
structure Disk where
  sd : Bool := false
  loopVar : Bool := false
  attached : Bool := false
  root : Bool := false
  deriving DecidableEq

/-- What a command does when it succeeds. -/
def effect (d : Disk) : Cmd → Disk
  | .mountSd => { d with sd := true }
  | .losetupFree => { d with loopVar := true }
  | .losetup => { d with attached := true }
  | .mountRoot => { d with root := true }
  | .umountRoot => { d with root := false }
  | .losetupDetach => { d with attached := d.root }
  | .clearLoop => { d with loopVar := false }
  | .umountSd => { d with sd := false }
  | _ => d

/-- The commands that cannot fail. -/
def Cmd.sure : Cmd → Bool
  | .clearLoop | .untrap => true
  | _ => false

/-- Where the script stands: before the first of the commands that are left, at a line of
`cleanup`, or at its end. -/
inductive Place
  | main (left : List Cmd)
  | takeStatus
  | untrap
  | sync
  | umountRoot
  | detach
  | umountSd
  | exit
  | ended
  | killed
  deriving DecidableEq

/-- What `cleanup` relies on, and may fail: its `sync`, the `echo` of a `STOP`, and
`mountpoint -q`, which denies a mount. -/
inductive Lapse
  | sync
  | echo
  | mountpoint
  deriving DecidableEq

structure St where
  place : Place := .main program
  disk : Disk := {}
  /-- `$?`. -/
  status : ℕ := 0
  /-- At the end, the status of the script. -/
  rc : ℕ := 0
  done : List Cmd := []
  /-- A line of `cleanup` has printed `STOP`. -/
  stop : Bool := false
  lapses : List Lapse := []
  signalled : Bool := false

inductive Act
  | ok
  | fail (status : ℕ)
  /-- `mountpoint -q` does not see a mount. -/
  | denied
  /-- A line of `cleanup` fails, and its `echo` as well. -/
  | mute
  | signal
  deriving DecidableEq

/-- `echo STOP; rc=1`. -/
def St.stopped (s : St) (next : Place) : St := { s with place := next, stop := true, rc := 1 }

def St.muted (s : St) : St :=
  { s with place := .ended, rc := 1, lapses := s.lapses ++ [.echo] }

/-- A line of `cleanup` that is skipped unless there is something to undo, which some of them ask
`mountpoint`. -/
def undo (s : St) (asks present allowed : Bool) (d : Disk) (next : Place) : Act → Option St
  | .ok =>
    if present then (if allowed then some { s with place := next, disk := d } else none)
    else some { s with place := next }
  | .fail _ => if present || asks then some (s.stopped next) else none
  | .denied =>
    if present && asks then some { s with place := next, lapses := s.lapses ++ [.mountpoint] }
    else none
  | .mute => if present || asks then some s.muted else none
  | .signal => some { s with place := .killed, signalled := true }

def step (s : St) (a : Act) : Option St :=
  match s.place with
  | .main [] =>
    match a with
    | .ok => some { s with place := .ended }
    | .signal => some { s with place := .killed, signalled := true }
    | .fail _ | .denied | .mute => none
  | .main (c :: left) =>
    match a with
    | .ok =>
      some
        { s with
          place := .main left
          disk := effect s.disk c
          status := 0
          done := s.done ++ [c] }
    | .fail status =>
      if c.sure || status = 0 then none
      -- behind the trap the script just ends
      else if .untrap ∈ s.done then some { s with place := .ended, rc := status }
      else some { s with place := .takeStatus, status := status }
    | .signal =>
      if .untrap ∈ s.done then some { s with place := .killed, signalled := true }
      else some { s with place := .takeStatus, signalled := true }
    | .denied | .mute => none
  | .takeStatus =>
    match a with
    | .ok => some { s with place := .untrap, rc := s.status, status := 0 }
    | .signal => some { s with signalled := true }
    | .fail _ | .denied | .mute => none
  | .untrap =>
    match a with
    | .ok => some { s with place := .sync }
    | .signal => some { s with place := .takeStatus, signalled := true }
    | .fail _ | .denied | .mute => none
  | .sync =>
    match a with
    | .ok => some { s with place := .umountRoot }
    | .fail status =>
      if status = 0 then none
      else some { s with place := .ended, rc := status, lapses := s.lapses ++ [.sync] }
    | .signal => some { s with place := .killed, signalled := true }
    | .denied | .mute => none
  | .umountRoot => undo s true s.disk.root true { s.disk with root := false } .detach a
  | .detach =>
    undo s false s.disk.loopVar s.disk.attached { s.disk with attached := s.disk.root } .umountSd a
  | .umountSd => undo s true s.disk.sd (!s.disk.attached) { s.disk with sd := false } .exit a
  | .exit =>
    match a with
    | .ok => some { s with place := .ended }
    | .signal => some { s with place := .killed, signalled := true }
    | .fail _ | .denied | .mute => none
  | .ended | .killed => none

def init : St := {}

/-! ### The invariant -/

/-- Nothing is mounted, and the loop device is not attached. -/
def Disk.Clean (d : Disk) : Prop := d.sd = false ∧ d.attached = false ∧ d.root = false

/-- The root is mounted from the loop device, and that is attached to a file on the card. -/
def Disk.Sane (d : Disk) : Prop :=
  (d.root = true → d.attached = true) ∧ (d.attached = true → d.loopVar = true ∧ d.sd = true)

/-- What has been looked at before the card is mounted. -/
def sdChecks : List Cmd := [.labelIs, .typeIs, .readFlags, .flagsClean]

/-- What has been looked at before the root is mounted. -/
def rootChecks : List Cmd :=
  sdChecks ++ [.imageSizeIs, .uuidIs, .rootTypeIs, .readState, .stateClean]

/-- Nothing is mounted that has not been looked at. -/
def Disk.Checked (d : Disk) (done : List Cmd) : Prop :=
  (d.sd = true → sdChecks ⊆ done) ∧ (d.root = true → rootChecks ⊆ done)

instance : DecidablePred Disk.Clean := fun _ => inferInstanceAs (Decidable (_ ∧ _))
instance : DecidablePred Disk.Sane := fun _ => inferInstanceAs (Decidable (_ ∧ _))
instance (d : Disk) : DecidablePred d.Checked := fun _ => inferInstanceAs (Decidable (_ ∧ _))

/-- A failed cleanup says so. -/
def St.Admits (s : St) : Prop := s.stop = true ∧ s.rc = 1

/-- A mount that is left is admitted, unless something has failed that `cleanup` relies on. -/
def St.Excused (s : St) : Prop := s.Admits ∨ s.lapses ≠ []

/-- The script cannot have ended well. -/
def St.Broken (s : St) (status : ℕ) : Prop := s.signalled = true ∨ status ≠ 0

/-- What is left at a place of the script. -/
def Left (s : St) : Prop :=
  match s.place with
  | .main left => s.done ++ left = program ∧ s.disk = s.done.foldl effect {} ∧ s.rc = 0
  | .takeStatus => s.disk.Sane ∧ s.Broken s.status
  | .untrap | .sync | .umountRoot => s.disk.Sane ∧ s.Broken s.rc
  | .detach =>
    (s.disk.root = true → s.Excused) ∧ (s.disk.attached = true → s.disk.loopVar = true) ∧
      s.Broken s.rc
  | .umountSd => (s.disk.root = true ∨ s.disk.attached = true → s.Excused) ∧ s.Broken s.rc
  | .exit => (s.disk.Clean ∨ s.Excused) ∧ s.Broken s.rc
  | .ended => (s.disk.Clean ∨ s.Excused) ∧ (s.rc = 0 → s.done = program ∨ s.signalled = true)
  | .killed => True

structure Inv (s : St) : Prop where
  left : Left s
  done : s.done <+: program
  checked : s.disk.Checked s.done
  /-- The trap is given up only over a clean disk. -/
  trap : .untrap ∈ s.done → s.disk.Clean

/-! ### The commands -/

/-- How far the script has come says what is mounted. -/
lemma program_prefixes :
    ∀ l ∈ program.inits,
      (l.foldl effect {}).Sane ∧ (l.foldl effect {}).Checked l ∧
        (.untrap ∈ l → (l.foldl effect {}).Clean) ∧ (.applied ∈ l → l = program) := by
  decide +kernel

lemma program_clean : (program.foldl effect {}).Clean := by
  decide +kernel

section

variable {s s' : St}

lemma prefix_facts {l : List Cmd} (h : l <+: program) :
    (l.foldl effect {}).Sane ∧ (l.foldl effect {}).Checked l ∧
      (.untrap ∈ l → (l.foldl effect {}).Clean) ∧ (.applied ∈ l → l = program) :=
  program_prefixes l ((List.mem_inits l program).mpr h)

lemma inv_main_ok {c : Cmd} {left : List Cmd} (hi : Inv s) (hp : s.place = .main (c :: left)) :
    Inv
      { s with
        place := .main left
        disk := effect s.disk c
        status := 0
        done := s.done ++ [c] } := by
  obtain ⟨hl, hd, hc, ht⟩ := hi
  simp only [Left, hp] at hl
  obtain ⟨hl, he, hr⟩ := hl
  have hl' : (s.done ++ [c]) ++ left = program := by rw [List.append_assoc]; exact hl
  have he' : effect s.disk c = (s.done ++ [c]).foldl effect {} := by
    rw [List.foldl_append, ← he]
    rfl
  have hpre : s.done ++ [c] <+: program := ⟨left, hl'⟩
  have hf := prefix_facts hpre
  rw [← he'] at hf
  exact ⟨⟨hl', he', hr⟩, hpre, hf.2.1, hf.2.2.1⟩

/-- A command that fails, or a signal, in the reach of the trap. -/
lemma left_takeStatus {left : List Cmd} (hi : Inv s) (hp : s.place = .main left) (signalled : Bool)
    (status : ℕ) (h : signalled = true ∨ status ≠ 0) :
    Left { s with place := .takeStatus, status := status, signalled := signalled } := by
  have hl := hi.left
  simp only [Left, hp] at hl
  refine ⟨?_, h⟩
  change s.disk.Sane
  rw [hl.2.1]
  exact (prefix_facts hi.done).1

/-! ### The cleanup -/

/-- What a line of `cleanup` may do. -/
lemma undo_cases {asks present allowed : Bool} {d : Disk} {next : Place} {a : Act}
    (h : undo s asks present allowed d next a = some s') :
    (present = true ∧ allowed = true ∧ s' = { s with place := next, disk := d }) ∨
      (present = false ∧ s' = { s with place := next }) ∨
      s' = s.stopped next ∨
      s' = { s with place := next, lapses := s.lapses ++ [.mountpoint] } ∨
      s' = s.muted ∨
      s' = { s with place := .killed, signalled := true } := by
  cases a <;> cases asks <;> cases present <;> cases allowed <;> simp_all [undo]

/-- Where nothing is mounted anew and no command of the script is run, the place is all that is
left to look at. -/
lemma inv_of_left (hi : Inv s) (hl : Left s') (hd : s'.done = s.done)
    (hs : s'.disk.sd = true → s.disk.sd = true) (hr : s'.disk.root = true → s.disk.root = true)
    (hc : s.disk.Clean → s'.disk.Clean) : Inv s' := by
  obtain ⟨-, hdone, hch, ht⟩ := hi
  rw [← hd] at hdone hch ht
  exact ⟨hl, hdone, ⟨fun h => hch.1 (hs h), fun h => hch.2 (hr h)⟩, fun h => hc (ht h)⟩

lemma inv_same_disk (hi : Inv s) (hl : Left s') (hd : s'.done = s.done)
    (he : s'.disk = s.disk) : Inv s' :=
  inv_of_left hi hl hd (by simp [he]) (by simp [he]) (by simp [he])

lemma broken_stopped (s : St) (next : Place) : (s.stopped next).Broken (s.stopped next).rc :=
  .inr Nat.one_ne_zero

lemma excused_stopped (s : St) (next : Place) : (s.stopped next).Excused := .inl ⟨rfl, rfl⟩

lemma excused_lapse {l : List Lapse} {x : Lapse} (h : s.lapses = l ++ [x]) : s.Excused :=
  .inr (h ▸ List.concat_ne_nil x l)

/-- An `echo` that fails ends the script, but not well. -/
lemma inv_muted (hi : Inv s) : Inv s.muted :=
  inv_same_disk hi ⟨.inr (excused_lapse rfl), fun h => absurd h Nat.one_ne_zero⟩ rfl rfl

lemma inv_umountRoot {a : Act} (hi : Inv s) (hp : s.place = .umountRoot)
    (h : undo s true s.disk.root true { s.disk with root := false } .detach a = some s') :
    Inv s' := by
  have hl := hi.left
  simp only [Left, hp] at hl
  obtain ⟨hsane, hb⟩ := hl
  have hvar : s.disk.attached = true → s.disk.loopVar = true := fun h => (hsane.2 h).1
  rcases undo_cases h with ⟨-, -, rfl⟩ | ⟨hr, rfl⟩ | rfl | rfl | rfl | rfl
  · refine inv_of_left hi ⟨by simp, hvar, hb⟩ rfl (fun h => h) (by simp) ?_
    exact fun h => ⟨h.1, h.2.1, rfl⟩
  · refine inv_same_disk hi ⟨?_, hvar, hb⟩ rfl rfl
    simp [hr]
  · refine inv_same_disk hi ⟨?_, hvar, broken_stopped s _⟩ rfl rfl
    exact fun _ => excused_stopped s _
  · exact inv_same_disk hi ⟨fun _ => excused_lapse rfl, hvar, hb⟩ rfl rfl
  · exact inv_muted hi
  · exact inv_same_disk hi trivial rfl rfl

/-- A loop device that is still mounted stays attached, but then the line before has failed. -/
lemma inv_detach {a : Act} (hi : Inv s) (hp : s.place = .detach)
    (h : undo s false s.disk.loopVar s.disk.attached { s.disk with attached := s.disk.root }
      .umountSd a = some s') : Inv s' := by
  have hl := hi.left
  simp only [Left, hp] at hl
  obtain ⟨hr, ha, hb⟩ := hl
  rcases undo_cases h with ⟨-, -, rfl⟩ | ⟨hv, rfl⟩ | rfl | rfl | rfl | rfl
  · refine inv_of_left hi ⟨?_, hb⟩ rfl (fun h => h) (fun h => h) ?_
    · exact fun h => hr (h.elim id id)
    · exact fun h => ⟨h.1, h.2.2, h.2.2⟩
  · refine inv_same_disk hi ⟨?_, hb⟩ rfl rfl
    rintro (h | h)
    · exact hr h
    · rw [ha h] at hv
      cases hv
  · exact inv_same_disk hi ⟨fun _ => excused_stopped s _, broken_stopped s _⟩ rfl rfl
  · exact inv_same_disk hi ⟨fun _ => excused_lapse rfl, hb⟩ rfl rfl
  · exact inv_muted hi
  · exact inv_same_disk hi trivial rfl rfl

lemma inv_umountSd {a : Act} (hi : Inv s) (hp : s.place = .umountSd)
    (h : undo s true s.disk.sd (!s.disk.attached) { s.disk with sd := false } .exit a = some s') :
    Inv s' := by
  have hl := hi.left
  simp only [Left, hp] at hl
  obtain ⟨hra, hb⟩ := hl
  -- what is not clean but for the card has been excused two lines above
  have hrest : ¬ s.Excused → s.disk.attached = false ∧ s.disk.root = false := by
    intro hn
    have := fun h => hn (hra h)
    simpa [not_or, and_comm] using this
  rcases undo_cases h with ⟨-, -, rfl⟩ | ⟨hs, rfl⟩ | rfl | rfl | rfl | rfl
  · refine inv_of_left hi ⟨?_, hb⟩ rfl (by simp) (fun h => h) (fun h => ⟨rfl, h.2⟩)
    by_cases ha : s.Excused
    · exact .inr ha
    · exact .inl ⟨rfl, hrest ha⟩
  · refine inv_same_disk hi ⟨?_, hb⟩ rfl rfl
    by_cases ha : s.Excused
    · exact .inr ha
    · exact .inl ⟨hs, hrest ha⟩
  · exact inv_same_disk hi ⟨.inr (excused_stopped s _), broken_stopped s _⟩ rfl rfl
  · exact inv_same_disk hi ⟨.inr (excused_lapse rfl), hb⟩ rfl rfl
  · exact inv_muted hi
  · exact inv_same_disk hi trivial rfl rfl

/-! ### The steps -/

/-- Behind the trap everything is unmounted; in its reach it takes the status. -/
lemma inv_main_fail {c : Cmd} {left : List Cmd} {status : ℕ} (hi : Inv s)
    (hp : s.place = .main (c :: left)) (h : step s (.fail status) = some s') : Inv s' := by
  simp only [step, hp] at h
  split at h
  · cases h
  · rename_i hsure
    have hstatus : status ≠ 0 := by
      rintro rfl
      simp at hsure
    split at h
    · rename_i hu
      cases h
      exact inv_same_disk hi ⟨.inl (hi.trap hu), fun h => absurd h hstatus⟩ rfl rfl
    · cases h
      exact inv_same_disk hi (left_takeStatus hi hp s.signalled status (.inr hstatus)) rfl rfl

lemma inv_main_signal {c : Cmd} {left : List Cmd} (hi : Inv s) (hp : s.place = .main (c :: left))
    (h : step s .signal = some s') : Inv s' := by
  simp only [step, hp] at h
  split at h
  · cases h
    exact inv_same_disk hi trivial rfl rfl
  · cases h
    exact inv_same_disk hi (left_takeStatus hi hp true s.status (.inl rfl)) rfl rfl

lemma inv_main_end (hi : Inv s) (hp : s.place = .main []) :
    Inv { s with place := .ended } := by
  have hl := hi.left
  simp only [Left, hp, List.append_nil] at hl
  obtain ⟨hdone, hdisk, -⟩ := hl
  refine inv_same_disk hi ⟨.inl ?_, fun _ => .inl hdone⟩ rfl rfl
  change s.disk.Clean
  rw [hdisk, hdone]
  exact program_clean

theorem inv_step (s : St) (a : Act) (s' : St) (hi : Inv s) (h : step s a = some s') : Inv s' := by
  have hl := hi.left
  rcases hp : s.place with (_ | ⟨c, left⟩) | _ | _ | _ | _ | _ | _ | _ | _ | _
  case main.nil =>
    simp only [step, hp] at h
    split at h <;> cases h
    · exact inv_main_end hi hp
    · exact inv_same_disk hi trivial rfl rfl
  case main.cons =>
    cases a with
    | ok =>
      simp only [step, hp, Option.some.injEq] at h
      exact h ▸ inv_main_ok hi hp
    | fail status => exact inv_main_fail hi hp h
    | signal => exact inv_main_signal hi hp h
    | denied => simp [step, hp] at h
    | mute => simp [step, hp] at h
  case takeStatus =>
    simp only [Left, hp] at hl
    simp only [step, hp] at h
    split at h <;> cases h
    · exact inv_same_disk hi hl rfl rfl
    · exact inv_same_disk hi (by simp only [Left]; exact ⟨hl.1, .inl rfl⟩) rfl rfl
  case untrap =>
    simp only [Left, hp] at hl
    simp only [step, hp] at h
    split at h <;> cases h
    · exact inv_same_disk hi hl rfl rfl
    · exact inv_same_disk hi ⟨hl.1, .inl rfl⟩ rfl rfl
  case sync =>
    simp only [Left, hp] at hl
    simp only [step, hp] at h
    split at h
    · cases h
      exact inv_same_disk hi hl rfl rfl
    · split at h <;> cases h
      rename_i hstatus
      exact inv_same_disk hi ⟨.inr (excused_lapse rfl), fun h => absurd h hstatus⟩ rfl rfl
    · cases h
      exact inv_same_disk hi trivial rfl rfl
    · cases h
    · cases h
  case umountRoot =>
    simp only [step, hp] at h
    exact inv_umountRoot hi hp h
  case detach =>
    simp only [step, hp] at h
    exact inv_detach hi hp h
  case umountSd =>
    simp only [step, hp] at h
    exact inv_umountSd hi hp h
  case exit =>
    simp only [Left, hp] at hl
    simp only [step, hp] at h
    split at h <;> cases h
    · refine inv_same_disk hi ⟨hl.1, fun h => .inr (hl.2.elim id (absurd h))⟩ rfl rfl
    · exact inv_same_disk hi trivial rfl rfl
  case ended => simp [step, hp] at h
  case killed => simp [step, hp] at h

lemma inv_init : Inv init where
  left := ⟨rfl, rfl, rfl⟩
  done := List.nil_prefix
  checked := ⟨fun h => absurd h Bool.false_ne_true, fun h => absurd h Bool.false_ne_true⟩
  trap h := absurd h List.not_mem_nil

lemma inv_of_reach (h : Reach step Any init s) : Inv s :=
  h.invariant Inv inv_init fun s a s' hi _ hs => inv_step s a s' hi hs

/-! ### What `cleanup` relies on -/

/-- What may fail and let `cleanup` go on is `mountpoint`; all else ends the script, and not
well. -/
def St.Lapsed (s : St) : Prop :=
  ∀ l ∈ s.lapses, l = .mountpoint ∨ (s.place = .ended ∧ s.rc ≠ 0)

lemma lapses_undo {asks present allowed : Bool} {d : Disk} {next : Place} {a : Act}
    (h : undo s asks present allowed d next a = some s') :
    s'.lapses = s.lapses ∨ s'.lapses = s.lapses ++ [.mountpoint] ∨
      (s'.place = .ended ∧ s'.rc ≠ 0) := by
  rcases undo_cases h with ⟨-, -, rfl⟩ | ⟨-, rfl⟩ | rfl | rfl | rfl | rfl
  · exact .inl rfl
  · exact .inl rfl
  · exact .inl rfl
  · exact .inr (.inl rfl)
  · exact .inr (.inr ⟨rfl, Nat.one_ne_zero⟩)
  · exact .inl rfl

lemma lapses_step {a : Act} (h : step s a = some s') :
    s.place ≠ .ended ∧ (s'.lapses = s.lapses ∨ s'.lapses = s.lapses ++ [.mountpoint] ∨
      (s'.place = .ended ∧ s'.rc ≠ 0)) := by
  rcases hp : s.place with (_ | ⟨c, left⟩) | _ | _ | _ | _ | _ | _ | _ | _ | _ <;>
  simp only [step, hp] at h
  case ended | killed => cases h
  all_goals refine ⟨by simp, ?_⟩
  case umountRoot | detach | umountSd => exact lapses_undo h
  case sync =>
    split at h
    · cases h
      exact .inl rfl
    · split at h <;> cases h
      rename_i hstatus
      exact .inr (.inr ⟨rfl, hstatus⟩)
    · cases h
      exact .inl rfl
    · cases h
    · cases h
  case main.cons =>
    split at h
    · cases h
      exact .inl rfl
    · split_ifs at h <;> cases h <;> exact .inl rfl
    · split_ifs at h <;> cases h <;> exact .inl rfl
    · cases h
    · cases h
  all_goals
    split at h <;> cases h <;> exact .inl rfl

lemma lapsed_step (s : St) (a : Act) (s' : St) (hl : s.Lapsed) (h : step s a = some s') :
    s'.Lapsed := by
  obtain ⟨hne, hc⟩ := lapses_step h
  have hm : ∀ l ∈ s.lapses, l = .mountpoint := fun l hl' =>
    (hl l hl').resolve_right fun hp => hne hp.1
  rcases hc with hc | hc | hc
  · exact fun l hl' => .inl (hm l (hc ▸ hl'))
  · intro l hl'
    rw [hc, List.mem_append, List.mem_singleton] at hl'
    exact .inl (hl'.elim (hm l) id)
  · exact fun _ _ => .inr hc

/-- **The installation leaves nothing behind unsaid.** Whatever fails and whenever a signal comes:
what is mounted has passed its checks; a script that ends by itself has unmounted and detached
everything, or has said `STOP` and ends with status 1, unless `cleanup` was let down by its `sync`,
by the `echo` of a `STOP` or by `mountpoint`, and of these the first two end the script with
another status than 0; `APPLIED` is printed only when every command has succeeded and nothing is
mounted; and without a signal status 0 means that. -/
theorem apply_leaves_nothing (h : Reach step Any init s) :
    s.disk.Checked s.done ∧
      (s.place = .ended → s.lapses = [] → s.disk.Clean ∨ s.Admits) ∧
      (s.place = .ended → s.rc = 0 → ∀ l ∈ s.lapses, l = .mountpoint) ∧
      (.applied ∈ s.done → s.done = program ∧ s.disk.Clean) ∧
      (s.place = .ended → s.rc = 0 → s.signalled = false → s.done = program) := by
  have hi := inv_of_reach h
  have hlapsed : s.Lapsed := h.invariant St.Lapsed (fun l hl => by cases hl)
    fun s a s' hl _ hs => lapsed_step s a s' hl hs
  refine ⟨hi.checked, fun hp hnone => ?_, fun hp hrc l hl => ?_, fun ha => ?_,
    fun hp hrc hs => ?_⟩
  · have hl := hi.left
    simp only [Left, hp] at hl
    exact hl.1.imp_right fun he => he.resolve_right fun hne => hne hnone
  · exact (hlapsed l hl).resolve_right fun hne => hne.2 hrc
  · have hd := (prefix_facts hi.done).2.2.2 ha
    exact ⟨hd, hi.trap (hd ▸ by decide)⟩
  · have hl := hi.left
    simp only [Left, hp] at hl
    rcases hl.2 hrc with hd | hd
    · exact hd
    · rw [hs] at hd
      cases hd

end

/-- A signal while the files are copied: all is undone, and the status is 0. -/
theorem apply_leaves_nothing_signal :
    ∃ s, Reach step Any init s ∧ (s.place = .ended ∧ s.lapses = [] ∧ s.rc = 0 ∧ .applied ∉ s.done) ∧
      (s.disk.Clean ∨ s.Admits) := by
  obtain ⟨s, hs, hp⟩ := exists_reach_of_run step Any init
    (List.replicate 17 .ok ++ [.signal] ++ List.replicate 7 .ok)
    (fun s => s.place = .ended ∧ s.lapses = [] ∧ s.rc = 0 ∧ .applied ∉ s.done) (by decide +kernel)
  rw [decide_eq_true_eq] at hp
  exact ⟨s, hs, hp, (apply_leaves_nothing hs).2.1 hp.1 hp.2.1⟩

/-- A copy fails, and then the `sync` of `cleanup`: all stays mounted, and no `STOP` is printed. -/
theorem sync_leaves_all :
    ∃ s, Reach step Any init s ∧ s.place = .ended ∧ s.rc = 5 ∧ s.stop = false ∧
      s.disk.sd = true ∧ s.disk.attached = true ∧ s.disk.root = true := by
  obtain ⟨s, hs, hp⟩ := exists_reach_of_run step Any init
    (List.replicate 17 .ok ++ [.fail 1, .ok, .ok, .fail 5])
    (fun s => s.place = .ended ∧ s.rc = 5 ∧ s.stop = false ∧ s.disk.sd = true ∧
      s.disk.attached = true ∧ s.disk.root = true) (by decide +kernel)
  rw [decide_eq_true_eq] at hp
  exact ⟨s, hs, hp⟩

end Wallace.SdrootApply
