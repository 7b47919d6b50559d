import Wallace.DailyModel

/-!
The daily inits write to their card or disk only behind all their gates.

The history is cut at the reading of the volume flags that are found clean, and at the read-write
mount. Before the first cut all pins have been passed; between the two nothing is written, the
image is looked at through a read-only view, and the view is taken down again; after the mount the
same image is attached, under the pinned UUID.
-/

namespace Wallace.DailyGated

open Wallace.Trail Wallace.History Wallace.Script Wallace.Gates Wallace.DailyModel
open Wallace.SdrootModel (Variant)
open Wallace.InstallModel (Sh dirty lastWord prints isController)

abbrev Event := Cmd × Answer

/-! ### What has to stand before a command -/

/-- The commands that can write to the card or to the disk. -/
def writes : Cmd → Bool
  | .fsck | .mountExfat .rw | .losetup .rw _ | .mountRoot _ => true
  | _ => false

/-- The card reader, the card below it and its label. -/
def sdPins (link pci mmc : Text) : List (Check Cmd) :=
  (.test 'd' pciDev, Answer.ok) :: slotGates.map Gate.check ++
    [(.test 'L' (pciDev ++ "/driver"), Answer.ok),
      (.readlink (pciDev ++ "/driver"), Answer.prints link)] ++
    (driverGates link).map Gate.check ++
    [(.test 'b' (part .sd), Answer.ok), (.test 'e' mmcDev, Answer.ok),
      (.readlinkF pciDev, Answer.prints pci), (.readlinkF mmcDev, Answer.prints mmc)] ++
    [labelGate.check]

/-- The SSD, the other partitions set read-only, the third partition and the write cache. -/
def nvmePins (transport model : Text) : List (Check Cmd) :=
  (.test 'b' (part .nvme), Answer.ok) :: topologyGates.map Gate.check ++
    [(.cat "/sys/class/nvme/nvme0/transport", Answer.prints transport),
      (.cat "/sys/class/nvme/nvme0/model", Answer.prints model)] ++
    (readOnlyGates ++ pinGates).map Gate.check ++ [cacheGate.check]

def Pinned (v : Variant) (h : List Event) : Prop :=
  match v with
  | .sd => ∃ link pci mmc, pci ≠ [] ∧ isBelow pci mmc = true ∧ Passed (sdPins link pci mmc) h
  | .nvme => ∃ transport model, isController transport model = true ∧
      Passed (nvmePins transport model) h

/-- The flags were just read, and say what is stated. -/
def FlagsRead (v : Variant) (sh : Sh) (d : Bool) (h : List Event) : Prop :=
  ∃ h₀ a, h = h₀ ++ [(.word (part v).toList 106, a)] ∧ flagsOf a ≠ [] ∧
    dirty sh (flagsOf a) = some d

/-- The dirty flag was read, and then the program that repairs was found. -/
def Repairable (v : Variant) (sh : Sh) (h : List Event) : Prop :=
  ∃ h₀ a, h = h₀ ++ [(.test 'x' "/sbin/fsck.exfat", a)] ∧ a.ok = true ∧ FlagsRead v sh true h₀

/-- The read-only view of the image: its size, its UUID and its state, and that it was taken
down. -/
def viewChecks (v : Variant) (loop : Text) : List (Check Cmd) :=
  (.mountExfat .ro, Answer.ok) :: (imageGates v).map Gate.check ++
    [(.losetupFree, Answer.prints loop)] ++ (viewGates v loop).map Gate.check ++
    [(.word loop 1082, fun a => equalsOne (lastWord a.out))] ++
    (takeDownGates v loop).map Gate.check

/-- The volume was found clean, and since then nothing was written and the image was found to be
the pinned one, in a clean state. -/
def Inspected (v : Variant) (sh : Sh) (h : List Event) : Prop :=
  ∃ h₀ t loop, h = h₀ ++ t ∧ FlagsRead v sh false h₀ ∧ loop ≠ [] ∧
    Passed (viewChecks v loop) t ∧ ∀ e ∈ t, writes e.1 = false

/-- A command that takes down what was mounted or attached. -/
def takesDown : Cmd → Bool
  | .umount _ | .losetupDetach _ => true
  | _ => false

/-- After an inspection the container was mounted read-write, and it still is. -/
def Reopened (v : Variant) (sh : Sh) (qs : List (Check Cmd)) (h : List Event) : Prop :=
  ∃ h₀ a t, h = h₀ ++ (.mountExfat .rw, a) :: t ∧ a.ok = true ∧ Inspected v sh h₀ ∧ Passed qs t ∧
    ∀ e ∈ t, takesDown e.1 = false

/-- The image on the loop device. -/
def rootChecks (v : Variant) (loop : Text) : List (Check Cmd) :=
  [(.losetupFree, Answer.prints loop), (.losetup .rw loop, Answer.ok),
    (.findfs ("UUID=" ++ rootUuid v), Answer.prints loop)]

def Acceptable (v : Variant) (sh : Sh) (h : List Event) (e : Event) : Prop :=
  match e.1 with
  | .fsck => Pinned v h ∧ Repairable v sh h
  | .mountExfat .rw => Pinned v h ∧ Inspected v sh h
  | .losetup .rw loop =>
    Pinned v h ∧ loop ≠ [] ∧ Reopened v sh [(.losetupFree, Answer.prints loop)] h
  | .mountRoot loop => Pinned v h ∧ loop ≠ [] ∧ Reopened v sh (rootChecks v loop) h
  | _ => True

variable {v : Variant} {sh : Sh} {phase : Cmd → Prop} {B P : List Event → Prop}
  {qs : List (Check Cmd)} {loop : Text}

lemma free_of_writes {c : Cmd} (hc : writes c = false) : Free (Acceptable v sh) c := by
  intro h a
  unfold Acceptable
  split <;> simp_all [writes]

/-! ### Undoing -/

lemma loose_umountSd : Loose (Acceptable v sh) umountSd :=
  (Loose.ask (free_of_writes rfl)).bind fun _ => .pure ()

lemma loose_detach (loop : Text) : Loose (Acceptable v sh) (detach loop) :=
  (Loose.ask (free_of_writes rfl)).bind fun _ => .pure ()

lemma loose_cleanupRoot (loop : Text) : Loose (Acceptable v sh) (cleanupRoot loop) := by
  refine (Loose.ask (free_of_writes rfl)).bind fun _ => ?_
  refine (Loose.forEach fun p => (Loose.ask (free_of_writes rfl)).bind fun _ => .pure ()).bind
    fun _ => ?_
  have hdetach : Loose (Acceptable v sh) (detachSet loop) := .ite (.pure ()) (loose_detach loop)
  exact hdetach.bind fun _ => loose_umountSd

/-- A gate without anything to undo. -/
lemma loose_require (c : Cmd) (test : Answer → Bool) (why : String) :
    Loose (Acceptable v sh) (require c test why).undo := .pure ()

/-! ### Before the flags -/

/-- Any command. -/
def AnyCmd (_ : Cmd) : Prop := True

/-- So far these checks were passed. -/
abbrev Early (qs : List (Check Cmd)) : List Event → Prop := Since AnyCmd (fun _ => True) qs

lemma Early.passed {h : List Event} (hs : Early qs h) : Passed qs h := by
  obtain ⟨h₀, t, rfl, -, -, hp⟩ := hs
  have hnil : Passed [] h₀ := .nil
  exact hnil.append hp

lemma early_skip {c : Cmd} (hc : writes c = false) :
    Spec (Acceptable v sh) (Early qs) (ask c) fun _ => Early qs :=
  ask_skip trivial fun h a _ => free_of_writes hc h a

lemma early_keep {c : Cmd} (hc : writes c = false) :
    Spec (Acceptable v sh) (Early qs) (ask c) fun a => Early (qs ++ [(c, Answer.prints a.out)]) :=
  ask_prints trivial fun h a _ => free_of_writes hc h a

lemma early_gates {gs : List (Gate Cmd)} (hw : gs.all fun g => !writes g.cmd)
    (hu : ∀ g ∈ gs, g.undo = pure ()) :
    Spec (Acceptable v sh) (Early qs) (gates gs) fun _ => Early (qs ++ gs.map Gate.check) := by
  refine gates_since (fun g hg => hu g hg ▸ .pure ()) fun g hg => ⟨trivial, free_of_writes ?_⟩
  simpa using List.all_eq_true.mp hw g hg

lemma early_holds {c : Cmd} (hc : writes c = false) :
    Spec (Acceptable v sh) (Early qs) (holds c) fun _ => Early qs :=
  .bind (early_skip hc) fun _ => .pure fun _ hs => hs

lemma early_wait {ready : ScriptM Cmd Bool} (n : ℕ)
    (hr : Spec (Acceptable v sh) (Early qs) ready fun _ => Early qs) :
    Spec (Acceptable v sh) (Early qs) (waitFor .sleep ready 0 n) fun _ => Early qs :=
  waitFor_spec (early_skip rfl) hr 0 n

lemma mountCore_spec : Spec (Acceptable v sh) (Early []) mountCore fun _ => Early [] := by
  have hone : ∀ fs, Spec (Acceptable v sh) (Early [])
      (orStop (.mountVirtual fs) "cannot mount proc, sysfs, and devtmpfs") fun _ => Early [] :=
    fun fs => orStop_spec (fun h a _ => free_of_writes rfl h a) (fun _ _ _ _ => trivial)
      fun _ a hs _ => hs.skip trivial a
  exact .bind (hone _) fun _ => .bind (hone _) fun _ => hone _

lemma keymap_spec : Spec (Acceptable v sh) (Early []) keymap fun _ => Early [] :=
  .bind (early_skip rfl) fun _ => .ite
    (fun _ => .bind (early_skip rfl) fun _ => .pure fun _ hs => hs) fun _ => .pure fun _ hs => hs

lemma pinSd_spec : Spec (Acceptable v sh) (Early []) pinSd fun _ h =>
    ∃ link pci mmc, (pci ≠ [] ∧ isBelow pci mmc = true) ∧ Early (sdPins link pci mmc) h := by
  refine .bind (early_wait 25 (early_holds rfl)) fun n => ?_
  refine .bind (early_gates rfl (by simp [slotGates, require])) fun _ => ?_
  refine .bind (early_wait 25 (early_holds rfl)) fun n => ?_
  refine .bind (early_gates rfl (by simp [require])) fun _ => ?_
  refine .bind (early_keep rfl) fun link => ?_
  refine .bind (early_gates rfl (by simp [driverGates, require])) fun _ => ?_
  refine .bind (early_wait 30 (early_holds rfl)) fun n => ?_
  refine .bind (early_gates rfl (by simp [require])) fun _ => ?_
  refine .bind (early_keep rfl) fun pci => .bind (early_keep rfl) fun mmc => ?_
  refine .bind (haltIf_spec (.pure ()) _) fun _ => .lift fun hne => ?_
  refine .bind (haltIf_spec (.pure ()) _) fun _ => .lift fun hbelow => ?_
  refine (early_gates rfl (by simp [labelGate])).weaken (fun _ hs => hs) fun _ h hs => ?_
  refine ⟨link.out, pci.out, mmc.out, ⟨fun e => hne (.inl e), by simpa using hbelow⟩, ?_⟩
  simpa [sdPins, slotGates, driverGates, require, Gate.check, List.append_assoc] using hs

lemma namespaces_spec : Spec (Acceptable v sh) (Early qs) namespaces fun _ => Early qs :=
  .bind (early_holds rfl) fun _ => .ite (fun _ => early_holds rfl) fun _ => .pure fun _ hs => hs

lemma pinNvme_spec : Spec (Acceptable v sh) (Early []) pinNvme fun _ h =>
    ∃ transport model, isController transport model = true ∧
      Early (nvmePins transport model) h := by
  refine .bind (early_wait 30 (early_holds rfl)) fun n => ?_
  refine .bind (early_gates rfl (by simp [require])) fun _ => ?_
  refine .bind (early_wait 10 namespaces_spec) fun _ => ?_
  refine .bind (early_gates rfl (by simp [topologyGates, require])) fun _ => ?_
  refine .bind (early_keep rfl) fun transport => .bind (early_keep rfl) fun model => ?_
  refine .bind (haltIf_spec (.pure ()) _) fun _ => .lift fun hc => ?_
  refine .bind (early_gates rfl (by simp [readOnlyGates, others, pinGates, require])) fun _ => ?_
  refine .bind (early_skip rfl) fun _ => ?_
  refine (early_gates rfl (by simp [cacheGate, require])).weaken (fun _ hs => hs) fun _ h hs => ?_
  refine ⟨transport.out, model.out, by simpa using hc, ?_⟩
  simpa [nvmePins, require, Gate.check, List.append_assoc] using hs

lemma pin_spec : Spec (Acceptable v sh) (Early []) (pin v) fun _ => Pinned v := by
  cases v with
  | sd =>
    exact pinSd_spec.weaken (fun _ hs => hs) fun _ h ⟨link, pci, mmc, ⟨hne, hb⟩, hs⟩ =>
      ⟨link, pci, mmc, hne, hb, hs.passed⟩
  | nvme =>
    exact pinNvme_spec.weaken (fun _ hs => hs) fun _ h ⟨transport, model, hc, hs⟩ =>
      ⟨transport, model, hc, hs.passed⟩

/-! ### The flags -/

lemma Pinned.append {h : List Event} (hp : Pinned v h) (t : List Event) : Pinned v (h ++ t) := by
  have happend : ∀ {qs}, Passed qs h → Passed qs (h ++ t) := fun hq => by
    have hnil : Passed [] t := .nil
    simpa using hq.append hnil
  cases v with
  | sd =>
    obtain ⟨link, pci, mmc, hne, hb, hq⟩ := hp
    exact ⟨link, pci, mmc, hne, hb, happend hq⟩
  | nvme =>
    obtain ⟨transport, model, hc, hq⟩ := hp
    exact ⟨transport, model, hc, happend hq⟩

/-- The pins were passed, and then the flags were read. -/
def ReadAt (v : Variant) (flags : Text) (h : List Event) : Prop :=
  ∃ h₀ a, Pinned v h₀ ∧ h = h₀ ++ [(.word (part v).toList 106, a)] ∧ flagsOf a = flags

lemma ReadAt.pinned {flags : Text} {h : List Event} (hr : ReadAt v flags h) : Pinned v h := by
  obtain ⟨h₀, a, hp, rfl, -⟩ := hr
  exact hp.append _

lemma ReadAt.flagsRead {flags : Text} {h : List Event} {d : Bool} (hr : ReadAt v flags h)
    (hne : flags ≠ []) (hd : dirty sh flags = some d) : FlagsRead v sh d h := by
  obtain ⟨h₀, a, -, rfl, rfl⟩ := hr
  exact ⟨h₀, a, rfl, hne, hd⟩

lemma readFlags_spec : Spec (Acceptable v sh) (Pinned v) (readFlags v) (ReadAt v) :=
  .bind (.ask (Q := fun a => ReadAt v (flagsOf a)) (fun h a _ => free_of_writes rfl h a)
    fun h a hp => ⟨h, a, hp, rfl, rfl⟩) fun _ => .pure fun _ hr => hr

lemma orEnd_spec {α : Type} (o : Option α) :
    Spec (Acceptable v sh) P (orEnd o) fun a h => o = some a ∧ P h := by
  cases o with
  | some a => exact .pure fun _ hP => ⟨rfl, hP⟩
  | none => exact .stop fun _ _ => trivial

lemma repair_spec :
    Spec (Acceptable v sh) (fun h => Pinned v h ∧ FlagsRead v sh true h) (repair v)
      fun flags h => flags ≠ [] ∧ ReadAt v flags h := by
  refine .bind (Q := fun _ h => Pinned v h ∧ Repairable v sh h) ?_ fun _ => ?_
  · refine .bind (gate_spec (.pure ()) (fun h a _ => free_of_writes rfl h a)
      fun h a ⟨hp, hf⟩ ha => ?_) fun _ => .pure fun _ hr => hr
    exact ⟨hp.append _, h, a, rfl, ha, hf⟩
  · refine .bind (.ask (fun h a hr => hr) fun h a hr => hr.1.append _) fun _ => ?_
    refine .bind readFlags_spec fun flags => .bind (haltIf_spec (.pure ()) _) fun _ => ?_
    exact .pure fun _ hr => hr

/-- The pins were passed and the flags are clean. -/
def CleanAt (v : Variant) (sh : Sh) (h : List Event) : Prop := Pinned v h ∧ FlagsRead v sh false h

lemma checkFlags_spec :
    Spec (Acceptable v sh) (Pinned v) (checkFlags v sh) fun _ => CleanAt v sh := by
  refine .bind readFlags_spec fun flags => .bind (haltIf_spec (.pure ()) _) fun _ => ?_
  refine .lift fun hne => .bind (orEnd_spec _) fun d => .lift fun hd => ?_
  refine .bind (Q := fun flags h => flags ≠ [] ∧ ReadAt v flags h)
    (.ite (fun ht => ?_) fun _ => .pure fun _ hr => ⟨hne, hr⟩) fun flags' => ?_
  · refine repair_spec.weaken (fun h hr => ⟨hr.pinned, hr.flagsRead hne ?_⟩) fun _ _ hr => hr
    rw [hd, ht]
  · refine .lift fun hne' => .bind (orEnd_spec _) fun d' => .lift fun hd' => ?_
    refine (haltIf_spec (.pure ()) _).weaken (fun _ hr => hr) fun _ h ⟨hclean, hr⟩ => ?_
    rw [Bool.eq_false_of_not_eq_true hclean] at hd'
    exact ⟨hr.pinned, hr.flagsRead hne' hd'⟩

/-! ### The view -/

/-- Nothing is written. -/
def Quiet (c : Cmd) : Prop := writes c = false

lemma quiet_gates {gs : List (Gate Cmd)} (hw : gs.all fun g => !writes g.cmd)
    (hu : ∀ g ∈ gs, Loose (Acceptable v sh) g.undo) :
    Spec (Acceptable v sh) (Since Quiet B qs) (gates gs) fun _ =>
      Since Quiet B (qs ++ gs.map Gate.check) := by
  refine gates_since hu fun g hg => ?_
  have hc : writes g.cmd = false := by simpa using List.all_eq_true.mp hw g hg
  exact ⟨hc, free_of_writes hc⟩

lemma freeLoop_spec (hp : phase .losetupFree) :
    Spec (Acceptable v sh) (Since phase B qs) freeLoop fun loop h =>
      loop ≠ [] ∧ Since phase B (qs ++ [(.losetupFree, Answer.prints loop)]) h := by
  refine .bind (ask_prints hp fun h a _ => free_of_writes rfl h a) fun a => ?_
  exact .bind (haltIf_spec loose_umountSd _) fun _ => .pure fun _ hs => hs

lemma checkState_spec :
    Spec (Acceptable v sh) (Since Quiet B qs) (checkState loop) fun _ =>
      Since Quiet B (qs ++ [(.word loop 1082, fun a => equalsOne (lastWord a.out))]) := by
  refine .bind (Q := fun a h' => ∃ h, Since Quiet B qs h ∧ h' = h ++ [(.word loop 1082, a)])
    (.ask (fun h a _ => free_of_writes rfl h a) fun h a hs => ⟨h, hs, rfl⟩) fun a => ?_
  refine .bind (haltIf_spec (loose_cleanupRoot loop) _) fun _ => .lift fun _ => ?_
  refine (haltIf_spec (loose_cleanupRoot loop) _).weaken (fun _ hs => hs) ?_
  rintro _ _ ⟨hone, h, hs, rfl⟩
  exact hs.snoc rfl (by simpa using hone)

lemma inspect_spec :
    Spec (Acceptable v sh) (Since Quiet B []) (inspect v) fun _ h =>
      ∃ loop, loop ≠ [] ∧ Since Quiet B (viewChecks v loop) h := by
  refine .bind (ask_skip rfl fun h a _ => free_of_writes rfl h a) fun _ => ?_
  refine .bind (quiet_gates rfl ?_) fun _ => ?_
  · simp only [imageGates, List.mem_cons, List.not_mem_nil, or_false]
    rintro g (rfl | rfl | rfl)
    · exact loose_require _ _ _
    · exact loose_umountSd
    · exact loose_umountSd
  refine .bind (freeLoop_spec rfl) fun loop => .lift fun hloop => ?_
  refine .bind (quiet_gates rfl ?_) fun _ => .bind checkState_spec fun _ => ?_
  · simp only [viewGates, List.mem_cons, List.not_mem_nil, or_false]
    rintro g (rfl | rfl)
    · exact loose_umountSd
    · exact (loose_detach loop).bind fun _ => loose_umountSd
  refine (quiet_gates rfl ?_).weaken (fun _ hs => hs) fun _ h hs => ⟨loop, hloop, ?_⟩
  · simp only [takeDownGates, List.mem_cons, List.not_mem_nil, or_false]
    rintro g (rfl | rfl)
    · exact loose_cleanupRoot loop
    · exact loose_require _ _ _
  · simpa [viewChecks, require, Gate.check, List.append_assoc] using hs

lemma inspected_of_since {h : List Event} (hloop : loop ≠ [])
    (hs : Since Quiet (CleanAt v sh) (viewChecks v loop) h) : Pinned v h ∧ Inspected v sh h := by
  obtain ⟨h₀, t, rfl, ⟨hp, hf⟩, ht, hq⟩ := hs
  exact ⟨hp.append t, h₀, t, loop, rfl, hf, hloop, hq, ht⟩

/-! ### The root -/

/-- Nothing is taken down. -/
def Up (c : Cmd) : Prop := takesDown c = false

/-- The container has just been mounted read-write. -/
def MountedAt (v : Variant) (sh : Sh) (h : List Event) : Prop :=
  ∃ h₀ a, h = h₀ ++ [(.mountExfat .rw, a)] ∧ a.ok = true ∧ Pinned v h₀ ∧ Inspected v sh h₀

lemma reopened_of_since {h : List Event} (hs : Since Up (MountedAt v sh) qs h) :
    Pinned v h ∧ Reopened v sh qs h := by
  obtain ⟨_, t, rfl, ⟨h₀, a, rfl, ha, hp, hi⟩, ht, hq⟩ := hs
  exact ⟨(hp.append _).append t, h₀, a, t, by simp, ha, hi, hq, ht⟩

lemma attach_spec :
    Spec (Acceptable v sh) (fun h => Pinned v h ∧ Inspected v sh h) (attach v) fun loop h =>
      loop ≠ [] ∧ Reopened v sh (rootChecks v loop ++ [(.mountRoot loop, Answer.ok)]) h := by
  refine .bind (Q := fun _ => Since Up (MountedAt v sh) []) (gate_spec (loose_require _ _ _)
    (fun h a hi => hi) fun h a hi ha => .start ⟨h, a, rfl, ha, hi⟩) fun _ => ?_
  refine .bind (freeLoop_spec rfl) fun loop => .lift fun hloop => ?_
  refine .bind (gate_since loose_umountSd rfl fun h a hs => ?_) fun _ => ?_
  · obtain ⟨hp, hr⟩ := reopened_of_since hs
    exact ⟨hp, hloop, hr⟩
  refine .bind (gate_since (loose_cleanupRoot loop) rfl fun h a _ => free_of_writes rfl h a)
    fun _ => ?_
  refine .bind (gate_since (loose_cleanupRoot loop) rfl fun h a hs => ?_) fun _ => ?_
  · obtain ⟨hp, hr⟩ := reopened_of_since hs
    exact ⟨hp, hloop, hr⟩
  · exact .pure fun h hs => ⟨hloop, (reopened_of_since hs).2⟩

theorem init_spec (v : Variant) (sh : Sh) :
    Spec (Acceptable v sh) (Early []) (init v sh) fun loop h =>
      loop ≠ [] ∧ Reopened v sh (rootChecks v loop ++ [(.mountRoot loop, Answer.ok)]) h := by
  refine .bind mountCore_spec fun _ => .bind keymap_spec fun _ => .bind pin_spec fun _ => ?_
  refine .bind (Q := fun _ => Since Quiet (CleanAt v sh) [])
    (checkFlags_spec.weaken (fun _ hp => hp) fun _ _ hc => .start hc) fun _ => ?_
  refine .bind inspect_spec fun _ => .ex fun loop => .lift fun hloop => ?_
  exact attach_spec.weaken (fun h hs => inspected_of_since hloop hs) fun _ _ hr => hr

/-! ### The end of a boot -/

lemma within_holds (c : Cmd) : Within 1 (holds c) := (Within.ask c).bind fun _ => .pure _

lemma within_umountSd : Within 1 umountSd := (Within.ask _).bind fun _ => .pure ()

lemma within_detach (loop : Text) : Within 1 (detach loop) := (Within.ask _).bind fun _ => .pure ()

lemma within_cleanupRoot (loop : Text) : Within 11 (cleanupRoot loop) := by
  have hpoint : ∀ p, Within 1 (tryUmount p) := fun p => (Within.ask _).bind fun _ => .pure ()
  have hset : Within 1 (detachSet loop) := by
    unfold detachSet
    split_ifs
    · exact (Within.pure ()).mono (Nat.zero_le _)
    · exact within_detach loop
  refine ((Within.ask _).bind fun _ => Within.bind (n := 8) ?_ fun _ =>
    hset.bind fun _ => within_umountSd)
  exact (hpoint _).bind fun _ => (hpoint _).bind fun _ => (hpoint _).bind fun _ =>
    (hpoint _).bind fun _ => (hpoint _).bind fun _ => (hpoint _).bind fun _ =>
    (hpoint _).bind fun _ => (hpoint _).bind fun _ => .pure ()

/-- Gates without anything to undo. -/
lemma within_required {gs : List (Gate Cmd)} {n : ℕ} (hn : gs.length = n)
    (hu : ∀ g ∈ gs, g.undo = pure ()) : Within n (gates gs) := by
  have hpure : ∀ g ∈ gs, Within 0 g.undo := fun g hg => hu g hg ▸ Within.pure ()
  exact within_gates hpure ((Nat.mul_one gs.length).trans hn)

lemma within_pinSd : Within 175 pinSd := by
  refine .bind (n := 51) (k := 124) (within_waitFor _ (within_holds _) 0 25) fun n => ?_
  refine .bind (n := 3) (k := 121) (within_required rfl (by simp [slotGates, require])) fun _ => ?_
  refine .bind (n := 51) (k := 70) (within_waitFor _ (within_holds _) 0 25) fun n => ?_
  refine .bind (n := 1) (k := 69) (within_required rfl (by simp [require])) fun _ => ?_
  refine .bind (n := 1) (k := 68) (Within.ask _) fun link => ?_
  refine .bind (n := 2) (k := 66) (within_required rfl (by simp [driverGates, require])) fun _ => ?_
  refine .bind (n := 61) (k := 5) (within_waitFor _ (within_holds _) 0 30) fun n => ?_
  refine .bind (n := 2) (k := 3) (within_required rfl (by simp [require])) fun _ => ?_
  refine .bind (n := 1) (k := 2) (Within.ask _) fun pci => ?_
  refine .bind (n := 1) (k := 1) (Within.ask _) fun mmc => ?_
  refine .bind (n := 0) (k := 1) (within_haltIf (.pure ()) _) fun _ => ?_
  refine .bind (n := 0) (k := 1) (within_haltIf (.pure ()) _) fun _ => ?_
  exact within_required rfl (by simp [labelGate])

lemma within_namespaces : Within 2 namespaces := by
  refine .bind (n := 1) (k := 1) (within_holds _) fun b => ?_
  split_ifs
  · exact within_holds _
  · exact (Within.pure false).mono (Nat.zero_le _)

lemma within_pinNvme : Within 123 pinNvme := by
  refine .bind (n := 61) (k := 62) (within_waitFor _ (within_holds _) 0 30) fun n => ?_
  refine .bind (n := 1) (k := 61) (within_required rfl (by simp [require])) fun _ => ?_
  refine .bind (n := 32) (k := 29) (within_waitFor _ within_namespaces 0 10) fun _ => ?_
  refine .bind (n := 5) (k := 24) (within_required rfl (by simp [topologyGates, require]))
    fun _ => ?_
  refine .bind (n := 1) (k := 23) (Within.ask _) fun transport => ?_
  refine .bind (n := 1) (k := 22) (Within.ask _) fun model => ?_
  refine .bind (n := 0) (k := 22) (within_haltIf (.pure ()) _) fun _ => ?_
  refine .bind (n := 20) (k := 2)
    (within_required rfl (by simp [readOnlyGates, others, pinGates, require])) fun _ => ?_
  refine .bind (n := 1) (k := 1) (Within.ask _) fun _ => ?_
  exact within_required rfl (by simp [cacheGate, require])

lemma within_pin (v : Variant) : Within 175 (pin v) := by
  cases v with
  | sd => exact within_pinSd
  | nvme => exact within_pinNvme.mono (by omega)

lemma within_orEnd {α : Type} (o : Option α) : Within 0 (orEnd o) := by
  cases o with
  | some a => exact .pure a
  | none => exact .stop _

lemma within_readFlags (v : Variant) : Within 1 (readFlags v) :=
  (Within.ask _).bind fun _ => .pure _

lemma within_checkFlags (v : Variant) (sh : Sh) : Within 4 (checkFlags v sh) := by
  have hrepair : Within 3 (repair v) := by
    refine .bind (n := 1) (k := 2) (within_required rfl (by simp [require])) fun _ => ?_
    refine .bind (n := 1) (k := 1) (Within.ask _) fun _ => ?_
    refine .bind (n := 1) (k := 0) (within_readFlags v) fun flags => ?_
    exact .bind (n := 0) (k := 0) (within_haltIf (.pure ()) _) fun _ => .pure flags
  refine .bind (n := 1) (k := 3) (within_readFlags v) fun flags => ?_
  refine .bind (n := 0) (k := 3) (within_haltIf (.pure ()) _) fun _ => ?_
  refine .bind (n := 0) (k := 3) (within_orEnd _) fun d => ?_
  refine .bind (n := 3) (k := 0) ?_ fun flags' => ?_
  · unfold repairIf
    split_ifs
    · exact hrepair
    · exact (Within.pure flags).mono (Nat.zero_le _)
  · exact .bind (n := 0) (k := 0) (within_orEnd _) fun d' => within_haltIf (.pure ()) _

lemma within_freeLoop : Within 2 freeLoop :=
  .bind (n := 1) (k := 1) (Within.ask _) fun a =>
    .bind (n := 1) (k := 0) (within_haltIf within_umountSd _) fun _ => .pure a.out

lemma within_checkState (loop : Text) : Within 23 (checkState loop) :=
  .bind (n := 1) (k := 22) (Within.ask _) fun _ =>
    .bind (n := 11) (k := 11) (within_haltIf (within_cleanupRoot loop) _) fun _ =>
      within_haltIf (within_cleanupRoot loop) _

lemma within_inspect (v : Variant) : Within 62 (inspect v) := by
  refine .bind (n := 1) (k := 61) (Within.ask _) fun _ => ?_
  refine .bind (n := 6) (k := 55) (within_gates (u := 1) ?_ rfl) fun _ => ?_
  · simp only [imageGates, List.mem_cons, List.not_mem_nil, or_false]
    rintro g (rfl | rfl | rfl)
    · exact (Within.pure ()).mono (Nat.zero_le _)
    · exact within_umountSd
    · exact within_umountSd
  refine .bind (n := 2) (k := 53) within_freeLoop fun loop => ?_
  refine .bind (n := 6) (k := 47) (within_gates (u := 2) ?_ rfl) fun _ => ?_
  · simp only [viewGates, List.mem_cons, List.not_mem_nil, or_false]
    rintro g (rfl | rfl)
    · exact within_umountSd.mono (by omega)
    · exact (within_detach loop).bind fun _ => within_umountSd
  refine .bind (n := 23) (k := 24) (within_checkState loop) fun _ => within_gates (u := 11) ?_ rfl
  simp only [takeDownGates, List.mem_cons, List.not_mem_nil, or_false]
  rintro g (rfl | rfl)
  · exact within_cleanupRoot loop
  · exact (Within.pure ()).mono (Nat.zero_le _)

lemma within_attach (v : Variant) : Within 29 (attach v) := by
  refine .bind (n := 1) (k := 28) (within_gate (u := 0) (.pure ())) fun _ => ?_
  refine .bind (n := 2) (k := 26) within_freeLoop fun loop => ?_
  refine .bind (n := 2) (k := 24) (within_gate (u := 1) within_umountSd) fun _ => ?_
  refine .bind (n := 12) (k := 12) (within_gate (u := 11) (within_cleanupRoot loop)) fun _ => ?_
  exact .bind (n := 12) (k := 0) (within_gate (u := 11) (within_cleanupRoot loop)) fun _ =>
    .pure loop

/-- The bound of a boot. -/
lemma within_init (v : Variant) (sh : Sh) : Within 275 (init v sh) := by
  have hcore : Within 3 mountCore :=
    (within_orStop _ _).bind fun _ => (within_orStop _ _).bind fun _ => within_orStop _ _
  have hkeymap : Within 2 keymap := by
    refine .bind (n := 1) (k := 1) (Within.ask _) fun f => ?_
    split_ifs
    · exact (Within.ask _).bind fun _ => .pure ()
    · exact (Within.pure ()).mono (Nat.zero_le _)
  refine .bind (n := 3) (k := 272) hcore fun _ => .bind (n := 2) (k := 270) hkeymap fun _ => ?_
  refine .bind (n := 175) (k := 95) (within_pin v) fun _ => ?_
  refine .bind (n := 4) (k := 91) (within_checkFlags v sh) fun _ => ?_
  exact .bind (n := 62) (k := 29) (within_inspect v) fun _ => within_attach v

/-! ### Every boot -/

/-- **The daily inits write only behind their gates.** Whatever the commands answer, in every boot
from the SD card or from the SSD: a command that can write comes after all pins; the repair comes
after a dirty flag; the read-write mount comes after a clean flag and a read-only view of the image
that found its size, UUID and state as they have to be, with no write since and the view taken
down; and the root is mounted from the image on that mount, under the UUID, while both are still
there. A boot ends, with the root or with a stop. -/
theorem daily_root_gated (v : Variant) (sh : Sh) (answers : List Answer) :
    (∀ pre e post, (init v sh answers).trail = pre ++ e :: post →
      (writes e.1 = true → Pinned v pre) ∧
        (e.1 = .fsck → Repairable v sh pre) ∧
        (e.1 = .mountExfat .rw → Inspected v sh pre) ∧
        (∀ loop, e.1 = .losetup .rw loop →
          loop ≠ [] ∧ Reopened v sh [(.losetupFree, Answer.prints loop)] pre) ∧
        ∀ loop, e.1 = .mountRoot loop → loop ≠ [] ∧ Reopened v sh (rootChecks v loop) pre) ∧
      (∀ loop, (init v sh answers).fin = .done loop →
        loop ≠ [] ∧ Reopened v sh (rootChecks v loop ++ [(.mountRoot loop, Answer.ok)])
          (init v sh answers).trail) ∧
      (275 ≤ answers.length → (init v sh answers).fin ≠ .wait) := by
  have hstart : Early [] ([] : List Event) := .start trivial
  obtain ⟨hok, hdone, -⟩ := init_spec v sh [] hstart answers
  refine ⟨fun pre e post h => ?_, hdone, fun hlen => (within_init v sh answers hlen).1⟩
  have he : Acceptable v sh pre e := hok pre e post h
  obtain ⟨c, a⟩ := e
  refine ⟨fun hw => ?_, fun hc => ?_, fun hc => ?_, fun loop hc => ?_, fun loop hc => ?_⟩
  · cases c with
    | fsck => exact he.1
    | mountRoot loop => exact he.1
    | mountExfat mode =>
      cases mode with
      | ro => cases hw
      | rw => exact he.1
    | losetup mode loop =>
      cases mode with
      | ro => cases hw
      | rw => exact he.1
    | _ => cases hw
  · obtain rfl : c = .fsck := hc
    exact he.2
  · obtain rfl : c = .mountExfat .rw := hc
    exact he.2
  · obtain rfl : c = .losetup .rw loop := hc
    exact he.2
  · obtain rfl : c = .mountRoot loop := hc
    exact he.2

/-- Patterns that match nothing, and no arithmetic on text that is not a number. -/
def plainSh : Sh where
  glob := Shell.words
  value _ := none
  minus _ _ := none

def told (s : String) : Answer := ⟨0, s.toList⟩

/-- The answers of a boot from a dirty card that the repair makes clean. -/
def repairedBoot : List Answer :=
  List.replicate 7 (told "") ++ [told "0x17a0", told "0x9755", told "", told "",
    told "../../../bus/pci/drivers/sdhci-pci", told "sdhci-pci", told "", told "", told "",
    told "", told "/sys/devices/pci0", told "/sys/devices/pci0/mmc0", told "/dev/mmcblk0p1"] ++
    [told "     2", told "", ⟨1, []⟩, told "     0"] ++
    [told "", told "", told "", told "6442450944", told "/dev/loop0", told "", told "/dev/loop0",
      told "     1", told "", told ""] ++
    [told "", told "/dev/loop0", told "", told "/dev/loop0", told ""]

/-- Its root is on the image that was inspected after the repair. -/
theorem daily_root_gated_repaired :
    (init .sd plainSh repairedBoot).fin = .done "/dev/loop0".toList ∧
      Reopened .sd plainSh
        (rootChecks .sd "/dev/loop0".toList ++ [(.mountRoot "/dev/loop0".toList, Answer.ok)])
        (init .sd plainSh repairedBoot).trail := by
  have hfin : (init .sd plainSh repairedBoot).fin = .done "/dev/loop0".toList := by decide +kernel
  exact ⟨hfin, ((daily_root_gated .sd plainSh repairedBoot).2.1 _ hfin).2⟩

end Wallace.DailyGated
