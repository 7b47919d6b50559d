import Wallace.InstallModel

/-!
The installer writes to its partition only, after all its gates, and commits only what it has
verified.

The history is cut at the mount, at the copy and at the rename. Before the mount all pins have
been passed; between the mount and the copy the image was seen to be absent; between the copy
and the rename nothing was written and every check of the copy was passed. What the last
comparison says about the counters depends on whether they could be read.
-/

namespace Wallace.InstallSafe

open Wallace.Trail Wallace.History Wallace.Script Wallace.InstallModel

abbrev Event := Cmd × Answer

/-! ### What has to stand before a command -/

/-- What a command can write to on the SSD. -/
inductive Target
  | disk (d : Disk)
  | file (f : File)
  deriving DecidableEq

def target : Cmd → Option Target
  | .fsck .y d => some (.disk d)
  | .mount d => some (.disk d)
  | .rm f => some (.file f)
  | .copy f => some (.file f)
  | .mv _ f => some (.file f)
  | _ => none

/-- The controller, the namespaces, the other disks set read-only, and the third partition. -/
def pins (transport model : Text) : List (Check Cmd) :=
  (controllerGates ++ topologyGates).map Gate.check ++
    [(.cat .transport, Answer.prints transport), (.cat .model, Answer.prints model)] ++
    (readOnlyGates ++ partitionGates ++ pinGates).map Gate.check

def Pinned (h : List Event) : Prop :=
  ∃ transport model, isController transport model = true ∧ Passed (pins transport model) h

/-- The third partition is mounted. -/
def Mounted (h : List Event) : Prop :=
  ∃ h₀ a t, h = h₀ ++ (.mount .nvme0n1p3, a) :: t ∧ a.ok = true ∧ ∀ e ∈ t, e.1 ≠ .umount

/-- Since the mount the image was seen to be absent, and nothing has written to it. -/
def Fresh (h : List Event) : Prop :=
  ∃ h₀ a t, h = h₀ ++ (.mount .nvme0n1p3, a) :: t ∧ a.ok = true ∧
    Passed [(.testFile .dst, absent)] t ∧ ∀ e ∈ t, target e.1 ≠ some (.file .dst)

/-- The pinned hash. -/
def expectedChecks (expected : Text) : List (Check Cmd) :=
  [(.cutExpected, Answer.prints expected)]

/-- The checks of the copy as a file. -/
def fileChecks (expected : Text) : List (Check Cmd) :=
  [(.stat .dstPartial, prints rootBytes), (.dropCaches, Answer.ok),
    (.sha256sum .dstPartial, fun a => firstWord a.out = expected)]

/-- The checks of the copy as a disk. -/
def loopChecks (loop : Text) : List (Check Cmd) :=
  (.losetupFree, Answer.gives loop) :: (loopGates loop).map Gate.check ++
    [(.getsize64 loop, prints rootBytes)]

/-- The copy has the pinned hash in the stream and passed its checks, and nothing has been
written since. -/
def Checked (expected loop : Text) (h : List Event) : Prop :=
  expected.length = 64 ∧ ∃ h₀ a t, h = h₀ ++ (.copy .dstPartial, a) :: t ∧
    Passed (expectedChecks expected) h₀ ∧ a.ok = true ∧ firstWord a.out = expected ∧
    Passed (fileChecks expected ++ loopChecks loop) t ∧ ∀ e ∈ t, target e.1 = none

/-- The reads of the counters of some disks. -/
def statChecks (ds : List Disk) (stats : List Answer) : List (Check Cmd) :=
  List.zipWith (fun d a => (.cat (.stat d), Answer.is a)) ds stats

/-- The counters of the other disks, and their digest. -/
def othersChecks (sh : Sh) (stats : List Answer) (sum : Answer) : List (Check Cmd) :=
  statChecks otherDisks stats ++
    [(.digest (othersInput sh (stats.map Answer.out)), Answer.is sum)]

/-- The counters of the whole disk and of the third partition. -/
def sectorChecks (disk p : Answer) : List (Check Cmd) :=
  [(.cat (.stat .nvme0n1), Answer.is disk), (.cat (.stat .nvme0n1p3), Answer.is p)]

/-- All that is read of the counters, at one time. -/
structure Counters where
  others : List Answer
  sum : Answer
  disk : Answer
  p : Answer

/-- The mount, the rename, the unmount and the check of the volume. -/
def commitChecks : List (Check Cmd) :=
  [(.mount .nvme0n1p3, Answer.ok), (.mv .dstPartial .dst, Answer.ok), (.umount, Answer.ok),
    (.fsck .n .nvme0n1p3, Answer.ok)]

/-- The counters before the mount, the commit, and the counters after it. -/
def reportChecks (sh : Sh) (before after : Counters) : List (Check Cmd) :=
  othersChecks sh before.others before.sum ++ sectorChecks before.disk before.p ++ commitChecks ++
    othersChecks sh after.others after.sum ++ sectorChecks after.disk after.p

/-- The field of `wsec`. -/
def written (sh : Sh) (a : Answer) : Text := echo (parameter (unquoted sh a.out) 7)

/-- The comparisons of the counters came out equal. -/
def Compared (sh : Sh) (before after : Counters) : Prop :=
  before.others.length = otherDisks.length ∧ after.others.length = otherDisks.length ∧
    after.sum.out = before.sum.out ∧
    ∃ n, minus sh (written sh after.disk) (written sh before.disk) = some n ∧
      minus sh (written sh after.p) (written sh before.p) = some n

def Reported (sh : Sh) (h : List Event) : Prop :=
  ∃ before after, Compared sh before after ∧ Passed (reportChecks sh before after) h

def Acceptable (sh : Sh) (h : List Event) (e : Event) : Prop :=
  match e.1 with
  | .fsck .y d => d = .nvme0n1p3 ∧ Pinned h
  | .mount d => d = .nvme0n1p3 ∧ Pinned h
  | .rm f => f = .dstPartial ∧ Pinned h ∧ Mounted h
  | .copy f => f = .dstPartial ∧ Pinned h ∧ Mounted h
  | .mv f g => f = .dstPartial ∧ g = .dst ∧ Pinned h ∧ Mounted h ∧ Fresh h ∧
      ∃ expected loop, Checked expected loop h
  | .sayPass => Reported sh h
  | _ => True

def guarded (c : Cmd) : Bool := (target c).isSome || c = .sayPass

lemma acceptable_of_guarded {c : Cmd} (hc : guarded c = false) (sh : Sh) (h : List Event)
    (a : Answer) : Acceptable sh h (c, a) := by
  unfold Acceptable
  split <;> simp_all [guarded, target]

/-! ### Gates -/

/-- A message says nothing about the history. -/
def Silent (_ : String) (_ : List Event) : Prop := True

abbrev Spec {α : Type} (sh : Sh) (P : List Event → Prop) (m : ScriptM Cmd α)
    (Q : α → List Event → Prop) : Prop := Triple (Acceptable sh) Silent P m Q

variable {sh : Sh} {phase : Cmd → Prop} {B P : List Event → Prop} {qs : List (Check Cmd)}
  {loop : Text}

lemma ask_any {c : Cmd} (hc : guarded c = false) :
    Spec sh P (ask c) fun _ _ => True :=
  .ask (fun h a _ => acceptable_of_guarded hc sh h a) fun _ _ _ => trivial

/-- Nothing is left to show after `park`. -/
lemma park_spec {α : Type} (loop : Text) (why : String) (Q : α → List Event → Prop) :
    Spec sh P (park loop why) Q := by
  have hdetach : Spec sh P (detach loop) fun _ _ => True :=
    .ite (fun _ => .pure fun _ _ => trivial) fun _ =>
      .bind (ask_any rfl) fun _ => .pure fun _ _ => trivial
  exact .bind hdetach fun _ => .bind (ask_any rfl) fun _ => .stop fun _ _ => trivial

lemma parkIf_spec {c : Prop} [Decidable c] (why : String) :
    Spec sh P (parkIf c loop why) fun _ h => ¬c ∧ P h :=
  .ite (fun _ => park_spec loop why _) fun hc => .pure fun _ hP => ⟨hc, hP⟩

lemma gate_spec {g : Gate} {Q : Answer → List Event → Prop}
    (hok : ∀ h a, P h → Acceptable sh h (g.cmd, a))
    (hq : ∀ h a, P h → g.test a = true → Q a (h ++ [(g.cmd, a)])) :
    Spec sh P (gate loop g) Q := by
  unfold gate
  refine .bind (Q := fun a h' => ∃ h, P h ∧ h' = h ++ [(g.cmd, a)])
    (.ask hok fun h a hP => ⟨h, hP, rfl⟩) fun a => ?_
  refine .ite (fun ha => .pure ?_) fun _ => park_spec loop g.why Q
  rintro _ ⟨h, hP, rfl⟩
  exact hq h a hP ha

/-- A command of the phase that nothing has to stand before. -/
def Plain (phase : Cmd → Prop) (c : Cmd) : Prop := phase c ∧ guarded c = false

lemma gate_plain {g : Gate} (hc : Plain phase g.cmd) :
    Spec sh (Since phase B qs) (gate loop g) fun _ => Since phase B (qs ++ [g.check]) :=
  gate_spec (fun h a _ => acceptable_of_guarded hc.2 sh h a) fun _ _ hs ha => hs.snoc hc.1 ha

lemma gates_plain {gs : List Gate} (hgs : ∀ g ∈ gs, Plain phase g.cmd) :
    Spec sh (Since phase B qs) (gates loop gs) fun _ =>
      Since phase B (qs ++ gs.map Gate.check) := by
  induction gs generalizing qs with
  | nil =>
    refine .pure fun h hs => ?_
    rw [List.map_nil, List.append_nil]
    exact hs
  | cons g gs ih =>
    refine .bind (gate_plain (hgs g (by simp))) fun _ => ?_
    have hrest : Spec sh (Since phase B (qs ++ [g.check])) (gates loop gs) fun _ =>
        Since phase B (qs ++ [g.check] ++ gs.map Gate.check) :=
      ih fun g' hg' => hgs g' (by simp [hg'])
    rw [List.append_assoc, List.singleton_append] at hrest
    exact hrest

lemma skip_plain {c : Cmd} (hc : Plain phase c) :
    Spec sh (Since phase B qs) (ask c) fun _ => Since phase B qs :=
  ask_skip hc.1 fun h a _ => acceptable_of_guarded hc.2 sh h a

lemma ask_plain {c : Cmd} {keep : Answer → Answer → Bool} (hkeep : ∀ a, keep a a = true)
    (hc : Plain phase c) :
    Spec sh (Since phase B qs) (ask c) fun a => Since phase B (qs ++ [(c, keep a)]) :=
  ask_since hkeep hc.1 fun h a _ => acceptable_of_guarded hc.2 sh h a

lemma is_self (a : Answer) : Answer.is a a = true := by simp [Answer.is]

lemma prints_self (a : Answer) : Answer.prints a.out a = true := by simp [Answer.prints]

lemma gate_skip {g : Gate} (hc : Plain phase g.cmd) :
    Spec sh (Since phase B qs) (gate loop g) fun _ => Since phase B qs :=
  gate_spec (fun h a _ => acceptable_of_guarded hc.2 sh h a) fun _ a hs _ => hs.skip hc.1 a

lemma orStop_skip {c : Cmd} {why : String} (hc : Plain phase c) :
    Spec sh (Since phase B qs) (orStop c why) fun _ => Since phase B qs :=
  orStop_spec (fun h a _ => acceptable_of_guarded hc.2 sh h a) (fun _ _ _ _ => trivial)
    fun _ a hs _ => hs.skip hc.1 a

/-- An arithmetic expansion. -/
lemma orEnd_spec {α : Type} (x : Option α) :
    Spec sh P (orEnd x) fun a h => x = some a ∧ P h := by
  cases x with
  | none => exact .stop fun _ _ => trivial
  | some a => exact .pure fun _ hP => ⟨rfl, hP⟩

/-! ### Counters -/

lemma readStats_spec (hphase : ∀ d, phase (.cat (.stat d))) (ds : List Disk) :
    Spec sh (Since phase B qs) (readStats ds) fun texts h => ∃ stats : List Answer,
      stats.length = ds.length ∧ texts = stats.map Answer.out ∧
        Since phase B (qs ++ statChecks ds stats) h := by
  induction ds generalizing qs with
  | nil =>
    refine .pure fun h hs => ⟨[], rfl, rfl, ?_⟩
    rw [statChecks, List.zipWith_nil_left, List.append_nil]
    exact hs
  | cons d ds ih =>
    refine .bind (ask_plain is_self ⟨hphase d, rfl⟩) fun a => ?_
    refine .bind ih fun rest => .pure ?_
    rintro h ⟨stats, hlen, rfl, hs⟩
    refine ⟨a :: stats, by simp [hlen], rfl, ?_⟩
    rw [List.append_assoc] at hs
    exact hs

lemma others_spec (hphase : ∀ c, guarded c = false → c ≠ .umount → phase c) :
    Spec sh (Since phase B qs) (others sh) fun text h => ∃ stats sum,
      stats.length = otherDisks.length ∧ text = sum.out ∧
        Since phase B (qs ++ othersChecks sh stats sum) h := by
  refine .bind (readStats_spec (fun d => hphase _ rfl nofun) otherDisks) fun texts => ?_
  refine .ex fun stats => .lift fun hlen => .lift fun htexts => ?_
  refine .bind (ask_plain is_self ⟨hphase _ rfl nofun, rfl⟩) fun sum => .pure fun h hs => ?_
  rw [htexts, List.append_assoc] at hs
  exact ⟨stats, sum, hlen, rfl, hs⟩

lemma wsec_spec {d : Disk} (hphase : phase (.cat (.stat d))) :
    Spec sh (Since phase B qs) (wsec sh d) fun text h => ∃ a, text = written sh a ∧
      Since phase B (qs ++ [(.cat (.stat d), Answer.is a)]) h :=
  .bind (ask_plain is_self ⟨hphase, rfl⟩) fun a => .pure fun _ hs => ⟨a, rfl, hs⟩

/-! ### Up to the mount -/

def Anything (_ : Cmd) : Prop := True

def Start (_ : List Event) : Prop := True

/-- Before the mount. -/
abbrev Early (qs : List (Check Cmd)) : List Event → Prop := Since Anything Start qs

lemma Early.passed {h : List Event} (hs : Early qs h) : Passed qs h := by
  obtain ⟨h₀, t, rfl, -, -, hp⟩ := hs
  have hnil : Passed [] h₀ := .nil
  exact hnil.append hp

lemma plain_early {c : Cmd} (hc : guarded c = false) : Plain Anything c := ⟨trivial, hc⟩

lemma bootstrap_spec :
    Spec sh (Early []) bootstrap fun expected h =>
      expected.length = 64 ∧ Early (expectedChecks expected) h := by
  refine .bind (orStop_skip (plain_early rfl)) fun _ => ?_
  refine .bind (orStop_skip (plain_early rfl)) fun _ => ?_
  refine .bind (orStop_skip (plain_early rfl)) fun _ => ?_
  refine .bind (orStop_skip (plain_early rfl)) fun _ => ?_
  refine .bind (orStop_skip (plain_early rfl)) fun _ => ?_
  refine .bind (orStop_skip (plain_early rfl)) fun _ => ?_
  refine .bind (gate_skip (plain_early rfl)) fun _ => ?_
  refine .bind (skip_plain (plain_early rfl)) fun _ => ?_
  refine .bind (ask_plain prints_self (plain_early rfl)) fun expected => ?_
  refine .bind (skip_plain (plain_early rfl)) fun source => ?_
  exact .ite (fun hc => .pure fun h hs => ⟨hc.2, hs⟩) fun _ => park_spec _ _ _

/-- Waiting only looks and sleeps. -/
lemma waitFor_spec {ready : ScriptM Cmd Bool}
    (hready : Spec sh (Early qs) ready fun _ => Early qs) (n : ℕ) :
    Spec sh (Early qs) (waitFor ready n) fun _ => Early qs := by
  induction n with
  | zero => exact .bind hready fun _ => .pure fun _ hs => hs
  | succ n ih =>
    refine .bind hready fun r => .ite (fun _ => .pure fun _ hs => hs) fun _ => ?_
    exact .bind (skip_plain (plain_early rfl)) fun _ => ih

lemma isBlock_spec (d : Disk) : Spec sh (Early qs) (isBlock d) fun _ => Early qs :=
  .bind (skip_plain (plain_early rfl)) fun _ => .pure fun _ hs => hs

lemma namespaces_spec : Spec sh (Early qs) namespaces fun _ => Early qs :=
  .bind (isBlock_spec _) fun _ => .ite (fun _ => isBlock_spec _) fun _ => .pure fun _ hs => hs

def identityChecks (transport model : Text) : List (Check Cmd) :=
  [(.cat .transport, Answer.prints transport), (.cat .model, Answer.prints model)]

lemma identity_spec :
    Spec sh (Early qs) identity fun _ h => ∃ transport model,
      isController transport model = true ∧ Early (qs ++ identityChecks transport model) h := by
  refine .bind (ask_plain prints_self (plain_early rfl)) fun transport => ?_
  refine .bind (ask_plain prints_self (plain_early rfl)) fun model => ?_
  refine .ite (fun hc => .pure fun h hs => ⟨_, _, hc, ?_⟩) fun _ => park_spec _ _ _
  rw [List.append_assoc] at hs
  exact hs

lemma vflags_spec : Spec sh (Early qs) vflags fun _ => Early qs :=
  .bind (skip_plain (plain_early rfl)) fun _ => .pure fun _ hs => hs

/-- The repair comes after the pins. -/
lemma checkFlags_spec (hpin : ∀ h, Early qs h → Pinned h) :
    Spec sh (Early qs) (checkFlags sh) fun _ => Early qs := by
  have hrepair : Spec sh (Early qs) (repair sh) fun _ => Early qs := by
    refine .bind (skip_plain (plain_early rfl)) fun _ => ?_
    refine .bind (ask_skip trivial fun h _ hs => ⟨rfl, hpin h hs⟩) fun _ => ?_
    refine .bind vflags_spec fun flags => .bind (orEnd_spec _) fun d => .lift fun _ => ?_
    exact (parkIf_spec _).weaken (fun _ hs => hs) fun _ _ hs => hs.2
  refine .bind vflags_spec fun flags => .bind (parkIf_spec _) fun _ => .lift fun _ => ?_
  refine .bind (orEnd_spec _) fun d => .lift fun _ => ?_
  exact .ite (fun _ => hrepair) fun _ => .pure fun _ hs => hs

/-! ### The copy -/

/-- Nothing writes to the image, and the partition stays mounted. -/
def OnMount (c : Cmd) : Prop := c ≠ .umount ∧ target c ≠ some (.file .dst)

/-- Nothing is written, and the partition stays mounted. -/
def Quiet (c : Cmd) : Prop := c ≠ .umount ∧ target c = none

lemma Quiet.onMount {c : Cmd} (h : Quiet c) : OnMount c := ⟨h.1, by simp [h.2]⟩

/-- The partition has just been mounted. -/
def MountedAt (qs : List (Check Cmd)) (h : List Event) : Prop :=
  ∃ h₀ a, h = h₀ ++ [(.mount .nvme0n1p3, a)] ∧ a.ok = true ∧ Early qs h₀

lemma mounted_of_since {qs' : List (Check Cmd)} {h : List Event}
    (hs : Since OnMount (MountedAt qs) qs' h) : Mounted h := by
  obtain ⟨_, t, rfl, ⟨h₀, a, rfl, ha, -⟩, ht, -⟩ := hs
  exact ⟨h₀, a, t, by simp, ha, fun e he => (ht e he).1⟩

lemma fresh_of_since {qs' : List (Check Cmd)} {h : List Event}
    (hs : Since OnMount (MountedAt qs) ((.testFile .dst, absent) :: qs') h) : Fresh h := by
  obtain ⟨_, t, rfl, ⟨h₀, a, rfl, ha, -⟩, ht, hp⟩ := hs
  have hone : Passed [(.testFile .dst, absent)] t := hp.of_sublist (by simp)
  exact ⟨h₀, a, t, by simp, ha, hone, fun e he => (ht e he).2⟩

/-- What was passed before the mount stays passed. -/
lemma passed_of_since {qs' : List (Check Cmd)} {h : List Event}
    (hs : Since OnMount (MountedAt qs) qs' h) :
    Passed (qs ++ (.mount .nvme0n1p3, Answer.ok) :: qs') h := by
  obtain ⟨_, t, rfl, ⟨h₀, a, rfl, ha, hearly⟩, -, hp⟩ := hs
  rw [List.append_assoc]
  exact hearly.passed.append (.cons ⟨rfl, ha⟩ hp)

/-- The copy has just been made, with this answer. -/
def CopiedAt (qs : List (Check Cmd)) (a : Answer) (h : List Event) : Prop :=
  ∃ h₀, h = h₀ ++ [(.copy .dstPartial, a)] ∧
    Since OnMount (MountedAt qs) [(.testFile .dst, absent)] h₀

lemma copyImage_spec (expected : Text)
    (hpin : ∀ qs' h, Since OnMount (MountedAt qs) qs' h → Pinned h) :
    Spec sh (Since OnMount (MountedAt qs) []) (copyImage expected) fun _ h =>
      ∃ a, a.ok = true ∧ firstWord a.out = expected ∧
        Since Quiet (CopiedAt qs a) (fileChecks expected) h := by
  refine .bind (gate_plain ⟨⟨nofun, nofun⟩, rfl⟩) fun _ => ?_
  refine .bind (ask_skip ⟨nofun, by simp [target]⟩
    fun h _ hs => ⟨rfl, hpin _ h hs, mounted_of_since hs⟩) fun _ => ?_
  refine .bind (Q := fun a h => a.ok = true ∧ Since Quiet (CopiedAt qs a) [] h)
    (gate_spec (fun h _ hs => ⟨rfl, hpin _ h hs, mounted_of_since hs⟩)
      fun h a hs ha => ⟨ha, .start ⟨h, rfl, hs⟩⟩) fun a => .lift fun ha => ?_
  refine .bind (skip_plain ⟨⟨nofun, rfl⟩, rfl⟩) fun _ => ?_
  refine .bind (gate_plain ⟨⟨nofun, rfl⟩, rfl⟩) fun _ => ?_
  refine .bind (parkIf_spec _) fun _ => .lift fun hhash => ?_
  refine (gates_plain ?_).weaken (fun _ hs => hs) fun _ h hs =>
    ⟨a, ha, not_not.mp hhash, hs⟩
  intro g hg
  simp only [List.mem_cons, List.not_mem_nil, or_false] at hg
  rcases hg with rfl | rfl
  · exact ⟨⟨nofun, rfl⟩, rfl⟩
  · exact ⟨⟨nofun, rfl⟩, rfl⟩

/-- A command whose answer has to pass a test, with a message of its own. -/
lemma ask_parkIf {α : Type} {c : Cmd} {test : Answer → Bool} (keep : Answer → Answer → Bool)
    {lp : Answer → Text} {why : Answer → String} {k : Answer → ScriptM Cmd α}
    {Q : α → List Event → Prop} (hc : Plain phase c) (hkeep : ∀ a, test a = true → keep a a = true)
    (hk : ∀ a, Spec sh (Since phase B (qs ++ [(c, keep a)])) (k a) Q) :
    Spec sh (Since phase B qs)
      (do let a ← ask c; parkIf (test a = false) (lp a) (why a); k a) Q := by
  refine .bind (Q := fun a h' => ∃ h, Since phase B qs h ∧ h' = h ++ [(c, a)])
    (.ask (fun h a _ => acceptable_of_guarded hc.2 sh h a) fun h a hs => ⟨h, hs, rfl⟩) fun a => ?_
  refine .bind (parkIf_spec _) fun _ => .lift fun ha => ?_
  refine (hk a).weaken ?_ fun _ _ hq => hq
  rintro _ ⟨h, hs, rfl⟩
  exact hs.snoc hc.1 (hkeep a (by simpa using ha))

lemma checkImage_spec :
    Spec sh (Since Quiet B qs) checkImage fun _ h =>
      ∃ loop, Since Quiet B (qs ++ loopChecks loop) h := by
  refine ask_parkIf (fun a => Answer.gives a.out) ⟨⟨nofun, rfl⟩, rfl⟩
    (fun a ha => by simpa [Answer.gives, Answer.ok] using ha) fun a => ?_
  refine .bind (gates_plain ?_) fun _ => ?_
  · intro g hg
    simp only [loopGates, List.mem_cons, List.not_mem_nil, or_false] at hg
    rcases hg with rfl | rfl | rfl <;> exact ⟨⟨nofun, rfl⟩, rfl⟩
  refine ask_parkIf (fun _ => prints rootBytes) ⟨⟨nofun, rfl⟩, rfl⟩ (fun _ ha => ha) fun size => ?_
  refine .bind (gate_skip ⟨⟨nofun, rfl⟩, rfl⟩) fun _ => .pure fun h hs => ⟨a.out, ?_⟩
  simpa [loopChecks, List.append_assoc] using hs

/-! ### The commit -/

lemma CopiedAt.since {a : Answer} {h : List Event} (hs : CopiedAt qs a h) :
    Since OnMount (MountedAt qs) [(.testFile .dst, absent)] h := by
  obtain ⟨h₀, rfl, hs⟩ := hs
  have hcopy : OnMount (.copy .dstPartial) := ⟨nofun, by simp [target]⟩
  exact hs.skip hcopy a

/-- Before the rename everything is in place. -/
lemma rename_acceptable {a : Answer} {expected loop : Text} {h : List Event}
    (hpin : ∀ qs' h, Since OnMount (MountedAt qs) qs' h → Pinned h)
    (hexp : (expectedChecks expected).Sublist qs) (hlen : expected.length = 64)
    (ha : a.ok = true) (hhash : firstWord a.out = expected)
    (hs : Since Quiet (CopiedAt qs a) (fileChecks expected ++ loopChecks loop) h) (x : Answer) :
    Acceptable sh h (.mv .dstPartial .dst, x) := by
  have hmount := (hs.imp fun _ => CopiedAt.since).join fun _ => Quiet.onMount
  refine ⟨rfl, rfl, hpin _ h hmount, mounted_of_since hmount, fresh_of_since hmount, expected, loop,
    hlen, ?_⟩
  obtain ⟨_, t, rfl, ⟨h₀, rfl, hcut⟩, ht, hp⟩ := hs
  have hpassed : Passed (expectedChecks expected) h₀ :=
    (passed_of_since hcut).of_sublist (hexp.trans (List.sublist_append_left _ _))
  exact ⟨h₀, a, t, by simp, hpassed, ha, hhash, hp, fun e he => (ht e he).2⟩

lemma commit_spec {a : Answer} {expected loop : Text}
    (hpin : ∀ qs' h, Since OnMount (MountedAt qs) qs' h → Pinned h)
    (hexp : (expectedChecks expected).Sublist qs) (hlen : expected.length = 64)
    (ha : a.ok = true) (hhash : firstWord a.out = expected) :
    Spec sh (Since Quiet (CopiedAt qs a) (fileChecks expected ++ loopChecks loop)) commit fun _ =>
      Early (qs ++ commitChecks) := by
  refine .bind (Q := fun _ => Early (qs ++ [(.mount .nvme0n1p3, Answer.ok),
      (.mv .dstPartial .dst, Answer.ok)])) (gate_spec
    (fun h x hs => rename_acceptable hpin hexp hlen ha hhash hs x) fun h x hs hx => ?_) fun _ => ?_
  · have hmount := (hs.imp fun _ => CopiedAt.since).join fun _ => Quiet.onMount
    have hp : Passed (qs ++ [(.mount .nvme0n1p3, Answer.ok)]) h :=
      (passed_of_since hmount).of_sublist (by simp)
    have hone : Passed [(.mv .dstPartial .dst, Answer.ok)] [(Cmd.mv .dstPartial .dst, x)] :=
      .cons ⟨rfl, hx⟩ .nil
    have hall := hp.append hone
    rw [List.append_assoc] at hall
    exact ⟨[], _, rfl, trivial, fun _ _ => trivial, hall⟩
  · refine .bind (skip_plain (plain_early rfl)) fun _ => ?_
    refine (gates_plain ?_).weaken (fun _ hs => hs) fun _ h hs => ?_
    · intro g hg
      simp only [List.mem_cons, List.not_mem_nil, or_false] at hg
      rcases hg with rfl | rfl <;> exact plain_early rfl
    · rw [List.append_assoc] at hs
      exact hs

/-! ### The report -/

lemma report_spec {before : Counters} (hlen : before.others.length = otherDisks.length)
    (hbefore : (othersChecks sh before.others before.sum ++
      sectorChecks before.disk before.p).Sublist qs) :
    Spec sh (Early (qs ++ commitChecks))
      (report sh before.sum.out (written sh before.disk) (written sh before.p))
      fun _ _ => True := by
  refine .bind (others_spec fun _ _ _ => trivial) fun text => ?_
  refine .ex fun stats => .ex fun sum => .lift fun hstats => .lift fun htext => ?_
  refine .bind (parkIf_spec _) fun _ => .lift fun hsame => ?_
  refine .bind (wsec_spec trivial) fun diskAfter => .ex fun disk => .lift fun hdisk => ?_
  refine .bind (orEnd_spec _) fun diskWritten => .lift fun hdw => ?_
  refine .bind (wsec_spec trivial) fun pAfter => .ex fun p => .lift fun hp => ?_
  refine .bind (orEnd_spec _) fun pWritten => .lift fun hpw => ?_
  refine .bind (parkIf_spec _) fun _ => .lift fun hwritten => ?_
  refine .bind (Q := fun _ _ => True) (.ask (fun h _ hs => ?_) fun _ _ _ => trivial) fun _ =>
    .pure fun _ _ => trivial
  subst htext hdisk hp
  have hequal : diskWritten = pWritten := not_not.mp hwritten
  subst hequal
  refine ⟨before, ⟨stats, sum, disk, p⟩,
    ⟨hlen, hstats, not_not.mp hsame, diskWritten, hdw, hpw⟩, ?_⟩
  refine (Early.passed hs).of_sublist ?_
  have hsub := hbefore.append_right (commitChecks ++ (othersChecks sh stats sum ++
    sectorChecks disk p))
  simpa only [reportChecks, sectorChecks, List.append_assoc, List.singleton_append] using hsub

/-! ### The script -/

/-- Everything that is passed before the volume flags are read. -/
def qualifyChecks (sh : Sh) (expected transport model : Text) (stats : List Answer)
    (sum : Answer) : List (Check Cmd) :=
  expectedChecks expected ++ controllerGates.map Gate.check ++ topologyGates.map Gate.check ++
    identityChecks transport model ++ (readOnlyGates ++ partitionGates).map Gate.check ++
    othersChecks sh stats sum ++ pinGates.map Gate.check

/-- Everything that is passed before the mount. -/
def earlyChecks (sh : Sh) (expected transport model : Text) (before : Counters) :
    List (Check Cmd) :=
  qualifyChecks sh expected transport model before.others before.sum ++
    [(.cat .writeCache, prints "write through"), (.fsck .n .nvme0n1p3, Answer.ok)] ++
    sectorChecks before.disk before.p

variable {expected transport model : Text} {stats : List Answer} {sum : Answer}
  {before : Counters}

lemma pins_sublist :
    (pins transport model).Sublist (qualifyChecks sh expected transport model stats sum) := by
  have hpins : (pinGates.map Gate.check).Sublist
      (othersChecks sh stats sum ++ pinGates.map Gate.check) := List.sublist_append_right _ _
  simp only [pins, qualifyChecks, List.map_append, List.append_assoc]
  refine List.Sublist.trans ?_ (List.sublist_append_right _ _)
  exact ((((hpins.append_left _).append_left _).append_left _).append_left _).append_left _

lemma qualify_sublist : (qualifyChecks sh expected transport model before.others
    before.sum).Sublist (earlyChecks sh expected transport model before) :=
  (List.sublist_append_left _ _).trans (List.sublist_append_left _ _)

lemma expected_sublist :
    (expectedChecks expected).Sublist (earlyChecks sh expected transport model before) := by
  refine List.Sublist.trans ?_ qualify_sublist
  simp only [qualifyChecks, List.append_assoc]
  exact List.sublist_append_left _ _

lemma counters_sublist : (othersChecks sh before.others before.sum ++
    sectorChecks before.disk before.p).Sublist
      (earlyChecks sh expected transport model before) := by
  have hothers : (othersChecks sh before.others before.sum).Sublist
      (qualifyChecks sh expected transport model before.others before.sum) :=
    (List.sublist_append_right _ _).trans (List.sublist_append_left _ _)
  exact (hothers.trans (List.sublist_append_left _ _)).append_right _

/-- From the mount to the report. -/
lemma transfer_spec (sh : Sh) (before : Counters) (hlen : expected.length = 64)
    (hc : isController transport model = true)
    (hothers : before.others.length = otherDisks.length) :
    Spec sh (Early (earlyChecks sh expected transport model before))
      (transfer sh expected before.sum.out (written sh before.disk) (written sh before.p))
      fun _ _ => True := by
  have hearly : (pins transport model).Sublist (earlyChecks sh expected transport model before) :=
    pins_sublist.trans qualify_sublist
  have hpin : ∀ qs' h, Since OnMount (MountedAt (earlyChecks sh expected transport model before))
      qs' h → Pinned h := fun qs' h hs =>
    ⟨transport, model, hc, (passed_of_since hs).of_sublist
      (hearly.trans (List.sublist_append_left _ _))⟩
  refine .bind (Q := fun _ => Since OnMount (MountedAt _) []) (gate_spec
    (fun h _ hs => ⟨rfl, transport, model, hc, (Early.passed hs).of_sublist hearly⟩)
    fun h a hs ha => .start ⟨h, a, rfl, ha, hs⟩) fun _ => ?_
  refine .bind (copyImage_spec expected hpin) fun _ => ?_
  refine .ex fun a => .lift fun ha => .lift fun hhash => ?_
  refine .bind checkImage_spec fun _ => .ex fun loop => ?_
  refine .bind (commit_spec hpin expected_sublist hlen ha hhash) fun _ => ?_
  exact report_spec hothers counters_sublist

lemma gates_early {gs : List Gate} (h : gs.all fun g => guarded g.cmd = false) :
    Spec sh (Early qs) (gates loop gs) fun _ => Early (qs ++ gs.map Gate.check) :=
  gates_plain fun g hg => plain_early (by simpa using List.all_eq_true.mp h g hg)

theorem install_spec (sh : Sh) : Spec sh (Early []) (install sh) fun _ _ => True := by
  refine .bind bootstrap_spec fun expected => .lift fun hlen => ?_
  refine .bind (waitFor_spec (isBlock_spec _) _) fun _ => ?_
  refine .bind (gates_early (by decide)) fun _ => ?_
  refine .bind (waitFor_spec namespaces_spec _) fun _ => ?_
  refine .bind (gates_early (by decide)) fun _ => ?_
  refine .bind identity_spec fun _ => .ex fun transport => .ex fun model => .lift fun hc => ?_
  refine .bind (gates_early (by decide)) fun _ => ?_
  refine .bind (others_spec fun _ _ _ => trivial) fun text => ?_
  refine .ex fun stats => .ex fun sum => .lift fun hstats => .lift fun htext => ?_
  refine .bind (gates_early (by decide)) fun _ => ?_
  -- from here on the pins have been passed
  refine .bind (checkFlags_spec fun h hs =>
    ⟨transport, model, hc, (Early.passed hs).of_sublist pins_sublist⟩) fun _ => ?_
  refine .bind (skip_plain (plain_early rfl)) fun _ => .bind (gates_early (by decide)) fun _ => ?_
  refine .bind (wsec_spec trivial) fun diskBefore => .ex fun disk => .lift fun hdisk => ?_
  refine .bind (wsec_spec trivial) fun pBefore => .ex fun p => .lift fun hp => ?_
  subst htext hdisk hp
  have htransfer := transfer_spec sh ⟨stats, sum, disk, p⟩ hlen hc hstats
  refine .bind (htransfer.weaken (fun h hs => ?_) fun _ _ h => h) fun _ => ?_
  · rw [List.append_assoc] at hs
    exact hs
  · refine .bind (ask_any rfl) fun _ => .bind (ask_any rfl) fun _ => ?_
    exact .bind (ask_any rfl) fun _ => park_spec _ _ _

/-! ### Every run -/

/-- The third partition, or a file on its mount. -/
def OnP3 (t : Target) (h : List Event) : Prop :=
  match t with
  | .disk d => d = .nvme0n1p3
  | .file _ => Mounted h

/-- A counter file that gives numbers in all its fields. -/
def Legible (sh : Sh) (a : Answer) : Prop :=
  a.ok = true ∧ 17 ≤ (unquoted sh a.out).length ∧
    ∀ w ∈ unquoted sh a.out, isDecimal w = true ∧ Shell.number w < 2 ^ 63

/-- The counters can be read and digested, and a free loop device has a name. -/
def Answered (sh : Sh) (e : Event) : Prop :=
  match e.1 with
  | .cat (.stat _) => Legible sh e.2
  | .digest _ => e.2.ok = true
  | .losetupFree => e.2.ok = true → e.2.out ≠ []
  | _ => True

instance (sh : Sh) (a : Answer) : Decidable (Legible sh a) := inferInstanceAs (Decidable (_ ∧ _))

instance (sh : Sh) (e : Event) : Decidable (Answered sh e) := by
  unfold Answered
  split <;> infer_instance

/-- The sectors written, of a counter file. -/
def sectors (sh : Sh) (a : Answer) : ℤ := Shell.number (parameter (unquoted sh a.out) 7)

def Counters.Read (sh : Sh) (c : Counters) : Prop :=
  c.others.length = otherDisks.length ∧ (∀ a ∈ c.others, Legible sh a) ∧ c.sum.ok = true ∧
    Legible sh c.disk ∧ Legible sh c.p

/-- After the commit and the clean unmount, the counters of the other disks have the digest
that they had before, and the disk has no more sectors written than the third partition. -/
def Counted (sh : Sh) (h : List Event) : Prop :=
  ∃ before after : Counters, before.Read sh ∧ after.Read sh ∧ after.sum.out = before.sum.out ∧
    sectors sh after.disk - sectors sh before.disk = sectors sh after.p - sectors sh before.p ∧
    Passed (reportChecks sh before after) h

lemma echo_of_decimal {t : Text} (h : isDecimal t = true) : echo t = t := by
  unfold echo
  rw [if_neg]
  rintro ⟨hd, -⟩
  obtain ⟨c, l, rfl⟩ : ∃ c l, t = c :: l := by
    cases t with
    | nil => cases hd
    | cons c l => exact ⟨c, l, rfl⟩
  cases hd
  simp [isDecimal] at h

lemma Legible.written {a : Answer} (h : Legible sh a) :
    isDecimal (written sh a) = true ∧ Shell.number (written sh a) < 2 ^ 63 ∧
      (Shell.number (written sh a) : ℤ) = sectors sh a := by
  obtain ⟨-, hlen, hall⟩ := h
  have hmem : parameter (unquoted sh a.out) 7 ∈ unquoted sh a.out := by
    unfold parameter
    rw [List.getD_eq_getElem?_getD, List.getElem?_eq_getElem (by omega)]
    exact List.getElem_mem _
  obtain ⟨hd, hlt⟩ := hall _ hmem
  have he : InstallSafe.written sh a = parameter (unquoted sh a.out) 7 := echo_of_decimal hd
  rw [he]
  exact ⟨hd, hlt, rfl⟩

/-- On numbers the difference is the difference. -/
lemma minus_legible {a b : Answer} (ha : Legible sh a) (hb : Legible sh b) :
    minus sh (written sh a) (written sh b) = some (sectors sh a - sectors sh b) := by
  obtain ⟨hda, hla, ea⟩ := ha.written
  obtain ⟨hdb, hlb, eb⟩ := hb.written
  unfold minus
  rw [if_pos ⟨by simp [isPlain, hda], by simp [isPlain, hdb]⟩, ← ea, ← eb]
  congr 1
  exact Int.bmod_eq_of_le (by omega) (by omega)

lemma Passed.answer {qs : List (Check Cmd)} {h : List Event} (hp : Passed qs h) {c : Cmd}
    {a : Answer} (hq : (c, Answer.is a) ∈ qs) : (c, a) ∈ h := by
  obtain ⟨⟨c', a'⟩, he, hc, ha⟩ := hp.exists_mem hq
  obtain rfl : c' = c := hc
  obtain rfl : a' = a := by simpa [Answer.is] using ha
  exact he

lemma mem_statChecks {ds : List Disk} {stats : List Answer} (hlen : stats.length = ds.length)
    {a : Answer} (ha : a ∈ stats) : ∃ d, (.cat (.stat d), Answer.is a) ∈ statChecks ds stats := by
  induction ds generalizing stats with
  | nil =>
    rw [List.eq_nil_of_length_eq_zero hlen] at ha
    cases ha
  | cons d ds ih =>
    cases stats with
    | nil => cases ha
    | cons b stats =>
      rcases List.mem_cons.mp ha with rfl | ha
      · exact ⟨d, List.mem_cons_self⟩
      · obtain ⟨d', hd'⟩ := ih (by simpa using hlen) ha
        exact ⟨d', List.mem_cons_of_mem _ hd'⟩

/-- Counters that were read in a run whose answers are legible are legible. -/
lemma Counters.read_of_passed {c : Counters} {qs : List (Check Cmd)} {h : List Event}
    (hlen : c.others.length = otherDisks.length)
    (hsub : othersChecks sh c.others c.sum ++ sectorChecks c.disk c.p ⊆ qs)
    (hp : Passed qs h) (hall : ∀ x ∈ h, Answered sh x) : c.Read sh := by
  have hanswer : ∀ (d : Disk) (a : Answer), (.cat (.stat d), Answer.is a) ∈ qs → Legible sh a :=
    fun d a ha => hall _ (Passed.answer hp ha)
  refine ⟨hlen, fun a ha => ?_, ?_, ?_, ?_⟩
  · obtain ⟨d, hd⟩ := mem_statChecks hlen ha
    exact hanswer d a (hsub (by simp [othersChecks, hd]))
  · have hsum : (.digest (othersInput sh (c.others.map Answer.out)), Answer.is c.sum) ∈ qs :=
      hsub (by simp [othersChecks])
    exact hall _ (Passed.answer hp hsum)
  · exact hanswer .nvme0n1 c.disk (hsub (by simp [sectorChecks]))
  · exact hanswer .nvme0n1p3 c.p (hsub (by simp [sectorChecks]))

lemma counted_of_reported {h : List Event} (hr : Reported sh h)
    (hall : ∀ x ∈ h, Answered sh x) : Counted sh h := by
  obtain ⟨before, after, ⟨hb, ha, hsum, n, hdisk, hp⟩, hpassed⟩ := hr
  have hqs : reportChecks sh before after =
      othersChecks sh before.others before.sum ++ sectorChecks before.disk before.p ++
        commitChecks ++ (othersChecks sh after.others after.sum ++
          sectorChecks after.disk after.p) := List.append_assoc _ _ _
  have hbefore : before.Read sh := by
    refine Counters.read_of_passed hb ?_ hpassed hall
    rw [hqs, List.append_assoc]
    exact List.subset_append_left _ _
  have hafter : after.Read sh := by
    refine Counters.read_of_passed ha ?_ hpassed hall
    rw [hqs]
    exact List.subset_append_right _ _
  rw [minus_legible hafter.2.2.2.1 hbefore.2.2.2.1] at hdisk
  rw [minus_legible hafter.2.2.2.2 hbefore.2.2.2.2] at hp
  exact ⟨before, after, hbefore, hafter, hsum,
    (Option.some.inj hdisk).trans (Option.some.inj hp).symm, hpassed⟩

/-- The loop device has a name. -/
lemma Checked.loop_ne {expected loop : Text} {h : List Event} (hc : Checked expected loop h)
    (hall : ∀ x ∈ h, Answered sh x) : loop ≠ [] := by
  obtain ⟨-, h₀, a, t, rfl, -, -, -, hp, -⟩ := hc
  have hmem : (Cmd.losetupFree, Answer.gives loop) ∈ fileChecks expected ++ loopChecks loop := by
    simp [loopChecks]
  obtain ⟨⟨c, x⟩, hx, rfl, hgives⟩ := hp.exists_mem hmem
  have hanswered : x.ok = true → x.out ≠ [] := hall (.losetupFree, x) (by simp [hx])
  have hx : x.status = 0 ∧ x.out = loop := by simpa [Answer.gives] using hgives
  rw [← hx.2]
  exact hanswered (by simp [Answer.ok, hx.1])

lemma target_cases {c : Cmd} {t : Target} (h : target c = some t) :
    (∃ d, (c = .fsck .y d ∨ c = .mount d) ∧ t = .disk d) ∨
      (∃ f, (c = .rm f ∨ c = .copy f) ∧ t = .file f) ∨ ∃ f g, c = .mv f g ∧ t = .file g := by
  unfold target at h
  split at h
  · exact .inl ⟨_, .inl rfl, (Option.some.inj h).symm⟩
  · exact .inl ⟨_, .inr rfl, (Option.some.inj h).symm⟩
  · exact .inr (.inl ⟨_, .inl rfl, (Option.some.inj h).symm⟩)
  · exact .inr (.inl ⟨_, .inr rfl, (Option.some.inj h).symm⟩)
  · exact .inr (.inr ⟨_, _, rfl, (Option.some.inj h).symm⟩)
  · cases h

/-- **Every run of the installer.** A command that can write to the SSD comes after all pins
and is about the third partition or its mount; the image is written by the rename only, onto a
name that was free. If the answers are legible, the renamed file was verified, and the report
of success comes after the clean unmount and counters that show no write elsewhere. -/
theorem install_writes_verified (sh : Sh) (answers : List Answer) (pre post : List Event)
    (e : Event) (h : (install sh answers).trail = pre ++ e :: post) :
    (∀ t, target e.1 = some t → OnP3 t pre ∧ Pinned pre) ∧
    (target e.1 = some (.file .dst) → e.1 = .mv .dstPartial .dst ∧ Fresh pre) ∧
    ((∀ x ∈ pre, Answered sh x) →
      (e.1 = .mv .dstPartial .dst → ∃ expected loop, loop ≠ [] ∧ Checked expected loop pre) ∧
      (e.1 = .sayPass → Counted sh pre)) := by
  have hstart : Early [] ([] : List Event) := ⟨[], [], rfl, trivial, nofun, .nil⟩
  have hok : Acceptable sh pre e := (install_spec sh [] hstart answers).1 pre e post h
  obtain ⟨c, a⟩ := e
  refine ⟨fun t ht => ?_, fun ht => ?_, fun hall => ⟨fun hc => ?_, fun hc => ?_⟩⟩
  · rcases target_cases ht with ⟨d, rfl | rfl, rfl⟩ | ⟨f, rfl | rfl, rfl⟩ | ⟨f, g, rfl, rfl⟩
    · exact hok
    · exact hok
    · exact ⟨hok.2.2, hok.2.1⟩
    · exact ⟨hok.2.2, hok.2.1⟩
    · exact ⟨hok.2.2.2.1, hok.2.2.1⟩
  · rcases target_cases ht with ⟨d, -, hd⟩ | ⟨f, rfl | rfl, ⟨rfl⟩⟩ | ⟨f, g, rfl, ⟨rfl⟩⟩
    · cases hd
    · exact absurd hok.1 nofun
    · exact absurd hok.1 nofun
    · exact ⟨congrArg (Cmd.mv · .dst) hok.1, hok.2.2.2.2.1⟩
  · obtain rfl : c = .mv .dstPartial .dst := hc
    obtain ⟨-, -, -, -, -, expected, loop, hchecked⟩ := hok
    exact ⟨expected, loop, hchecked.loop_ne hall, hchecked⟩
  · obtain rfl : c = .sayPass := hc
    exact counted_of_reported hok hall

/-! ### Two runs -/

/-- Patterns that match nothing, and no arithmetic on text that is not a number. -/
def plainSh : Sh where
  glob := Shell.words
  value _ := none
  minus _ _ := none

def said (s : String) : Answer := ⟨0, s.toList⟩

def fine : Answer := ⟨0, []⟩

def failed : Answer := ⟨1, []⟩

def smallHash : Text := List.replicate 64 'a'

/-- The answers of a run in which every gate is passed, with one answer for all reads of the
counters. -/
def smoothRun (stat : Answer) : List Answer :=
  let stats := List.replicate 5 stat ++ [said "0123  -"]
  List.replicate 8 fine ++ [⟨0, smallHash⟩, fine] ++
    [fine, failed, fine, fine] ++
    [said "1954210120", said "6144", said "262144", failed, said "apple-nvme",
      said "APPLE SSD AP1024Z"] ++
    List.replicate 10 fine ++ [failed, said "0"] ++ stats ++
    [said "1586917376", said "356806656", said "4096", said "a2a0d0ebe5b9334487c068b6b72699c7",
      said "dba60dea3529cb49a996b982dd646f24", said "00ced20b00000000ff5b7b0e00000000",
      said "EXFAT   ", said "af2cdd6a", said "83056c0069006e0075007800"] ++
    [said "     0", fine, said "write through", fine, stat, stat] ++
    [fine, failed, fine, ⟨0, smallHash ++ "  -".toList⟩, fine, said rootBytes, fine,
      ⟨0, smallHash⟩, said "/dev/loop0", fine, fine, said "/dev/loop0", said rootBytes, fine] ++
    [fine, fine, fine, fine] ++ stats ++ [stat, stat, fine]

/-- A counter file with numbers in it. -/
def statLine : Answer := said "1 0 8 1 2 0 16 2 0 3 3 0 0 0 0 0 0"

lemma exists_last {l : List Event} {c : Cmd} (h : (l.map Prod.fst).getLast? = some c) :
    ∃ pre e, l = pre ++ e :: [] ∧ e.1 = c := by
  rw [List.getLast?_map, Option.map_eq_some_iff] at h
  obtain ⟨e, he, hc⟩ := h
  obtain ⟨pre, hpre⟩ := List.getLast?_eq_some_iff.mp he
  exact ⟨pre, e, hpre, hc⟩

/-- With counters that can be read the success that is reported is one. -/
theorem install_writes_verified_smooth : ∃ pre e,
    (install plainSh (smoothRun statLine)).trail = pre ++ e :: [] ∧ e.1 = .sayPass ∧
      Counted plainSh pre := by
  have hall : ∀ x ∈ (install plainSh (smoothRun statLine)).trail, Answered plainSh x := by
    have h : ((install plainSh (smoothRun statLine)).trail.all fun x =>
        decide (Answered plainSh x)) = true := by decide +kernel
    exact fun x hx => of_decide_eq_true (List.all_eq_true.mp h x hx)
  obtain ⟨pre, e, htrail, he⟩ := exists_last (l := (install plainSh (smoothRun statLine)).trail)
    (c := .sayPass) (by decide +kernel)
  refine ⟨pre, e, htrail, he, ?_⟩
  refine ((install_writes_verified plainSh (smoothRun statLine) pre [] e htrail).2.2 ?_).2 he
  exact fun x hx => hall x (htrail ▸ List.mem_append_left _ hx)

/-- The event is no read of a counter file that succeeded. -/
def unread (e : Event) : Bool :=
  match e.1 with
  | .cat (.stat _) => !e.2.ok
  | _ => true

/-- If no counter can be read, the success is reported all the same. -/
theorem pass_without_counters : ∃ pre e,
    (install plainSh (smoothRun failed)).trail = pre ++ e :: [] ∧ e.1 = .sayPass ∧
      ¬Counted plainSh pre := by
  have hunread : (install plainSh (smoothRun failed)).trail.all unread = true := by decide +kernel
  obtain ⟨pre, e, htrail, he⟩ := exists_last (l := (install plainSh (smoothRun failed)).trail)
    (c := .sayPass) (by decide +kernel)
  refine ⟨pre, e, htrail, he, ?_⟩
  rintro ⟨before, after, hread, -, -, -, hp⟩
  have hmem : (Cmd.cat (.stat .nvme0n1), before.disk) ∈ pre :=
    Passed.answer hp (by simp [reportChecks, sectorChecks])
  have hfail : unread (Cmd.cat (.stat .nvme0n1), before.disk) = true :=
    List.all_eq_true.mp hunread _ (htrail ▸ List.mem_append_left _ hmem)
  have hok : before.disk.ok = true := hread.2.2.2.1.1
  simp [unread, hok] at hfail

end Wallace.InstallSafe
