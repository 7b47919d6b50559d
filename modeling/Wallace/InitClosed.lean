import Wallace.InitModel

/-!
The verified init fails closed.

As long as no check has failed, the history of the script is an exact account: the bootstrap
with the keymap, some turns of discovery that found nothing, the selected result, every check
of the read-only view, and the second selection with the same result. The read-write mount
comes after the whole of it, and `switch_root` after the read-write mount and the virtual file
systems.
-/

namespace Wallace.InitClosed

open Wallace.Trail Wallace.History Wallace.Script Wallace.InitModel

/-! ### The account -/

def bootChecks : List (Check Cmd) :=
  [(.mkdir ["/proc", "/sys", "/dev", "/newroot", "/tmp"], Answer.ok),
    (.mount .devtmpfs .dev, Answer.ok),
    (.sha256sum bmapDigest "/etc/wallace-no.bmap", Answer.ok), (.loadkmap, Answer.ok),
    (.mount .proc .proc, Answer.ok), (.mount .sysfs .sys, Answer.ok), (.isPid1, Answer.ok),
    (.cat "/sys/devices/system/cpu/online", Answer.prints ['0']),
    (executable "/sbin/t6040-usb-root-metadata", Answer.ok),
    (executable "/sbin/e2fsck", Answer.ok),
    (.test .readable "/opt/wallace/t6040-usb-root-select.sh".toList, Answer.ok)]

/-- A turn of discovery that found nothing yet. -/
def retry : List (Check Cmd) :=
  [(.usbRootSelect true, fun a => a.status = 3), (.sleep, fun _ => true)]

def retries (n : ℕ) : List (Check Cmd) := (List.replicate n retry).flatten

/-- The checks from the selected device to the second selection. -/
def inspectChecks (result : Text) : List (Check Cmd) :=
  [(.test .block (device result), Answer.ok), (.e2fsck (device result), Answer.ok),
      (.mountRoot .ro (device result), Answer.ok)] ++
    (inspection (partuuid result)).flatten ++
    [(.umount .newroot, Answer.ok), (.usbRootSelect false, Answer.gives result)]

/-- Everything up to the read-write mount. -/
def account (n : ℕ) (result : Text) : List (Check Cmd) :=
  bootChecks ++ retries n ++ [(.usbRootSelect true, Answer.gives result)] ++ inspectChecks result

/-- The whole way to `switch_root`. -/
def handedOver (n : ℕ) (result : Text) : List (Check Cmd) :=
  account n result ++ (.mountRoot .rw (device result), Answer.ok) :: virtualChecks

/-- What has to stand before a command. -/
def Acceptable (h : List (Cmd × Answer)) (e : Cmd × Answer) : Prop :=
  match e.1 with
  | .usbRootSelect true => ∃ n ≤ 30, List.Forall₂ Shows (bootChecks ++ retries n) h
  | .mountRoot .rw dev => ∃ n ≤ 30, ∃ result,
      dev = device result ∧ List.Forall₂ Shows (account n result) h
  | .switchRoot => ∃ n ≤ 30, ∃ result, List.Forall₂ Shows (handedOver n result) h
  | _ => True

/-- The commands of the handoff. -/
def handoffCmds : List Cmd := virtualChecks.map Prod.fst

def HandoffFailed (h : List (Cmd × Answer)) : Prop :=
  ∃ e ∈ h, e.1 ∈ handoffCmds ∧ e.2.ok = false

/-- The script has stopped with the root unmounted, or with the message of the first of the
two steps, back to read-only and the unmount, that failed. -/
def Closed (why : String) (h : List (Cmd × Answer)) : Prop :=
  ∃ h₀ a₁ a₂ a₃ remount, let h₁ := h₀ ++ [(Cmd.umount .newrootSys, a₁), (.umount .newrootProc, a₂),
      (.umount .newrootDev, a₃), (.remountRo, remount)]
    remount.ok = false ∧ h = h₁ ∧ why = "handoff failed and root did not become RO" ∨
    remount.ok = true ∧ ∃ umount, h = h₁ ++ [(.umount .newroot, umount)] ∧
      (umount.ok = false ∧ why = "handoff failed and root stayed mounted" ∨
        umount.ok = true ∧ why = "virtual filesystem handoff failed")

/-- What a message leaves behind. -/
def Stopped (why : String) (h : List (Cmd × Answer)) : Prop := HandoffFailed h → Closed why h

/-- The commands before the handoff. -/
def Early (c : Cmd) : Prop := c ∉ handoffCmds

instance (c : Cmd) : Decidable (Early c) := inferInstanceAs (Decidable (¬_))

abbrev Stage (live : Prop) (qs : List (Check Cmd)) : List (Cmd × Answer) → Prop := At Early live qs

variable {live : Prop} {qs : List (Check Cmd)}

lemma stopped_of_early {h : List (Cmd × Answer)} (he : ∀ e ∈ h, Early e.1) (why : String) :
    Stopped why h := by
  rintro ⟨e, hmem, hcmd, -⟩
  exact absurd hcmd (he e hmem)

/-! ### The phases before the handoff -/

/-- Something has to stand before the command. -/
def guarded : Cmd → Bool
  | .usbRootSelect true | .mountRoot .rw _ | .switchRoot => true
  | _ => false

/-- A command of this phase that nothing has to stand before. -/
def Plain (c : Cmd) : Prop := Early c ∧ guarded c = false

instance (c : Cmd) : Decidable (Plain c) := inferInstanceAs (Decidable (_ ∧ _))

lemma acceptable_of_guarded {c : Cmd} (hc : guarded c = false) (h : List (Cmd × Answer))
    (a : Answer) : Acceptable h (c, a) := by
  unfold Acceptable
  split <;> simp_all [guarded]

lemma Plain.acceptable {c : Cmd} (hc : Plain c) (h : List (Cmd × Answer)) (a : Answer) :
    Acceptable h (c, a) :=
  acceptable_of_guarded hc.2 h a

lemma ask_plain {c : Cmd} (hc : Plain c) :
    Triple Acceptable Stopped (Stage live qs) (ask c) fun a h =>
      ∀ (live' : Prop) test, (live' → live ∧ test a = true) →
        Stage live' (qs ++ [(c, test)]) h :=
  ask_at hc.1 fun h a _ => hc.acceptable h a

lemma orStop_plain {c : Cmd} {why : String} (hc : Plain c) :
    Triple Acceptable Stopped (Stage live qs) (orStop c why) fun _ =>
      Stage live (qs ++ [(c, Answer.ok)]) :=
  orStop_at hc.1 (fun h a _ => hc.acceptable h a) fun _ he => stopped_of_early he why

lemma chain_plain {l : List (Check Cmd)} (hl : ∀ q ∈ l, Plain q.1) :
    Triple Acceptable Stopped (Stage live qs) (chain l) fun b =>
      Stage (live ∧ b = true) (qs ++ l) :=
  chain_at (fun q hq => (hl q hq).1) fun q hq => (hl q hq).acceptable

/-- A check of an answer that has just been given. -/
lemma stopIf_early {c : Prop} [Decidable c] {why : String} {P Q : List (Cmd × Answer) → Prop}
    (he : ∀ h, P h → ∀ e ∈ h, Early e.1) (hq : ∀ h, ¬c → P h → Q h) :
    Triple Acceptable Stopped P (stopIf c why : ScriptM Cmd Unit) fun _ => Q :=
  (Triple.stopIf fun h _ hP => stopped_of_early (he h hP) why).weaken (fun _ h => h)
    fun _ h hP => hq h hP.1 hP.2

/-- A chain that has to come out true. -/
lemma stopIf_chain {b : Bool} {why : String} :
    Triple Acceptable Stopped (Stage (live ∧ b = true) qs)
      (stopIf (b = false) why : ScriptM Cmd Unit) fun _ => Stage live qs :=
  stopIf_early (fun _ hat => hat.within) fun _ hb hat =>
    ⟨hat.within, fun hl => hat.account ⟨hl, by simpa using hb⟩⟩

lemma bootstrap_spec :
    Triple Acceptable Stopped (Stage True []) bootstrap fun _ => Stage True bootChecks := by
  refine .bind (orStop_plain (by decide)) fun _ => ?_
  refine .bind (orStop_plain (by decide)) fun _ => ?_
  refine .bind (chain_plain (by decide)) fun _ => ?_
  refine .bind stopIf_chain fun _ => ?_
  refine .bind (orStop_plain (by decide)) fun _ => ?_
  refine .bind (orStop_plain (by decide)) fun _ => ?_
  refine .bind (orStop_plain (by decide)) fun _ => ?_
  refine .bind (chain_plain (by decide)) fun _ => ?_
  refine .bind stopIf_chain fun _ => ?_
  refine .bind (orStop_plain (by decide)) fun _ => ?_
  refine .bind (orStop_plain (by decide)) fun _ => ?_
  exact orStop_plain (by decide)

lemma retries_succ (n : ℕ) : retries (n + 1) = retries n ++ retry := by
  rw [retries, List.replicate_succ', List.flatten_append, List.flatten_singleton, retries]

/-- One more command, and the end. -/
lemma askStop_plain {α : Type} {c : Cmd} {why : String} {P : List (Cmd × Answer) → Prop}
    {Q : α → List (Cmd × Answer) → Prop} (hc : Plain c) (hP : ∀ h, P h → Stage live qs h) :
    Triple Acceptable Stopped P (ask c >>= fun _ => (stop why : ScriptM Cmd α)) Q := by
  refine .bind ((ask_plain hc).weaken hP fun _ _ h => h) fun a => .stop fun h hat => ?_
  exact stopped_of_early (hat False (fun _ => true) nofun).within why

/-- One run of the selector in discovery. -/
lemma select_spec {n : ℕ} (hn : n ≤ 30) :
    Triple Acceptable Stopped (Stage True (bootChecks ++ retries n)) (ask (.usbRootSelect true))
      fun a h => ∀ test, test a = true →
        Stage True (bootChecks ++ retries n ++ [(.usbRootSelect true, test)]) h :=
  (ask_at (by decide) fun _ _ hat => ⟨n, hn, hat.account trivial⟩).weaken (fun _ h => h)
    fun _ _ hat test ha => hat True test fun _ => ⟨trivial, ha⟩

/-- **Discovery**: with `left` turns to go, after the `30 - left` that found nothing. -/
theorem discover_spec (left n : ℕ) (hn : n + left = 30) :
    Triple Acceptable Stopped (Stage True (bootChecks ++ retries n)) (discover left)
      fun result h => ∃ n ≤ 30,
        Stage True (bootChecks ++ retries n ++ [(.usbRootSelect true, Answer.gives result)]) h := by
  induction left generalizing n with
  | zero =>
    rw [discover]
    refine .bind (select_spec (by omega)) fun a => ?_
    refine .ite (fun ha => .pure fun h hat => ⟨n, by omega, hat _ ?_⟩) fun _ => .ite ?_ ?_
    · simp [Answer.gives, ha]
    · exact fun _ => askStop_plain (by decide) fun h hat => hat (fun _ => true) rfl
    · exact fun _ => askStop_plain (by decide) fun h hat => hat (fun _ => true) rfl
  | succ left ih =>
    rw [discover]
    refine .bind (select_spec (by omega)) fun a => ?_
    refine .ite (fun ha => .pure fun h hat => ⟨n, by omega, hat _ ?_⟩) fun _ => .ite ?_ ?_
    · simp [Answer.gives, ha]
    · intro ha
      refine .bind ((ask_plain (by decide)).weaken
        (fun h hat => hat (fun a => a.status = 3) (by simp [ha])) fun _ _ h => h) fun _ => ?_
      refine (ih (n + 1) (by omega)).weaken (fun h hat => ?_) fun _ _ h => h
      have := hat True (fun _ => true) fun _ => ⟨trivial, rfl⟩
      rw [retries_succ, ← List.append_assoc, retry]
      simpa using this
    · exact fun _ => askStop_plain (by decide) fun h hat => hat (fun _ => true) rfl

lemma inspection_plain (uuid : Text) : ∀ q ∈ (inspection uuid).flatten, Plain q.1 := by
  have hcmds : (inspection uuid).flatten.map Prod.fst = (inspection []).flatten.map Prod.fst := rfl
  have hall : ∀ c ∈ (inspection []).flatten.map Prod.fst, Plain c := by decide
  rw [← hcmds] at hall
  exact fun q hq => hall q.1 (List.mem_map_of_mem hq)

lemma selected_plain (result : Text) (c : Cmd) (hc : c = .test .block (device result) ∨
    c = .e2fsck (device result) ∨ c = .mountRoot .ro (device result)) : Plain c := by
  rcases hc with rfl | rfl | rfl
  · exact ⟨by simp [Early, handoffCmds, virtualChecks], rfl⟩
  · exact ⟨by simp [Early, handoffCmds, virtualChecks], rfl⟩
  · exact ⟨by simp [Early, handoffCmds, virtualChecks], rfl⟩

/-- **The inspection** adds all its checks to the account. -/
theorem inspect_spec (result : Text) :
    Triple Acceptable Stopped (Stage True qs) (inspect result) fun _ =>
      Stage True (qs ++ inspectChecks result) := by
  have hchecks := inspection_plain (partuuid result)
  refine .bind (ask_plain (selected_plain result _ (by simp))) fun block => ?_
  refine .bind (Q := fun _ => Stage True (qs ++ [(.test .block (device result), Answer.ok)]))
    (stopIf_early (fun h hat => (hat False (fun _ => true) nofun).within) fun h hb hat => ?_)
    fun _ => ?_
  · exact hat True _ fun _ => ⟨trivial, (not_not.mp hb).1⟩
  refine .bind (orStop_plain (selected_plain result _ (by simp))) fun _ => ?_
  refine .bind (orStop_plain (selected_plain result _ (by simp))) fun _ => ?_
  refine .bind (chains_at (fun q hq => (hchecks q hq).1) fun q hq => (hchecks q hq).acceptable)
    fun rootOk => ?_
  refine .bind (orStop_plain (by decide)) fun _ => ?_
  refine .bind stopIf_chain fun _ => ?_
  refine .bind (ask_plain (by decide)) fun again => ?_
  refine .bind (stopIf_early (fun h hat => (hat False (fun _ => true) nofun).within)
    fun h hb hat => And.intro hb hat) fun _ => ?_
  refine stopIf_early (fun h hat => (hat.2 False (fun _ => true) nofun).within) fun h hb hat => ?_
  have hgives : Answer.gives result again = true := by
    have hok := hat.1
    simp only [Answer.ok, decide_eq_false_iff_not, not_not] at hok
    simp [Answer.gives, hok, not_not.mp hb]
  have hstage := hat.2 True (Answer.gives result) fun _ => ⟨trivial, hgives⟩
  simpa [inspectChecks, List.append_assoc] using hstage

/-! ### The handoff -/

/-- **The way back** ends as `Closed` says. -/
theorem retreat_spec (Q : Unit → List (Cmd × Answer) → Prop) :
    Triple Acceptable Stopped (fun _ => True) retreat Q := by
  refine .bind (Q := fun a₁ h => ∃ h₀, h = h₀ ++ [(.umount .newrootSys, a₁)])
    (.ask (fun _ _ _ => trivial) fun h a _ => ⟨h, rfl⟩) fun a₁ => ?_
  refine .bind (Q := fun a₂ h => ∃ h₀,
      h = h₀ ++ [(.umount .newrootSys, a₁), (.umount .newrootProc, a₂)])
    (.ask (fun _ _ _ => trivial) fun h a hh => ?_) fun a₂ => ?_
  · obtain ⟨h₀, rfl⟩ := hh
    exact ⟨h₀, by simp⟩
  refine .bind (Q := fun a₃ h => ∃ h₀, h = h₀ ++ [(.umount .newrootSys, a₁),
      (.umount .newrootProc, a₂), (.umount .newrootDev, a₃)])
    (.ask (fun _ _ _ => trivial) fun h a hh => ?_) fun a₃ => ?_
  · obtain ⟨h₀, rfl⟩ := hh
    exact ⟨h₀, by simp⟩
  refine .bind (Q := fun _ h => ∃ h₀ remount, remount.ok = true ∧ h = h₀ ++
      [(.umount .newrootSys, a₁), (.umount .newrootProc, a₂), (.umount .newrootDev, a₃),
        (.remountRo, remount)])
    (orStop_spec (fun _ _ _ => trivial) ?_ ?_) fun _ => ?_
  · rintro _ remount ⟨h₀, rfl⟩ hr -
    exact ⟨h₀, a₁, a₂, a₃, remount, .inl ⟨hr, by simp, rfl⟩⟩
  · rintro _ remount ⟨h₀, rfl⟩ hr
    exact ⟨h₀, remount, hr, by simp⟩
  refine .bind (Q := fun _ h => Closed "virtual filesystem handoff failed" h)
    (orStop_spec (fun _ _ _ => trivial) ?_ ?_) fun _ => ?_
  · rintro _ umount ⟨h₀, remount, hr, rfl⟩ hu -
    exact ⟨h₀, a₁, a₂, a₃, remount, .inr ⟨hr, umount, by simp, .inl ⟨hu, rfl⟩⟩⟩
  · rintro _ umount ⟨h₀, remount, hr, rfl⟩ hu
    exact ⟨h₀, a₁, a₂, a₃, remount, .inr ⟨hr, umount, by simp, .inr ⟨hu, rfl⟩⟩⟩
  · exact .stop fun h hclosed _ => hclosed

/-- **The handoff**, after the whole account. -/
theorem handoff_spec {n : ℕ} {result : Text} (hn : n ≤ 30) :
    Triple Acceptable Stopped (Stage True (account n result)) (handoff (device result))
      fun _ h => ∃ n result, List.Forall₂ Shows
        (handedOver n result ++ [(.switchRoot, fun _ => true)]) h := by
  have hearly : Early (.mountRoot .rw (device result)) := by
    simp [Early, handoffCmds, virtualChecks]
  refine .bind (orStop_at hearly (fun h a hat => ?_) fun h he => stopped_of_early he _) fun _ => ?_
  · exact ⟨n, hn, result, rfl, hat.account trivial⟩
  refine .bind (Q := fun b => At (fun _ => True) (True ∧ b = true) (handedOver n result)) ?_
    fun b => .ite (fun hb => ?_) fun _ => ?_
  · have hchain : Triple Acceptable Stopped (At (fun _ => True) True
        (account n result ++ [(.mountRoot .rw (device result), Answer.ok)])) (chain virtualChecks)
        fun b => At (fun _ => True) (True ∧ b = true)
          (account n result ++ [(.mountRoot .rw (device result), Answer.ok)] ++ virtualChecks) := by
      have hguard : ∀ q ∈ virtualChecks, guarded q.1 = false := by decide
      exact chain_at (fun _ _ => trivial) fun q hq => acceptable_of_guarded (hguard q hq)
    rw [List.append_assoc, List.singleton_append] at hchain
    exact hchain.weaken (fun h hat => ⟨fun _ _ => trivial, hat.account⟩) fun _ _ h => h
  · refine .bind (Q := fun _ h => List.Forall₂ Shows
      (handedOver n result ++ [(.switchRoot, fun _ => true)]) h) (.ask ?_ ?_)
      fun _ => .pure fun h hh => ⟨n, result, hh⟩
    · exact fun h a hat => ⟨n, hn, result, hat.account ⟨trivial, hb⟩⟩
    · exact fun h a hat => List.rel_append (hat.account ⟨trivial, hb⟩) (.cons ⟨rfl, rfl⟩ .nil)
  · exact (retreat_spec _).weaken (fun _ _ => trivial) fun _ _ h => h

/-! ### The whole script -/

lemma init_spec : Triple Acceptable Stopped (Stage True []) init fun _ h =>
    ∃ n result, List.Forall₂ Shows (handedOver n result ++ [(.switchRoot, fun _ => true)]) h := by
  refine .bind bootstrap_spec fun _ => ?_
  have hdiscover := discover_spec 30 0 rfl
  rw [show retries 0 = [] from rfl, List.append_nil] at hdiscover
  refine .bind hdiscover fun result => .ex fun n => .lift fun hn => ?_
  refine .bind (inspect_spec result) fun _ => ?_
  exact handoff_spec hn

lemma within_discover (left : ℕ) : Within (2 * left + 2) (discover left) := by
  induction left with
  | zero =>
    rw [discover]
    refine (Within.ask _).bind (k := 1) fun a => ?_
    split_ifs
    · exact (Within.pure _).mono (by omega)
    · exact (Within.ask _).bind fun _ => .stop _
    · exact (Within.ask _).bind fun _ => .stop _
  | succ left ih =>
    rw [discover]
    refine ((Within.ask _).bind (k := 2 * left + 3) fun a => ?_).mono (by omega)
    split_ifs
    · exact (Within.pure _).mono (by omega)
    · exact ((Within.ask _).bind fun _ => ih).mono (by omega)
    · exact ((Within.ask _).bind fun _ => .stop _).mono (by omega)

lemma within_bootstrap : Within 11 bootstrap := by
  refine (within_orStop _ _).bind (k := 10) fun _ => ?_
  refine (within_orStop _ _).bind (k := 9) fun _ => ?_
  refine ((within_chain _).bind (k := 7) fun _ => ?_).mono (Nat.le_refl _)
  refine (Within.stopIf _).bind (k := 7) fun _ => ?_
  refine (within_orStop _ _).bind (k := 6) fun _ => ?_
  refine (within_orStop _ _).bind (k := 5) fun _ => ?_
  refine (within_orStop _ _).bind (k := 4) fun _ => ?_
  refine ((within_chain _).bind (k := 3) fun _ => ?_).mono (Nat.le_refl _)
  refine (Within.stopIf _).bind (k := 3) fun _ => ?_
  refine (within_orStop _ _).bind (k := 2) fun _ => ?_
  exact (within_orStop _ _).bind (k := 1) fun _ => within_orStop _ _

lemma within_inspect (result : Text) : Within 22 (inspect result) := by
  refine (Within.ask _).bind (k := 21) fun _ => ?_
  refine (Within.stopIf _).bind (k := 21) fun _ => ?_
  refine (within_orStop _ _).bind (k := 20) fun _ => ?_
  refine (within_orStop _ _).bind (k := 19) fun _ => ?_
  refine ((within_chains _).bind (k := 2) fun _ => ?_).mono (Nat.le_refl _)
  refine (within_orStop _ _).bind (k := 1) fun _ => ?_
  refine (Within.stopIf _).bind (k := 1) fun _ => ?_
  refine (Within.ask _).bind (k := 0) fun _ => ?_
  exact (Within.stopIf _).bind (k := 0) fun _ => .stopIf _

lemma within_handoff (dev : Text) : Within 10 (handoff dev) := by
  have hretreat : Within 5 retreat := by
    refine (Within.ask _).bind (k := 4) fun _ => ?_
    refine (Within.ask _).bind (k := 3) fun _ => ?_
    refine (Within.ask _).bind (k := 2) fun _ => ?_
    refine (within_orStop _ _).bind (k := 1) fun _ => ?_
    exact (within_orStop _ _).bind (k := 0) fun _ => .stop _
  refine (within_orStop _ _).bind (k := 9) fun _ => ?_
  refine ((within_chain _).bind (k := 5) fun _ => ?_).mono (Nat.le_refl _)
  split_ifs
  · exact ((Within.ask _).bind fun _ => .pure ()).mono (by omega)
  · exact hretreat

/-- The script never waits for more than 105 answers. -/
lemma within_init : Within 105 init :=
  within_bootstrap.bind fun _ => (within_discover 30).bind fun result =>
    (within_inspect result).bind fun _ => within_handoff _

/-- Each event of an account shows one of its checks. -/
lemma exists_shown {h : List (Cmd × Answer)} {e : Cmd × Answer} (hqs : List.Forall₂ Shows qs h)
    (he : e ∈ h) : ∃ q ∈ qs, Shows q e := by
  induction hqs with
  | nil => cases he
  | cons hhead _ ih =>
    rcases List.mem_cons.mp he with rfl | he
    · exact ⟨_, by simp, hhead⟩
    · obtain ⟨q, hq, hshow⟩ := ih he
      exact ⟨q, by simp [hq], hshow⟩

lemma mem_retries {n : ℕ} {q : Check Cmd} (hq : q ∈ retries n) : q ∈ retry := by
  obtain ⟨l, hl, hql⟩ := List.mem_flatten.mp hq
  rw [List.eq_of_mem_replicate hl] at hql
  exact hql

lemma account_early {n : ℕ} {result : Text} {q : Check Cmd} (hq : q ∈ account n result) :
    Early q.1 := by
  have hboot : ∀ q ∈ bootChecks ++ retry, Early q.1 := by decide
  simp only [account, inspectChecks, List.mem_append, List.mem_cons, List.not_mem_nil,
    or_false] at hq
  rcases hq with ((hq | hq) | rfl) | ((rfl | rfl | rfl) | hq) | rfl | rfl
  · exact hboot q (List.mem_append_left _ hq)
  · exact hboot q (List.mem_append_right _ (mem_retries hq))
  · exact (by decide : Early (.usbRootSelect true))
  · exact (selected_plain result _ (by simp)).1
  · exact (selected_plain result _ (by simp)).1
  · exact (selected_plain result _ (by simp)).1
  · exact (inspection_plain _ q hq).1
  · exact (by decide : Early (.umount .newroot))
  · exact (by decide : Early (.usbRootSelect false))

/-- Before the handoff nothing of it is run, and on the way to `switch_root` nothing of it
fails. -/
lemma not_handoffFailed {n : ℕ} {result : Text} {h : List (Cmd × Answer)}
    (hqs : List.Forall₂ Shows (handedOver n result ++ [(.switchRoot, fun _ => true)]) h) :
    ¬HandoffFailed h := by
  rintro ⟨e, he, hcmd, hfail⟩
  obtain ⟨q, hq, hshow, hpass⟩ := exists_shown hqs he
  rw [hshow] at hcmd
  simp only [handedOver, List.mem_append, List.mem_cons, List.not_mem_nil, or_false] at hq
  rcases hq with (hq | rfl | hq) | rfl
  · exact account_early hq hcmd
  · simp [handoffCmds, virtualChecks] at hcmd
  · have hvirtual : ∀ q ∈ virtualChecks, q.2 = Answer.ok := by simp [virtualChecks]
    rw [hvirtual q hq, hfail] at hpass
    cases hpass
  · simp [handoffCmds, virtualChecks] at hcmd

/-- A run of discovery inside the account found nothing. -/
lemma status_of_discovery {n : ℕ} {h : List (Cmd × Answer)} {a : Answer}
    (hqs : List.Forall₂ Shows (bootChecks ++ retries n) h) (ha : (.usbRootSelect true, a) ∈ h) :
    a.status = 3 := by
  have hboot : ∀ q ∈ bootChecks, q.1 ≠ .usbRootSelect true := by decide
  obtain ⟨q, hq, hcmd, hpass⟩ := exists_shown hqs ha
  rcases List.mem_append.mp hq with hq | hq
  · exact absurd hcmd.symm (hboot q hq)
  · have hmem := mem_retries hq
    simp only [retry, List.mem_cons, List.not_mem_nil, or_false] at hmem
    rcases hmem with rfl | rfl
    · simpa using hpass
    · cases hcmd

/-- **The verified init fails closed**, whatever its commands answer. Before a read-write mount
stands the whole account: the keymap hash-checked and loaded, the selected device, its clean
check, all checks of its read-only view, and the second selection with the same result. Before
`switch_root` stand also the read-write mount and the virtual file systems. Discovery goes on
only after status 3, at most thirty times. A failed handoff stops with the root unmounted, or
with the message of the step that failed. -/
theorem init_fails_closed (answers : List Answer) :
    (∀ pre dev a post, (init answers).trail = pre ++ (.mountRoot .rw dev, a) :: post →
      ∃ n ≤ 30, ∃ result, dev = device result ∧ List.Forall₂ Shows (account n result) pre) ∧
    (∀ pre a post, (init answers).trail = pre ++ (.switchRoot, a) :: post →
      ∃ n ≤ 30, ∃ result, List.Forall₂ Shows (handedOver n result) pre) ∧
    (∀ pre a post, (init answers).trail = pre ++ (.usbRootSelect true, a) :: post →
      (∃ n ≤ 30, List.Forall₂ Shows (bootChecks ++ retries n) pre) ∧
        (a.status ≠ 3 → ∀ e ∈ post, e.1 ≠ .usbRootSelect true)) ∧
    (105 ≤ answers.length → HandoffFailed (init answers).trail →
      ∃ why, (init answers).fin = .stop why ∧ Closed why (init answers).trail) := by
  obtain ⟨hok, hdone, hstop⟩ := init_spec [] ⟨nofun, fun _ => .nil⟩ answers
  simp only [List.nil_append] at hok hdone hstop
  refine ⟨fun pre dev a post he => hok pre _ post he, fun pre a post he => hok pre _ post he,
    fun pre a post he => ⟨hok pre _ post he, fun ha e hmem hcmd => ha ?_⟩, fun hlen hfail => ?_⟩
  · obtain ⟨mid, post', rfl⟩ := List.append_of_mem hmem
    obtain ⟨c, b⟩ := e
    obtain rfl : c = .usbRootSelect true := hcmd
    obtain ⟨n, -, hqs⟩ := hok (pre ++ (.usbRootSelect true, a) :: mid) (.usbRootSelect true, b)
      post' (by rw [he, List.append_assoc, List.cons_append])
    exact status_of_discovery hqs (by simp)
  · have hwait := (within_init answers hlen).1
    cases hfin : (init answers).fin with
    | done u =>
      obtain ⟨n, result, hqs⟩ := hdone u hfin
      exact absurd hfail (not_handoffFailed hqs)
    | stop why => exact ⟨why, rfl, hstop why hfin hfail⟩
    | wait => exact absurd hfin hwait

/-- A stick that shows up at the second turn is handed over to. -/
theorem init_fails_closed_secondTurn :
    let ok : Answer := ⟨0, []⟩
    let result := "partuuid=p1\nusb_root_device=/dev/sda1".toList
    let answers := List.replicate 7 ok ++ [⟨0, ['0']⟩, ok, ok, ok, ⟨3, []⟩, ok, ⟨0, result⟩, ok, ok,
      ok, ok, ⟨0, "/bin/busybox".toList⟩, ok, ok, ⟨0, "p1".toList⟩,
      ⟨0, "usb-daily-6005-v1".toList⟩, ok, ok, ⟨0, "/etc/init.d/t6040-keymap".toList⟩, ok, ok, ok,
      ok, ok, ok, ok, ⟨0, "/etc/init.d/mount-ro".toList⟩, ok, ⟨0, result⟩] ++ List.replicate 6 ok
    (init answers).trail = (init answers).trail.dropLast ++ [(.switchRoot, ok)] ∧
      ∃ n ≤ 30, ∃ result,
        List.Forall₂ Shows (handedOver n result) (init answers).trail.dropLast := by
  intro ok result answers
  have hlast : (init answers).trail = (init answers).trail.dropLast ++ [(.switchRoot, ok)] := by
    decide +kernel
  exact ⟨hlast, (init_fails_closed answers).2.1 _ _ _ hlast⟩

end Wallace.InitClosed
