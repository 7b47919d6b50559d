import Wallace.History

/-!
Scripts: programs whose commands have an exit status and an output.

A check is a command with what has to be true of its answer. A chain of checks with `&&` runs
them until one fails. The rules here keep an exact account of the history: the commands that
were run, in order, with the checks that their answers passed.
-/

namespace Wallace.Script

open Wallace.Trail Wallace.History

abbrev Text := List Char

/-- The exit status, and the output as a command substitution has it. -/
structure Answer where
  status : ℕ
  out : Text := []
  deriving DecidableEq

def Answer.ok (a : Answer) : Bool := a.status = 0

/-- `[ "$(command)" = x ]`, whatever the status. -/
def Answer.prints (x : Text) (a : Answer) : Bool := a.out = x

/-- The answer is this one. -/
def Answer.is (x a : Answer) : Bool := a = x

def Answer.gives (x : Text) (a : Answer) : Bool := a.status = 0 ∧ a.out = x

variable {κ : Type}

/-- A command, and what makes its answer a success. -/
abbrev Check (κ : Type) := κ × (Answer → Bool)

abbrev ScriptM (κ α : Type) := Prog Answer (κ × Answer) α

/-- `command || stop why`. -/
def orStop (c : κ) (why : String) : ScriptM κ Unit := do
  let a ← ask c
  stopIf (a.ok = false) why

/-- `check && check && …`. -/
def chain : List (Check κ) → ScriptM κ Bool
  | [] => pure true
  | q :: qs => do
    let a ← ask q.1
    if q.2 a = true then chain qs else pure false

/-- Several chains, each of them `chain || flag=0`: the flag. -/
def chains : List (List (Check κ)) → ScriptM κ Bool
  | [] => pure true
  | g :: gs => do
    let b ← chain g
    let rest ← chains gs
    pure (b && rest)

/-! ### Accounts -/

/-- The event is the command of the check, and its answer passes. -/
def Shows (q : Check κ) (e : κ × Answer) : Prop := e.1 = q.1 ∧ q.2 e.2 = true

/-- The history consists of commands of one phase, and as long as the script is live, it is
exactly the given account. -/
structure At (phase : κ → Prop) (live : Prop) (qs : List (Check κ)) (h : List (κ × Answer)) :
    Prop where
  within : ∀ e ∈ h, phase e.1
  account : live → List.Forall₂ Shows qs h

section Rules

variable {phase : κ → Prop} {live live' : Prop} {qs : List (Check κ)} {h : List (κ × Answer)}
  {ok : List (κ × Answer) → κ × Answer → Prop} {W : String → List (κ × Answer) → Prop}

lemma At.within_snoc {c : κ} (hat : At phase live qs h) (hc : phase c) (a : Answer) :
    ∀ e ∈ h ++ [(c, a)], phase e.1 := by
  intro e he
  rcases List.mem_append.mp he with he | he
  · exact hat.within e he
  · rw [List.mem_singleton.mp he]
    exact hc

lemma At.snoc {c : κ} {a : Answer} {test : Answer → Bool} (hat : At phase live qs h)
    (hc : phase c) (hlive : live' → live ∧ test a = true) :
    At phase live' (qs ++ [(c, test)]) (h ++ [(c, a)]) where
  within := hat.within_snoc hc a
  account := fun hl => by
    obtain ⟨hl, ha⟩ := hlive hl
    exact List.rel_append (hat.account hl) (.cons ⟨rfl, ha⟩ .nil)

lemma At.dead {qs' : List (Check κ)} (hat : At phase live qs h) (hdead : ¬live') :
    At phase live' qs' h :=
  ⟨hat.within, fun hl => absurd hl hdead⟩

lemma ask_at {c : κ} (hc : phase c) (hok : ∀ h a, At phase live qs h → ok h (c, a)) :
    Triple ok W (At phase live qs) (ask c) fun a h =>
      ∀ (live' : Prop) test, (live' → live ∧ test a = true) →
        At phase live' (qs ++ [(c, test)]) h := by
  refine .ask hok fun h a hat => ?_
  intro live' test hlive
  exact hat.snoc hc hlive

lemma orStop_spec {c : κ} {why : String} {P Q : List (κ × Answer) → Prop}
    (hok : ∀ h a, P h → ok h (c, a)) (hW : ∀ h a, P h → a.ok = false → W why (h ++ [(c, a)]))
    (hq : ∀ h a, P h → a.ok = true → Q (h ++ [(c, a)])) :
    Triple ok W P (orStop c why) fun _ => Q := by
  unfold orStop
  refine .bind (Q := fun a h' => ∃ h, P h ∧ h' = h ++ [(c, a)])
    (.ask hok fun h a hP => ⟨h, hP, rfl⟩) fun a => ?_
  refine (Triple.stopIf ?_).weaken (fun _ hP => hP) ?_
  · rintro _ ha ⟨h, hP, rfl⟩
    exact hW h a hP ha
  · rintro _ _ ⟨ha, h, hP, rfl⟩
    exact hq h a hP (by simpa using ha)

lemma orStop_at {c : κ} {why : String} (hc : phase c)
    (hok : ∀ h a, At phase live qs h → ok h (c, a))
    (hW : ∀ h, (∀ e ∈ h, phase e.1) → W why h) :
    Triple ok W (At phase live qs) (orStop c why) fun _ =>
      At phase live (qs ++ [(c, Answer.ok)]) :=
  orStop_spec hok (fun _ a hat _ => hW _ (hat.within_snoc hc a)) fun _ _ hat ha =>
    hat.snoc hc fun hl => ⟨hl, ha⟩

/-- **A chain** that comes out true adds all its checks to the account. -/
theorem chain_at {l : List (Check κ)} (hl : ∀ q ∈ l, phase q.1)
    (hok : ∀ q ∈ l, ∀ h a, ok h (q.1, a)) :
    Triple ok W (At phase live qs) (chain l) fun b => At phase (live ∧ b = true) (qs ++ l) := by
  induction l generalizing live qs with
  | nil =>
    refine .pure fun h hat => ?_
    rw [List.append_nil]
    exact ⟨hat.within, fun hl => hat.account hl.1⟩
  | cons q l ih =>
    refine .bind (ask_at (hl q (by simp)) fun h a _ => hok q (by simp) h a) fun a => ?_
    refine .ite (fun ha => ?_) fun ha => .pure fun h hat => ?_
    · have hrest : Triple ok W (At phase live (qs ++ [q])) (chain l) fun b =>
          At phase (live ∧ b = true) (qs ++ [q] ++ l) :=
        ih (fun x hx => hl x (by simp [hx])) fun x hx => hok x (by simp [hx])
      rw [List.append_assoc, List.singleton_append] at hrest
      exact hrest.weaken (fun h hat => hat live q.2 fun hl => ⟨hl, ha⟩) fun _ _ hat => hat
    · exact (hat False q.2 nofun).dead (by simp)

/-- **Chains** that all come out true add all their checks. -/
theorem chains_at {gs : List (List (Check κ))} (hl : ∀ q ∈ gs.flatten, phase q.1)
    (hok : ∀ q ∈ gs.flatten, ∀ h a, ok h (q.1, a)) :
    Triple ok W (At phase live qs) (chains gs) fun b =>
      At phase (live ∧ b = true) (qs ++ gs.flatten) := by
  induction gs generalizing live qs with
  | nil =>
    refine .pure fun h hat => ?_
    rw [List.flatten_nil, List.append_nil]
    exact ⟨hat.within, fun hl => hat.account hl.1⟩
  | cons g gs ih =>
    rw [List.flatten_cons, ← List.append_assoc]
    refine .bind (chain_at (fun q hq => hl q (by simp [hq])) fun q hq => hok q (by simp [hq]))
      fun b => ?_
    refine .bind (ih (fun q hq => hl q (by simp [hq])) fun q hq => hok q (by simp [hq]))
      fun rest => .pure fun h hat => ⟨hat.within, fun hlive => hat.account ?_⟩
    obtain ⟨hlive, hb⟩ := hlive
    rw [Bool.and_eq_true] at hb
    exact ⟨⟨hlive, hb.1⟩, hb.2⟩

end Rules

/-! ### Checks in a history -/

/-- The checks were passed, in this order, with other commands before, between and after. -/
def Passed (qs : List (Check κ)) (h : List (κ × Answer)) : Prop :=
  List.SublistForall₂ Shows qs h

/-- After a history in `B` there were commands of one phase only, and the checks were passed. -/
def Since (phase : κ → Prop) (B : List (κ × Answer) → Prop) (qs : List (Check κ))
    (h : List (κ × Answer)) : Prop :=
  ∃ h₀ t, h = h₀ ++ t ∧ B h₀ ∧ (∀ e ∈ t, phase e.1) ∧ Passed qs t

section Passed

variable {qs qs' : List (Check κ)} {h h' : List (κ × Answer)} {phase : κ → Prop}
  {B : List (κ × Answer) → Prop} {c : κ} {a : Answer} {test : Answer → Bool}

lemma Passed.append (hp : Passed qs h) (hp' : Passed qs' h') : Passed (qs ++ qs') (h ++ h') := by
  induction hp with
  | @nil l =>
    induction l with
    | nil => exact hp'
    | cons e l ih => exact .cons_right ih
  | cons hq _ ih => exact .cons hq ih
  | cons_right _ ih => exact .cons_right ih

/-- Fewer checks were passed too. -/
lemma Passed.of_sublist (hp : Passed qs h) (hs : qs'.Sublist qs) : Passed qs' h := by
  induction hp generalizing qs' with
  | nil => exact List.sublist_nil.mp hs ▸ .nil
  | cons hq _ ih =>
    cases hs with
    | cons _ hs => exact .cons_right (ih hs)
    | cons_cons _ hs => exact .cons hq (ih hs)
  | cons_right _ ih => exact .cons_right (ih hs)

lemma Passed.exists_mem (hp : Passed qs h) {q : Check κ} (hq : q ∈ qs) : ∃ e ∈ h, Shows q e := by
  induction hp with
  | nil => cases hq
  | cons hshow _ ih =>
    rcases List.mem_cons.mp hq with rfl | hq
    · exact ⟨_, List.mem_cons_self, hshow⟩
    · obtain ⟨e, he, hs⟩ := ih hq
      exact ⟨e, List.mem_cons_of_mem _ he, hs⟩
  | cons_right _ ih =>
    obtain ⟨e, he, hs⟩ := ih hq
    exact ⟨e, List.mem_cons_of_mem _ he, hs⟩

lemma Since.start (hB : B h) : Since phase B [] h :=
  ⟨h, [], (List.append_nil h).symm, hB, nofun, .nil⟩

/-- A command of the phase, whatever its answer. -/
lemma Since.skip (hs : Since phase B qs h) (hc : phase c) (a : Answer) :
    Since phase B qs (h ++ [(c, a)]) := by
  obtain ⟨h₀, t, rfl, hB, hphase, hp⟩ := hs
  refine ⟨h₀, t ++ [(c, a)], List.append_assoc _ _ _, hB, ?_, ?_⟩
  · intro e he
    rcases List.mem_append.mp he with he | he
    · exact hphase e he
    · rw [List.mem_singleton.mp he]
      exact hc
  · have hnil : Passed [] [(c, a)] := .nil
    have hq := hp.append hnil
    rwa [List.append_nil] at hq

/-- A command of the phase that passes a check. -/
lemma Since.snoc (hs : Since phase B qs h) (hc : phase c) (ha : test a = true) :
    Since phase B (qs ++ [(c, test)]) (h ++ [(c, a)]) := by
  obtain ⟨h₀, t, rfl, hB, hphase, hp⟩ := hs
  have hone : Passed [(c, test)] [(c, a)] := .cons ⟨rfl, ha⟩ .nil
  refine ⟨h₀, t ++ [(c, a)], List.append_assoc _ _ _, hB, ?_, hp.append hone⟩
  intro e he
  rcases List.mem_append.mp he with he | he
  · exact hphase e he
  · rw [List.mem_singleton.mp he]
    exact hc

/-- What holds of the history at the cut may be weakened. -/
lemma Since.imp {B' : List (κ × Answer) → Prop} (hs : Since phase B qs h)
    (hB : ∀ h, B h → B' h) : Since phase B' qs h := by
  obtain ⟨h₀, t, rfl, hcut, hrest⟩ := hs
  exact ⟨h₀, t, rfl, hB h₀ hcut, hrest⟩

/-- A later phase that is part of an earlier one continues it. -/
lemma Since.join {phase' : κ → Prop} (hs : Since phase' (Since phase B qs) qs' h)
    (hphase : ∀ c, phase' c → phase c) : Since phase B (qs ++ qs') h := by
  obtain ⟨_, t', rfl, ⟨h₀, t, rfl, hB, ht, hp⟩, ht', hp'⟩ := hs
  refine ⟨h₀, t ++ t', List.append_assoc _ _ _, hB, fun e he => ?_, hp.append hp'⟩
  exact (List.mem_append.mp he).elim (ht e) fun he => hphase e.1 (ht' e he)

variable {ok : List (κ × Answer) → κ × Answer → Prop} {W : String → List (κ × Answer) → Prop}

/-- A command of the phase whose answer is not looked at. -/
lemma ask_skip (hc : phase c) (hok : ∀ h a, Since phase B qs h → ok h (c, a)) :
    Triple ok W (Since phase B qs) (ask c) fun _ => Since phase B qs :=
  .ask hok fun _ a hs => hs.skip hc a

/-- A command of the phase, with what is kept of its answer. -/
lemma ask_since {keep : Answer → Answer → Bool} (hkeep : ∀ a, keep a a = true) (hc : phase c)
    (hok : ∀ h a, Since phase B qs h → ok h (c, a)) :
    Triple ok W (Since phase B qs) (ask c) fun a => Since phase B (qs ++ [(c, keep a)]) :=
  .ask hok fun _ a hs => hs.snoc hc (hkeep a)

end Passed

/-! ### Waiting -/

lemma within_orStop (c : κ) (why : String) : Within 1 (orStop c why : ScriptM κ Unit) :=
  (Within.ask c).bind fun _ => .stopIf why

lemma within_chain (l : List (Check κ)) : Within l.length (chain l) := by
  induction l with
  | nil => exact .pure true
  | cons q l ih =>
    rw [List.length_cons, Nat.add_comm]
    refine (Within.ask q.1).bind fun a => ?_
    split_ifs
    · exact ih
    · exact (Within.pure false).mono (Nat.zero_le _)

lemma within_chains (gs : List (List (Check κ))) : Within gs.flatten.length (chains gs) := by
  induction gs with
  | nil => exact .pure true
  | cons g gs ih =>
    rw [List.flatten_cons, List.length_append]
    exact (within_chain g).bind fun b => ih.bind fun rest => .pure (b && rest)

end Wallace.Script
