import Wallace.Script

/-!
Gates: the lines `test || { undo; stop why; }` of a script that must not go on when a test fails.

The rules keep the account of `Script.Since` along gates, waits and stops. A command is free if
nothing has to stand before it; what is undone before a stop has to be free.
-/

namespace Wallace.Gates

open Wallace.Trail Wallace.History Wallace.Script

variable {κ α β : Type}

/-- The message may tell the answer. -/
structure Gate (κ : Type) where
  cmd : κ
  test : Answer → Bool
  undo : ScriptM κ Unit
  why : Answer → String

def Gate.check (g : Gate κ) : Check κ := (g.cmd, g.test)

/-- `test || stop why`. -/
def require (cmd : κ) (test : Answer → Bool) (why : String) : Gate κ where
  cmd := cmd
  test := test
  undo := pure ()
  why _ := why

/-- `{ undo; stop why; }`. -/
def halt (undo : ScriptM κ Unit) (why : String) : ScriptM κ α := do
  undo
  stop why

def haltIf (c : Prop) [Decidable c] (undo : ScriptM κ Unit) (why : String) : ScriptM κ Unit :=
  if c then halt undo why else pure ()

def gate (g : Gate κ) : ScriptM κ Answer := do
  let a ← ask g.cmd
  if g.test a = true then pure a else halt g.undo (g.why a)

def gates : List (Gate κ) → ScriptM κ Unit
  | [] => pure ()
  | g :: gs => do
    let _ ← gate g
    gates gs

/-- `while [ ! ready ] && [ "$n" -lt bound ]; do sleep 1; n=$((n + 1)); done`, with as many turns
left as stated. -/
def waitFor (sleep : κ) (ready : ScriptM κ Bool) (n : ℕ) : ℕ → ScriptM κ ℕ
  | 0 => do
    let _ ← ready
    pure n
  | left + 1 => do
    let r ← ready
    if r = true then pure n
    else do
      let _ ← ask sleep
      waitFor sleep ready (n + 1) left

/-! ### Rules -/

/-- A message says nothing about the history. -/
abbrev Spec (ok : List (κ × Answer) → κ × Answer → Prop) (P : List (κ × Answer) → Prop)
    (m : ScriptM κ α) (Q : α → List (κ × Answer) → Prop) : Prop :=
  Triple ok (fun _ _ => True) P m Q

/-- Nothing has to stand before a command. -/
def Free (ok : List (κ × Answer) → κ × Answer → Prop) (c : κ) : Prop := ∀ h a, ok h (c, a)

/-- Nothing has to stand before any command of a program. -/
def Loose (ok : List (κ × Answer) → κ × Answer → Prop) (m : ScriptM κ α) : Prop :=
  ∀ P, Spec ok P m fun _ _ => True

section Rules

variable {ok : List (κ × Answer) → κ × Answer → Prop} {phase : κ → Prop}
  {B P : List (κ × Answer) → Prop} {qs : List (Check κ)} {c : κ}

lemma Loose.pure (a : α) : Loose ok (Pure.pure a : ScriptM κ α) :=
  fun _ => .pure fun _ _ => trivial

lemma Loose.ask (hc : Free ok c) : Loose ok (ask c) :=
  fun _ => .ask (fun h a _ => hc h a) fun _ _ _ => trivial

lemma Loose.bind {m : ScriptM κ α} {f : α → ScriptM κ β} (hm : Loose ok m)
    (hf : ∀ a, Loose ok (f a)) : Loose ok (m >>= f) :=
  fun P => .bind (hm P) fun a => hf a _

lemma Loose.ite {q : Prop} [Decidable q] {m m' : ScriptM κ α} (hm : Loose ok m)
    (hm' : Loose ok m') : Loose ok (if q then m else m') :=
  fun P => .ite (fun _ => hm P) fun _ => hm' P

lemma Loose.forEach {l : List β} {f : β → ScriptM κ Unit} (hf : ∀ x, Loose ok (f x)) :
    Loose ok (forEach l f) := by
  induction l with
  | nil => exact .pure ()
  | cons x l ih => exact (hf x).bind fun _ => ih

/-- Nothing is left to show after a stop. -/
lemma halt_spec {undo : ScriptM κ Unit} (hu : Loose ok undo) (why : String)
    (Q : α → List (κ × Answer) → Prop) : Spec ok P (halt undo why) Q :=
  .bind (hu P) fun _ => .stop fun _ _ => trivial

lemma haltIf_spec {q : Prop} [Decidable q] {undo : ScriptM κ Unit} (hu : Loose ok undo)
    (why : String) : Spec ok P (haltIf q undo why) fun _ h => ¬q ∧ P h :=
  .ite (fun _ => halt_spec hu why _) fun hq => .pure fun _ hP => ⟨hq, hP⟩

/-- **The gate rule.** -/
theorem gate_spec {g : Gate κ} {Q : Answer → List (κ × Answer) → Prop} (hu : Loose ok g.undo)
    (hok : ∀ h a, P h → ok h (g.cmd, a))
    (hq : ∀ h a, P h → g.test a = true → Q a (h ++ [(g.cmd, a)])) : Spec ok P (gate g) Q := by
  refine .bind (Q := fun a h' => ∃ h, P h ∧ h' = h ++ [(g.cmd, a)])
    (.ask hok fun h a hP => ⟨h, hP, rfl⟩) fun a => ?_
  refine .ite (fun ha => .pure ?_) fun _ => halt_spec hu _ Q
  rintro _ ⟨h, hP, rfl⟩
  exact hq h a hP ha

/-- A gate of the phase adds its check. -/
lemma gate_since {g : Gate κ} (hu : Loose ok g.undo) (hp : phase g.cmd)
    (hok : ∀ h a, Since phase B qs h → ok h (g.cmd, a)) :
    Spec ok (Since phase B qs) (gate g) fun _ => Since phase B (qs ++ [g.check]) :=
  gate_spec hu hok fun _ _ hs ha => hs.snoc hp ha

lemma gates_since {gs : List (Gate κ)} (hu : ∀ g ∈ gs, Loose ok g.undo)
    (hgs : ∀ g ∈ gs, phase g.cmd ∧ Free ok g.cmd) :
    Spec ok (Since phase B qs) (gates gs) fun _ => Since phase B (qs ++ gs.map Gate.check) := by
  induction gs generalizing qs with
  | nil =>
    refine .pure fun h hs => ?_
    rw [List.map_nil, List.append_nil]
    exact hs
  | cons g gs ih =>
    obtain ⟨hp, hf⟩ := hgs g List.mem_cons_self
    refine .bind (gate_since (hu g List.mem_cons_self) hp fun h a _ => hf h a) fun _ => ?_
    have hrest : Spec ok (Since phase B (qs ++ [g.check])) (gates gs) fun _ =>
        Since phase B (qs ++ [g.check] ++ gs.map Gate.check) :=
      ih (fun g' hg' => hu g' (List.mem_cons_of_mem _ hg'))
        fun g' hg' => hgs g' (List.mem_cons_of_mem _ hg')
    rw [List.append_assoc, List.singleton_append] at hrest
    exact hrest

/-- A command of the phase whose output is kept. -/
lemma ask_prints (hp : phase c) (hok : ∀ h a, Since phase B qs h → ok h (c, a)) :
    Spec ok (Since phase B qs) (ask c) fun a =>
      Since phase B (qs ++ [(c, Answer.prints a.out)]) := by
  have hkeep : ∀ a : Answer, Answer.prints a.out a = true := fun _ => decide_eq_true rfl
  exact ask_since hkeep hp hok

/-- A wait keeps what the test and the sleep keep. -/
lemma waitFor_spec {sleep : κ} {ready : ScriptM κ Bool} (hs : Spec ok P (ask sleep) fun _ => P)
    (hr : Spec ok P ready fun _ => P) (n left : ℕ) :
    Spec ok P (waitFor sleep ready n left) fun _ => P := by
  induction left generalizing n with
  | zero => exact .bind hr fun _ => .pure fun _ hP => hP
  | succ left ih =>
    refine .bind hr fun r => .ite (fun _ => .pure fun _ hP => hP) fun _ => ?_
    exact .bind hs fun _ => ih (n + 1)

end Rules

/-! ### Waiting -/

section Waiting

variable {u : ℕ} {undo : ScriptM κ Unit}

lemma within_halt (hu : Within u undo) (why : String) : Within u (halt undo why : ScriptM κ α) :=
  hu.bind fun _ => .stop why

lemma within_haltIf {q : Prop} [Decidable q] (hu : Within u undo) (why : String) :
    Within u (haltIf q undo why) := by
  unfold haltIf
  split_ifs
  · exact within_halt hu why
  · exact (Within.pure ()).mono (Nat.zero_le _)

lemma within_gate {g : Gate κ} (hu : Within u g.undo) : Within (1 + u) (gate g) := by
  refine (Within.ask g.cmd).bind fun a => ?_
  split_ifs
  · exact (Within.pure a).mono (Nat.zero_le _)
  · exact within_halt hu (g.why a)

lemma within_gates {gs : List (Gate κ)} {n : ℕ} (hu : ∀ g ∈ gs, Within u g.undo)
    (hn : gs.length * (1 + u) = n) : Within n (gates gs) := by
  induction gs generalizing n with
  | nil => exact (Within.pure ()).mono (Nat.zero_le _)
  | cons g gs ih =>
    have hrest := ih (fun g' hg' => hu g' (List.mem_cons_of_mem _ hg')) rfl
    refine ((within_gate (hu g List.mem_cons_self)).bind fun _ => hrest).mono ?_
    rw [List.length_cons, Nat.succ_mul] at hn
    omega

lemma within_waitFor {r : ℕ} {ready : ScriptM κ Bool} (sleep : κ) (hr : Within r ready)
    (n left : ℕ) : Within (left * (r + 1) + r) (waitFor sleep ready n left) := by
  induction left generalizing n with
  | zero => exact (hr.bind fun _ => .pure n).mono (by omega)
  | succ left ih =>
    refine (hr.bind (k := left * (r + 1) + r + 1) fun b => ?_).mono ?_
    · split_ifs
      · exact (Within.pure n).mono (Nat.zero_le _)
      · exact ((Within.ask sleep).bind fun _ => ih (n + 1)).mono (by omega)
    · rw [Nat.succ_mul]
      omega

end Waiting

end Wallace.Gates
