import Mathlib.Data.List.Forall2
import Wallace.Trail

/-!
Programs that run commands, and what stands behind each command they run.

A command is answered by the environment, and the trail lists the commands with their
answers. A triple says of a program that is started after a given history: every command it
runs is acceptable after everything before it, and when it ends with a value, or stops with a
message, the whole history is as stated. A program is within a number of answers if it never
waits when it has them.
-/

namespace Wallace.History

open Wallace.Trail

variable {κ ι ε α β : Type}

/-! ### Triples -/

/-- Whatever it is answered after a history in `P`: each event is acceptable after what came
before it, a value leaves a history in `Q`, and a message one in `W`. -/
def Triple (ok : List ε → ε → Prop) (W : String → List ε → Prop) (P : List ε → Prop)
    (m : Prog ι ε α) (Q : α → List ε → Prop) : Prop :=
  ∀ h, P h → ∀ s,
    (∀ pre e post, (m s).trail = pre ++ e :: post → ok (h ++ pre) e) ∧
    (∀ a, (m s).fin = .done a → Q a (h ++ (m s).trail)) ∧
    ∀ why, (m s).fin = .stop why → W why (h ++ (m s).trail)

section Rules

variable {ok : List ε → ε → Prop} {W : String → List ε → Prop} {P P' : List ε → Prop}
  {m : Prog ι ε α} {Q Q' : α → List ε → Prop}

/-- **The rule of consequence.** -/
lemma Triple.weaken (h : Triple ok W P m Q) (hp : ∀ h, P' h → P h)
    (hq : ∀ a h, Q a h → Q' a h) : Triple ok W P' m Q' := by
  intro hist hP s
  obtain ⟨hok, hdone, hstop⟩ := h hist (hp hist hP) s
  exact ⟨hok, fun a ha => hq a _ (hdone a ha), hstop⟩

lemma Triple.pure {a : α} (h : ∀ h, P h → Q a h) : Triple ok W P (Pure.pure a : Prog ι ε α) Q := by
  intro hist hP s
  refine ⟨fun pre e post he => ?_, fun b hb => ?_, fun why hw => ?_⟩
  · exact absurd he (by simp [Pure.pure, Prog.pure])
  · cases hb
    rw [show (Pure.pure a : Prog ι ε α) s = ⟨[], .done a, s⟩ from rfl, List.append_nil]
    exact h hist hP
  · cases hw

lemma Triple.stop {why : String} (h : ∀ h, P h → W why h) :
    Triple ok W P (Trail.stop why : Prog ι ε α) Q := by
  intro hist hP s
  refine ⟨fun pre e post he => ?_, fun b hb => ?_, fun why' hw => ?_⟩
  · exact absurd he (by simp [Trail.stop])
  · cases hb
  · cases hw
    rw [show (Trail.stop why : Prog ι ε α) s = ⟨[], .stop why, s⟩ from rfl, List.append_nil]
    exact h hist hP

/-- An event of two trails one after the other is an event of one of them. -/
lemma split_append {t t' pre post : List ε} {e : ε} (h : t ++ t' = pre ++ e :: post) :
    (∃ post', t = pre ++ e :: post') ∨ ∃ pre', pre = t ++ pre' ∧ t' = pre' ++ e :: post := by
  rcases List.append_eq_append_iff.mp h with ⟨l, rfl, hl⟩ | ⟨l, rfl, hl⟩
  · exact .inr ⟨l, rfl, hl⟩
  · cases l with
    | nil => exact .inr ⟨[], by simp, hl.symm⟩
    | cons x l =>
      rw [List.cons_append] at hl
      obtain ⟨rfl, -⟩ := List.cons.inj hl
      exact .inl ⟨l, rfl⟩

lemma bind_of_done {f : α → Prog ι ε β} {s s' : List ι} {t : List ε} {a : α}
    (h : m s = ⟨t, .done a, s'⟩) :
    (m >>= f) s = ⟨t ++ (f a s').trail, (f a s').fin, (f a s').rest⟩ := by
  show Prog.bind m f s = _
  rw [Prog.bind, h]

lemma bind_of_stop {f : α → Prog ι ε β} {s s' : List ι} {t : List ε} {why : String}
    (h : m s = ⟨t, .stop why, s'⟩) : (m >>= f) s = ⟨t, .stop why, s'⟩ := by
  show Prog.bind m f s = _
  rw [Prog.bind, h]

lemma bind_of_wait {f : α → Prog ι ε β} {s s' : List ι} {t : List ε}
    (h : m s = ⟨t, .wait, s'⟩) : (m >>= f) s = ⟨t, .wait, s'⟩ := by
  show Prog.bind m f s = _
  rw [Prog.bind, h]

/-- **The sequence rule.** -/
theorem Triple.bind {f : α → Prog ι ε β} {R : β → List ε → Prop} (hm : Triple ok W P m Q)
    (hf : ∀ a, Triple ok W (Q a) (f a) R) : Triple ok W P (m >>= f) R := by
  intro hist hP s
  obtain ⟨hok, hdone, hstop⟩ := hm hist hP s
  rcases hms : m s with ⟨t, fin, s'⟩
  rw [hms] at hok hdone hstop
  cases fin with
  | done a =>
    rw [bind_of_done hms]
    obtain ⟨hok', hdone', hstop'⟩ := hf a (hist ++ t) (hdone a rfl) s'
    simp only [List.append_assoc] at hok' hdone' hstop'
    refine ⟨fun pre e post he => ?_, hdone', hstop'⟩
    rcases split_append he with ⟨post', ht⟩ | ⟨pre', rfl, ht⟩
    · exact hok pre e post' ht
    · exact hok' pre' e post ht
  | stop why =>
    rw [bind_of_stop hms]
    refine ⟨hok, nofun, fun why' hw => ?_⟩
    cases hw
    exact hstop why rfl
  | wait =>
    rw [bind_of_wait hms]
    exact ⟨hok, nofun, nofun⟩

lemma Triple.ite {c : Prop} [Decidable c] {m' : Prog ι ε α}
    (ht : c → Triple ok W P m Q) (hf : ¬c → Triple ok W P m' Q) :
    Triple ok W P (if c then m else m') Q := by
  split_ifs with h
  · exact ht h
  · exact hf h

lemma Triple.ex {γ : Type} {P : γ → List ε → Prop} (h : ∀ x, Triple ok W (P x) m Q) :
    Triple ok W (fun h => ∃ x, P x h) m Q := by
  rintro hist ⟨x, hP⟩ s
  exact h x hist hP s

lemma Triple.lift {φ : Prop} (h : φ → Triple ok W P m Q) :
    Triple ok W (fun h => φ ∧ P h) m Q := by
  rintro hist ⟨hφ, hP⟩ s
  exact h hφ hist hP s

/-- After a check that did not stop, its condition is false. -/
lemma Triple.stopIf {c : Prop} [Decidable c] {why : String} (h : ∀ h, c → P h → W why h) :
    Triple ok W P (Trail.stopIf c why : Prog ι ε Unit) fun _ h => ¬c ∧ P h := by
  unfold Trail.stopIf
  refine .ite (fun hc => .stop fun h' => h h' hc) fun hc => .pure fun _ hP => ⟨hc, hP⟩

end Rules

/-! ### Commands -/

/-- Runs a command and hands on its answer. -/
def ask (c : κ) : Prog ι (κ × ι) ι
  | [] => ⟨[], .wait, []⟩
  | a :: s => ⟨[(c, a)], .done a, s⟩

lemma Triple.ask {c : κ} {ok : List (κ × ι) → κ × ι → Prop} {W : String → List (κ × ι) → Prop}
    {P : List (κ × ι) → Prop} {Q : ι → List (κ × ι) → Prop} (hok : ∀ h a, P h → ok h (c, a))
    (hq : ∀ h a, P h → Q a (h ++ [(c, a)])) : Triple ok W P (History.ask c) Q := by
  intro hist hP s
  cases s with
  | nil => exact ⟨fun pre e post he => absurd he (by simp [History.ask]), nofun, nofun⟩
  | cons a s =>
    refine ⟨fun pre e post he => ?_, fun b hb => ?_, nofun⟩
    · cases pre with
      | nil =>
        obtain ⟨rfl, -⟩ := List.cons.inj he
        rw [List.append_nil]
        exact hok hist a hP
      | cons x pre => exact absurd he (by simp [History.ask])
    · cases hb
      exact hq hist _ hP

/-! ### Waiting -/

/-- With `n` answers at hand the program does not wait, and it takes no more than these. -/
def Within (n : ℕ) (m : Prog ι ε α) : Prop :=
  ∀ s, n ≤ s.length → (m s).fin ≠ .wait ∧ s.length ≤ (m s).rest.length + n

lemma Within.pure (a : α) : Within 0 (Pure.pure a : Prog ι ε α) :=
  fun _ _ => ⟨nofun, Nat.le_refl _⟩

lemma Within.stop (why : String) : Within 0 (Trail.stop why : Prog ι ε α) :=
  fun _ _ => ⟨nofun, Nat.le_refl _⟩

lemma Within.mono {n k : ℕ} {m : Prog ι ε α} (h : Within n m) (hle : n ≤ k) : Within k m := by
  intro s hs
  obtain ⟨hw, hr⟩ := h s (Nat.le_trans hle hs)
  exact ⟨hw, by omega⟩

lemma Within.stopIf {c : Prop} [Decidable c] (why : String) :
    Within 0 (Trail.stopIf c why : Prog ι ε Unit) := by
  unfold Trail.stopIf
  split_ifs
  · exact .stop why
  · exact .pure ()

lemma Within.ask (c : κ) : Within 1 (History.ask c : Prog ι (κ × ι) ι) := by
  intro s hs
  cases s with
  | nil => simp at hs
  | cons a s => exact ⟨nofun, by simp [History.ask]⟩

lemma Within.bind {n k : ℕ} {m : Prog ι ε α} {f : α → Prog ι ε β} (hm : Within n m)
    (hf : ∀ a, Within k (f a)) : Within (n + k) (m >>= f) := by
  intro s hs
  obtain ⟨hw, hr⟩ := hm s (by omega)
  rcases hms : m s with ⟨t, fin, s'⟩
  rw [hms] at hw hr
  simp only at hw hr
  cases fin with
  | done a =>
    rw [bind_of_done hms]
    obtain ⟨hw', hr'⟩ := hf a s' (by omega)
    exact ⟨hw', by simp only; omega⟩
  | stop why =>
    rw [bind_of_stop hms]
    exact ⟨nofun, by simp only; omega⟩
  | wait => exact absurd rfl hw

end Wallace.History
