import Mathlib.Tactic.Common

/-!
Programs that ask their environment.

A program is run against the list of the answers it gets, one for each question, and ends
with a value, with a message, or waiting for an answer that the list does not have. It
leaves a trail of events on its way. A program meets a postcondition when every event of
every run is acceptable and every value it ends with satisfies the postcondition; the rules
below take such a statement apart along the program.
-/

namespace Wallace.Trail

inductive End (α : Type)
  | done (a : α)
  | stop (why : String)
  | wait
  deriving DecidableEq

def End.isDone {α : Type} : End α → Bool
  | .done _ => true
  | .stop _ | .wait => false

lemma End.exists_of_isDone {α : Type} {r : End α} (h : r.isDone = true) : ∃ a, r = .done a := by
  cases r with
  | done a => exact ⟨a, rfl⟩
  | stop why => cases h
  | wait => cases h

structure Run (ι ε α : Type) where
  trail : List ε
  fin : End α
  rest : List ι

def Prog (ι ε α : Type) : Type := List ι → Run ι ε α

variable {ι ε α β : Type}

def Prog.pure (a : α) : Prog ι ε α := fun s => ⟨[], .done a, s⟩

def Prog.bind (m : Prog ι ε α) (f : α → Prog ι ε β) : Prog ι ε β := fun s =>
  match m s with
  | ⟨t, .done a, s'⟩ => { f a s' with trail := t ++ (f a s').trail }
  | ⟨t, .stop why, s'⟩ => ⟨t, .stop why, s'⟩
  | ⟨t, .wait, s'⟩ => ⟨t, .wait, s'⟩

instance : Monad (Prog ι ε) where
  pure := Prog.pure
  bind := Prog.bind

/-- A program given by what it does with the answers. -/
def ofRuns (f : List ι → Run ι ε α) : Prog ι ε α := f

def stop (why : String) : Prog ι ε α := fun s => ⟨[], .stop why, s⟩

/-- Stops with a message if the condition holds. -/
def stopIf (c : Prop) [Decidable c] (why : String) : Prog ι ε Unit :=
  if c then stop why else pure ()

def note (e : ε) : Prog ι ε Unit := fun s => ⟨[e], .done (), s⟩

/-- What can only fail, as a program. -/
def ofExcept : Except String α → Prog ι ε α
  | .ok a => pure a
  | .error why => stop why

/-- A loop over a list. -/
def forEach (l : List β) (f : β → Prog ι ε Unit) : Prog ι ε Unit :=
  match l with
  | [] => pure ()
  | x :: l => f x >>= fun _ => forEach l f

/-! ### How a sequence ends -/

lemma fin_stopIf_of {c : Prop} [Decidable c] (h : c) (why : String) (f : Unit → Prog ι ε β)
    (s : List ι) : ((stopIf c why >>= f) s).fin = .stop why := by
  rw [stopIf, if_pos h]
  rfl

lemma fin_stopIf_of_not {c : Prop} [Decidable c] (h : ¬ c) (why : String)
    (f : Unit → Prog ι ε β) (s : List ι) : ((stopIf c why >>= f) s).fin = (f () s).fin := by
  rw [stopIf, if_neg h]
  rfl

/-! ### Postconditions -/

/-- Every event of every run is acceptable, and every value it ends with satisfies `Q`. -/
def Meets (ok : ε → Prop) (m : Prog ι ε α) (Q : α → Prop) : Prop :=
  ∀ s, (∀ e ∈ (m s).trail, ok e) ∧ ∀ a, (m s).fin = .done a → Q a

variable {ok : ε → Prop} {m : Prog ι ε α} {P Q : α → Prop}

lemma Meets.pure {a : α} (h : Q a) : Meets ok (Pure.pure a : Prog ι ε α) Q := by
  intro s
  refine ⟨nofun, fun b hb => ?_⟩
  cases hb
  exact h

/-- **The sequence rule.** -/
theorem Meets.bind {f : α → Prog ι ε β} {R : β → Prop} (hm : Meets ok m Q)
    (hf : ∀ a, Q a → Meets ok (f a) R) : Meets ok (m >>= f) R := by
  intro s
  obtain ⟨ht, hq⟩ := hm s
  have hb : (m >>= f) s = Prog.bind m f s := rfl
  rw [hb]
  unfold Prog.bind
  rcases hms : m s with ⟨t, fin, s'⟩
  rw [hms] at ht hq
  cases fin with
  | done a =>
    obtain ⟨ht', hr⟩ := hf a (hq a rfl) s'
    refine ⟨fun e he => ?_, hr⟩
    exact (List.mem_append.mp he).elim (ht e) (ht' e)
  | stop why => exact ⟨ht, nofun⟩
  | wait => exact ⟨ht, nofun⟩

lemma Meets.mono (hm : Meets ok m P) (h : ∀ a, P a → Q a) : Meets ok m Q :=
  fun s => ⟨(hm s).1, fun a ha => h a ((hm s).2 a ha)⟩

lemma Meets.map {f : α → β} {R : β → Prop} (hm : Meets ok m fun a => R (f a)) :
    Meets ok (f <$> m) R :=
  hm.bind fun _ ha => .pure ha

lemma Meets.stop (why : String) : Meets ok (stop why : Prog ι ε α) Q :=
  fun _ => ⟨nofun, nofun⟩

/-- After a check that did not stop, its condition is false. -/
lemma Meets.stopIf (c : Prop) [Decidable c] (why : String) :
    Meets ok (stopIf c why : Prog ι ε Unit) fun _ => ¬ c := by
  unfold Trail.stopIf
  split_ifs with h
  · exact .stop why
  · exact .pure h

lemma Meets.note {e : ε} (h : ok e) : Meets ok (note e : Prog ι ε Unit) fun _ => True := by
  intro s
  refine ⟨fun e' he' => ?_, fun _ _ => trivial⟩
  rw [List.mem_singleton.mp he']
  exact h

lemma Meets.ofExcept (x : Except String α) :
    Meets ok (ofExcept x : Prog ι ε α) fun a => x = .ok a := by
  cases x with
  | ok a => exact .pure rfl
  | error why => exact .stop why

/-- **The loop rule**: what each turn establishes holds of all elements after the loop. -/
theorem Meets.forEach {l : List β} {f : β → Prog ι ε Unit} {R : β → Prop}
    (h : ∀ x ∈ l, Meets ok (f x) fun _ => R x) :
    Meets ok (forEach l f) fun _ => ∀ x ∈ l, R x := by
  induction l with
  | nil => exact .pure nofun
  | cons x l ih =>
    refine (h x (by simp)).bind fun _ hx => ?_
    refine (ih fun y hy => h y (by simp [hy])).mono fun _ hl => ?_
    rintro y (_ | ⟨_, hy⟩)
    · exact hx
    · exact hl y hy

end Wallace.Trail
