import Mathlib.Data.List.Infix
import Mathlib.Tactic.Common

/-!
Mount tables, with loop devices on files of mounted file systems.

A table lists its mounts with the newest first; a mount may back an attached loop device. A
point cannot be unmounted while another mount lies below it or while a file on it backs the
loop device, and the loop device cannot be detached while the file system on it is mounted.
Mounts that have nothing to do with a point are left alone by what is done there.
-/

namespace Wallace.Mounts

variable {κ φ : Type}

structure Mount (κ φ : Type) where
  point : List κ
  fs : φ
  backs : Bool := false
  deriving DecidableEq

abbrev Table (κ φ : Type) := List (Mount κ φ)

variable {p q : List κ} {fs : φ} {t core : Table κ φ} {m : Mount κ φ}

/-- The mount lies below the point. -/
def Mount.Below (p : List κ) (m : Mount κ φ) : Prop := p <+: m.point ∧ m.point ≠ p

instance [DecidableEq κ] (p : List κ) (m : Mount κ φ) : Decidable (m.Below p) :=
  inferInstanceAs (Decidable (_ ∧ _))

/-- No mount of the table lies at or below the point. -/
def Clear (p : List κ) (t : Table κ φ) : Prop := ∀ m ∈ t, ¬p <+: m.point

lemma Clear.mono (h : Clear p core) (hle : p <+: q) : Clear q core :=
  fun m hm hq => h m hm (hle.trans hq)

lemma Clear.ne (h : Clear p core) : ∀ m ∈ core, m.point ≠ p := by
  intro m hm e
  exact h m hm (by rw [e])

lemma exists_below_append (h : Clear p core) :
    (∃ m ∈ t ++ core, m.Below p) ↔ ∃ m ∈ t, m.Below p := by
  constructor
  · rintro ⟨m, hm, hb⟩
    rcases List.mem_append.mp hm with hm | hm
    · exact ⟨m, hm, hb⟩
    · exact absurd hb.1 (h m hm)
  · rintro ⟨m, hm, hb⟩
    exact ⟨m, List.mem_append_left _ hm, hb⟩

/-! ### Operations -/

def mount (fs : φ) (p : List κ) (t : Table κ φ) : Table κ φ := { point := p, fs := fs } :: t

def mounted (fs : φ) (t : Table κ φ) : Prop := ∃ m ∈ t, m.fs = fs

instance [DecidableEq φ] (fs : φ) (t : Table κ φ) : Decidable (mounted fs t) :=
  List.decidableBEx _ _

/-- `command || true`. -/
def attempt (f : Table κ φ → Option (Table κ φ)) (t : Table κ φ) : Table κ φ := (f t).getD t

section Points

variable [DecidableEq κ]

/-- Another view of what is mounted at a point. -/
def bind (p q : List κ) (t : Table κ φ) : Table κ φ :=
  match t.find? (·.point = p) with
  | some m => mount m.fs q t
  | none => t

/-- The mounts at a point and below it, moved elsewhere. -/
def move (p q : List κ) (t : Table κ φ) : Table κ φ :=
  t.map fun m => if p <+: m.point then { m with point := q ++ m.point.drop p.length } else m

/-- The newest mount at a point, if nothing holds it. -/
def umount (p : List κ) (t : Table κ φ) : Option (Table κ φ) :=
  match t.find? (·.point = p) with
  | none => none
  | some m =>
    if (∃ m' ∈ t, m'.Below p) ∨ m.backs = true then none
    else some (t.eraseP (·.point = p))

/-- The loop device is attached to a file on the newest mount at a point. -/
def attach (p : List κ) : Table κ φ → Table κ φ
  | [] => []
  | m :: t => if m.point = p then { m with backs := true } :: t else m :: attach p t

end Points

/-- The loop device is detached, unless its file system is mounted. -/
def detach [DecidableEq φ] (fs : φ) (t : Table κ φ) : Option (Table κ φ) :=
  if mounted fs t ∨ ∀ m ∈ t, m.backs = false then none
  else some (t.map fun m => { m with backs := false })


/-! ### The rest of the table -/

section Points

variable [DecidableEq κ]

lemma find?_append (h : Clear p core) :
    (t ++ core).find? (·.point = p) = t.find? (·.point = p) := by
  rw [List.find?_append]
  have hnone : core.find? (·.point = p) = none := by
    rw [List.find?_eq_none]
    intro m hm
    simpa using h.ne m hm
  rw [hnone, Option.or_none]

lemma umount_append (h : Clear p core) : umount p (t ++ core) = (umount p t).map (· ++ core) := by
  unfold umount
  rw [find?_append h]
  cases hf : t.find? (·.point = p) with
  | none => rfl
  | some m =>
    simp only [exists_below_append h]
    have hmem := List.mem_of_find?_eq_some hf
    have hp := List.find?_some hf
    split_ifs
    · rfl
    · rw [List.eraseP_append_left (p := (·.point = p)) hp core hmem]
      rfl

lemma attempt_umount_append (h : Clear p core) :
    attempt (umount p) (t ++ core) = attempt (umount p) t ++ core := by
  unfold attempt
  rw [umount_append h]
  cases umount p t <;> rfl

lemma foldl_umount_append {ps : List (List κ)} (h : ∀ p ∈ ps, Clear p core) :
    ps.foldl (fun t p => attempt (umount p) t) (t ++ core) =
      ps.foldl (fun t p => attempt (umount p) t) t ++ core := by
  induction ps generalizing t with
  | nil => rfl
  | cons p ps ih =>
    rw [List.foldl_cons, List.foldl_cons, attempt_umount_append (h p (List.mem_cons_self ..))]
    exact ih fun q hq => h q (List.mem_cons_of_mem _ hq)

lemma attach_append (h : Clear p core) : attach p (t ++ core) = attach p t ++ core := by
  induction t with
  | nil =>
    rw [List.nil_append, attach, List.nil_append]
    induction core with
    | nil => rfl
    | cons m core ih =>
      rw [attach, if_neg (h.ne m (by simp)), ih fun m' hm' => h m' (by simp [hm'])]
  | cons m t ih =>
    rw [List.cons_append, attach, attach]
    split_ifs with hm
    · rfl
    · rw [ih, List.cons_append]

lemma move_append (h : Clear p core) : move p q (t ++ core) = move p q t ++ core := by
  unfold move
  rw [List.map_append]
  congr 1
  conv_rhs => rw [← List.map_id core]
  refine List.map_congr_left fun m hm => ?_
  rw [if_neg (h m hm)]
  rfl

lemma bind_append (h : Clear p core) : bind p q (t ++ core) = bind p q t ++ core := by
  unfold bind
  rw [find?_append h]
  cases t.find? (·.point = p) <;> rfl

end Points

/-- Nothing of the table is of the file system on the loop device, and nothing backs it. -/
def Aside (fs : φ) (core : Table κ φ) : Prop := ∀ m ∈ core, m.fs ≠ fs ∧ m.backs = false

lemma detach_append [DecidableEq φ] (h : Aside fs core) :
    detach fs (t ++ core) = (detach fs t).map (· ++ core) := by
  have hmounted : mounted fs (t ++ core) ↔ mounted fs t := by
    constructor
    · rintro ⟨m, hm, hfs⟩
      rcases List.mem_append.mp hm with hm | hm
      · exact ⟨m, hm, hfs⟩
      · exact absurd hfs (h m hm).1
    · rintro ⟨m, hm, hfs⟩
      exact ⟨m, List.mem_append_left _ hm, hfs⟩
  have hbacks : (∀ m ∈ t ++ core, m.backs = false) ↔ ∀ m ∈ t, m.backs = false := by
    constructor
    · exact fun hall m hm => hall m (List.mem_append_left _ hm)
    · intro hall m hm
      rcases List.mem_append.mp hm with hm | hm
      · exact hall m hm
      · exact (h m hm).2
  have hmap : core.map (fun m => { m with backs := false }) = core := by
    conv_rhs => rw [← List.map_id core]
    refine List.map_congr_left fun m hm => ?_
    rw [← (h m hm).2]
    rfl
  unfold detach
  simp only [hmounted, hbacks, List.map_append, hmap]
  split_ifs <;> rfl

lemma attempt_detach_append [DecidableEq φ] (h : Aside fs core) :
    attempt (detach fs) (t ++ core) = attempt (detach fs) t ++ core := by
  unfold attempt
  rw [detach_append h]
  cases detach fs t <;> rfl

/-! ### What can be unmounted -/

/-- Nothing backs the loop device, and no mount lies below the point of a newer one. -/
structure Stacked (t : Table κ φ) : Prop where
  free : ∀ m ∈ t, m.backs = false
  above : t.Pairwise fun m m' => ¬m'.Below m.point

lemma Stacked.sublist {t' : Table κ φ} (h : Stacked t) (hsub : t'.Sublist t) : Stacked t' :=
  ⟨fun m hm => h.free m (hsub.subset hm), h.above.sublist hsub⟩

lemma Stacked.tail (h : Stacked (m :: t)) : Stacked t := h.sublist (List.sublist_cons_self ..)

section Points

variable [DecidableEq κ]

/-- Where nothing is mounted, nothing is unmounted. -/
lemma attempt_umount_of_absent (h : ∀ m ∈ t, m.point ≠ p) : attempt (umount p) t = t := by
  have hnone : t.find? (·.point = p) = none := by
    rw [List.find?_eq_none]
    intro m hm
    simpa using h m hm
  rw [attempt, umount, hnone]
  rfl

/-- The newest of stacked mounts can be unmounted. -/
lemma Stacked.umount_newest (h : Stacked (m :: t)) : attempt (umount m.point) (m :: t) = t := by
  have hfind : (m :: t).find? (·.point = m.point) = some m := List.find?_cons_of_pos (by simp)
  have hbelow : ¬∃ m' ∈ m :: t, m'.Below m.point := by
    rintro ⟨m', hm', hb⟩
    rcases List.mem_cons.mp hm' with rfl | hm'
    · exact hb.2 rfl
    · exact List.rel_of_pairwise_cons h.above hm' hb
  have hfree : m.backs = false := h.free m (List.mem_cons_self ..)
  rw [attempt, umount, hfind]
  simp only
  rw [if_neg (not_or.mpr ⟨hbelow, by simp [hfree]⟩), List.eraseP_cons_of_pos (by simp)]
  rfl

/-- **Stacked mounts are peeled** by unmounting a list of points that has theirs in order, the
newest first. -/
theorem Stacked.peel {ps : List (List κ)} (hnodup : ps.Nodup) (h : Stacked t)
    (hsub : (t.map Mount.point).Sublist ps) :
    ps.foldl (fun t p => attempt (umount p) t) t = [] := by
  induction ps generalizing t with
  | nil => exact List.map_eq_nil_iff.mp (List.sublist_nil.mp hsub)
  | cons p ps ih =>
    obtain ⟨hp, hps⟩ := List.nodup_cons.mp hnodup
    rw [List.foldl_cons]
    by_cases hhead : (t.map Mount.point).Sublist ps
    · have habsent : ∀ m ∈ t, m.point ≠ p := by
        rintro m hm rfl
        exact hp (hhead.subset (List.mem_map_of_mem hm))
      rw [attempt_umount_of_absent habsent]
      exact ih hps h hhead
    · cases t with
      | nil => exact absurd (List.nil_sublist _) hhead
      | cons m t =>
        rw [List.map_cons] at hsub hhead
        cases hsub with
        | cons _ hsub => exact absurd hsub hhead
        | cons_cons _ hsub =>
          rw [h.umount_newest]
          exact ih hps h.tail hsub

end Points

/-! ### What cannot be unmounted -/

/-- A mount whose file backs the loop device lies below the point where the file system on the
loop device is mounted: each of the two holds the other. -/
def Stuck (root : List κ) (outer inner : φ) (t : Table κ φ) : Prop :=
  (∃ m ∈ t, m.Below root ∧ m.fs = outer ∧ m.backs = true) ∧ ∃ m ∈ t, m.point = root ∧ m.fs = inner

variable {root : List κ} {outer inner : φ}

lemma Stuck.mono {t' : Table κ φ} (h : Stuck root outer inner t) (hsub : ∀ m ∈ t, m ∈ t') :
    Stuck root outer inner t' := by
  obtain ⟨⟨m, hm, hp⟩, ⟨m', hm', hp'⟩⟩ := h
  exact ⟨⟨m, hsub m hm, hp⟩, ⟨m', hsub m' hm', hp'⟩⟩

/-- Unmounting one of the others changes nothing about it. -/
lemma Stuck.umount [DecidableEq κ] (h : Stuck root outer inner t) (p : List κ) :
    Stuck root outer inner (attempt (Mounts.umount p) t) := by
  unfold attempt Mounts.umount
  cases hf : t.find? (·.point = p) with
  | none => exact h
  | some x =>
    simp only
    split_ifs with hheld
    · exact h
    · push Not at hheld
      obtain ⟨hbelow, hfree⟩ := hheld
      obtain ⟨⟨m, hm, hroot, hfs, hb⟩, ⟨m', hm', hpt, hfs'⟩⟩ := h
      obtain ⟨a, l₁, l₂, hl₁, ha, ht, herase⟩ := List.exists_of_eraseP
        (List.mem_of_find?_eq_some hf) (List.find?_some hf)
      have hax : a = x := by
        rw [ht, List.find?_append, List.find?_eq_none.mpr (by simpa using hl₁)] at hf
        simpa [ha] using hf
      have hkeep : ∀ y ∈ t, y ≠ x → y ∈ t.eraseP (·.point = p) := by
        intro y hy hne
        rw [herase]
        rw [ht, hax] at hy
        simp only [List.mem_append, List.mem_cons] at hy ⊢
        tauto
      rw [Option.getD_some]
      refine ⟨⟨m, hkeep m hm ?_, hroot, hfs, hb⟩, ⟨m', hkeep m' hm' ?_, hpt, hfs'⟩⟩
      · rintro rfl
        rw [hb] at hfree
        exact absurd rfl hfree
      · rintro rfl
        have hp : m'.point = p := by simpa using List.find?_some hf
        exact hbelow m hm (by rw [← hp, hpt]; exact hroot)

/-- The loop device stays attached. -/
lemma Stuck.detach [DecidableEq φ] (h : Stuck root outer inner t) :
    Stuck root outer inner (attempt (Mounts.detach inner) t) := by
  obtain ⟨m, hm, -, hfs⟩ := h.2
  unfold attempt Mounts.detach
  rw [if_pos (.inl ⟨m, hm, hfs⟩)]
  exact h

end Wallace.Mounts
