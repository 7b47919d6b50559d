import Mathlib.Data.List.Basic
import Wallace.SdrootModel

/-!
When a failed boot leaves nothing mounted.

The cleanup unmounts the container below the root before it detaches the loop device. Up to the
move of the container that order works at every line. After the move the container backs the
loop device from below the root that is mounted from that device, and neither can go first.
-/

namespace Wallace.SdrootClean

open Wallace.Mounts Wallace.SdrootModel

variable {t t' core : Mounts} {u : Undo} {why : String}

/-! ### Boots that stop -/

/-- The mounts before a line, if all lines before it succeeded. -/
def stateAt (ls : List Line) (i : ℕ) (t : Mounts) : Mounts :=
  (ls.take i).foldl (fun t l => effect l.cmd t) t

/-- **A boot that stops** does so at the line of the first failure. -/
theorem boot_stopped {ls : List Line} {oks : List Bool} (h : boot ls oks t = .stopped u why t') :
    ∃ l, ls[oks.idxOf false]? = some l ∧ u = l.undo ∧
      t' = l.undo.apply (stateAt ls (oks.idxOf false) t) := by
  induction ls generalizing oks t with
  | nil => cases h
  | cons l ls ih =>
    cases oks with
    | nil => cases h
    | cons ok oks =>
      rw [boot] at h
      cases ok with
      | false =>
        cases h
        exact ⟨l, by simp, rfl, by simp [stateAt]⟩
      | true =>
        obtain ⟨l', hl', hu, ht⟩ := ih h
        refine ⟨l', ?_, hu, ?_⟩
        · rw [List.idxOf_cons_ne _ (by decide)]
          exact hl'
        · rw [List.idxOf_cons_ne _ (by decide)]
          exact ht

/-! ### Mounts of no concern -/

/-- The command reads nothing but the two trees of the boot. -/
def Local : Cmd → Prop
  | .moveMount src _ => [.sd] <+: src ∨ [.newroot] <+: src
  | .bindMount src _ => [.sd] <+: src ∨ [.newroot] <+: src
  | _ => True

instance (c : Cmd) : Decidable (Local c) := by
  unfold Local
  split <;> infer_instance

/-- Mounts outside the two trees, of other file systems. -/
structure Outside (core : Mounts) : Prop where
  sd : Clear [.sd] core
  newroot : Clear [.newroot] core
  clean : Clean core

lemma Outside.clear (h : Outside core) {p : Path} (hp : [.sd] <+: p ∨ [.newroot] <+: p) :
    Clear p core :=
  hp.elim h.sd.mono h.newroot.mono

lemma effect_append (h : Outside core) {c : Cmd} (hc : Local c) :
    effect c (t ++ core) = effect c t ++ core := by
  cases c with
  | losetup => exact attach_append h.sd
  | moveMount src dst => exact move_append (h.clear hc)
  | bindMount src dst => exact bind_append (h.clear hc)
  | _ => rfl

lemma stateAt_append (h : Outside core) {ls : List Line} (hls : ∀ l ∈ ls, Local l.cmd) (i : ℕ) :
    stateAt ls i core = stateAt ls i [] ++ core := by
  suffices hfold : ∀ (ls : List Line) t, (∀ l ∈ ls, Local l.cmd) →
      ls.foldl (fun t l => effect l.cmd t) (t ++ core) =
        ls.foldl (fun t l => effect l.cmd t) t ++ core from
    hfold (ls.take i) [] fun l hl => hls l (List.mem_of_mem_take hl)
  intro ls
  induction ls with
  | nil => exact fun _ _ => rfl
  | cons l ls ih =>
    intro t hls
    rw [List.foldl_cons, List.foldl_cons, effect_append h (hls l (by simp))]
    exact ih _ fun l' hl' => hls l' (by simp [hl'])

lemma tryUmount_append (h : Outside core) {p : Path} (hp : [.sd] <+: p ∨ [.newroot] <+: p) :
    tryUmount p (t ++ core) = tryUmount p t ++ core :=
  attempt_umount_append (h.clear hp)

/-- The points that the cleanup unmounts before it detaches the loop device. -/
def rootPoints : List Path :=
  [[.newroot, .mnt, .sd], [.newroot, .dev], [.newroot, .proc], [.newroot, .sys],
    [.newroot, .run, .initramfs, .sd], [.newroot, .run, .initramfs], [.newroot, .run], [.newroot]]

def umountAll (ps : List Path) (t : Mounts) : Mounts := ps.foldl (fun t p => tryUmount p t) t

lemma cleanupRoot_eq (t : Mounts) :
    cleanupRoot t = tryUmount [.sd] (attempt (detach .ext4) (umountAll rootPoints t)) := by
  simp only [cleanupRoot, umountAll, rootPoints, List.foldl_cons, List.foldl_nil]

lemma umountAll_append (h : Outside core) {ps : List Path}
    (hps : ∀ p ∈ ps, [.sd] <+: p ∨ [.newroot] <+: p) :
    umountAll ps (t ++ core) = umountAll ps t ++ core :=
  foldl_umount_append fun p hp => h.clear (hps p hp)

lemma cleanupRoot_append (h : Outside core) : cleanupRoot (t ++ core) = cleanupRoot t ++ core := by
  have haside : Aside .ext4 core := fun m hm => ⟨(h.clean m hm).2.1, (h.clean m hm).2.2⟩
  have hpoints : ∀ p ∈ rootPoints, [.sd] <+: p ∨ [.newroot] <+: p := by decide
  rw [cleanupRoot_eq, cleanupRoot_eq]
  calc tryUmount [.sd] (attempt (detach .ext4) (umountAll rootPoints (t ++ core)))
      = tryUmount [.sd] (attempt (detach .ext4) (umountAll rootPoints t) ++ core) := by
        rw [umountAll_append h hpoints, attempt_detach_append haside]
    _ = tryUmount [.sd] (attempt (detach .ext4) (umountAll rootPoints t)) ++ core :=
        tryUmount_append h (.inl (List.prefix_refl _))

lemma clean_append (h : Outside core) : Clean (t ++ core) ↔ Clean t := by
  constructor
  · exact fun hall m hm => hall m (List.mem_append_left _ hm)
  · intro hall m hm
    rcases List.mem_append.mp hm with hm | hm
    · exact hall m hm
    · exact h.clean m hm

/-! ### Up to the move -/

lemma lines_local (v : Variant) : ∀ l ∈ lines v, Local l.cmd := by
  cases v <;> decide

/-- The container, with the loop device attached to the image on it. -/
def container : Mount Dir Fs := { point := [.sd], fs := .exfat, backs := true }

/-- The cleanup peels what is stacked on the container in the order of its list, and then nothing
is left on the loop device. -/
lemma cleanupRoot_stacked (h : Stacked t) (hsub : (t.map Mount.point).Sublist rootPoints) :
    cleanupRoot (t ++ [container]) = [] := by
  have houtside : ∀ p ∈ rootPoints, Clear p [container] := by
    unfold Clear
    decide
  have hpeel : umountAll rootPoints (t ++ [container]) = [container] :=
    calc umountAll rootPoints (t ++ [container])
        = umountAll rootPoints t ++ [container] := foldl_umount_append houtside
      _ = [container] := congrArg (· ++ [container]) (h.peel (by decide) hsub)
  rw [cleanupRoot_eq, hpeel]
  decide

/-- The command mounts one file system, or none, and does nothing else to the mounts. -/
def Mounting : Cmd → Prop
  | .losetup | .moveMount _ _ | .bindMount _ _ => False
  | _ => True

instance (c : Cmd) : Decidable (Mounting c) := by
  unfold Mounting
  split <;> infer_instance

def mountOf : Cmd → Option (Mount Dir Fs)
  | .mount fs p => some { point := p, fs := fs }
  | _ => none

lemma effect_of_mounting {c : Cmd} (hc : Mounting c) : effect c t = (mountOf c).toList ++ t := by
  cases c with
  | losetup => cases hc
  | moveMount src dst => cases hc
  | bindMount src dst => cases hc
  | _ => rfl

lemma foldl_of_mounting {ls : List Line} (h : ∀ l ∈ ls, Mounting l.cmd) :
    ls.foldl (fun t l => effect l.cmd t) t = (ls.filterMap (mountOf ·.cmd)).reverse ++ t := by
  induction ls generalizing t with
  | nil => rfl
  | cons l ls ih =>
    rw [List.foldl_cons, effect_of_mounting (h l (List.mem_cons_self ..)),
      ih fun l' hl' => h l' (List.mem_cons_of_mem _ hl')]
    cases hm : mountOf l.cmd <;> simp [hm]

/-- The lines between the attach and the move. -/
def mountingLines (v : Variant) : List Line := (beforeMove v).drop 3

lemma mounting_mountingLines (v : Variant) : ∀ l ∈ mountingLines v, Mounting l.cmd := by
  cases v <;> decide

/-- What they mount: each on the one before, and none twice. -/
def rootMounts : Mounts :=
  [{ point := [.newroot], fs := .ext4 }, { point := [.newroot, .run], fs := .tmpfs },
    { point := [.newroot, .run, .initramfs], fs := .tmpfs }]

lemma mounts_mountingLines (v : Variant) :
    (mountingLines v).filterMap (mountOf ·.cmd) = rootMounts := by
  cases v <;> rfl

lemma stacked_rootMounts : Stacked rootMounts.reverse := ⟨by decide, by decide⟩

/-- Before a line between the attach and the move, the oldest of the root's mounts are there. -/
lemma stateAt_mountingLines (v : Variant) {i : ℕ} (hi : i ≤ (mountingLines v).length) :
    ∃ t, t.Sublist rootMounts.reverse ∧ stateAt (lines v) (3 + i) [] = t ++ [container] := by
  refine ⟨(((mountingLines v).take i).filterMap (mountOf ·.cmd)).reverse, ?_, ?_⟩
  · rw [← mounts_mountingLines v]
    exact (((List.take_prefix i _).filterMap _).reverse).sublist
  · have hattach : ((beforeMove v).take 3).foldl (fun t l => effect l.cmd t) [] = [container] := by
      cases v <;> rfl
    have htake : (lines v).take (3 + i) = (beforeMove v).take 3 ++ (mountingLines v).take i := by
      have hsplit : lines v =
          (beforeMove v).take 3 ++ (mountingLines v ++ moveLine v :: afterMove v) := by
        rw [mountingLines, ← List.append_assoc, List.take_append_drop]
        rfl
      have hthree : ((beforeMove v).take 3).length = 3 := rfl
      rw [hsplit, List.take_append, hthree, Nat.add_sub_cancel_left,
        List.take_append_of_le_length hi, List.take_of_length_le (by omega)]
    rw [stateAt, htake, List.foldl_append, hattach, foldl_of_mounting]
    exact fun l hl => mounting_mountingLines v l (List.mem_of_mem_take hl)

/-- At every line up to the move the cleanup works. -/
lemma clean_upToMove (v : Variant) : ∀ i ≤ (beforeMove v).length, ∀ l, (lines v)[i]? = some l →
    l.undo = .cleanupRoot → Clean (cleanupRoot (stateAt (lines v) i [])) := by
  intro i hi l hl hu
  -- the first three lines undo less
  have hattach : ∀ i < 3, ((lines v)[i]?.map Line.undo) ≠ some .cleanupRoot := by
    cases v <;> decide
  have hthree : 3 ≤ i := by
    by_contra hlt
    exact hattach i (by omega) (by rw [hl, Option.map_some, hu])
  obtain ⟨k, rfl⟩ := Nat.exists_eq_add_of_le hthree
  have hk : k ≤ (mountingLines v).length := by
    rw [mountingLines, List.length_drop]
    omega
  obtain ⟨t, hsub, ht⟩ := stateAt_mountingLines v hk
  have hpoints : (rootMounts.reverse.map Mount.point).Sublist rootPoints := by decide
  rw [ht, cleanupRoot_stacked (stacked_rootMounts.sublist hsub) ((hsub.map _).trans hpoints)]
  exact fun m hm => absurd hm List.not_mem_nil

/-! ### After the move -/

abbrev Held (t : Mounts) : Prop := Stuck [.newroot] .exfat .ext4 t

lemma Held.not_clean (h : Held t) : ¬Clean t := by
  obtain ⟨m, hm, -, hfs⟩ := h.2
  exact fun hclean => (hclean m hm).2.1 hfs

lemma held_umountAll {ps : List Path} (h : Held t) : Held (umountAll ps t) := by
  induction ps generalizing t with
  | nil => exact h
  | cons p ps ih => exact ih (h.umount p)

/-- **The cleanup cannot undo the move.** -/
theorem held_cleanupRoot (h : Held t) : Held (cleanupRoot t) := by
  rw [cleanupRoot_eq]
  exact (held_umountAll h).detach.umount [.sd]

/-- The commands after the move only add mounts. -/
def Adds : Cmd → Prop
  | .losetup | .moveMount _ _ => False
  | _ => True

instance (c : Cmd) : Decidable (Adds c) := by
  unfold Adds
  split <;> infer_instance

lemma held_effect (h : Held t) {c : Cmd} (hc : Adds c) : Held (effect c t) := by
  cases c with
  | mount fs point => exact h.mono fun m hm => List.mem_cons_of_mem _ hm
  | bindMount src dst =>
    rw [effect, Mounts.bind]
    split
    · exact h.mono fun m hm => List.mem_cons_of_mem _ hm
    · exact h
  | losetup => cases hc
  | moveMount src dst => cases hc
  | _ => exact h

lemma held_foldl {ls : List Line} (h : Held t) (hls : ∀ l ∈ ls, Adds l.cmd) :
    Held (ls.foldl (fun t l => effect l.cmd t) t) := by
  induction ls generalizing t with
  | nil => exact h
  | cons l ls ih =>
    exact ih (held_effect h (hls l (by simp))) fun l' hl' => hls l' (by simp [hl'])

/-- At every line after the move, the two file systems hold each other. -/
lemma held_afterMove (v : Variant) {i : ℕ} (hi : (beforeMove v).length < i) :
    Held (stateAt (lines v) i []) := by
  have hmoved : Held ((beforeMove v ++ [moveLine v]).foldl (fun t l => effect l.cmd t) []) := by
    exact ⟨by cases v <;> decide +kernel, by cases v <;> decide +kernel⟩
  have hadds : ∀ l ∈ afterMove v, Adds l.cmd := by
    cases v <;> decide
  have htake : (lines v).take i = beforeMove v ++ [moveLine v] ++
      (afterMove v).take (i - ((beforeMove v).length + 1)) := by
    have hsplit : lines v = beforeMove v ++ [moveLine v] ++ afterMove v := by
      rw [lines, List.append_assoc, List.singleton_append]
    rw [hsplit, List.take_append, List.take_of_length_le]
    · simp
    · simp only [List.length_append, List.length_singleton]
      omega
  rw [stateAt, htake, List.foldl_append]
  exact held_foldl hmoved fun l hl => hadds l (List.mem_of_mem_take hl)

/-! ### The cleanup -/

/-- **A failed boot leaves nothing mounted exactly up to the move.** Whenever a boot of either
script, over mounts outside the two trees, stops after `cleanup_root`: neither the ext4 root nor
the exFAT container is mounted and the loop device is detached if and only if the first command
that failed is the move of the container or one before it. -/
theorem cleanup_clears_iff (v : Variant) (core : Mounts) (hcore : Outside core) (oks : List Bool)
    (why : String) (t : Mounts) (h : boot (lines v) oks core = .stopped .cleanupRoot why t) :
    Clean t ↔ oks.idxOf false ≤ (beforeMove v).length := by
  obtain ⟨l, hl, hu, ht⟩ := boot_stopped h
  have happ : t = cleanupRoot (stateAt (lines v) (oks.idxOf false) []) ++ core := by
    rw [ht, ← hu, stateAt_append hcore (lines_local v)]
    exact cleanupRoot_append hcore
  rw [happ, clean_append hcore]
  constructor
  · intro hclean
    by_contra hgt
    exact (held_cleanupRoot (held_afterMove v (by omega))).not_clean hclean
  · exact fun hle => clean_upToMove v _ hle l hl hu.symm

/-- The mounts of the initramfs. -/
def initramfs : Mounts :=
  [{ point := [.dev], fs := .devtmpfs }, { point := [.sys], fs := .sysfs },
    { point := [.proc], fs := .proc }, { point := [], fs := .rootfs }]

lemma outside_initramfs : Outside initramfs where
  sd := by
    unfold Clear
    decide
  newroot := by
    unfold Clear
    decide
  clean := by decide

/-- A root that does not mount is cleaned up after. -/
theorem cleanup_clears_iff_ext4 :
    ∃ t, boot (lines .nvme) [true, true, true, true, false] initramfs =
        .stopped .cleanupRoot "cannot mount the ext4 root" t ∧ Clean t :=
  ⟨_, rfl, (cleanup_clears_iff .nvme initramfs outside_initramfs
    [true, true, true, true, false] _ _ rfl).mpr (by decide)⟩

/-- A bind mount that fails after the move leaves both file systems mounted, and the loop
device attached. -/
theorem bind_failure_stays_mounted :
    ∃ t, boot (lines .sd) (List.replicate 36 true ++ [false]) initramfs =
        .stopped .cleanupRoot "cannot expose SD64 at /mnt/sd" t ∧
      mounted .exfat t ∧ mounted .ext4 t ∧ ¬Clean t := by
  refine ⟨_, rfl, ?_⟩
  decide +kernel

end Wallace.SdrootClean
