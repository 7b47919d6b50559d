import Mathlib.Data.List.Basic
import Mathlib.Tactic.Common
import Wallace.Checks
import Wallace.ShutdownModel

/-!
The SD root is shut down cleanly.

Whatever fails, the last command is only executed over a table without the SD card and the old
root. The loop over the old root removes everything below it as long as `mounted` finds what
the listing printed, which it does not for a point with an escape.
-/

namespace Wallace.ShutdownClean

open Wallace.ShutdownModel
open Wallace.Checks (bind_ok exists_ok_of_any)
open Script (Text)

/-! ### Statements -/

/-- What has to be true when the machine goes down. -/
structure Clean (env : Env) (s : St) : Prop where
  clear : ∀ m ∈ s.table, ∀ p ∈ [oldroot, sd], m.path ≠ p ∧ ¬ p ++ ['/'] <+: m.path
  readOnly : ∃ (before : List Event) (m : Mount) (after : List Event),
    s.log = before ++ [.remounted m, .unmounted m] ++ after ∧ m.path = oldroot ∧ m.ro = true ∧
    (∀ x : Mount, .unmounted x ∈ before → x.path = mntSd ∨ oldrootSlash <+: x.path) ∧
    ∀ x : Mount, .unmounted x ∈ after → x.path = sd
  detached : loop env ≠ [] → loop env ∉ s.attached

/-- What is unmounted between two states. -/
def Unmounts (P : Mount → Prop) (s s' : St) : Prop :=
  ∃ events, s'.log = s.log ++ events ∧ ∀ x, .unmounted x ∈ events → P x

/-- The state that a part of the script ends in, if it was by `fail` as well. -/
def ended : Except (Text × St) St → St
  | .ok s => s
  | .error (_, s) => s

/-- Every point below the old root is spelled without an escape, and is one of the pathnames
that the shell expands it to. -/
def Plain (env : Env) (t : Table) : Prop :=
  ∀ m ∈ t, oldrootSlash <+: m.path → '\\' ∉ m.point ∧ m.point ∈ pathnames env m.point

section

variable {env : Env} {s s' s'' : St} {t : Table} {m : Mount} {p w : Text} {P Q : Mount → Prop}

lemma Unmounts.refl (P : Mount → Prop) (s : St) : Unmounts P s s :=
  ⟨[], (List.append_nil _).symm, by simp⟩

lemma Unmounts.trans (h : Unmounts P s s') (h' : Unmounts P s' s'') : Unmounts P s s'' := by
  obtain ⟨l, hl, hp⟩ := h
  obtain ⟨l', hl', hp'⟩ := h'
  refine ⟨l ++ l', by rw [hl', hl, List.append_assoc], fun x hx => ?_⟩
  exact (List.mem_append.mp hx).elim (hp x) (hp' x)

lemma Unmounts.mono (h : Unmounts P s s') (hpq : ∀ x, P x → Q x) : Unmounts Q s s' := by
  obtain ⟨l, hl, hp⟩ := h
  exact ⟨l, hl, fun x hx => hpq x (hp x hx)⟩

/-! ### Commands -/

lemma command_ok {why : Text} {act : St → Option St} (h : command env why act s = .ok s') :
    act s.tick = some s' := by
  unfold command at h
  split at h
  case h_1 _ hact =>
    rw [← Except.ok.inj h]
    split at hact
    · exact hact
    · cases hact
  case h_2 => cases h

lemma path_of_find? (h : t.find? (·.path = p) = some m) : m.path = p := by
  simpa using List.find?_some h

/-- What an unmount does: the newest mount at the path is gone, and noted. -/
lemma umount_ok {why : Text} (h : command env why (umount p) s = .ok s') :
    ∃ m ∈ s.table, m.path = p ∧ s.table.find? (·.path = p) = some m ∧
      s'.table = s.table.eraseP (·.path = p) ∧ s'.log = s.log ++ [.unmounted m] := by
  obtain ⟨m, hm, rfl⟩ := Option.map_eq_some_iff.mp (command_ok h)
  exact ⟨m, List.mem_of_find?_eq_some hm, path_of_find? hm, hm, rfl, rfl⟩

lemma umount_unmounts {why : Text} (h : command env why (umount p) s = .ok s') :
    Unmounts (fun x => x ∈ s.table ∧ x.path = p) s s' := by
  obtain ⟨m, hmem, hpath, -, -, hlog⟩ := umount_ok h
  refine ⟨[.unmounted m], hlog, fun x hx => ?_⟩
  injection List.mem_singleton.mp hx with hx
  rw [hx]
  exact ⟨hmem, hpath⟩

/-- A command that notes one event that is not an unmount. -/
lemma unmounts_note {e : Event} (he : ∀ x, e ≠ .unmounted x) (h : s'.log = s.log ++ [e]) :
    Unmounts P s s' :=
  ⟨[e], h, fun x hx => absurd (List.mem_singleton.mp hx).symm (he x)⟩

lemma command_unmounts {why : Text} {act : St → Option St}
    (hact : ∀ s s', act s = some s' → Unmounts P s s') (h : command env why act s = .ok s') :
    Unmounts P s s' := by
  obtain ⟨l, hl, hp⟩ := hact _ _ (command_ok h)
  exact ⟨l, hl, hp⟩

lemma find?_setRo : (setRo p t).find? (·.path = p) =
    (t.find? (·.path = p)).map fun m => { m with ro := true } := by
  induction t with
  | nil => rfl
  | cons m t ih =>
    rw [setRo]
    split_ifs with hm
    · rw [List.find?_cons_of_pos (by simpa using hm), List.find?_cons_of_pos (by simpa using hm)]
      rfl
    · rw [List.find?_cons_of_neg (by simpa using hm), List.find?_cons_of_neg (by simpa using hm)]
      exact ih

/-! ### The parts of the script -/

lemma enter_unmounts (h : enter env s = .ok s') : Unmounts (·.path = mntSd) s s' := by
  obtain ⟨s₁, h₁, h⟩ := bind_ok h
  obtain ⟨s₂, h₂, h⟩ := bind_ok h
  obtain ⟨s₃, h₃, h⟩ := bind_ok h
  obtain ⟨s₄, h₄, h₅⟩ := bind_ok h
  have hbind : Unmounts (·.path = mntSd) s s₁ := by
    unfold dropBind at h₁
    split at h₁
    · exact (umount_unmounts h₁).mono fun x hx => hx.2
    · cases h₁
      exact .refl _ _
  have hcd : Unmounts (·.path = mntSd) s₁ s₂ := by
    refine command_unmounts (fun a b hab => ?_) h₂
    cases hab
    exact .refl _ _
  have hpivot : Unmounts (·.path = mntSd) s₂ s₃ := by
    refine command_unmounts (fun a b hab => ?_) h₃
    unfold pivotRoot at hab
    split at hab
    · cases hab
      exact unmounts_note (by simp) rfl
    · cases hab
  have hmount : ∀ m a b, mount m a = some b → Unmounts (·.path = mntSd) a b := by
    intro m a b hab
    cases hab
    exact unmounts_note (by simp) rfl
  exact (((hbind.trans hcd).trans hpivot).trans (command_unmounts (hmount _) h₄)).trans
    (command_unmounts (hmount _) h₅)

lemma dropRoot_ok (h : dropRoot env s = .ok s') : ∃ m : Mount, m.path = oldroot ∧ m.ro = true ∧
    s'.log = s.log ++ [.remounted m, .unmounted m] := by
  obtain ⟨s₁, h₁, h₂⟩ := bind_ok h
  obtain ⟨m, hm, rfl⟩ := Option.map_eq_some_iff.mp (command_ok h₁)
  obtain ⟨m', -, hpath, hfind, -, hlog⟩ := umount_ok h₂
  have he : m' = { m with ro := true } := by
    have hnewest : s.table.find? (·.path = oldroot) = some m := hm
    have hset : (setRo oldroot s.table).find? (·.path = oldroot) = some m' := hfind
    rw [find?_setRo, hnewest] at hset
    exact (Option.some.inj hset).symm
  refine ⟨m', hpath, by rw [he], ?_⟩
  rw [hlog, he]
  exact List.append_assoc _ _ _

lemma dropLoop_unmounts (h : dropLoop env s = .ok s') : Unmounts P s s' := by
  unfold dropLoop at h
  split at h
  · refine command_unmounts (fun a b hab => ?_) h
    unfold losetupD at hab
    split at hab
    · cases hab
      exact unmounts_note (by simp) rfl
    · cases hab
  · cases h
    exact .refl _ _

/-! ### The lines of the table -/

lemma column2_line (m : Mount) : column2 m.line = m.point := by
  have hsource := List.splitOnP_append_cons_of_forall_mem m.source_word ' ' rfl
    (m.point ++ ' ' :: (m.kind ++ ' ' :: (m.flag ++ m.options)))
  have hpoint := List.splitOnP_append_cons_of_forall_mem
    (fun x (hx : x ∈ m.point) => Escapes.blank_of_mem_mangle hx) ' ' rfl
    (m.kind ++ ' ' :: (m.flag ++ m.options))
  have hne : m.point ≠ [] := Escapes.mangle_ne_nil m.path_ne
  unfold column2 Shell.words Mount.line
  rw [hsource, hpoint, List.filter_cons_of_pos (by simpa using m.source_ne),
    List.filter_cons_of_pos (by simpa using hne)]
  rfl

lemma mounted_iff : mounted t w = true ↔ ∃ m ∈ t, m.point = Escapes.unescape w := by
  simp [mounted, listing, column2_line]

lemma points_eq (t : Table) : points t = (t.map Mount.point).filter oldrootSlash.isPrefixOf := by
  have hcolumn : (listing t).map column2 = (t.map Mount.point).reverse := by
    rw [listing, List.map_map, List.map_reverse]
    congr 1
    exact List.map_congr_left fun m _ => column2_line m
  rw [points, hcolumn, List.filter_reverse, List.reverse_reverse]

lemma mangle_oldrootSlash : Escapes.mangle oldrootSlash = oldrootSlash := by decide +kernel

/-- A mount below the old root is listed. -/
lemma point_mem_points (hm : m ∈ t) (hp : oldrootSlash <+: m.path) : m.point ∈ points t := by
  obtain ⟨r, hr⟩ := hp
  rw [points_eq, List.mem_filter]
  refine ⟨List.mem_map_of_mem hm, ?_⟩
  rw [List.isPrefixOf_iff_prefix]
  refine ⟨Escapes.mangle r, ?_⟩
  rw [Mount.point, ← hr, Escapes.mangle_append, mangle_oldrootSlash]

/-- Every word of the loop is a path below the old root. -/
lemma prefix_of_mem_listed (h : w ∈ listed env t) : oldrootSlash <+: w := by
  obtain ⟨p, hp, hw⟩ := List.mem_flatMap.mp h
  have hbelow : oldrootSlash <+: p := by
    rw [points_eq, List.mem_filter] at hp
    exact List.isPrefixOf_iff_prefix.mp hp.2
  unfold pathnames at hw
  split at hw
  · cases hg : env.glob p with
    | nil =>
      rw [hg, Shell.expand, List.mem_singleton] at hw
      rw [hw]
      exact hbelow
    | cons y l =>
      rw [hg] at hw
      exact env.glob_below p hbelow w (by rw [hg]; exact hw)
  · rw [List.mem_singleton.mp hw]
    exact hbelow

/-! ### The loop -/

/-- A failed command leaves the table and the log as they were. -/
lemma command_error {why why' : Text} {act : St → Option St}
    (h : command env why act s = .error (why', s')) : s' = s.tick := by
  unfold command at h
  split at h
  · cases h
  · injection h with h
    injection h with _ h
    exact h.symm

lemma peel_cons {ws : List Text} : peel env (w :: ws) s =
    if mounted s.table w then
      command env ("cannot unmount ".toList ++ w) (umount w) s >>= peel env ws
    else peel env ws s := rfl

lemma peel_unmounts (env : Env) (ws : List Text) (s : St) :
    Unmounts (fun x => x ∈ s.table ∧ x.path ∈ ws) s (ended (peel env ws s)) := by
  induction ws generalizing s with
  | nil => exact .refl _ _
  | cons w ws ih =>
    rw [peel_cons]
    split_ifs
    · cases hc : command env ("cannot unmount ".toList ++ w) (umount w) s with
      | error e =>
        obtain ⟨why, s₁⟩ := e
        refine ⟨[], ?_, by simp⟩
        rw [List.append_nil, command_error hc]
        rfl
      | ok s₁ =>
        obtain ⟨-, -, -, -, htable, -⟩ := umount_ok hc
        have hone : Unmounts (fun x => x ∈ s.table ∧ x.path ∈ w :: ws) s s₁ :=
          (umount_unmounts hc).mono fun x hx => ⟨hx.1, by simp [hx.2]⟩
        have hrest : Unmounts (fun x => x ∈ s.table ∧ x.path ∈ w :: ws) s₁
            (ended (peel env ws s₁)) := by
          refine (ih s₁).mono fun x hx => ⟨?_, List.mem_cons_of_mem _ hx.2⟩
          exact List.mem_of_mem_eraseP (htable ▸ hx.1)
        exact hone.trans hrest
    · exact (ih s).mono fun x hx => ⟨hx.1, List.mem_cons_of_mem _ hx.2⟩

/-- For every mount below the old root that is left, the loop has a word left. -/
def Enough (ws : List Text) (t : Table) : Prop :=
  ∀ m ∈ t, oldrootSlash <+: m.path → t.countP (·.path = m.path) ≤ ws.count m.path

lemma Plain.of_subset {t' : Table} (h : Plain env t) (hsub : ∀ m ∈ t', m ∈ t) : Plain env t' :=
  fun m hm => h m (hsub m hm)

/-- A point without an escape is the path. -/
lemma point_eq_path (h : '\\' ∉ m.point) : m.point = m.path :=
  Escapes.mangle_eq_self h

lemma mounted_of_plain (hm : m ∈ t) (h : '\\' ∉ m.point) : mounted t m.path = true := by
  refine mounted_iff.mpr ⟨m, hm, ?_⟩
  rw [← point_eq_path h, Escapes.unescape_eq_self h]

lemma countP_eraseP_lt (hm : m ∈ t) : (t.eraseP (·.path = m.path)).countP (·.path = m.path) <
    t.countP (·.path = m.path) := by
  obtain ⟨a, l₁, l₂, -, ha, ht, he⟩ :=
    List.exists_of_eraseP (p := (·.path = m.path)) hm (by simp)
  rw [he, ht, List.countP_append, List.countP_append, List.countP_cons_of_pos (by simpa using ha)]
  omega

/-- One word of the loop is used up by one mount at most. -/
lemma Enough.umount {ws : List Text} (h : Enough (w :: ws) t) :
    Enough ws (t.eraseP (·.path = w)) := by
  intro m hm hp
  have hmem : m ∈ t := List.mem_of_mem_eraseP hm
  have hcount := h m hmem hp
  by_cases hw : m.path = w
  · rw [← hw, List.count_cons_self] at hcount
    rw [← hw]
    have := countP_eraseP_lt hmem
    omega
  · rw [List.count_cons_of_ne (Ne.symm hw)] at hcount
    exact (List.eraseP_sublist.countP_le).trans hcount

theorem peel_clear {ws : List Text} (hplain : Plain env s.table) (henough : Enough ws s.table)
    (h : peel env ws s = .ok s') : ∀ m ∈ s'.table, ¬ oldrootSlash <+: m.path := by
  induction ws generalizing s with
  | nil =>
    obtain rfl : s = s' := Except.ok.inj h
    intro m hm hp
    have hpos : 0 < s.table.countP (·.path = m.path) :=
      List.countP_pos_iff.mpr ⟨m, hm, by simp⟩
    have hzero := henough m hm hp
    rw [List.count_nil] at hzero
    omega
  | cons w ws ih =>
    rw [peel_cons] at h
    split_ifs at h with hmounted
    · obtain ⟨s₁, hc, h⟩ := bind_ok h
      obtain ⟨-, -, -, -, htable, -⟩ := umount_ok hc
      refine ih (hplain.of_subset fun m hm => ?_) ?_ h
      · exact List.mem_of_mem_eraseP (htable ▸ hm)
      · rw [htable]
        exact henough.umount
    · -- a word that is not mounted stands for no mount of the table
      refine ih hplain (fun m hm hp => ?_) h
      have hne : w ≠ m.path := by
        rintro rfl
        exact hmounted (mounted_of_plain hm (hplain m hm hp).1)
      have hcount := henough m hm hp
      rwa [List.count_cons_of_ne hne] at hcount

lemma count_le_flatMap {f : Text → List Text} (h : w ∈ f w) (l : List Text) :
    l.count w ≤ (l.flatMap f).count w := by
  induction l with
  | nil => exact le_rfl
  | cons y l ih =>
    rw [List.flatMap_cons, List.count_append]
    by_cases hy : y = w
    · have hpos : 0 < (f w).count w := List.count_pos_iff.mpr h
      rw [hy, List.count_cons_self]
      omega
    · rw [List.count_cons_of_ne hy]
      omega

/-- The listing has a point as often as something is mounted there. -/
lemma enough_listed (h : Plain env t) : Enough (listed env t) t := by
  intro m hm hp
  obtain ⟨hslash, hself⟩ := h m hm hp
  have hpath := point_eq_path hslash
  rw [hpath] at hself
  have hpoints : t.countP (·.path = m.path) ≤ (points t).count m.path := by
    rw [points_eq, List.count_filter (List.isPrefixOf_iff_prefix.mpr hp), List.count,
      List.countP_map]
    refine List.countP_mono_left fun x hx hxp => ?_
    have hxpath : x.path = m.path := by simpa using hxp
    have : x.point = m.path := by rw [← hpath, Mount.point, hxpath, Mount.point]
    simp [this]
  exact hpoints.trans (count_le_flatMap hself _)

/-- What is mounted can be unmounted, if no command fails. -/
lemma umount_runs (hok : ∀ n, env.ok n = true) (hm : m ∈ s.table) (why : Text) :
    ∃ s', command env why (umount m.path) s = .ok s' := by
  obtain ⟨x, hx⟩ : ∃ x, s.tick.table.find? (·.path = m.path) = some x := by
    rw [← Option.isSome_iff_exists, List.find?_isSome]
    exact ⟨m, hm, by simp⟩
  unfold command umount
  rw [if_pos (hok _), hx]
  exact ⟨_, rfl⟩

/-- **Progress.** If no command fails and no word has an escape, the loop comes to its end. -/
theorem peel_runs {ws : List Text} (hok : ∀ n, env.ok n = true) (hws : ∀ w ∈ ws, '\\' ∉ w) :
    ∃ s', peel env ws s = .ok s' := by
  induction ws generalizing s with
  | nil => exact ⟨s, rfl⟩
  | cons w ws ih =>
    have hrest := fun s => ih (s := s) fun w hw => hws w (by simp [hw])
    rw [peel_cons]
    split_ifs with hmounted
    · obtain ⟨m, hm, he⟩ := mounted_iff.mp hmounted
      have hw := hws w (by simp)
      rw [Escapes.unescape_eq_self hw] at he
      have hpath : m.path = w := by
        rw [← he, point_eq_path (by rw [he]; exact hw)]
      obtain ⟨s₁, hc⟩ := umount_runs hok hm ("cannot unmount ".toList ++ w)
      rw [hpath] at hc
      rw [hc]
      exact hrest s₁
    · exact hrest s

/-! ### The last checks -/

lemma confirm_ok {u : Unit} (h : confirm env s = .ok u) :
    (∀ m ∈ s.table, stillMounted m.line = false) ∧ ¬(loop env ≠ [] ∧ loop env ∈ s.attached) := by
  unfold confirm at h
  split_ifs at h with hmounted hloop
  refine ⟨fun m hm => ?_, hloop⟩
  by_contra hne
  refine hmounted (List.any_eq_true.mpr ⟨m.line, ?_, by simpa using hne⟩)
  exact List.mem_map_of_mem (List.mem_reverse.mpr hm)

/-- A point as `grep` looks for it. -/
lemma infix_line {a r : Text} (h : m.point ++ [' '] = a ++ r) : ' ' :: a <:+: m.line := by
  refine ⟨m.source, r ++ (m.kind ++ ' ' :: (m.flag ++ m.options)), ?_⟩
  have : m.line = m.source ++ ' ' :: ((m.point ++ [' ']) ++
      (m.kind ++ ' ' :: (m.flag ++ m.options))) := by
    simp [Mount.line]
  rw [this, h]
  simp

lemma mem_texts : ∀ p ∈ [oldroot, sd],
    ' ' :: (p ++ [' ']) ∈ texts ∧ ' ' :: (p ++ ['/']) ∈ texts := by
  decide +kernel

lemma mangle_texts : ∀ p ∈ [oldroot, sd], Escapes.mangle p = p := by decide +kernel

lemma clear_of_not_stillMounted (hp : p ∈ [oldroot, sd]) (h : stillMounted m.line = false) :
    m.path ≠ p ∧ ¬ p ++ ['/'] <+: m.path := by
  have hnone : ∀ a r, ' ' :: a ∈ texts → m.point ++ [' '] ≠ a ++ r := by
    intro a r ha he
    have : stillMounted m.line = true :=
      List.any_eq_true.mpr ⟨_, ha, decide_eq_true (infix_line he)⟩
    rw [this] at h
    cases h
  obtain ⟨hat, hbelow⟩ := mem_texts p hp
  constructor
  · intro he
    refine hnone _ [] hat ?_
    rw [Mount.point, he, mangle_texts p hp, List.append_nil]
  · rintro ⟨r, hr⟩
    refine hnone _ (Escapes.mangle r ++ [' ']) hbelow ?_
    rw [Mount.point, ← hr, Escapes.mangle_append, Escapes.mangle_append, mangle_texts p hp,
      List.append_assoc]
    rfl

/-! ### Whole runs -/

theorem shutdown_ok {act : Action} (hlog : s.log = []) (h : shutdown env s = .ok (act, s')) :
    Clean env s' := by
  unfold shutdown at h
  split at h
  · cases h
  obtain ⟨_, -, h⟩ := bind_ok h
  obtain ⟨s₁, henter, h⟩ := bind_ok h
  obtain ⟨s₂, hpeel, h⟩ := bind_ok h
  obtain ⟨s₃, hroot, h⟩ := bind_ok h
  obtain ⟨s₄, hloop, h⟩ := bind_ok h
  obtain ⟨s₅, hsd, h⟩ := bind_ok h
  obtain ⟨_, hconfirm, h⟩ := bind_ok h
  obtain rfl : s₅ = s' := congrArg Prod.snd (Except.ok.inj h)
  obtain ⟨hclear, hdetached⟩ := confirm_ok hconfirm
  have hbefore : Unmounts (fun x => x.path = mntSd ∨ oldrootSlash <+: x.path) s s₂ := by
    have hlisted := peel_unmounts env (listed env s₁.table) s₁
    rw [hpeel] at hlisted
    exact ((enter_unmounts henter).mono fun x hx => .inl hx).trans
      (hlisted.mono fun x hx => .inr (prefix_of_mem_listed hx.2))
  have hafter : Unmounts (·.path = sd) s₃ s₅ :=
    (dropLoop_unmounts hloop).trans ((umount_unmounts hsd).mono fun x hx => hx.2)
  obtain ⟨before, hlog₂, hbefore⟩ := hbefore
  obtain ⟨m, hpath, hro, hlog₃⟩ := dropRoot_ok hroot
  obtain ⟨after, hlog₅, hafter⟩ := hafter
  rw [hlog, List.nil_append] at hlog₂
  refine ⟨fun m hm p hp => clear_of_not_stillMounted hp (hclear m hm), ?_, ?_⟩
  · exact ⟨before, m, after, by rw [hlog₅, hlog₃, hlog₂], hpath, hro, hbefore, hafter⟩
  · exact fun hne hmem => hdetached ⟨hne, hmem⟩

end

/-- **Shutdown.** The last command is executed over a clean state only. The loop unmounts nothing
that it did not list, and where every point is plain it leaves nothing below the old root. -/
theorem shutdown_clean (env : Env) (t : Table) (attached : List Text) :
    (∀ act s, shutdown env { table := t, attached := attached } = .ok (act, s) → Clean env s) ∧
    ∀ s, enter env { table := t, attached := attached } = .ok s →
      Unmounts (fun m => m ∈ s.table ∧ m.point ∈ points s.table) s
        (ended (peel env (listed env s.table) s)) ∧
      (Plain env s.table →
        (∀ s', peel env (listed env s.table) s = .ok s' →
          ∀ m ∈ s'.table, ¬ oldrootSlash <+: m.path) ∧
        ((∀ n, env.ok n = true) → (∀ w ∈ listed env s.table, '\\' ∉ w) →
          ∃ s', peel env (listed env s.table) s = .ok s')) := by
  refine ⟨fun act s h => shutdown_ok rfl h, fun s _ => ⟨?_, fun hplain => ⟨?_, ?_⟩⟩⟩
  · refine (peel_unmounts env _ s).mono fun m hm => ⟨hm.1, ?_⟩
    exact point_mem_points hm.1 (prefix_of_mem_listed hm.2)
  · exact fun s' h => peel_clear hplain (enough_listed hplain) h
  · exact fun hok hws => peel_runs hok hws

/-- Every command succeeds. -/
def willing : Env where
  isPid1 := true
  action := some "poweroff\n".toList
  loopdev := some "/dev/loop0\n".toList
  isBlock dev := dev = "/dev/loop0".toList
  glob _ := []
  glob_below := by simp
  ok _ := true
  lingers := false

def tmpfsAt (p : Text) (h : p ≠ []) : Mount where
  source := "tmpfs".toList
  path := p
  kind := "tmpfs".toList
  ro := false
  source_ne := by decide
  source_word := by simp [Shell.blank]
  path_ne := h

/-- The mounts that `/init` leaves, with two file systems on one point. -/
def stackedTable : Table :=
  [tmpfsAt "/dev/shm".toList (by simp), tmpfsAt "/dev/shm".toList (by simp),
    tmpfsAt "/dev".toList (by simp), tmpfsAt "/mnt/sd".toList (by simp),
    tmpfsAt "/".toList (by simp), tmpfsAt "/run/initramfs/sd".toList (by simp),
    tmpfsAt "/run/initramfs".toList (by simp)]

def stacked : St := { table := stackedTable, attached := ["/dev/loop0".toList] }

instance (env : Env) (t : Table) : Decidable (Plain env t) :=
  inferInstanceAs (Decidable (∀ m ∈ t, _))

theorem stacked_shut_down :
    (∃ s, shutdown willing stacked = .ok (.poweroff, s) ∧ Clean willing s) ∧
    ∃ s s', enter willing stacked = .ok s ∧ (points s.table).length = 3 ∧
      peel willing (listed willing s.table) s = .ok s' ∧
      ∀ m ∈ s'.table, ¬ oldrootSlash <+: m.path := by
  obtain ⟨hclean, hloop⟩ := shutdown_clean willing stackedTable ["/dev/loop0".toList]
  constructor
  · have hrun : (shutdown willing stacked).toOption.any (fun r : Action × St =>
        r.1 = .poweroff) = true := by
      decide +kernel
    obtain ⟨⟨act, s⟩, h, hact⟩ := exists_ok_of_any hrun
    obtain rfl : act = .poweroff := of_decide_eq_true hact
    exact ⟨s, h, hclean _ s h⟩
  · have hrun : (enter willing stacked).toOption.any (fun s : St =>
        decide (Plain willing s.table ∧ (points s.table).length = 3 ∧
          ∀ w ∈ listed willing s.table, '\\' ∉ w)) = true := by
      decide +kernel
    obtain ⟨s, h, htest⟩ := exists_ok_of_any hrun
    obtain ⟨hplain, hlength, hws⟩ := of_decide_eq_true htest
    obtain ⟨-, hloop⟩ := hloop s h
    obtain ⟨hleft, hends⟩ := hloop hplain
    obtain ⟨s', hs'⟩ := hends (fun _ => rfl) hws
    exact ⟨s, s', h, hlength, hs', hleft s' hs'⟩

/-- A point with a blank, which `/proc/mounts` spells `/oldroot/media/my\040disk`. -/
def blankTable : Table := tmpfsAt "/media/my disk".toList (by simp) :: stackedTable

def blank : St := { table := blankTable, attached := ["/dev/loop0".toList] }

/-- No command fails, the loop comes to its end, and the mount is still there. -/
theorem blank_not_peeled : (∀ n, willing.ok n = true) ∧
    ∃ s s', enter willing blank = .ok s ∧ peel willing (listed willing s.table) s = .ok s' ∧
      ∃ m ∈ s'.table, oldrootSlash <+: m.path := by
  refine ⟨fun _ => rfl, ?_⟩
  have hrun : (enter willing blank >>= fun s =>
      peel willing (listed willing s.table) s).toOption.any (fun s' : St =>
        s'.table.any fun m => oldrootSlash.isPrefixOf m.path) = true := by
    decide +kernel
  obtain ⟨s', h, hleft⟩ := exists_ok_of_any hrun
  obtain ⟨s, hs, hs'⟩ := bind_ok h
  obtain ⟨m, hm, hp⟩ := List.any_eq_true.mp hleft
  exact ⟨s, s', hs, hs', m, hm, List.isPrefixOf_iff_prefix.mp hp⟩

end Wallace.ShutdownClean
