import Wallace.UsbRootIdentity

/-!
The selector chooses the pinned stick, and only if it is the only one.

A candidate is said here without the loops of the script: the USB device of a disk is the
longest of its ancestors with an `idVendor`, and the partition is a direct child of the disk.
The order in which the disks are enumerated shows only in the message of a refusal.
-/

namespace Wallace.UsbRootUnique

open Shell Scan UsbRootModel UsbRootIdentity
open Script (Text)
open InitModel (field)

variable {x : Ctx} {name dn pn path : Text}

/-! ### The USB device of a disk -/

/-- The path itself, or a directory above it. -/
def IsAncestor (dev path : Text) : Prop := dev = path ∨ dev ++ ['/'] <+: path

/-- The ancestor of the path, below `$sys/devices`, that has an `idVendor` and is nearest. -/
structure Nearest (x : Ctx) (path dev : Text) : Prop where
  ancestor : IsAncestor dev path
  below : x.devices ++ ['/'] <+: dev
  vendor : x.env.kind (sub dev "idVendor") = some .regular
  nearest : ∀ d, IsAncestor d path → x.devices ++ ['/'] <+: d →
    x.env.kind (sub d "idVendor") = some .regular → d.length ≤ dev.length

lemma IsAncestor.length_le {d : Text} (h : IsAncestor d path) : d.length ≤ path.length := by
  rcases h with rfl | h
  · exact Nat.le_refl _
  · have := h.length_le
    rw [List.length_append] at this
    omega

lemma isAncestor_iff {d : Text} (h : '/' ∈ path) :
    IsAncestor d path ↔ d = path ∨ IsAncestor d (cutLast '/' path) := by
  unfold IsAncestor
  rw [append_isPrefix_iff h]

/-- A path with an `idVendor` of its own. -/
lemma nearest_self (hbelow : x.devices ++ ['/'] <+: path)
    (hv : x.env.kind (sub path "idVendor") = some .regular) {dev : Text} :
    Nearest x path dev ↔ dev = path := by
  constructor
  · intro h
    have hle := h.nearest path (.inl rfl) hbelow hv
    rcases h.ancestor with rfl | hp
    · rfl
    · have := hp.length_le
      rw [List.length_append, List.length_singleton] at this
      omega
  · rintro rfl
    exact ⟨.inl rfl, hbelow, hv, fun d hd _ _ => hd.length_le⟩

/-- A path without one: the nearest is that of the parent. -/
lemma nearest_parent (hslash : '/' ∈ path)
    (hv : x.env.kind (sub path "idVendor") ≠ some .regular) {dev : Text} :
    Nearest x path dev ↔ Nearest x (cutLast '/' path) dev := by
  have hanc {d : Text} (hd : x.env.kind (sub d "idVendor") = some .regular) :
      IsAncestor d path ↔ IsAncestor d (cutLast '/' path) := by
    rw [isAncestor_iff hslash]
    refine or_iff_right ?_
    rintro rfl
    exact hv hd
  constructor
  · intro h
    refine ⟨(hanc h.vendor).mp h.ancestor, h.below, h.vendor, ?_⟩
    exact fun d hd hb hdv => h.nearest d ((hanc hdv).mpr hd) hb hdv
  · intro h
    refine ⟨(hanc h.vendor).mpr h.ancestor, h.below, h.vendor, ?_⟩
    exact fun d hd hb hdv => h.nearest d ((hanc hdv).mp hd) hb hdv

lemma not_nearest_devices {dev : Text} : ¬Nearest x x.devices dev := by
  intro h
  have h1 := h.ancestor.length_le
  have h2 := h.below.length_le
  rw [List.length_append, List.length_singleton] at h2
  omega

lemma climb_devices (x : Ctx) (fuel : ℕ) : x.climb fuel x.devices = false := by
  cases fuel with
  | zero => rfl
  | succ fuel =>
    rw [Ctx.climb]
    exact if_neg (by simp)

/-- **The loop over the ancestors** comes to the nearest one, below `$sys/devices`. -/
theorem climb_iff {fuel : ℕ} (hbelow : x.devices ++ ['/'] <+: path)
    (hfuel : path.length ≤ fuel + x.devices.length) :
    x.climb fuel path = true ↔ ∃ dev, Nearest x path dev ∧ x.pinned dev = true := by
  have hlen := hbelow.length_le
  rw [List.length_append, List.length_singleton] at hlen
  induction fuel generalizing path with
  | zero => omega
  | succ fuel ih =>
    have hmem : '/' ∈ path := hbelow.subset (by simp)
    have hne : path ≠ x.devices := by
      rintro rfl
      omega
    have hroot : path ≠ ['/'] := by
      rintro rfl
      have hdev : x.devices.length = x.sys.length + 8 := by
        simp [Ctx.devices, sub]
      rw [List.length_singleton] at hlen
      omega
    rw [Ctx.climb, if_pos ⟨hne, hroot⟩]
    split_ifs with hv
    · simp only [nearest_self hbelow hv, exists_eq_left]
    · simp only [nearest_parent hmem hv]
      obtain ⟨s, -, hs⟩ := eq_cutLast_append hmem
      have hcut := congrArg List.length hs
      rw [List.length_append, List.length_cons] at hcut
      rcases (append_isPrefix_iff hmem).mp hbelow with heq | hprefix
      · rw [← heq, climb_devices]
        simp [not_nearest_devices]
      · have hlen' := hprefix.length_le
        rw [List.length_append, List.length_singleton] at hlen'
        exact ih hprefix (by omega) hlen'

/-! ### Candidates -/

/-- The disk passes the gates of the loop, with its path and the two device numbers. -/
structure Passes (x : Ctx) (name path dn pn : Text) : Prop where
  present : (x.env.kind (x.entry name)).isSome = true
  diskName : grep isDiskName name = true
  whole : x.env.kind (sub (x.entry name) "partition") = none
  resolves : x.env.readlink (x.entry name) = some path
  controller : ∃ a b, path = x.devices ++ '/' :: a ++ '/' :: controller ++ '/' :: b
  removable : x.env.text (sub (x.entry name) "removable") = ['1']
  sectors : x.env.cat (sub (x.entry name) "size") =
    some (decimal (number (x.id .mediaBytes) / 512))
  usb : ∃ dev, Nearest x path dev ∧ x.pinned dev = true
  child : ∃ base, '/' ∉ base ∧ x.env.readlink (x.entry (part name)) = some (path ++ '/' :: base)
  first : x.env.text (sub (x.entry (part name)) "partition") = ['1']
  diskNode : x.env.kind (x.node name) = some x.mode.kind
  partNode : x.env.kind (x.node (part name)) = some x.mode.kind
  diskLink : x.env.symlink (x.node name) = false
  partLink : x.env.symlink (x.node (part name)) = false
  diskNumber : x.env.cat (sub (x.entry name) "dev") = some dn
  partNumber : x.env.cat (sub (x.entry (part name)) "dev") = some pn

/-- An entry `sd*` that passes the gates. -/
def Candidate (x : Ctx) (name : Text) : Prop :=
  name ∈ x.env.list x.classBlock ∧ "sd".toList <+: name ∧ ∃ path dn pn, Passes x name path dn pn

lemma onController_iff :
    x.onController path = true ↔
      ∃ a b, path = x.devices ++ '/' :: a ++ '/' :: controller ++ '/' :: b := by
  unfold Ctx.onController
  rw [decide_eq_true_eq]
  constructor
  · rintro ⟨⟨r, rfl⟩, a, b, hab⟩
    rw [List.drop_left] at hab
    exact ⟨a, b, by simp [← hab]⟩
  · rintro ⟨a, b, rfl⟩
    have heq : x.devices ++ '/' :: a ++ '/' :: controller ++ '/' :: b =
        (x.devices ++ ['/']) ++ (a ++ ('/' :: controller ++ ['/']) ++ b) := by simp
    rw [heq]
    refine ⟨List.prefix_append _ _, ?_⟩
    rw [List.drop_left]
    exact ⟨a, b, rfl⟩

lemma below_of_controller
    (h : ∃ a b, path = x.devices ++ '/' :: a ++ '/' :: controller ++ '/' :: b) :
    x.devices ++ ['/'] <+: path := by
  obtain ⟨a, b, rfl⟩ := h
  exact ⟨a ++ '/' :: controller ++ '/' :: b, by simp⟩

lemma guard_eq_some {c : Prop} [Decidable c] {u : Unit} : (guard c : Option Unit) = some u ↔ c := by
  by_cases h : c <;> simp [guard, h]

/-- **The gates** let through exactly the disks described. -/
theorem gates_eq_some_iff : x.gates name = some (dn, pn) ↔ ∃ path, Passes x name path dn pn := by
  unfold Ctx.gates
  simp only [Option.bind_eq_bind, Option.bind_eq_some_iff, guard_eq_some, exists_const]
  constructor
  · rintro ⟨h1, h2, h3, path, h4, h5, h6, sectors, h7, rfl, h9, partition, h10, ⟨h11, h12⟩,
      ⟨h13, h14⟩, ⟨h15, h16⟩, dn', h17, pn', h18, heq⟩
    cases heq
    have hcontroller := onController_iff.mp h5
    have hbelow := below_of_controller hcontroller
    obtain ⟨base, hbase, rfl⟩ := (cutLast_eq_iff (hbelow.subset (by simp))).mp h11
    exact ⟨path, h1, h2, h3, h4, hcontroller, h6, h7,
      (climb_iff hbelow (Nat.le_add_right _ _)).mp h9, ⟨base, hbase, h10⟩, h12, h13, h14, h15, h16,
      h17, h18⟩
  · rintro ⟨path, h⟩
    have hbelow := below_of_controller h.controller
    obtain ⟨base, hbase, hpart⟩ := h.child
    exact ⟨h.present, h.diskName, h.whole, path, h.resolves, onController_iff.mpr h.controller,
      h.removable, _, h.sectors, rfl, (climb_iff hbelow (Nat.le_add_right _ _)).mpr h.usb, _, hpart,
      ⟨cutLast_append hbase, h.first⟩, ⟨h.diskNode, h.partNode⟩, ⟨h.diskLink, h.partLink⟩, dn,
      h.diskNumber, pn, h.partNumber, rfl⟩

lemma Passes.numbers_eq {path' dn' pn' : Text} (h : Passes x name path dn pn)
    (h' : Passes x name path' dn' pn') : dn = dn' ∧ pn = pn' := by
  have heq := (gates_eq_some_iff.mpr ⟨_, h⟩).symm.trans (gates_eq_some_iff.mpr ⟨_, h'⟩)
  cases heq
  exact ⟨rfl, rfl⟩

/-! ### The loop -/

/-- A mount of the device is listed. -/
def Mounted (x : Ctx) (number : Text) : Prop :=
  ∃ t, x.env.read x.mountinfo = some t ∧ ∃ line ∈ lines t, third line = number

/-- The device numbers are well formed, mountinfo can be read, and neither is mounted. -/
structure Usable (x : Ctx) (dn pn : Text) : Prop where
  diskNumber : grep isDevNumber dn = true
  partNumber : grep isDevNumber pn = true
  mountinfo : (x.env.read x.mountinfo).isSome = true
  disk : ¬Mounted x dn
  partition : ¬Mounted x pn

lemma mountedRc_eq_one_iff :
    mountedRc (x.env.read x.mountinfo) dn pn = 1 ↔
      (x.env.read x.mountinfo).isSome = true ∧ ¬Mounted x dn ∧ ¬Mounted x pn := by
  unfold Mounted
  cases x.env.read x.mountinfo with
  | none => simp [mountedRc]
  | some t =>
    simp only [mountedRc, Option.isSome_some, true_and, Option.some.injEq, exists_eq_left']
    split_ifs with h
    · simp only [List.any_eq_true, decide_eq_true_eq] at h
      obtain ⟨line, hl, h | h⟩ := h
      · simp only [false_iff, not_and]
        exact fun hd => absurd ⟨line, hl, h⟩ hd
      · simp only [false_iff, not_and]
        exact fun _ hp => hp ⟨line, hl, h⟩
    · simp only [List.any_eq_true, decide_eq_true_eq, not_exists, not_and, not_or] at h
      simp only [true_iff]
      constructor
      · rintro ⟨line, hl, he⟩
        exact (h line hl).1 he
      · rintro ⟨line, hl, he⟩
        exact (h line hl).2 he

/-- **The body of the loop.** -/
lemma examine_cases (x : Ctx) (name : Text) :
    x.examine name = .skip ∧ (¬∃ path dn pn, Passes x name path dn pn) ∨
    ∃ path dn pn, Passes x name path dn pn ∧
      (Usable x dn pn ∧ x.examine name = .found ⟨name, dn, pn⟩ ∨
        ¬Usable x dn pn ∧ ∃ why, x.examine name = .stop ⟨1, why⟩) := by
  unfold Ctx.examine
  cases hg : x.gates name with
  | none =>
    refine .inl ⟨rfl, ?_⟩
    rintro ⟨path, dn, pn, h⟩
    rw [gates_eq_some_iff.mpr ⟨path, h⟩] at hg
    cases hg
  | some nums =>
    obtain ⟨dn, pn⟩ := nums
    obtain ⟨path, h⟩ := gates_eq_some_iff.mp hg
    refine .inr ⟨path, dn, pn, h, ?_⟩
    simp only
    split_ifs with hnum
    · by_cases hrc : mountedRc (x.env.read x.mountinfo) dn pn = 1
      · obtain ⟨hread, hdisk, hpart⟩ := mountedRc_eq_one_iff.mp hrc
        rw [hrc]
        exact .inl ⟨⟨hnum.1, hnum.2, hread, hdisk, hpart⟩, rfl⟩
      · refine .inr ⟨fun u => hrc (mountedRc_eq_one_iff.mpr ⟨u.mountinfo, u.disk, u.partition⟩), ?_⟩
        split
        · exact ⟨_, rfl⟩
        · rename_i heq
          exact absurd heq hrc
        · exact ⟨_, rfl⟩
    · exact .inr ⟨fun u => hnum ⟨u.diskNumber, u.partNumber⟩, _, rfl⟩

/-! ### The selected stick -/

/-- The node of the partition has the number of sysfs, the helper accepts the disk, and the
kernel sees the extent that the helper has found. -/
structure Verified (x : Ctx) (s : Stick) (r : Report) : Prop where
  node : x.mode = .disk → ∃ major minor, x.env.stat (x.node (part s.name)) = some (major, minor) ∧
    decimal major.toNat ++ ':' :: decimal minor.toNat = s.pn
  accepted : x.env.metadata x.metadata (x.helperArgs s) = some r
  first : r.first = 2048
  start : x.env.text (sub (x.entry (part s.name)) "start") = decimal r.first
  size : x.env.text (sub (x.entry (part s.name)) "size") = decimal (r.last - r.first + 1)

/-- The output: the report, and the line with the device. -/
def printed (x : Ctx) (s : Stick) (r : Report) : Text :=
  report x.id r ++ "\nusb_root_device=".toList ++ x.node (part s.name) ++ ['\n']

lemma not_mem_hex {n : ℕ} : ':' ∉ hex n := by
  intro h
  obtain ⟨d, hd, hc⟩ := mem_hex h
  have hall : ∀ d < 16, ':' ≠ d.digitChar := by decide
  exact hall d hd hc

lemma lowerHex_of_mem_hex {n : ℕ} {c : Char} (h : c ∈ hex n) : lowerHex c = true := by
  obtain ⟨d, hd, rfl⟩ := mem_hex h
  have hall : ∀ d < 16, lowerHex d.digitChar = true := by decide
  exact hall d hd

lemma checkNode_decides (x : Ctx) (s : Stick) :
    Decides (x.mode = .disk → ∃ major minor,
        x.env.stat (x.node (part s.name)) = some (major, minor) ∧
          decimal major.toNat ++ ':' :: decimal minor.toNat = s.pn)
      (x.checkNode s) (.ok ()) := by
  unfold Ctx.checkNode
  cases x.mode with
  | image => exact .inl ⟨nofun, rfl⟩
  | disk =>
    refine Decides.congr (.orExit (Q := fun n : UInt32 × UInt32 =>
      decimal n.1.toNat ++ ':' :: decimal n.2.toNat = s.pn) fun n _ => ?_) ⟨?_, ?_⟩
    · obtain ⟨major, minor⟩ := n
      simp only [cutLast_append not_mem_hex, cutFirst_append not_mem_hex, hexNumber_hex]
      refine Decides.congr (.check _ _ <| .require _ _) ⟨And.right, fun h => ⟨?_, h⟩⟩
      rw [List.all_eq_true]
      intro c hc
      rcases List.mem_append.mp hc with hc | hc
      · rw [lowerHex_of_mem_hex hc, Bool.true_or, Bool.true_or]
      rcases List.mem_cons.mp hc with rfl | hc
      · rfl
      · rw [lowerHex_of_mem_hex hc, Bool.true_or, Bool.true_or]
    · rintro ⟨⟨major, minor⟩, h1, h2⟩ -
      exact ⟨major, minor, h1, h2⟩
    · intro h
      obtain ⟨major, minor, h1, h2⟩ := h rfl
      exact ⟨(major, minor), h1, h2⟩

section Report

variable {id : Identity} {r : Report}

lemma report_lines (hid : ∀ k, '\n' ∉ id k) :
    (report id r).splitOn '\n' =
      ["format=t6040-usb-root-metadata-v1".toList, "partition_number=1".toList,
        "disk_guid=".toList ++ id .diskGuid, "partuuid=".toList ++ id .partuuid,
        "filesystem_uuid=".toList ++ id .fsuuid,
        "partition_first_lba=".toList ++ decimal r.first,
        "partition_last_lba=".toList ++ decimal r.last,
        "media_bytes=".toList ++ decimal r.mediaBytes,
        "layout_bytes=".toList ++ decimal r.layoutBytes,
        "gpt_copies=verified".toList, "filesystem_type=ext4".toList,
        "filesystem_label=t6040root".toList, "ext4_state=clean".toList,
        "metadata_gate=PASS".toList] := by
  have hnum (n : ℕ) : '\n' ∉ decimal n := not_mem_decimal rfl
  refine List.splitOn_intercalate '\n' ?_ (by simp)
  simp only [List.mem_cons, List.not_mem_nil, or_false, forall_eq_or_imp, forall_eq,
    List.mem_append, hid, hnum]
  decide

/-- What is left of a number after a command substitution. -/
lemma rdropWhile_decimal (n : ℕ) : (decimal n).rdropWhile (· = '\n') = decimal n := by
  rw [List.rdropWhile_eq_self_iff]
  intro hne hlast
  have hmem := List.getLast_mem hne
  rw [decide_eq_true_eq.mp hlast] at hmem
  exact not_mem_decimal rfl hmem

lemma field_first (hid : ∀ k, '\n' ∉ id k) :
    field "partition_first_lba=".toList (report id r) = decimal r.first := by
  unfold field
  rw [report_lines hid]
  -- only one line of the report starts with the key
  change (['\n'].intercalate [decimal r.first]).rdropWhile (· = '\n') = decimal r.first
  rw [List.intercalate_singleton, rdropWhile_decimal]

lemma field_last (hid : ∀ k, '\n' ∉ id k) :
    field "partition_last_lba=".toList (report id r) = decimal r.last := by
  unfold field
  rw [report_lines hid]
  -- only one line of the report starts with the key
  change (['\n'].intercalate [decimal r.last]).rdropWhile (· = '\n') = decimal r.last
  rw [List.intercalate_singleton, rdropWhile_decimal]

end Report

lemma decimal_injective {m n : ℕ} (h : decimal m = decimal n) : m = n := by
  rw [← number_decimal m, h, number_decimal]

/-- **The checks of the selected stick.** -/
lemma verify_cases (hid : ∀ k, '\n' ∉ x.id k) (s : Stick) :
    (∃ r, Verified x s r ∧ x.verify s = .ok (printed x s r)) ∨
    (¬∃ r, Verified x s r) ∧ Refuses (x.verify s) := by
  cases hmeta : x.env.metadata x.metadata (x.helperArgs s) with
  | none =>
    refine .inr ⟨?_, ?_⟩
    · rintro ⟨r, h⟩
      rw [h.accepted] at hmeta
      cases hmeta
    · unfold Ctx.verify
      rw [hmeta]
      rcases (checkNode_decides x s).bind _ with ⟨-, h⟩ | ⟨-, h⟩
      · rw [h]
        exact .fail _
      · exact h
  | some r =>
    have hdec : Decides (Verified x s r) (x.verify s) (.ok (printed x s r)) := by
      unfold Ctx.verify
      rw [hmeta]
      simp only [orExit, pure_bind, field_first hid, field_last hid, number_decimal]
      refine Decides.congr ((checkNode_decides x s).bind _ |>.trans <| .check _ _ <|
        .inl ⟨trivial, rfl⟩) ⟨?_, ?_⟩
      · rintro ⟨h1, ⟨h2, h3, h4⟩, -⟩
        exact ⟨h1, hmeta, decimal_injective (h2.trans (by decide)), h3, h4⟩
      · rintro ⟨h1, -, h2, h3, h4⟩
        refine ⟨h1, ⟨?_, h3, h4⟩, trivial⟩
        rw [h2]
        decide
    rcases hdec with ⟨h, he⟩ | ⟨h, hr⟩
    · exact .inl ⟨r, h, he⟩
    · refine .inr ⟨?_, hr⟩
      rintro ⟨r', h'⟩
      have := h'.accepted.symm.trans hmeta
      cases this
      exact h h'

/-! ### The choice -/

lemma sd_star_not_diskName : grep isDiskName "sd*".toList = false := by decide

lemma candidate_iff :
    Candidate x name ↔ name ∈ x.entries ∧ ∃ path dn pn, Passes x name path dn pn := by
  unfold Candidate Ctx.entries
  have hmem : name ∈ (x.env.list x.classBlock).filter ("sd".toList.isPrefixOf ·) ↔
      name ∈ x.env.list x.classBlock ∧ "sd".toList <+: name := by
    rw [List.mem_filter, List.isPrefixOf_iff_prefix]
  rw [← and_assoc, ← hmem]
  cases (x.env.list x.classBlock).filter ("sd".toList.isPrefixOf ·) with
  | nil =>
    simp only [expand, List.not_mem_nil, false_and, List.mem_singleton, false_iff, not_and]
    rintro rfl ⟨path, dn, pn, h⟩
    have := h.diskName
    rw [sd_star_not_diskName] at this
    cases this
  | cons a l => rfl

lemma entries_nodup (x : Ctx) : x.entries.Nodup := by
  have hn := (x.env.list_nodup x.classBlock).filter ("sd".toList.isPrefixOf ·)
  unfold Ctx.entries
  cases hl : (x.env.list x.classBlock).filter ("sd".toList.isPrefixOf ·) with
  | nil => simp [expand]
  | cons a l =>
    rw [hl] at hn
    exact hn

/-- A stick that is found is a candidate. -/
lemma passes_of_found {s : Stick} (h : x.examine name = .found s) :
    s.name = name ∧ (∃ path, Passes x name path s.dn s.pn) ∧ Usable x s.dn s.pn := by
  rcases examine_cases x name with ⟨hskip, -⟩ | ⟨path, dn, pn, hp, ⟨hu, hf⟩ | ⟨-, why, hs⟩⟩
  · cases h.symm.trans hskip
  · cases h.symm.trans hf
    exact ⟨rfl, ⟨path, hp⟩, hu⟩
  · cases h.symm.trans hs

/-- A disk that stops the loop is a candidate that cannot be used. -/
lemma passes_of_stop {e : Stop} (h : x.examine name = .stop e) :
    (∃ path dn pn, Passes x name path dn pn ∧ ¬Usable x dn pn) ∧ ∃ why, e = ⟨1, why⟩ := by
  rcases examine_cases x name with ⟨hskip, -⟩ | ⟨path, dn, pn, hp, ⟨-, hf⟩ | ⟨hu, why, hs⟩⟩
  · cases h.symm.trans hskip
  · cases h.symm.trans hf
  · cases h.symm.trans hs
    exact ⟨⟨path, dn, pn, hp, hu⟩, why, rfl⟩

lemma names_sublist (x : Ctx) (l : List Text) : ((finds x.examine l).map Stick.name).Sublist l := by
  induction l with
  | nil => exact .slnil
  | cons name l ih =>
    cases hf : x.examine name with
    | found s =>
      have hcons : finds x.examine (name :: l) = s :: finds x.examine l := by
        simp [finds, hf, Verdict.found?]
      rw [hcons, List.map_cons, (passes_of_found hf).1]
      exact ih.cons_cons name
    | _ =>
      have hcons : finds x.examine (name :: l) = finds x.examine l := by
        simp [finds, hf, Verdict.found?]
      rw [hcons]
      exact ih.cons name

/-- The stick is the only candidate, and usable. -/
structure Chosen (x : Ctx) (s : Stick) : Prop where
  candidate : Candidate x s.name
  passes : ∃ path, Passes x s.name path s.dn s.pn
  only : ∀ other, Candidate x other → other = s.name
  usable : Usable x s.dn s.pn

/-- If nothing stops the loop, it finds every candidate. -/
lemma exists_find (hstop : ¬Stops x.examine x.entries) (hc : Candidate x name) :
    ∃ s ∈ finds x.examine x.entries, s.name = name := by
  obtain ⟨hname, hp⟩ := candidate_iff.mp hc
  rcases examine_cases x name with ⟨-, hn⟩ | ⟨path, dn, pn, -, ⟨-, hf⟩ | ⟨-, why, hs⟩⟩
  · exact absurd hp hn
  · exact ⟨_, mem_finds.mpr ⟨name, hname, hf⟩, rfl⟩
  · exact absurd ⟨name, hname, _, hs⟩ hstop

/-- What it finds are candidates that can be used. -/
lemma candidate_of_find {s : Stick} (hs : s ∈ finds x.examine x.entries) :
    Candidate x s.name ∧ (∃ path, Passes x s.name path s.dn s.pn) ∧ Usable x s.dn s.pn := by
  obtain ⟨name, hname, hf⟩ := mem_finds.mp hs
  obtain ⟨rfl, ⟨path, hp⟩, hu⟩ := passes_of_found hf
  exact ⟨candidate_iff.mpr ⟨hname, path, _, _, hp⟩, ⟨path, hp⟩, hu⟩

/-- **The loop over the disks.** -/
theorem select_cases (x : Ctx) :
    (¬∃ name, Candidate x name) ∧ (∃ why, x.select = .error ⟨3, why⟩) ∨
    (∃ s, Chosen x s ∧ x.select = x.verify s) ∨
    (∃ name, Candidate x name) ∧ (¬∃ s, Chosen x s) ∧ Refuses x.select := by
  unfold Ctx.select
  by_cases hstop : Stops x.examine x.entries
  · -- a candidate that cannot be used
    obtain ⟨e, hscan, name, hname, he⟩ := scan_of_stops hstop ⟨0, ⟨[], [], []⟩⟩
    obtain ⟨⟨path, dn, pn, hp, hu⟩, why, rfl⟩ := passes_of_stop he
    have hcand : Candidate x name := candidate_iff.mpr ⟨hname, path, dn, pn, hp⟩
    refine .inr (.inr ⟨⟨name, hcand⟩, ?_, why, ?_⟩)
    · rintro ⟨s, hc⟩
      obtain ⟨path', hp'⟩ := hc.passes
      rw [← hc.only name hcand] at hp'
      obtain ⟨rfl, rfl⟩ := hp'.numbers_eq hp
      exact hu hc.usable
    · rw [hscan]
      rfl
  · rw [scan_of_not_stops hstop]
    cases hl : finds x.examine x.entries with
    | nil =>
      refine .inl ⟨?_, _, rfl⟩
      rintro ⟨name, hc⟩
      obtain ⟨s, hs, -⟩ := exists_find hstop hc
      rw [hl] at hs
      cases hs
    | cons s rest =>
      have hs := candidate_of_find (x := x) (s := s) (by rw [hl]; simp)
      cases rest with
      | nil =>
        refine .inr (.inl ⟨s, ⟨hs.1, hs.2.1, ?_, hs.2.2⟩, rfl⟩)
        intro other hc
        obtain ⟨s', hs', rfl⟩ := exists_find hstop hc
        rw [hl] at hs'
        rw [List.mem_singleton.mp hs']
      | cons s' rest =>
        refine .inr (.inr ⟨⟨s.name, hs.1⟩, ?_, _, rfl⟩)
        rintro ⟨t, ht⟩
        have hs' := candidate_of_find (x := x) (s := s') (by rw [hl]; simp)
        have hsub := (names_sublist x x.entries).nodup (entries_nodup x)
        rw [hl] at hsub
        simp only [List.map_cons, List.nodup_cons, List.mem_cons, not_or] at hsub
        exact hsub.1.1 ((ht.only _ hs.1).trans (ht.only _ hs'.1).symm)

lemma Chosen.eq {s s' : Stick} (h : Chosen x s) (h' : Chosen x s') : s = s' := by
  obtain ⟨path, hp⟩ := h.passes
  obtain ⟨path', hp'⟩ := h'.passes
  have hname := h'.only s.name h.candidate
  rw [← hname] at hp'
  obtain ⟨hdn, hpn⟩ := hp.numbers_eq hp'
  cases s
  cases s'
  simp only [Stick.mk.injEq]
  exact ⟨hname, hdn, hpn⟩

lemma printed_eq {s s' : Stick} {r r' : Report} (hc : Chosen x s) (hc' : Chosen x s')
    (hv : Verified x s r) (hv' : Verified x s' r') : printed x s r = printed x s' r' := by
  obtain rfl := hc.eq hc'
  have heq := hv.accepted.symm.trans hv'.accepted
  cases heq
  rfl

/-- **Status 0** is for the one candidate, if it is usable and verified. -/
theorem select_status_zero (hid : ∀ k, '\n' ∉ x.id k) (out : Text) :
    x.select.status = 0 ∧ x.select.stdout = out ↔
      ∃ s r, Chosen x s ∧ Verified x s r ∧ out = printed x s r := by
  rcases select_cases x with ⟨hnone, why, he⟩ | ⟨s, hs, he⟩ | ⟨-, hnone, hr⟩
  · rw [he]
    constructor
    · rintro ⟨h, -⟩
      cases h
    · rintro ⟨s, -, hc, -, -⟩
      exact absurd ⟨_, hc.candidate⟩ hnone
  · rw [he]
    rcases verify_cases hid s with ⟨r, hv, he⟩ | ⟨hv, hr⟩
    · rw [he]
      constructor
      · rintro ⟨-, rfl⟩
        exact ⟨s, r, hs, hv, rfl⟩
      · rintro ⟨s', r', hc, hv', rfl⟩
        exact ⟨rfl, printed_eq hs hc hv hv'⟩
    · constructor
      · rintro ⟨h, -⟩
        rw [hr.status] at h
        cases h
      · rintro ⟨s', r', hc, hv', -⟩
        obtain rfl := hs.eq hc
        exact absurd ⟨r', hv'⟩ hv
  · constructor
    · rintro ⟨h, -⟩
      rw [hr.status] at h
      cases h
    · rintro ⟨s, -, hc, -, -⟩
      exact absurd ⟨s, hc⟩ hnone

/-- **Status 3** is for no candidate. -/
theorem select_status_three (hid : ∀ k, '\n' ∉ x.id k) :
    x.select.status = 3 ↔ ¬∃ name, Candidate x name := by
  rcases select_cases x with ⟨hnone, why, he⟩ | ⟨s, hs, he⟩ | ⟨hc, -, hr⟩
  · rw [he]
    exact iff_of_true rfl hnone
  · refine iff_of_false ?_ (not_not.mpr ⟨s.name, hs.candidate⟩)
    rw [he]
    rcases verify_cases hid s with ⟨r, -, he⟩ | ⟨-, hr⟩
    · rw [he]
      exact nofun
    · rw [hr.status]
      exact nofun
  · refine iff_of_false ?_ (not_not.mpr hc)
    rw [hr.status]
    exact nofun

/-! ### The order of the disks -/

/-- The same files, with directories enumerated in another order. -/
def reorder (env : Env) (l : Text → List Text) (h : ∀ dir, (l dir).Perm (env.list dir)) : Env :=
  { env with list := l, list_nodup := fun dir => (h dir).nodup_iff.mpr (env.list_nodup dir) }

variable {env : Env} {l : Text → List Text}

lemma entries_perm (h : ∀ dir, (l dir).Perm (env.list dir)) (sys devroot metadata : Text) (m : Mode)
    (id : Identity) :
    (Ctx.entries ⟨reorder env l h, sys, devroot, metadata, m, id⟩).Perm
      (Ctx.entries ⟨env, sys, devroot, metadata, m, id⟩) :=
  expand_perm _ ((h (sub sys "class/block")).filter _)

lemma climb_reorder (h : ∀ dir, (l dir).Perm (env.list dir)) (sys devroot metadata : Text)
    (m : Mode) (id : Identity) (fuel : ℕ) (ancestor : Text) :
    Ctx.climb ⟨reorder env l h, sys, devroot, metadata, m, id⟩ fuel ancestor =
      Ctx.climb ⟨env, sys, devroot, metadata, m, id⟩ fuel ancestor := by
  induction fuel generalizing ancestor with
  | zero => rfl
  | succ fuel ih =>
    rw [Ctx.climb, Ctx.climb, ih]
    rfl

lemma examine_reorder (h : ∀ dir, (l dir).Perm (env.list dir)) (sys devroot metadata : Text)
    (m : Mode) (id : Identity) :
    Ctx.examine ⟨reorder env l h, sys, devroot, metadata, m, id⟩ =
      Ctx.examine ⟨env, sys, devroot, metadata, m, id⟩ := by
  funext name
  unfold Ctx.examine Ctx.gates
  simp only [climb_reorder]
  rfl

/-- **The order does not show** in the status or in the output. -/
lemma select_reorder (h : ∀ dir, (l dir).Perm (env.list dir)) (sys devroot metadata : Text)
    (m : Mode) (id : Identity) :
    (Ctx.select ⟨reorder env l h, sys, devroot, metadata, m, id⟩).status =
        (Ctx.select ⟨env, sys, devroot, metadata, m, id⟩).status ∧
      (Ctx.select ⟨reorder env l h, sys, devroot, metadata, m, id⟩).stdout =
        (Ctx.select ⟨env, sys, devroot, metadata, m, id⟩).stdout := by
  have hp := entries_perm h sys devroot metadata m id
  have hexamine := examine_reorder h sys devroot metadata m id
  have hchoose : Ctx.choose ⟨reorder env l h, sys, devroot, metadata, m, id⟩ =
      Ctx.choose ⟨env, sys, devroot, metadata, m, id⟩ := rfl
  unfold Ctx.select
  rw [hexamine, hchoose]
  generalize (⟨env, sys, devroot, metadata, m, id⟩ : Ctx) = x at hp ⊢
  have hsame := scan_perm (f := x.examine)
    (g := fun r => (Sel.status (r >>= x.choose), Sel.stdout (r >>= x.choose))) hp
    ⟨0, ⟨[], [], []⟩⟩ ?_ ?_
  · exact Prod.ext_iff.mp hsame
  · intro a _ a' _ e e' he he'
    obtain ⟨-, why, rfl⟩ := passes_of_stop he
    obtain ⟨-, why', rfl⟩ := passes_of_stop he'
    rfl
  · intro n b b' hn
    rw [Nat.zero_add]
    match n, hn with
    | 0, _ => rfl
    | n + 2, _ => rfl

/-! ### The selector -/

/-- What the selector works with once it gets to the disks. -/
def context (env : Env) (sys devroot identity metadata : Text) (m : Mode) : Ctx :=
  ⟨env, sys, devroot, metadata, m, identityOf env identity⟩

lemma usbRootSelect_reorder (h : ∀ dir, (l dir).Perm (env.list dir))
    (sys devroot identity metadata : Text) (m : Mode) :
    (usbRootSelect (reorder env l h) [sys, devroot, identity, metadata, m.text]).status =
        (usbRootSelect env [sys, devroot, identity, metadata, m.text]).status ∧
      (usbRootSelect (reorder env l h) [sys, devroot, identity, metadata, m.text]).stdout =
        (usbRootSelect env [sys, devroot, identity, metadata, m.text]).stdout := by
  have hready : Ready (reorder env l h) sys identity ↔ Ready env sys identity := by
    constructor
    · rintro ⟨h1, h2, h3, h4, h5, h6, h7⟩
      exact ⟨h1, h2, h3, h4, h5, h6, h7⟩
    · rintro ⟨h1, h2, h3, h4, h5, h6, h7⟩
      exact ⟨h1, h2, h3, h4, h5, h6, h7⟩
  rcases usbRootSelect_decides env sys devroot identity metadata m with ⟨hr, he⟩ | ⟨hn, he⟩
  · rcases usbRootSelect_decides (reorder env l h) sys devroot identity metadata m with
      ⟨-, he'⟩ | ⟨hn', -⟩
    · rw [he, he']
      exact select_reorder h sys devroot metadata m _
    · exact absurd (hready.mpr hr) hn'
  · rcases usbRootSelect_decides (reorder env l h) sys devroot identity metadata m with
      ⟨hr', -⟩ | ⟨-, he'⟩
    · exact absurd (hready.mp hr') hn
    · exact ⟨he'.status.trans he.status.symm, he'.stdout.trans he.stdout.symm⟩

/-- **The selector chooses the pinned stick, and only if it is the only one.** The status and the
output do not depend on the order of the disks. The status is 0 exactly if the arguments, the
identity, the command line and mountinfo are as they have to be, there is one candidate, its
device numbers are well formed and not mounted, and it is verified; the output then names its
partition. The status is 3 exactly if the selector gets to the disks and there is no
candidate. -/
theorem selects_only_pinned (h : ∀ dir, (l dir).Perm (env.list dir))
    (sys devroot identity metadata mode : Text) :
    ((usbRootSelect (reorder env l h) [sys, devroot, identity, metadata, mode]).status =
        (usbRootSelect env [sys, devroot, identity, metadata, mode]).status ∧
      (usbRootSelect (reorder env l h) [sys, devroot, identity, metadata, mode]).stdout =
        (usbRootSelect env [sys, devroot, identity, metadata, mode]).stdout) ∧
    (∀ out, (usbRootSelect env [sys, devroot, identity, metadata, mode]).status = 0 ∧
        (usbRootSelect env [sys, devroot, identity, metadata, mode]).stdout = out ↔
      ∃ m : Mode, mode = m.text ∧ Ready env sys identity ∧
        ∃ s r, Chosen (context env sys devroot identity metadata m) s ∧
          Verified (context env sys devroot identity metadata m) s r ∧
          out = printed (context env sys devroot identity metadata m) s r) ∧
    ((usbRootSelect env [sys, devroot, identity, metadata, mode]).status = 3 ↔
      ∃ m : Mode, mode = m.text ∧ Ready env sys identity ∧
        ¬∃ name, Candidate (context env sys devroot identity metadata m) name) := by
  by_cases hmode : ∃ m : Mode, mode = m.text
  · obtain ⟨m, rfl⟩ := hmode
    have hexists {P : Mode → Prop} : (∃ m' : Mode, m.text = m'.text ∧ P m') ↔ P m := by
      constructor
      · rintro ⟨m', he, hP⟩
        rwa [Mode.text_injective he]
      · exact fun hP => ⟨m, rfl, hP⟩
    refine ⟨usbRootSelect_reorder h sys devroot identity metadata m, fun out => ?_, ?_⟩
    · rw [hexists]
      rcases usbRootSelect_decides env sys devroot identity metadata m with ⟨hr, he⟩ | ⟨hn, he⟩
      · rw [he]
        refine (select_status_zero ?_ out).trans (and_iff_right hr).symm
        exact newline_not_mem_identityOf env identity
      · refine iff_of_false ?_ fun h => hn h.1
        rw [he.status]
        exact nofun
    · rw [hexists]
      rcases usbRootSelect_decides env sys devroot identity metadata m with ⟨hr, he⟩ | ⟨hn, he⟩
      · rw [he]
        refine (select_status_three ?_).trans (and_iff_right hr).symm
        exact newline_not_mem_identityOf env identity
      · refine iff_of_false ?_ fun h => hn h.1
        rw [he.status]
        exact nofun
  · have hne : ∀ m : Mode, mode ≠ m.text := fun m hm => hmode ⟨m, hm⟩
    have he := usbRootSelect_mode env sys devroot identity metadata hne
    have he' := usbRootSelect_mode (reorder env l h) sys devroot identity metadata hne
    refine ⟨⟨he'.status.trans he.status.symm, he'.stdout.trans he.stdout.symm⟩, fun out => ?_, ?_⟩
    · refine iff_of_false ?_ fun ⟨m, hm, _⟩ => hmode ⟨m, hm⟩
      rw [he.status]
      exact nofun
    · refine iff_of_false ?_ fun ⟨m, hm, _⟩ => hmode ⟨m, hm⟩
      rw [he.status]
      exact nofun

/-- A UUID of one digit. -/
def fixtureUuid (c : Char) : Text := ['-'].intercalate ([8, 4, 4, 4, 12].map (List.replicate · c))

def fixtureId : List (Key × Text) :=
  [(.format, "t6040-usb-root-identity-v1".toList), (.diskGuid, fixtureUuid '1'),
    (.partuuid, fixtureUuid '2'), (.fsuuid, fixtureUuid '3'), (.mediaBytes, "8388608".toList),
    (.layoutBytes, "8388608".toList), (.usbVendor, "1234".toList), (.usbProduct, "5678".toList),
    (.usbSerial, "fixture".toList), (.usbRoute, "1".toList), (.usbController, controller),
    (.removable, "1".toList)]

def fixturePath : Text := sub ("/s/devices/soc/".toList ++ controller) "3-1/block/sdb"

/-- The files of a tree with one stick, `sdb`. -/
def fixtureFiles : List (Text × Text) :=
  let usb := sub ("/s/devices/soc/".toList ++ controller) "3-1"
  let disk := "/s/class/block/sdb".toList
  let part := "/s/class/block/sdb1".toList
  [("/i".toList, ['\n'].intercalate (fixtureId.map fun kv => kv.1.text ++ '=' :: kv.2)),
    ("/s/../proc/cmdline".toList, rootIs (fixtureUuid '2')),
    ("/s/../proc/self/mountinfo".toList, []),
    (sub usb "idVendor", "1234\n".toList), (sub usb "idProduct", "5678\n".toList),
    (sub usb "serial", "fixture\n".toList), (sub usb "devpath", "1\n".toList),
    (sub disk "removable", "1\n".toList), (sub disk "size", "16384\n".toList),
    (sub disk "dev", "8:16\n".toList), (sub part "partition", "1\n".toList),
    (sub part "dev", "8:17\n".toList), (sub part "start", "2048\n".toList),
    (sub part "size", "14303\n".toList), ("/d/sdb".toList, []), ("/d/sdb1".toList, [])]

def fixtureLink (p : Text) : Option Text :=
  if p = "/s/class/block/sdb".toList then some fixturePath
  else if p = "/s/class/block/sdb1".toList then some (sub fixturePath "sdb1")
  else none

def fixtureNames : List Text := ["sda".toList, "sdb".toList, "sdb1".toList]

def fixture : Env where
  list dir := if dir = "/s/class/block".toList then fixtureNames else []
  list_nodup dir := by
    split_ifs
    · decide
    · simp
  kind p :=
    if (fixtureFiles.lookup p).isSome then some .regular
    else (fixtureLink p).map fun _ => .other
  symlink _ := false
  readable p := (fixtureFiles.lookup p).isSome
  read p := fixtureFiles.lookup p
  readlink := fixtureLink
  stat _ := none
  glob w := [w]
  metadata _ _ := some ⟨2048, 16350, 8388608, 8388608, by decide, by decide⟩

def fixtureArgs : List Text :=
  ["/s".toList, "/d".toList, "/i".toList, "/m".toList, "image".toList]

/-- The stick is chosen, also with the disks in the other order. -/
theorem selects_only_pinned_fixture :
    (usbRootSelect (reorder fixture (fun dir => (fixture.list dir).reverse)
      fun _ => List.reverse_perm _) fixtureArgs).status = 0 ∧
    ∃ s r, Chosen (context fixture "/s".toList "/d".toList "/i".toList "/m".toList .image) s ∧
      Verified (context fixture "/s".toList "/d".toList "/i".toList "/m".toList .image) s r := by
  have hstatus : (usbRootSelect fixture fixtureArgs).status = 0 := by decide +kernel
  obtain ⟨⟨hsame, -⟩, hzero, -⟩ := @selects_only_pinned fixture
    (fun dir => (fixture.list dir).reverse) (fun _ => List.reverse_perm _)
    "/s".toList "/d".toList "/i".toList "/m".toList "image".toList
  obtain ⟨m, hm, -, s, r, hc, hv, -⟩ := (hzero _).mp ⟨hstatus, rfl⟩
  have himage : m = .image := Mode.text_injective (hm.symm.trans (by decide))
  subst himage
  exact ⟨hsame.trans hstatus, s, r, hc, hv⟩

end Wallace.UsbRootUnique
