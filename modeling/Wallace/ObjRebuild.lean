import Wallace.ObjBuild
import Wallace.Words

/-!
The rebuilding of an object with other bootargs, `t6040-rebootargs-object.py`.

The tool cuts the object at the first `chosen.bootargs=`, the newline after it and the first
occurrence of the device tree after that, and gives the parts to the packer. The device tree
may occur in the kernel too; a cut there gives another object than the one that was cut.
Whether the command line of the packer takes a text as the value of `--bootargs`, and not
for another option, is a parameter.
-/

namespace Wallace.ObjRebuild

open Bytes Checks ObjModel ObjRead ObjStream ObjBuild Words

/-! ### The tool -/

/-- `VAR`. -/
def bootargsVar : List UInt8 := bootargsBytes ++ [0x3d]

/-- `data.index(pat, start)`. -/
def index (data pat : List UInt8) (start : ℕ) : Option ℕ :=
  (find pat (data.drop start)).map (start + ·)

/-- `--bootargs` or `--prepend`, of which at most one is given. -/
inductive Change
  | keep
  | bootargs (s : List Char)
  | prepend (s : List Char)
  deriving DecidableEq

/-- The new bootargs. -/
def Change.apply : Change → List Char → List Char
  | .keep, old => old
  | .bootargs s, _ => s
  | .prepend s, old => if s = [] then old else s ++ ' ' :: old

structure Args where
  dtb : List UInt8
  initramfs : List UInt8
  change : Change := .keep
  replaceDtb : Option (List UInt8) := none
  replaceM1n1 : Option (List UInt8) := none

inductive CommandFault
  | usage
  | packer (f : BuildFault)
  deriving DecidableEq

inductive ToolFault
  | noVariable
  | variableAlignment (start : ℕ)
  | noNewline
  | nonAsciiBootargs
  | noDtb
  | initramfsNotNext
  | command (f : CommandFault)
  | differs
  deriving DecidableEq

/-- The parts that the tool recovers. -/
structure Split where
  m1n1 : List UInt8
  kernel : List UInt8
  old : List Char

def split (obj dtb initramfs : List UInt8) : Except ToolFault Split :=
  match index obj bootargsVar 0 with
  | none => .error .noVariable
  | some start =>
    if start % m1n1Alignment ≠ 0 then .error (.variableAlignment start)
    else match index obj [0x0a] start with
    | none => .error .noNewline
    | some newline =>
      let nl := newline + 1
      let value := start + bootargsVar.length
      match decodeAscii (sub obj value (nl - 1 - value)) with
      | none => .error .nonAsciiBootargs
      | some old =>
        match index obj dtb nl with
        | none => .error .noDtb
        | some dtbAt =>
          if sub obj (dtbAt + dtb.length) initramfs.length ≠ initramfs then
            .error .initramfsNotNext
          else .ok ⟨obj.take start, sub obj nl (dtbAt - nl), old⟩

/-- What the tool recovered and what it wrote. -/
structure Rebuilt where
  parts : Split
  new : List Char
  object : List UInt8

section Tool

variable (codec : Codec) (takes : List Char → Bool)

/-- The packer, from its command line. -/
def command (i : Inputs) : Except CommandFault Built :=
  if takes i.bootargs then (build codec i).mapError .packer else .error .usage

def rebootargs (obj : List UInt8) (a : Args) : Except ToolFault Rebuilt := do
  let s ← split obj a.dtb a.initramfs
  let new := a.change.apply s.old
  let b ← (command codec takes
    { m1n1 := a.replaceM1n1.getD s.m1n1
      kernel := s.kernel
      dtb := a.replaceDtb.getD a.dtb
      initramfs := a.initramfs
      bootargs := new
      initrdWrapped := false }).mapError .command
  if new = s.old ∧ a.replaceDtb = none ∧ a.replaceM1n1 = none ∧ b.output ≠ obj then
    .error .differs
  else pure ⟨s, new, b.output⟩

end Tool

/-! ### The split of an object -/

variable {codec : Codec} {takes : List Char → Bool} {i : Inputs} {b : Built} {v : List UInt8}

lemma newline_notMem_var (h : (0x0a : UInt8) ∉ v) : (0x0a : UInt8) ∉ bootargsVar ++ v := by
  rw [List.mem_append, not_or]
  exact ⟨by decide, h⟩

lemma index_of_drop {data u pat : List UInt8} {start j : ℕ} (hd : data.drop start = u)
    (h : find pat u = some j) : index data pat start = some (start + j) := by
  rw [index, hd, h]
  rfl

section Line

variable {m line rest : List UInt8}

lemma line_eq (hline : line = lineOf bootargsBytes v) : line = bootargsVar ++ (v ++ [0x0a]) := by
  rw [hline]
  simp [lineOf, bootargsVar]

lemma length_line (hline : line = lineOf bootargsBytes v) :
    m.length + (bootargsVar ++ v).length + 1 = (m ++ line).length := by
  rw [line_eq hline]
  simp only [List.length_append, List.length_singleton]
  omega

/-- The variable is found where it stands. -/
lemma index_var (hline : line = lineOf bootargsBytes v)
    (hfirst : ∀ k < m.length, ¬bootargsVar <+: (m ++ (line ++ rest)).drop k) :
    index (m ++ (line ++ rest)) bootargsVar 0 = some m.length := by
  have hsplit : m ++ (line ++ rest) = m ++ (bootargsVar ++ (v ++ [0x0a] ++ rest)) := by
    rw [line_eq hline]
    simp
  rw [hsplit] at hfirst ⊢
  rw [index_of_drop List.drop_zero (find_eq_length hfirst), Nat.zero_add]

/-- The first newline behind it ends the line. -/
lemma index_newline (hline : line = lineOf bootargsBytes v) (hnl : (0x0a : UInt8) ∉ v) :
    index (m ++ (line ++ rest)) [0x0a] m.length =
      some (m.length + (bootargsVar ++ v).length) := by
  refine index_of_drop List.drop_left ?_
  have hsplit : line ++ rest = bootargsVar ++ v ++ ([0x0a] ++ rest) := by
    rw [line_eq hline]
    simp
  rw [hsplit]
  exact find_of_head_notMem (newline_notMem_var hnl)

/-- Between the two stands the value. -/
lemma sub_value (hline : line = lineOf bootargsBytes v) :
    sub (m ++ (line ++ rest)) (m.length + bootargsVar.length)
      ((m ++ line).length - 1 - (m.length + bootargsVar.length)) = v := by
  have hsize : (m ++ line).length - 1 - (m.length + bootargsVar.length) = v.length := by
    rw [← length_line hline, List.length_append]
    omega
  rw [hsize, sub_append_right, line_eq hline, List.append_assoc, sub_length_append,
    List.append_assoc, List.take_left]

end Line

/-- The tool cuts an object at the variable, at its newline and somewhere in the kernel, and
then compares the initramfs. -/
lemma split_object {m line kernel dtb initramfs t : List UInt8} {bootargs : List Char}
    (hm : m.length % m1n1Alignment = 0) (hline : line = lineOf bootargsBytes v)
    (hv : encodeAscii bootargs = some v) (hnl : (0x0a : UInt8) ∉ v)
    (hfirst : ∀ k < m.length,
      ¬bootargsVar <+: (m ++ (line ++ (kernel ++ (dtb ++ (initramfs ++ t))))).drop k) :
    ∃ d ≤ kernel.length, find dtb (kernel ++ (dtb ++ (initramfs ++ t))) = some d ∧
      split (m ++ (line ++ (kernel ++ (dtb ++ (initramfs ++ t))))) dtb initramfs =
        if sub (kernel ++ (dtb ++ (initramfs ++ t))) (d + dtb.length) initramfs.length ≠ initramfs
        then .error .initramfsNotNext else .ok ⟨m, kernel.take d, bootargs⟩ := by
  obtain ⟨d, hd, hfind⟩ := find_le dtb kernel (initramfs ++ t)
  refine ⟨d, hd, hfind, ?_⟩
  have htake : (kernel ++ (dtb ++ (initramfs ++ t))).take d = kernel.take d :=
    List.take_append_of_le_length hd
  generalize kernel ++ (dtb ++ (initramfs ++ t)) = rest at hfirst hfind htake ⊢
  have hdtb : index (m ++ (line ++ rest)) dtb (m ++ line).length =
      some ((m ++ line).length + d) := by
    rw [← List.append_assoc]
    exact index_of_drop List.drop_left hfind
  have hnext (n : ℕ) : sub (m ++ (line ++ rest)) ((m ++ line).length + d + dtb.length) n =
      sub rest (d + dtb.length) n := by
    rw [← List.append_assoc, Nat.add_assoc, sub_append_right]
  have hkernel : sub (m ++ (line ++ rest)) (m ++ line).length
      ((m ++ line).length + d - (m ++ line).length) = kernel.take d := by
    rw [Nat.add_sub_cancel_left, ← List.append_assoc, sub_length_append, htake]
  unfold split
  rw [index_var hline hfirst]
  dsimp only
  rw [if_neg (not_not.mpr hm), index_newline hline hnl]
  dsimp only
  rw [length_line hline, sub_value hline, decode_encode hv]
  dsimp only
  rw [hdtb]
  dsimp only
  rw [hnext, hkernel, List.take_left]

/-! ### The rebuilt object -/

/-- An initial part of a member that is long enough for its magic is a member. -/
lemma isMember_of_long {k k' : List UInt8} (hk : isMember k = true) (hpre : k' <+: k)
    (hlen : 6 ≤ k'.length) : isMember k' = true := by
  have hmagic : ∀ magic : List UInt8, magic.length ≤ 6 → startsWith k magic = true →
      startsWith k' magic = true := by
    intro magic hle h
    rw [startsWith, List.isPrefixOf_iff_prefix] at h ⊢
    exact List.prefix_of_prefix_length_le h hpre (hle.trans hlen)
  unfold isMember at hk ⊢
  rw [Bool.or_eq_true] at hk ⊢
  exact hk.imp (hmagic gzipMagic (by decide)) (hmagic xzMagic (by decide))

/-- What the packer makes of an initial part of a member is that part. -/
lemma kernelMember_part {k k' m : List UInt8} (hk : isMember k = true) (hpre : k' <+: k)
    (h : kernelMember codec k' = .ok m) : m = k' := by
  unfold kernelMember at h
  split_ifs at h with hm
  · cases h
    rfl
  · obtain ⟨_, hkernel, -⟩ := bind_ok h
    have hlong : 0x3c ≤ k'.length := (not_not.mp (failIf_ok hkernel)).1
    exact absurd (isMember_of_long hk hpre (by omega)) hm

/-- The packer reads the kernel only for the member that it makes of it. -/
lemma build_congr {j : Inputs} (hk : kernelMember codec j.kernel = kernelMember codec i.kernel)
    (hm : j.m1n1 = i.m1n1) (hd : j.dtb = i.dtb) (hi : j.initramfs = i.initramfs)
    (hb : j.bootargs = i.bootargs) (hw : j.initrdWrapped = i.initrdWrapped) :
    build codec j = build codec i := by
  unfold build
  rw [hk, hm, hd, hi, hb, hw]

/-- The inputs that the tool gives to the packer. -/
def given (i : Inputs) (kernel : List UInt8) (bootargs : List Char) : Inputs where
  m1n1 := i.m1n1
  kernel := kernel
  dtb := i.dtb
  initramfs := i.initramfs
  bootargs := bootargs
  initrdWrapped := false

/-- The kernel in an object is a member. -/
lemma isMember_built (hb : build codec i = .ok b)
    (hgzip : startsWith (codec.compress i.kernel) gzipMagic = true) : isMember b.kernel = true := by
  obtain ⟨v, hp⟩ := build_ok hb
  have h := hp.kernel
  unfold kernelMember at h
  split_ifs at h with hm
  · exact Except.ok.inj h ▸ hm
  · obtain ⟨_, -, h⟩ := bind_ok h
    obtain ⟨_, -, h⟩ := bind_ok h
    rw [← Except.ok.inj h, isMember, hgzip, Bool.true_or]

lemma initramfs_plain (hp : Packed codec i b v) (hplain : i.initrdWrapped = false) :
    b.initramfs = i.initramfs := by
  have h := hp.initramfs
  rw [hplain] at h
  obtain ⟨_, -, h⟩ := bind_ok h
  exact (Except.ok.inj h).symm

/-- **An identical object has the same kernel**: the device tree has a byte that is not zero,
and so the objects end there at the same place. -/
lemma kernel_of_identical {b' : Built} {k' : List UInt8} (hb : build codec i = .ok b)
    (hplain : i.initrdWrapped = false) (hk : isMember b.kernel = true) (hpre : k' <+: b.kernel)
    (hb' : build codec (given i k' i.bootargs) = .ok b') (hsame : b'.output = b.output) :
    k' = b.kernel := by
  obtain ⟨v, hp⟩ := build_ok hb
  obtain ⟨v', hp'⟩ := build_ok hb'
  obtain ⟨z, hs⟩ := hp.streamed
  obtain ⟨z', hs'⟩ := hp'.streamed
  have hvalue : v' = v := Option.some.inj (hp'.value.symm.trans hp.value)
  have hdtb : b'.dtb = b.dtb := hp'.dtb.trans hp.dtb.symm
  have hinit : b'.initramfs = b.initramfs :=
    (initramfs_plain hp' rfl).trans (initramfs_plain hp hplain).symm
  have hkernel : b'.kernel = k' := kernelMember_part hk hpre hp'.kernel
  have hout : k' ++ (b.dtb ++ b.initramfs ++ zeros z') =
      b.kernel ++ (b.dtb ++ b.initramfs ++ zeros z) := by
    have h := hs'.output.symm.trans (hsame.trans hs.output)
    rw [hvalue, hkernel, hdtb, hinit] at h
    have h := List.append_cancel_left (List.append_cancel_left h)
    rw [List.append_assoc, List.append_assoc]
    exact h
  refine padded_cancel ?_ hout
  obtain ⟨t, ht⟩ := startsWith_iff.mp hp.magic
  exact ⟨0xd0, by simp [hp.dtb, ht, fdtMagic], by decide⟩

/-- A rebuilding without a replacement. -/
def Args.of (i : Inputs) (c : Change) : Args where
  dtb := i.dtb
  initramfs := i.initramfs
  change := c

/-- What the tool recovers from an object of the packer. -/
lemma split_built (hb : build codec i = .ok b) (hplain : i.initrdWrapped = false)
    (hfirst : ∀ k < i.m1n1.length, ¬bootargsVar <+: b.output.drop k) {s : Split}
    (h : split b.output i.dtb i.initramfs = .ok s) :
    s.m1n1 = i.m1n1 ∧ s.old = i.bootargs ∧ s.kernel <+: b.kernel := by
  obtain ⟨v, hp⟩ := build_ok hb
  obtain ⟨z, hs⟩ := hp.streamed
  rw [hs.output, hp.dtb, initramfs_plain hp hplain] at hfirst h
  obtain ⟨d, -, -, e⟩ := split_object hp.base rfl hp.value hp.newline hfirst
  rw [e] at h
  split_ifs at h
  cases h
  exact ⟨rfl, rfl, List.take_prefix d b.kernel⟩

/-- The rest of the tool, after the split. -/
lemma rebootargs_of_split {obj : List UInt8} {s : Split}
    (h : split obj i.dtb i.initramfs = .ok s) (hm : s.m1n1 = i.m1n1) (ho : s.old = i.bootargs)
    (c : Change) :
    rebootargs codec takes obj (.of i c) =
      match command codec takes (given i s.kernel (c.apply i.bootargs)) with
      | .error f => .error (.command f)
      | .ok b =>
        if c.apply i.bootargs = i.bootargs ∧ b.output ≠ obj then .error .differs
        else .ok ⟨s, c.apply i.bootargs, b.output⟩ := by
  obtain ⟨m, k, old⟩ := s
  dsimp only at hm ho
  subst hm ho
  have hsplit : split obj (Args.of i c).dtb (Args.of i c).initramfs =
      .ok ⟨i.m1n1, k, i.bootargs⟩ := h
  have hafter : rebootargs codec takes obj (.of i c) =
      ((command codec takes (given i k (c.apply i.bootargs))).mapError ToolFault.command).bind
        fun b => if c.apply i.bootargs = i.bootargs ∧ (none : Option (List UInt8)) = none ∧
            (none : Option (List UInt8)) = none ∧ b.output ≠ obj then .error .differs
          else .ok ⟨⟨i.m1n1, k, i.bootargs⟩, c.apply i.bootargs, b.output⟩ := by
    unfold rebootargs
    rw [hsplit]
    rfl
  rw [hafter]
  cases command codec takes (given i k (c.apply i.bootargs)) with
  | error f => rfl
  | ok b => simp [Except.mapError, Except.bind]

/-- A command of the packer that succeeds is one of its function. -/
lemma command_ok {j : Inputs} (h : command codec takes j = .ok b) : build codec j = .ok b := by
  unfold command at h
  split_ifs at h
  cases hb : build codec j with
  | error f =>
    rw [hb] at h
    cases h
  | ok b' =>
    rw [hb] at h
    cases h
    rfl

/-- The member of the object in place of the kernel makes no difference to the packer. -/
lemma command_given (takes : List Char → Bool) (hb : build codec i = .ok b)
    (hplain : i.initrdWrapped = false) (hk : isMember b.kernel = true) (bootargs : List Char) :
    command codec takes (given i b.kernel bootargs) =
      command codec takes { i with bootargs := bootargs } := by
  obtain ⟨v, hp⟩ := build_ok hb
  have hmember : kernelMember codec b.kernel = .ok b.kernel := by
    rw [kernelMember, hk]
    rfl
  have hsame : build codec (given i b.kernel bootargs) =
      build codec { i with bootargs := bootargs } :=
    build_congr (hmember.trans hp.kernel.symm) rfl rfl rfl rfl hplain.symm
  unfold command
  rw [hsame]
  rfl

/-- **A rebuild that comes out identical certifies the split**: what was recovered is what the
packer was given, and every rebuild with other bootargs is the packer's own. -/
theorem identical_rebuild_certifies (codec : Codec) (takes : List Char → Bool) (i : Inputs)
    (b : Built) (c : Change) (r : Rebuilt) (hb : build codec i = .ok b)
    (hplain : i.initrdWrapped = false)
    (hgzip : startsWith (codec.compress i.kernel) gzipMagic = true)
    (hfirst : ∀ k < i.m1n1.length, ¬bootargsVar <+: b.output.drop k)
    (hc : c.apply i.bootargs = i.bootargs)
    (hr : rebootargs codec takes b.output (.of i c) = .ok r) :
    r.parts.m1n1 = i.m1n1 ∧ r.parts.kernel = b.kernel ∧ ∀ c' : Change,
      (rebootargs codec takes b.output (.of i c')).map Rebuilt.object =
        ((command codec takes { i with bootargs := c'.apply i.bootargs }).map
          Built.output).mapError .command := by
  have hk : isMember b.kernel = true := isMember_built hb hgzip
  obtain ⟨s, hs, -⟩ := bind_ok hr
  obtain ⟨hm, ho, hpre⟩ := split_built hb hplain hfirst hs
  -- the rebuild is the packer's, and identical
  rw [rebootargs_of_split hs hm ho, hc] at hr
  have hkernel : s.kernel = b.kernel ∧ r.parts = s := by
    cases hcmd : command codec takes (given i s.kernel i.bootargs) with
    | error f =>
      rw [hcmd] at hr
      cases hr
    | ok b' =>
      rw [hcmd] at hr
      dsimp only at hr
      split_ifs at hr with hsame
      cases hr
      have hout : b'.output = b.output := not_not.mp fun hne => hsame ⟨rfl, hne⟩
      exact ⟨kernel_of_identical hb hplain hk hpre (command_ok hcmd) hout, rfl⟩
  refine ⟨hkernel.2 ▸ hm, hkernel.2 ▸ hkernel.1, fun c' => ?_⟩
  have hgiven : command codec takes (given i s.kernel (c'.apply i.bootargs)) =
      command codec takes { i with bootargs := c'.apply i.bootargs } := by
    rw [hkernel.1]
    exact command_given takes hb hplain hk _
  rw [rebootargs_of_split hs hm ho, hgiven]
  cases hcmd : command codec takes { i with bootargs := c'.apply i.bootargs } with
  | error f => rfl
  | ok b' =>
    dsimp only
    rw [if_neg]
    · rfl
    · rintro ⟨hsame, hne⟩
      rw [hsame] at hcmd
      have hb' := command_ok hcmd
      rw [hb] at hb'
      cases hb'
      exact hne rfl

/-- An object is split behind its kernel if the device tree does not occur before that. -/
lemma split_of_first (hb : build codec i = .ok b) (hplain : i.initrdWrapped = false)
    (hfirst : ∀ k < i.m1n1.length, ¬bootargsVar <+: b.output.drop k)
    (hdtb : ∀ t, find i.dtb (b.kernel ++ (i.dtb ++ t)) = some b.kernel.length) :
    split b.output i.dtb i.initramfs = .ok ⟨i.m1n1, b.kernel, i.bootargs⟩ := by
  obtain ⟨v, hp⟩ := build_ok hb
  obtain ⟨z, hs⟩ := hp.streamed
  rw [hs.output, hp.dtb, initramfs_plain hp hplain] at hfirst ⊢
  obtain ⟨d, -, hfind, e⟩ := split_object hp.base rfl hp.value hp.newline hfirst
  rw [hdtb] at hfind
  cases hfind
  have hnext : sub (b.kernel ++ (i.dtb ++ (i.initramfs ++ zeros z)))
      (b.kernel.length + i.dtb.length) i.initramfs.length = i.initramfs := by
    rw [sub_append_right]
    exact sub_middle _ _ _
  rw [e, hnext, if_neg (not_not.mpr rfl), List.take_length]

/-- Such an object is rebuilt as it was. -/
lemma rebootargs_of_first (hb : build codec i = .ok b) (hplain : i.initrdWrapped = false)
    (hk : isMember b.kernel = true)
    (hfirst : ∀ k < i.m1n1.length, ¬bootargsVar <+: b.output.drop k)
    (hdtb : ∀ t, find i.dtb (b.kernel ++ (i.dtb ++ t)) = some b.kernel.length)
    (htakes : takes i.bootargs = true) :
    rebootargs codec takes b.output (.of i .keep) =
      .ok ⟨⟨i.m1n1, b.kernel, i.bootargs⟩, i.bootargs, b.output⟩ := by
  have hcmd : command codec takes (given i b.kernel i.bootargs) = .ok b := by
    refine (command_given takes hb hplain hk i.bootargs).trans ?_
    rw [command, if_pos htakes, hb]
    rfl
  rw [rebootargs_of_split (split_of_first hb hplain hfirst hdtb) rfl rfl, Change.apply, hcmd]
  exact if_neg fun h => h.2 rfl

/-! ### A small object -/

/-- A word that does not begin with a dash is taken as a value. -/
def takesWord (s : List Char) : Bool := s.head? ≠ some '-'

lemma first_small (value : List UInt8) : ∀ k < (smallInputs smallBootargs).m1n1.length,
    ¬bootargsVar <+: (smallObject value).output.drop k := by
  intro k hk
  obtain ⟨n, hn, -⟩ := pageAlign_eq (List.replicate m1n1Alignment 1 ++
    lineOf bootargsBytes value ++ smallImageGz ++ smallDtb ++ smallArchiveGz ++ zeros 4)
  have hvar : bootargsVar = 0x63 :: bootargsVar.tail := by decide
  have hc : (0x63 : UInt8) ∉ (smallInputs smallBootargs).m1n1 := fun h =>
    absurd (List.eq_of_mem_replicate h) (by decide)
  rw [smallObject, hn, hvar, List.append_assoc, List.append_assoc, List.append_assoc,
    List.append_assoc, List.append_assoc]
  exact not_occurs_of_head_notMem hc hk

lemma rebuild_small : ∃ r, rebootargs smallCodec takesWord (smallObject smallValue).output
    (.of (smallInputs smallBootargs) .keep) = .ok r := by
  have hdtb : ∀ t, find smallDtb (smallImageGz ++ (smallDtb ++ t)) = some smallImageGz.length := by
    intro t
    have hhead : smallDtb = 0xd0 :: smallDtb.tail := by decide
    rw [hhead]
    exact find_of_head_notMem (by decide)
  have hk : isMember smallImageGz = true := by decide
  have htakes : takesWord smallBootargs = true := by decide
  exact ⟨_, rebootargs_of_first build_small rfl hk (first_small smallValue) hdtb htakes⟩

/-- The object is rebuilt unchanged, and then with a parameter before its bootargs. -/
theorem identical_rebuild_certifies_small : ∃ r,
    rebootargs smallCodec takesWord (smallObject smallValue).output
      (.of (smallInputs smallBootargs) .keep) = .ok r ∧
    r.parts.kernel = smallImageGz ∧
    (rebootargs smallCodec takesWord (smallObject smallValue).output
      (.of (smallInputs smallBootargs) (.prepend "nr_cpus=1".toList))).map Rebuilt.object =
      ((command smallCodec takesWord
        (smallInputs ("nr_cpus=1".toList ++ ' ' :: smallBootargs))).map
          Built.output).mapError .command := by
  obtain ⟨r, hr⟩ := rebuild_small
  have hgzip : startsWith (smallCodec.compress smallImage) gzipMagic = true := by decide
  have h := identical_rebuild_certifies smallCodec takesWord (smallInputs smallBootargs)
    (smallObject smallValue) .keep r build_small rfl hgzip (first_small smallValue) rfl hr
  exact ⟨r, hr, h.2.1, h.2.2 (.prepend "nr_cpus=1".toList)⟩

end Wallace.ObjRebuild
