import Mathlib.Data.List.Basic
import Mathlib.Tactic.Common
import Wallace.ObjStream

/-!
The packer and the verifier agree: what the packer writes is accepted in strict mode exactly
when the contents are within the limits, and it is then read back part by part.
-/

namespace Wallace.ObjBuild

open Bytes Checks ObjModel ObjRead ObjStream

/-! ### What the packer has written -/

/-- The facts behind an object that the packer wrote; `v` is the bootargs in bytes. -/
structure Packed (codec : Codec) (i : Inputs) (b : Built) (v : List UInt8) : Prop where
  value : encodeAscii i.bootargs = some v
  newline : (0x0a : UInt8) ∉ v
  base : i.m1n1.length % m1n1Alignment = 0
  entry : rawEntryPoint + 4 < i.m1n1.length
  nonzero : sub i.m1n1 rawEntryPoint 4 ≠ [0, 0, 0, 0]
  kernel : kernelMember codec i.kernel = .ok b.kernel
  long : 8 ≤ i.dtb.length
  magic : startsWith i.dtb fdtMagic = true
  total : beNat (sub i.dtb 4 4) = i.dtb.length
  dtb : b.dtb = i.dtb
  initramfs : initramfsMember i.initramfs i.initrdWrapped = .ok b.initramfs
  output : b.output = pageAlign
    (i.m1n1 ++ lineOf bootargsBytes v ++ b.kernel ++ i.dtb ++ b.initramfs ++ zeros 4)

lemma failIf_ok {c : Prop} [Decidable c] {f : BuildFault} {u : Unit} (h : failIf c f = .ok u) :
    ¬ c := by
  intro hc
  rw [failIf, if_pos hc] at h
  cases h

lemma failIf_of_not {c : Prop} [Decidable c] (h : ¬ c) (f : BuildFault) : failIf c f = .ok () := by
  rw [failIf, if_neg h]
  rfl

lemma length_encode {s : List Char} {b : List UInt8} (h : encodeAscii s = some b) :
    b.length = s.length := by
  unfold encodeAscii at h
  split_ifs at h
  cases h
  rw [List.length_map]

/-- A newline among the bytes comes from a newline among the characters. -/
lemma newline_encode {s : List Char} {b : List UInt8} (h : encodeAscii s = some b)
    (hs : '\n' ∉ s) : (0x0a : UInt8) ∉ b := by
  unfold encodeAscii at h
  split_ifs at h with hall
  cases h
  intro hmem
  obtain ⟨c, hc, he⟩ := List.mem_map.mp hmem
  have hlt : c.toNat < 128 := by
    have hall' : ∀ c ∈ s, c.toNat < 128 := by simpa using hall
    exact hall' c hc
  have hten : c.toNat = 10 := by
    have := congrArg UInt8.toNat he
    rw [UInt8.toNat_ofNat'] at this
    change c.toNat % 256 = 10 at this
    omega
  have hnl : c = '\n' := by
    have := congrArg Char.ofNat hten
    rwa [Char.ofNat_toNat] at this
  exact hs (hnl ▸ hc)

lemma build_ok {codec : Codec} {i : Inputs} {b : Built} (h : build codec i = .ok b) :
    ∃ v, Packed codec i b v := by
  obtain ⟨_, hchar, h⟩ := bind_ok h
  obtain ⟨_, hbase, h⟩ := bind_ok h
  obtain ⟨_, hentry, h⟩ := bind_ok h
  obtain ⟨kernel, hkernel, h⟩ := bind_ok h
  obtain ⟨_, hmagic, h⟩ := bind_ok h
  obtain ⟨_, htotal, h⟩ := bind_ok h
  obtain ⟨initramfs, hinitramfs, h⟩ := bind_ok h
  split at h
  · cases h
  rename_i line hline
  cases h
  obtain ⟨n, v, hn, hv, rfl⟩ := encode_line hline
  have hname : n = bootargsBytes := by
    have : encodeAscii bootargsName = some bootargsBytes := by decide
    rw [this] at hn
    exact (Option.some.inj hn).symm
  subst hname
  have hchar' := failIf_ok hchar
  have hentry' := failIf_ok hentry
  have hmagic' := failIf_ok hmagic
  push Not at hchar' hentry' hmagic'
  exact ⟨v,
    { value := hv
      newline := newline_encode hv hchar'.1
      base := not_not.mp (failIf_ok hbase)
      entry := by omega
      nonzero := hentry'.2
      kernel := hkernel
      long := by omega
      magic := by simpa using hmagic'.2
      total := not_not.mp (failIf_ok htotal)
      dtb := rfl
      initramfs := hinitramfs
      output := rfl }⟩

/-- The packer succeeds when its checks do. -/
lemma build_of_checks {codec : Codec} {i : Inputs} {line k m : List UInt8} (hnl : '\n' ∉ i.bootargs)
    (hnul : '\x00' ∉ i.bootargs) (hbase : i.m1n1.length % m1n1Alignment = 0)
    (hentry : rawEntryPoint + 4 < i.m1n1.length)
    (hnonzero : sub i.m1n1 rawEntryPoint 4 ≠ [0, 0, 0, 0])
    (hk : kernelMember codec i.kernel = .ok k) (h8 : 8 ≤ i.dtb.length)
    (hmagic : startsWith i.dtb fdtMagic = true) (htotal : beNat (sub i.dtb 4 4) = i.dtb.length)
    (hm : initramfsMember i.initramfs i.initrdWrapped = .ok m)
    (hline : encodeAscii (bootargsName ++ ['='] ++ i.bootargs ++ ['\n']) = some line) :
    build codec i =
      .ok ⟨pageAlign (i.m1n1 ++ line ++ k ++ i.dtb ++ m ++ zeros 4), k, i.dtb, m⟩ := by
  have hchar : ¬ ('\n' ∈ i.bootargs ∨ '\x00' ∈ i.bootargs) := not_or.mpr ⟨hnl, hnul⟩
  have hent : ¬ (i.m1n1.length ≤ rawEntryPoint + 4 ∨
      sub i.m1n1 rawEntryPoint 4 = [0, 0, 0, 0]) := not_or.mpr ⟨by omega, hnonzero⟩
  have hfdt : ¬ (i.dtb.length < 8 ∨ startsWith i.dtb fdtMagic = false) :=
    not_or.mpr ⟨by omega, by simp [hmagic]⟩
  rw [build, failIf_of_not hchar, failIf_of_not (not_not.mpr hbase), failIf_of_not hent, hk,
    failIf_of_not hfdt, failIf_of_not (not_not.mpr htotal), hm, hline]
  rfl

lemma pageAlign_eq (data : List UInt8) :
    ∃ k, pageAlign data = data ++ zeros k ∧ k ≤ m1n1Alignment ∧
      (pageAlign data).length % m1n1Alignment = 0 := by
  unfold pageAlign
  split_ifs with h
  · refine ⟨_, rfl, Nat.sub_le _ _, ?_⟩
    have hlt : data.length % m1n1Alignment < m1n1Alignment := Nat.mod_lt _ (by decide)
    rw [List.length_append, zeros, List.length_replicate]
    unfold m1n1Alignment at *
    omega
  · exact ⟨0, by simp [zeros], Nat.zero_le _, not_not.mp h⟩

/-! ### The limits -/

/-- What the parts expand to. The decoder stops at the end of a member, and what the packer
compresses is one. -/
structure Contents (codec : Codec) (i : Inputs) (xk xi : List UInt8) : Prop where
  kernel : if isMember i.kernel then Expands codec i.kernel xk
    else xk = i.kernel ∧ isMember (codec.compress xk) = true ∧
      Expands codec (codec.compress xk) xk
  initramfs : if i.initrdWrapped then xi = i.initramfs else Expands codec i.initramfs xi

structure KernelLimits (x : List UInt8) : Prop where
  expansion : x.length ≤ maxCompressedExpansion
  header : isKernel x
  covers : x.length ≤ imageSize x
  reserve : imageSize x ≤ maxKernelReserve

structure InitramfsLimits (allow wrapped : Bool) (x : List UInt8) : Prop where
  expansion : x.length ≤ maxInitramfsExpanded
  contents : if wrapped then wrappable allow x else isCpio x ∧ ¬ isKernel x

/-- The limits on the parts of an object. -/
structure PartLimits (allow : Bool) (i : Inputs) (b : Built) (xk xi : List UInt8) : Prop where
  bootargs : i.bootargs.length ≤ 1024
  kernel : KernelLimits xk
  dtb : 40 ≤ b.dtb.length ∧ b.dtb.length ≤ maxDtbSize
  initramfs : InitramfsLimits allow i.initrdWrapped xi

/-- The limits on an object and its parts. -/
structure Limits (allow : Bool) (limit : ℕ) (i : Inputs) (b : Built) (xk xi : List UInt8) : Prop
    extends PartLimits allow i b xk xi where
  object : b.output.length ≤ limit

/-! ### The records of an object -/

def kernelRecord (m x : List UInt8) (offset : ℕ) : Record :=
  { role := .kernel, encoding := .member (encOf m), offset, size := m.length, sha256 := m
    expandedSize := some x.length
    expandedSha256 := some x
    runtimeReserve := imageSize x
    pageSize := some (kernelPageSize x) }

def archiveRecord (m x : List UInt8) (offset : ℕ) : Record :=
  { role := .initramfs, encoding := .member (encOf m), offset, size := m.length, sha256 := m
    expandedSize := some x.length
    expandedSha256 := some x
    runtimeReserve := x.length }

def initramfsRecord (wrapped : Bool) (m x : List UInt8) (offset : ℕ) : Record :=
  if wrapped then wrapperRecord x offset else archiveRecord m x offset

def terminatorRecord (n offset : ℕ) : Record :=
  { role := .terminator, encoding := .zero, offset, size := n, sha256 := zeros n }

/-- The length of the line of the bootargs. -/
def lineLength (i : Inputs) : ℕ := 17 + i.bootargs.length

/-- The records of these parts, one after the other from the end of m1n1 on. -/
def partRecords (i : Inputs) (b : Built) (xk xi line : List UInt8) (z : ℕ) : List Record :=
  let kernelAt := i.m1n1.length + line.length
  let dtbAt := kernelAt + b.kernel.length
  let initramfsAt := dtbAt + b.dtb.length
  [variableRecord line i.m1n1.length, kernelRecord b.kernel xk kernelAt, dtbRecord b.dtb dtbAt,
    initramfsRecord i.initrdWrapped b.initramfs xi initramfsAt,
    terminatorRecord z (initramfsAt + b.initramfs.length)]

/-- The records of an object: its own bytes as the line, and what remains as the zeros. -/
def layout (i : Inputs) (b : Built) (xk xi : List UInt8) : List Record :=
  partRecords i b xk xi (sub b.output i.m1n1.length (lineLength i))
    (b.output.length -
      (i.m1n1.length + lineLength i + b.kernel.length + b.dtb.length + b.initramfs.length))

variable {codec : Codec} {allow : Bool} {offset : ℕ} {vars vars' : Vars} {r : Record}

lemma isCpio_head {x : List UInt8} (h : isCpio x = true) :
    startsWith x fdtMagic = false ∧ isMember x = false := by
  obtain ⟨m, hm, hx⟩ := List.any_eq_true.mp h
  obtain ⟨t, rfl⟩ := startsWith_iff.mp hx
  simp only [cpioMagics, List.mem_cons, List.not_mem_nil, or_false] at hm
  rcases hm with rfl | rfl
  · exact ⟨rfl, rfl⟩
  · exact ⟨rfl, rfl⟩

lemma classify_kernel {x : List UInt8} {reserve : ℕ} :
    classifyExpanded x = .ok (.kernel, reserve) ↔
      isKernel x ∧ x.length ≤ imageSize x ∧ imageSize x ≤ maxKernelReserve ∧
        reserve = imageSize x := by
  unfold classifyExpanded
  split_ifs with hk hf hc
  · simp only [rejectIf_bind_ok]
    constructor
    · rintro ⟨-, hcover, hreserve, h⟩
      cases h
      exact ⟨hk, by omega, by omega, rfl⟩
    · rintro ⟨-, hcover, hreserve, rfl⟩
      have hlong := hk.1
      exact ⟨by omega, by omega, by omega, rfl⟩
  · refine ⟨fun h => ?_, fun h => absurd h.1 hk⟩
    simp only [rejectIf_bind_ok] at h
    cases h.2.2.2
  · refine ⟨fun h => ?_, fun h => absurd h.1 hk⟩
    simp only [rejectIf_bind_ok] at h
    cases h.2
  · refine ⟨fun h => ?_, fun h => absurd h.1 hk⟩
    cases h

lemma classify_initramfs {x : List UInt8} {reserve : ℕ} :
    classifyExpanded x = .ok (.initramfs, reserve) ↔
      isCpio x = true ∧ ¬ isKernel x ∧ x.length ≤ maxInitramfsExpanded ∧ reserve = x.length := by
  unfold classifyExpanded
  split_ifs with hk hf hc
  · refine ⟨fun h => ?_, fun h => absurd hk h.2.1⟩
    simp only [rejectIf_bind_ok] at h
    cases h.2.2.2
  · refine ⟨fun h => ?_, fun h => ?_⟩
    · simp only [rejectIf_bind_ok] at h
      cases h.2.2.2
    · rw [(isCpio_head h.1).1] at hf
      cases hf
  · simp only [rejectIf_bind_ok]
    constructor
    · rintro ⟨hlen, h⟩
      cases h
      exact ⟨hc, hk, by omega, rfl⟩
    · rintro ⟨-, -, hlen, rfl⟩
      exact ⟨by omega, rfl⟩
  · refine ⟨fun h => ?_, fun h => absurd h.1 hc⟩
    cases h

lemma memberRecord_ok {e : Enc} {m x : List UInt8} (h : memberRecord e m x offset = .ok r) :
    r.size = m.length ∧ isPayload r = true := by
  obtain ⟨⟨role, reserve⟩, hclass, h⟩ := bind_ok h
  cases h
  refine ⟨rfl, ?_⟩
  rcases classifyExpanded_ok hclass with rfl | rfl | rfl <;> rfl

lemma read_member_ok {m x : List UInt8} (hm : isMember m = true) (hx : Expands codec m x)
    (t : List UInt8) :
    readRecord codec allow (m ++ t) offset vars = .ok (r, vars') ↔
      x.length ≤ maxCompressedExpansion ∧ memberRecord (encOf m) m x offset = .ok r ∧
        vars' = vars := by
  rw [read_member hm hx]
  split_ifs with hlen
  · exact ⟨nofun, fun h => absurd h.1 (by omega)⟩
  · constructor
    · intro h
      obtain ⟨r', hr, e⟩ := map_ok h
      cases e
      exact ⟨by omega, hr, rfl⟩
    · rintro ⟨-, hr, rfl⟩
      rw [hr]
      rfl

lemma read_kernel_ok {m x : List UInt8} (hm : isMember m = true) (hx : Expands codec m x)
    (t : List UInt8) :
    (readRecord codec allow (m ++ t) offset vars = .ok (r, vars') ∧ r.role = .kernel) ↔
      KernelLimits x ∧ r = kernelRecord m x offset ∧ vars' = vars := by
  rw [read_member_ok hm hx]
  constructor
  · rintro ⟨⟨hlen, hr, rfl⟩, hrole⟩
    obtain ⟨⟨role, reserve⟩, hclass, hr⟩ := bind_ok hr
    cases hr
    cases hrole
    obtain ⟨hk, hcover, hreserve, rfl⟩ := classify_kernel.mp hclass
    exact ⟨⟨hlen, hk, hcover, hreserve⟩, rfl, rfl⟩
  · rintro ⟨hlim, rfl, rfl⟩
    have hclass := classify_kernel.mpr ⟨hlim.header, hlim.covers, hlim.reserve, rfl⟩
    refine ⟨⟨hlim.expansion, ?_, rfl⟩, rfl⟩
    rw [memberRecord, hclass]
    rfl

lemma read_archive_ok {m x : List UInt8} (hm : isMember m = true) (hx : Expands codec m x)
    (t : List UInt8) :
    (readRecord codec allow (m ++ t) offset vars = .ok (r, vars') ∧ r.role = .initramfs) ↔
      InitramfsLimits allow false x ∧ r = archiveRecord m x offset ∧ vars' = vars := by
  rw [read_member_ok hm hx]
  constructor
  · rintro ⟨⟨-, hr, rfl⟩, hrole⟩
    obtain ⟨⟨role, reserve⟩, hclass, hr⟩ := bind_ok hr
    cases hr
    cases hrole
    obtain ⟨hc, hk, hlen, rfl⟩ := classify_initramfs.mp hclass
    exact ⟨⟨hlen, hc, hk⟩, rfl, rfl⟩
  · rintro ⟨hlim, rfl, rfl⟩
    obtain ⟨hc, hk⟩ : isCpio x = true ∧ ¬ isKernel x := hlim.contents
    have hlen := hlim.expansion
    have hclass := classify_initramfs.mpr ⟨hc, hk, hlen, rfl⟩
    refine ⟨⟨?_, ?_, rfl⟩, rfl⟩
    · unfold maxInitramfsExpanded at hlen
      unfold maxCompressedExpansion
      omega
    · rw [memberRecord, hclass]
      rfl

lemma read_wrapper_ok {p : List UInt8} (hp : p.length < 2 ^ 32) (t : List UInt8) :
    readRecord codec allow (wrap p ++ t) offset vars = .ok (r, vars') ↔
      InitramfsLimits allow true p ∧ r = wrapperRecord p offset ∧ vars' = vars := by
  rw [read_wrapper hp]
  split_ifs with hw hlen
  · exact ⟨nofun, fun h => absurd h.1.expansion (by omega)⟩
  · constructor
    · intro h
      cases h
      exact ⟨⟨by omega, hw⟩, rfl, rfl⟩
    · rintro ⟨-, rfl, rfl⟩
      rfl
  · exact ⟨nofun, fun h => absurd h.1.contents hw⟩

lemma read_fdt_ok {d : List UInt8} (h8 : 8 ≤ d.length) (hm : startsWith d fdtMagic = true)
    (htotal : beNat (sub d 4 4) = d.length) (t : List UInt8) :
    readRecord codec allow (d ++ t) offset vars = .ok (r, vars') ↔
      (40 ≤ d.length ∧ d.length ≤ maxDtbSize) ∧ r = dtbRecord d offset ∧ vars' = vars := by
  rw [read_fdt h8 hm htotal]
  split_ifs with h40 hmax
  · exact ⟨nofun, fun h => absurd h.1.1 (by omega)⟩
  · exact ⟨nofun, fun h => absurd h.1.2 (by omega)⟩
  · constructor
    · intro h
      cases h
      exact ⟨⟨by omega, by omega⟩, rfl, rfl⟩
    · rintro ⟨-, rfl, rfl⟩
      rfl

lemma read_bootargs_ok {v : List UInt8} {bootargs : List Char}
    (hv : encodeAscii bootargs = some v) (hnl : (0x0a : UInt8) ∉ v) (t : List UInt8) :
    readRecord codec allow (lineOf bootargsBytes v ++ t) offset [] = .ok (r, vars') ↔
      bootargs.length ≤ 1024 ∧ r = variableRecord (lineOf bootargsBytes v) offset ∧
        vars' = [(bootargsName, bootargs)] := by
  rw [read_bootargs hv hnl, length_encode hv]
  split_ifs with hlen
  · exact ⟨nofun, fun h => absurd h.1 (by omega)⟩
  · constructor
    · intro h
      cases h
      exact ⟨by omega, rfl, rfl⟩
    · rintro ⟨-, rfl, rfl⟩
      rfl

/-! ### The object as a stream -/

lemma kernelMember_ok {i : Inputs} {xk xi k : List UInt8} (hc : Contents codec i xk xi)
    (h : kernelMember codec i.kernel = .ok k) : isMember k = true ∧ Expands codec k xk := by
  have hx := hc.kernel
  unfold kernelMember at h
  split_ifs at h hx with hm
  · cases h
    exact ⟨hm, hx⟩
  · obtain ⟨_, -, h⟩ := bind_ok h
    obtain ⟨_, -, h⟩ := bind_ok h
    cases h
    rw [← hx.1]
    exact hx.2

/-- The two forms of the initramfs are read alike. -/
lemma read_initramfs_ok {i : Inputs} {xk xi m : List UInt8} (hc : Contents codec i xk xi)
    (h : initramfsMember i.initramfs i.initrdWrapped = .ok m) (t : List UInt8) :
    ((readRecord codec allow (m ++ t) offset vars = .ok (r, vars') ∧ r.role = .initramfs) ↔
      InitramfsLimits allow i.initrdWrapped xi ∧
        r = initramfsRecord i.initrdWrapped m xi offset ∧ vars' = vars) ∧
    (readRecord codec allow (m ++ t) offset vars = .ok (r, vars') →
      r.size = m.length ∧ isPayload r = true) := by
  have hx := hc.initramfs
  unfold initramfsMember at h
  cases hw : i.initrdWrapped with
  | true =>
    rw [hw] at h hx
    obtain ⟨_, -, h⟩ := bind_ok h
    obtain ⟨_, hlen, h⟩ := bind_ok h
    cases h
    have hx' : xi = i.initramfs := hx
    subst hx'
    have hlen' := failIf_ok hlen
    have hread : readRecord codec allow (wrap i.initramfs ++ t) offset vars = .ok (r, vars') ↔ _ :=
      read_wrapper_ok (by omega) t
    refine ⟨⟨fun h => hread.mp h.1, fun h => ⟨hread.mpr h, ?_⟩⟩, fun h => ?_⟩
    · obtain ⟨-, rfl, -⟩ := h
      rfl
    · obtain ⟨-, rfl, -⟩ := hread.mp h
      exact ⟨rfl, rfl⟩
  | false =>
    rw [hw] at h hx
    obtain ⟨_, hm, h⟩ := bind_ok h
    cases h
    have hm' := not_not.mp (failIf_ok hm)
    refine ⟨read_archive_ok hm' hx t, fun hr => ?_⟩
    exact memberRecord_ok ((read_member_ok hm' hx t).mp hr).2.1

/-- The stream of an object, and the length of the zeros at its end. -/
structure Streamed (i : Inputs) (b : Built) (line : List UInt8) (z : ℕ) : Prop where
  output : b.output =
    i.m1n1 ++ (line ++ (b.kernel ++ (b.dtb ++ (b.initramfs ++ zeros z))))
  zeros : 4 ≤ z
  aligned : b.output.length % m1n1Alignment = 0
  line : line.length = lineLength i

lemma Packed.streamed {i : Inputs} {b : Built} {v : List UInt8} (hp : Packed codec i b v) :
    ∃ z, Streamed i b (lineOf bootargsBytes v) z := by
  obtain ⟨k, hk, -, haligned⟩ := pageAlign_eq
    (i.m1n1 ++ lineOf bootargsBytes v ++ b.kernel ++ i.dtb ++ b.initramfs ++ zeros 4)
  refine ⟨4 + k, ?_, by omega, ?_, ?_⟩
  · rw [hp.output, hk, hp.dtb, zeros, zeros, zeros, List.replicate_add]
    simp only [List.append_assoc]
  · rw [hp.output]
    exact haligned
  · have h15 : bootargsBytes.length = 15 := rfl
    simp only [lineOf, lineLength, List.length_append, List.length_singleton,
      length_encode hp.value]
    omega

lemma Streamed.layout_eq {i : Inputs} {b : Built} {line : List UInt8} {z : ℕ}
    (hs : Streamed i b line z) (xk xi : List UInt8) :
    layout i b xk xi = partRecords i b xk xi line z := by
  have hline : sub b.output i.m1n1.length (lineLength i) = line := by
    rw [hs.output, ← hs.line]
    exact sub_middle _ _ _
  have hz : b.output.length -
      (i.m1n1.length + lineLength i + b.kernel.length + b.dtb.length + b.initramfs.length) = z := by
    rw [hs.output, ← hs.line]
    simp only [List.length_append, ObjModel.zeros, List.length_replicate]
    omega
  rw [layout, hline, hz]

lemma parses_zeros {z : ℕ} (hz : 4 ≤ z) {rs : List Record} {vs : Vars} :
    Parses codec allow (zeros z) offset vars rs vs ↔
      rs = [terminatorRecord z offset] ∧ vs = vars := by
  have hread : readRecord codec allow (zeros z) offset vars =
      .ok (terminatorRecord z offset, vars) := read_terminator hz
  have hne : zeros z ≠ [] := by
    intro h
    have := congrArg List.length h
    rw [zeros, List.length_replicate, List.length_nil] at this
    omega
  have hdrop : (zeros z).drop z = [] := by
    rw [zeros, List.drop_replicate, Nat.sub_self, List.replicate_zero]
  rw [parses_iff hne]
  constructor
  · rintro ⟨r, vars', rs', hr, rfl, hrs⟩
    rw [hread] at hr
    cases hr
    change Parses codec allow ((zeros z).drop z) _ _ _ _ at hrs
    rw [hdrop] at hrs
    cases hrs with
    | done => exact ⟨rfl, rfl⟩
    | read h _ _ => exact absurd rfl h
  · rintro ⟨rfl, rfl⟩
    refine ⟨_, _, _, hread, rfl, ?_⟩
    change Parses codec allow ((zeros z).drop z) _ _ _ _
    rw [hdrop]
    exact .done

lemma initramfsMember_ne {data m : List UInt8} {wrapped : Bool}
    (h : initramfsMember data wrapped = .ok m) : m ≠ [] := by
  unfold initramfsMember at h
  split_ifs at h
  · obtain ⟨_, -, h⟩ := bind_ok h
    obtain ⟨_, -, h⟩ := bind_ok h
    cases h
    nofun
  · obtain ⟨_, hm, h⟩ := bind_ok h
    cases h
    have hm' := not_not.mp (failIf_ok hm)
    rintro rfl
    cases hm'

lemma initramfsRecord_size {i : Inputs} {xk xi m : List UInt8} (hc : Contents codec i xk xi)
    (h : initramfsMember i.initramfs i.initrdWrapped = .ok m) (offset : ℕ) :
    (initramfsRecord i.initrdWrapped m xi offset).size = m.length := by
  have hx := hc.initramfs
  unfold initramfsMember at h
  unfold initramfsRecord
  split_ifs at h hx ⊢
  · obtain ⟨_, -, h⟩ := bind_ok h
    obtain ⟨_, -, h⟩ := bind_ok h
    cases h
    rw [hx]
    rfl
  · rfl

lemma initramfsRecord_head (wrapped : Bool) (m x : List UInt8) (offset : ℕ) :
    (initramfsRecord wrapped m x offset).role = .initramfs ∧
      (initramfsRecord wrapped m x offset).offset = offset := by
  unfold initramfsRecord
  split_ifs
  · exact ⟨rfl, rfl⟩
  · exact ⟨rfl, rfl⟩

lemma filter_partRecords (i : Inputs) (b : Built) (xk xi line : List UInt8) (z : ℕ) :
    (partRecords i b xk xi line z).filter isPayload =
      [kernelRecord b.kernel xk (i.m1n1.length + line.length),
        dtbRecord b.dtb (i.m1n1.length + line.length + b.kernel.length),
        initramfsRecord i.initrdWrapped b.initramfs xi
          (i.m1n1.length + line.length + b.kernel.length + b.dtb.length)] := by
  unfold partRecords initramfsRecord
  cases i.initrdWrapped
  · rfl
  · rfl

lemma Packed.fdt {i : Inputs} {b : Built} {v : List UInt8} (hp : Packed codec i b v) :
    8 ≤ b.dtb.length ∧ startsWith b.dtb fdtMagic = true ∧
      beNat (sub b.dtb 4 4) = b.dtb.length := by
  rw [hp.dtb]
  exact ⟨hp.long, hp.magic, hp.total⟩

lemma Packed.nonempty {i : Inputs} {b : Built} {v xk xi : List UInt8} (hp : Packed codec i b v)
    (hc : Contents codec i xk xi) : b.kernel ≠ [] ∧ b.dtb ≠ [] ∧ b.initramfs ≠ [] := by
  refine ⟨fun h => ?_, fun h => ?_, initramfsMember_ne hp.initramfs⟩
  · have hlen := (member_head (kernelMember_ok hc hp.kernel).1 []).2.2
    rw [h] at hlen
    cases hlen
  · have hlen := hp.fdt.1
    rw [h] at hlen
    cases hlen

section

variable {i : Inputs} {b : Built} {v xk xi : List UInt8} {z : ℕ} {rs : List Record} {vs : Vars}

/-- The parts are read within their limits, once the order of the payloads is right. -/
lemma partLimits_of_parses (hp : Packed codec i b v) (hc : Contents codec i xk xi) (hz : 4 ≤ z)
    (h : Parses codec allow
      (lineOf bootargsBytes v ++ (b.kernel ++ (b.dtb ++ (b.initramfs ++ zeros z))))
      i.m1n1.length [] rs vs)
    (horder : (rs.filter isPayload).map Record.role = [.kernel, .dtb, .initramfs]) :
    PartLimits allow i b xk xi ∧ rs = partRecords i b xk xi (lineOf bootargsBytes v) z ∧
      vs = [(bootargsName, i.bootargs)] := by
  obtain ⟨hkm, hkx⟩ := kernelMember_ok hc hp.kernel
  obtain ⟨hd8, hdm, hdt⟩ := hp.fdt
  obtain ⟨hkne, hdne, hine⟩ := hp.nonempty hc
  obtain ⟨r1, w1, rs1, hr1, rfl, h1⟩ := h.uncons nofun fun r vars' hr => by
    rw [((read_bootargs_ok hp.value hp.newline _).mp hr).2.1]
    rfl
  obtain ⟨hlen, rfl, rfl⟩ := (read_bootargs_ok hp.value hp.newline _).mp hr1
  obtain ⟨r2, w2, rs2, hr2, rfl, h2⟩ := h1.uncons hkne fun r vars' hr =>
    (memberRecord_ok ((read_member_ok hkm hkx _).mp hr).2.1).1
  have hpay2 := (memberRecord_ok ((read_member_ok hkm hkx _).mp hr2).2.1).2
  obtain ⟨r3, w3, rs3, hr3, rfl, h3⟩ := h2.uncons hdne fun r vars' hr => by
    rw [((read_fdt_ok hd8 hdm hdt _).mp hr).2.1]
    rfl
  obtain ⟨hd, rfl, rfl⟩ := (read_fdt_ok hd8 hdm hdt _).mp hr3
  obtain ⟨r4, w4, rs4, hr4, rfl, h4⟩ := h3.uncons hine fun r vars' hr =>
    ((read_initramfs_ok hc hp.initramfs _).2 hr).1
  have hpay4 := ((read_initramfs_ok hc hp.initramfs _).2 hr4).2
  obtain ⟨rfl, rfl⟩ := (parses_zeros hz).mp h4
  -- only the members can have another role than the one the packer meant
  have hroles : r2.role = .kernel ∧ r4.role = .initramfs := by
    have hvar : isPayload (variableRecord (lineOf bootargsBytes v) i.m1n1.length) = false := rfl
    have hdtb (o : ℕ) : isPayload (dtbRecord b.dtb o) = true := rfl
    have hterm (o : ℕ) : isPayload (terminatorRecord z o) = false := rfl
    simp only [List.filter_cons, hvar, hpay2, hdtb, hpay4, hterm, List.filter_nil,
      Bool.false_eq_true, if_true, if_false, List.map_cons, List.map_nil,
      List.cons.injEq] at horder
    exact ⟨horder.1, horder.2.2.1⟩
  obtain ⟨hk, rfl, rfl⟩ := (read_kernel_ok hkm hkx _).mp ⟨hr2, hroles.1⟩
  obtain ⟨hi, rfl, rfl⟩ := (read_initramfs_ok hc hp.initramfs _).1.mp ⟨hr4, hroles.2⟩
  exact ⟨⟨hlen, hk, hd, hi⟩, rfl, rfl⟩

/-- Within their limits the parts are read. -/
lemma parses_of_partLimits (hp : Packed codec i b v) (hc : Contents codec i xk xi) (hz : 4 ≤ z)
    (h : PartLimits allow i b xk xi) :
    Parses codec allow
      (lineOf bootargsBytes v ++ (b.kernel ++ (b.dtb ++ (b.initramfs ++ zeros z))))
      i.m1n1.length [] (partRecords i b xk xi (lineOf bootargsBytes v) z)
      [(bootargsName, i.bootargs)] := by
  obtain ⟨hkm, hkx⟩ := kernelMember_ok hc hp.kernel
  obtain ⟨hd8, hdm, hdt⟩ := hp.fdt
  obtain ⟨hkne, hdne, hine⟩ := hp.nonempty hc
  have hread (o : ℕ) (w : Vars) : readRecord codec allow (b.initramfs ++ zeros z) o w =
      .ok (initramfsRecord i.initrdWrapped b.initramfs xi o, w) :=
    ((read_initramfs_ok hc hp.initramfs _).1.mpr ⟨h.initramfs, rfl, rfl⟩).1
  refine .cons nofun ((read_bootargs_ok hp.value hp.newline _).mpr ⟨h.bootargs, rfl, rfl⟩) rfl ?_
  refine .cons hkne ((read_kernel_ok hkm hkx _).mpr ⟨h.kernel, rfl, rfl⟩).1 rfl ?_
  refine .cons hdne ((read_fdt_ok hd8 hdm hdt _).mpr ⟨h.dtb, rfl, rfl⟩) rfl ?_
  refine .cons hine (hread _ _) (initramfsRecord_size hc hp.initramfs _) ?_
  exact (parses_zeros hz).mpr ⟨rfl, rfl⟩

end

/-- The bytes between two parts of an object. -/
lemma bytesOf_part {object a m t : List UInt8} (r : Record) (h : object = a ++ (m ++ t))
    (ho : r.offset = a.length) (hs : r.size = m.length) : bytesOf object r = m := by
  rw [bytesOf, h, ho, hs]
  exact sub_middle a m t

lemma Streamed.accepted {i : Inputs} {b : Built} {line xk xi : List UInt8} {z : ℕ}
    (hs : Streamed i b line z) (hc : Contents codec i xk xi)
    (hi : initramfsMember i.initramfs i.initrdWrapped = .ok b.initramfs) :
    Accepted b.output ⟨some b.kernel, some b.dtb, some b.initramfs⟩ i.bootargs
      (partRecords i b xk xi line z) [(bootargsName, i.bootargs)] where
  order := by
    rw [filter_partRecords, List.map_cons, List.map_cons, List.map_cons,
      (initramfsRecord_head _ _ _ _).1]
    rfl
  terminator := ⟨_, rfl, rfl, hs.zeros⟩
  artifacts := by
    intro r hr
    rw [filter_partRecords] at hr
    simp only [List.mem_cons, List.not_mem_nil, or_false] at hr
    rcases hr with rfl | rfl | rfl
    · have hout : b.output = (i.m1n1 ++ line) ++
          (b.kernel ++ (b.dtb ++ (b.initramfs ++ ObjModel.zeros z))) := by
        rw [hs.output, List.append_assoc]
      refine congrArg some (bytesOf_part _ hout ?_ rfl).symm
      rw [List.length_append]
      rfl
    · have hout : b.output = (i.m1n1 ++ line ++ b.kernel) ++
          (b.dtb ++ (b.initramfs ++ ObjModel.zeros z)) := by
        rw [hs.output, List.append_assoc, List.append_assoc]
      refine congrArg some (bytesOf_part _ hout ?_ rfl).symm
      rw [List.length_append, List.length_append]
      rfl
    · have hout : b.output = (i.m1n1 ++ line ++ b.kernel ++ b.dtb) ++
          (b.initramfs ++ ObjModel.zeros z) := by
        rw [hs.output, List.append_assoc, List.append_assoc, List.append_assoc]
      rw [(initramfsRecord_head _ _ _ _).1]
      refine congrArg some (bytesOf_part _ hout ?_ (initramfsRecord_size hc hi _)).symm
      rw [(initramfsRecord_head _ _ _ _).2, List.length_append, List.length_append,
        List.length_append]
  bootargs := List.lookup_cons_self

/-- The verdict of the verifier in strict mode on what the packer wrote. -/
def verdict (codec : Codec) (i : Inputs) (b : Built) (allow : Bool) (limit : ℕ) : Check Report :=
  verifyObject codec b.output i.m1n1 ⟨some b.kernel, some b.dtb, some b.initramfs⟩
    (some i.bootargs) true allow limit

section

variable {i : Inputs} {b : Built} {v xk xi : List UInt8} {limit : ℕ}

lemma limits_of_verdict (hp : Packed codec i b v) (hc : Contents codec i xk xi) {rep : Report}
    (h : verdict codec i b allow limit = .ok rep) :
    Limits allow limit i b xk xi ∧ rep.records = layout i b xk xi ∧
      rep.vars = [(bootargsName, i.bootargs)] := by
  obtain ⟨z, hs⟩ := hp.streamed
  obtain ⟨henv, records, vars, hparse, ⟨wanted, -, hacc⟩, rfl⟩ := verifyObject_ok.mp h
  rw [hs.output, List.drop_left] at hparse
  obtain ⟨hlim, hrs, hvs⟩ := partLimits_of_parses hp hc hs.zeros hparse hacc.order
  exact ⟨⟨hlim, henv.size⟩, hrs.trans (hs.layout_eq xk xi).symm, hvs⟩

lemma verdict_of_limits (hp : Packed codec i b v) (hc : Contents codec i xk xi)
    (h : Limits allow limit i b xk xi) : ∃ rep, verdict codec i b allow limit = .ok rep := by
  obtain ⟨z, hs⟩ := hp.streamed
  have hparse := parses_of_partLimits hp hc hs.zeros h.toPartLimits
  have hdrop : b.output.drop i.m1n1.length =
      lineOf bootargsBytes v ++ (b.kernel ++ (b.dtb ++ (b.initramfs ++ zeros z))) := by
    rw [hs.output, List.drop_left]
  rw [← hdrop] at hparse
  have henv : Envelope b.output i.m1n1 limit :=
    ⟨h.object, hp.base, hs.aligned, hp.entry, hp.nonzero, startsWith_iff.mpr ⟨_, hs.output⟩⟩
  exact ⟨_, verifyObject_ok.mpr
    ⟨henv, _, _, hparse, ⟨_, rfl, hs.accepted hc hp.initramfs⟩, rfl⟩⟩

/-- **The verifier accepts what the packer wrote exactly when the contents are within the
limits, and it then reads back the records of the packer.** -/
theorem packer_verifier_agree (hb : build codec i = .ok b) (hc : Contents codec i xk xi)
    (allow : Bool) (limit : ℕ) :
    ((∃ rep, verdict codec i b allow limit = .ok rep) ↔ Limits allow limit i b xk xi) ∧
      ∀ rep, verdict codec i b allow limit = .ok rep →
        rep.records = layout i b xk xi ∧ rep.vars = [(bootargsName, i.bootargs)] := by
  obtain ⟨v, hp⟩ := build_ok hb
  refine ⟨⟨?_, verdict_of_limits hp hc⟩, fun rep h => (limits_of_verdict hp hc h).2⟩
  rintro ⟨rep, h⟩
  exact (limits_of_verdict hp hc h).1

end

/-! ### A small object -/

/-- An arm64 `Image` of 64 bytes that asks for a page. -/
def smallImage : List UInt8 := zeros 17 ++ [0x10] ++ zeros 38 ++ kernelMagic ++ zeros 4

def smallArchive : List UInt8 := [0x30, 0x37, 0x30, 0x37, 0x30, 0x31, 0x30, 0x30]

/-- What `gzip` makes of the image. -/
def smallImageGz : List UInt8 :=
  [0x1f, 0x8b, 0x08, 0x00, 0x00, 0x00, 0x00, 0x00, 0x02, 0x03, 0x63, 0x60, 0x40, 0x03, 0x02,
    0x0c, 0x44, 0x01, 0xc7, 0x20, 0xdf, 0x14, 0x10, 0x0d, 0x00, 0xf1, 0x38, 0xa1, 0xda, 0x40,
    0x00, 0x00, 0x00]

/-- What `gzip` makes of the archive. -/
def smallArchiveGz : List UInt8 :=
  [0x1f, 0x8b, 0x08, 0x00, 0x00, 0x00, 0x00, 0x00, 0x02, 0x03, 0x33, 0x30, 0x37, 0x30, 0x37,
    0x30, 0x34, 0x30, 0x00, 0x00, 0xaa, 0x05, 0x4d, 0xb6, 0x08, 0x00, 0x00, 0x00]

def smallDtb : List UInt8 := fdtMagic ++ [0, 0, 0, 40] ++ zeros 32

/-- What `gzip` makes of the device tree. -/
def smallDtbGz : List UInt8 :=
  [0x1f, 0x8b, 0x08, 0x00, 0x00, 0x00, 0x00, 0x00, 0x02, 0x03, 0xbb, 0xc0, 0xfb, 0xef, 0x2d,
    0x03, 0x03, 0x83, 0x06, 0x03, 0x01, 0x00, 0x00, 0xf7, 0xa1, 0xfe, 0x3d, 0x28, 0x00, 0x00,
    0x00]

def smallMembers : List (List UInt8 × List UInt8) :=
  [(smallImageGz, smallImage), (smallArchiveGz, smallArchive), (smallDtbGz, smallDtb)]

/-- The compressor and the decoder on these members; `flush` gives the output past the limit. -/
def smallCodec : Codec where
  inflate
    | .gzip, data, _ => (smallMembers.find? fun p => startsWith data p.1).map fun p =>
        ⟨p.2, true, data.length - p.1.length⟩
    | .xz, _, _ => none
  compress x := ((smallMembers.find? fun p => p.2 = x).map Prod.fst).getD []

lemma expands_small {m x : List UInt8} (henc : encOf m = .gzip)
    (h : ∀ rest, (smallMembers.find? fun p => startsWith (m ++ rest) p.1) = some (m, x)) :
    Expands smallCodec m x := by
  intro rest max
  have hinflate : smallCodec.inflate (encOf m) (m ++ rest) max = some ⟨x, true, rest.length⟩ := by
    rw [henc, smallCodec]
    dsimp only
    rw [h rest, Option.map_some, List.length_append, Nat.add_sub_cancel_left]
  exact ⟨fun _ => hinflate, fun hmax => ⟨_, hinflate, hmax⟩⟩

def smallInputs (bootargs : List Char) : Inputs where
  m1n1 := List.replicate m1n1Alignment 1
  kernel := smallImage
  dtb := smallDtb
  initramfs := smallArchiveGz
  bootargs
  initrdWrapped := false

/-- The object of these parts. -/
def smallObject (value : List UInt8) : Built where
  output := pageAlign (List.replicate m1n1Alignment 1 ++ lineOf bootargsBytes value ++
    smallImageGz ++ smallDtb ++ smallArchiveGz ++ zeros 4)
  kernel := smallImageGz
  dtb := smallDtb
  initramfs := smallArchiveGz

lemma contents_small (bootargs : List Char) :
    Contents smallCodec (smallInputs bootargs) smallImage smallArchive where
  kernel := by
    have hraw : isMember smallImage = false := by decide
    have hgz : smallCodec.compress smallImage = smallImageGz := by decide
    change if isMember smallImage then _ else _
    rw [hraw, hgz]
    exact ⟨rfl, by decide, expands_small rfl fun _ => rfl⟩
  initramfs := expands_small rfl fun _ => rfl

lemma entry_small :
    rawEntryPoint + 4 < (List.replicate m1n1Alignment (1 : UInt8)).length ∧
    sub (List.replicate m1n1Alignment 1) rawEntryPoint 4 ≠ [0, 0, 0, 0] := by
  rw [List.length_replicate, sub, List.drop_replicate, List.take_replicate]
  decide

lemma kernel_small : kernelMember smallCodec smallImage = .ok smallImageGz := by
  have hraw : isMember smallImage = false := by decide
  have hk : isKernel smallImage := by decide
  have hsize : ¬ (imageSize smallImage = 0 ∨ imageSize smallImage < smallImage.length) := by
    decide
  have hgz : smallCodec.compress smallImage = smallImageGz := by decide
  rw [kernelMember, hraw, failIf_of_not (not_not.mpr hk), failIf_of_not hsize, hgz]
  rfl

lemma packed_small {bootargs : List Char} {value : List UInt8}
    (hv : encodeAscii bootargs = some value) (hnl : (0x0a : UInt8) ∉ value) :
    Packed smallCodec (smallInputs bootargs) (smallObject value) value where
  value := hv
  newline := hnl
  base := by
    rw [smallInputs, List.length_replicate, Nat.mod_self]
  entry := entry_small.1
  nonzero := entry_small.2
  kernel := kernel_small
  long := (by decide : 8 ≤ smallDtb.length)
  magic := (by decide : startsWith smallDtb fdtMagic = true)
  total := (by decide : beNat (sub smallDtb 4 4) = smallDtb.length)
  dtb := rfl
  initramfs := rfl
  output := by dsimp only [smallObject, smallInputs]

lemma limits_small {bootargs : List Char} {value : List UInt8}
    (hv : encodeAscii bootargs = some value) (hlen : bootargs.length ≤ 1024) :
    Limits false maxObjectSize (smallInputs bootargs) (smallObject value) smallImage
      smallArchive where
  bootargs := hlen
  kernel := ⟨by decide, by decide, by decide, by decide⟩
  dtb := (by decide : 40 ≤ smallDtb.length ∧ smallDtb.length ≤ maxDtbSize)
  initramfs := ⟨by decide, (by decide : isCpio smallArchive = true ∧ ¬ isKernel smallArchive)⟩
  object := by
    obtain ⟨k, hk, hle, -⟩ := pageAlign_eq (List.replicate m1n1Alignment 1 ++
      lineOf bootargsBytes value ++ smallImageGz ++ smallDtb ++ smallArchiveGz ++ zeros 4)
    have hname : bootargsBytes.length = 15 := rfl
    have hdtb : smallDtb.length = 40 := rfl
    have himage : smallImageGz.length = 33 := rfl
    have harchive : smallArchiveGz.length = 28 := rfl
    rw [smallObject, hk]
    simp only [lineOf, List.length_append, List.length_replicate, hname, hdtb, himage, harchive,
      zeros, List.length_singleton, length_encode hv]
    unfold m1n1Alignment at hle ⊢
    unfold maxObjectSize
    omega

def smallBootargs : List Char := "maxcpus=1".toList

/-- The bootargs in bytes. -/
def smallValue : List UInt8 := [0x6d, 0x61, 0x78, 0x63, 0x70, 0x75, 0x73, 0x3d, 0x31]

lemma packed_smallBootargs :
    Packed smallCodec (smallInputs smallBootargs) (smallObject smallValue) smallValue :=
  packed_small (by decide) (by decide)

lemma limits_smallBootargs :
    Limits false maxObjectSize (smallInputs smallBootargs) (smallObject smallValue) smallImage
      smallArchive :=
  limits_small (by decide) (by decide)

lemma build_small :
    build smallCodec (smallInputs smallBootargs) = .ok (smallObject smallValue) := by
  have hp := packed_smallBootargs
  exact build_of_checks (by decide) (by decide) hp.base hp.entry hp.nonzero hp.kernel hp.long
    hp.magic hp.total hp.initramfs (by decide)

theorem packer_verifier_agree_small :
    build smallCodec (smallInputs smallBootargs) = .ok (smallObject smallValue) ∧
      Contents smallCodec (smallInputs smallBootargs) smallImage smallArchive ∧
      ∃ rep, verdict smallCodec (smallInputs smallBootargs) (smallObject smallValue) false
          maxObjectSize = .ok rep ∧
        rep.records.map Record.role = [.variable, .kernel, .dtb, .initramfs, .terminator] := by
  refine ⟨build_small, contents_small _, ?_⟩
  have hagree := packer_verifier_agree build_small (contents_small _) false maxObjectSize
  obtain ⟨rep, hrep⟩ := hagree.1.mpr limits_smallBootargs
  refine ⟨rep, hrep, ?_⟩
  rw [(hagree.2 rep hrep).1]
  rfl

end Wallace.ObjBuild
