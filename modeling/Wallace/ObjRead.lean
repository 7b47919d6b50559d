import Mathlib.Data.List.Basic
import Mathlib.Tactic.Common
import Wallace.Checks
import Wallace.ObjModel

/-!
One record of the payload stream, in both directions: what the verifier reads from the
start of a known record, and what it has seen when it read one.
-/

namespace Wallace.ObjRead

open Bytes Checks ObjModel

lemma startsWith_iff {data magic : List UInt8} :
    startsWith data magic = true ↔ ∃ t, data = magic ++ t := by
  rw [startsWith, List.isPrefixOf_iff_prefix]
  exact ⟨fun ⟨t, h⟩ => ⟨t, h.symm⟩, fun ⟨t, h⟩ => ⟨t, h.symm⟩⟩

lemma startsWith_append {data magic : List UInt8} (t : List UInt8)
    (h : startsWith data magic = true) : startsWith (data ++ t) magic = true := by
  obtain ⟨u, rfl⟩ := startsWith_iff.mp h
  exact startsWith_iff.mpr ⟨u ++ t, List.append_assoc _ _ _⟩

lemma isMember_append {data : List UInt8} (t : List UInt8) (h : isMember data = true) :
    isMember (data ++ t) = true := by
  unfold isMember at h ⊢
  rw [Bool.or_eq_true] at h ⊢
  exact h.imp (startsWith_append t) (startsWith_append t)

/-- A member is not the terminator, and its encoding is read off its magic alone. -/
lemma member_head {m : List UInt8} (h : isMember m = true) (t : List UInt8) :
    startsWith (m ++ t) [0, 0, 0, 0] = false ∧ encOf (m ++ t) = encOf m ∧ 2 ≤ m.length := by
  unfold isMember at h
  rw [Bool.or_eq_true] at h
  rcases h with h | h
  · obtain ⟨u, rfl⟩ := startsWith_iff.mp h
    exact ⟨rfl, rfl, by simp [gzipMagic]⟩
  · obtain ⟨u, rfl⟩ := startsWith_iff.mp h
    exact ⟨rfl, rfl, by simp [xzMagic]⟩

lemma rejectIf_of {c : Prop} [Decidable c] (h : c) (f : Fault) : rejectIf c f = .error f := by
  rw [rejectIf, if_pos h]
  rfl

lemma rejectIf_of_not {c : Prop} [Decidable c] (h : ¬ c) (f : Fault) : rejectIf c f = .ok () := by
  rw [rejectIf, if_neg h]
  rfl

lemma rejectIf_ok {c : Prop} [Decidable c] {f : Fault} {u : Unit} (h : rejectIf c f = .ok u) :
    ¬ c := by
  intro hc
  rw [rejectIf, if_pos hc] at h
  cases h

/-! ### Reading a known record -/

/-- The decoder, given the member and anything after it, stops at the end of the member and
gives its expansion, if the output limit leaves room for it. -/
def Expands (codec : Codec) (m x : List UInt8) : Prop :=
  ∀ rest max, (x.length < max →
      codec.inflate (encOf m) (m ++ rest) max = some ⟨x, true, rest.length⟩) ∧
    (max ≤ x.length → ∃ d, codec.inflate (encOf m) (m ++ rest) max = some d ∧ max ≤ d.out.length)

variable {codec : Codec} {allow : Bool} {offset : ℕ} {vars : Vars}

lemma read_member {m x : List UInt8} (hm : isMember m = true) (hx : Expands codec m x)
    (t : List UInt8) :
    readRecord codec allow (m ++ t) offset vars =
      if maxCompressedExpansion < x.length then .error (.memberOverLimit (encOf m))
      else (·, vars) <$> memberRecord (encOf m) m x offset := by
  obtain ⟨hz, henc, hlen⟩ := member_head hm t
  rw [readRecord, hz, isMember_append t hm, readMember, henc]
  simp only [Bool.false_eq_true, if_false, if_true]
  split_ifs with h
  · obtain ⟨d, hd, hlong⟩ := (hx t (maxCompressedExpansion + 1)).2 h
    rw [decompressMember, hd]
    dsimp only
    rw [rejectIf_of (by omega)]
    rfl
  · rw [decompressMember, (hx t (maxCompressedExpansion + 1)).1 (by omega)]
    dsimp only
    have hsize : (m ++ t).length - t.length = m.length := by
      rw [List.length_append]
      omega
    rw [rejectIf_of_not h, rejectIf_of_not nofun, hsize, rejectIf_of_not (by omega)]
    change (·, vars) <$> memberRecord (encOf m) ((m ++ t).take m.length) x offset = _
    rw [List.take_left]

def dtbRecord (d : List UInt8) (offset : ℕ) : Record :=
  { role := .dtb, encoding := .raw, offset, size := d.length, sha256 := d
    expandedSize := some d.length
    expandedSha256 := some d
    runtimeReserve := d.length + dtbGrowthReserve }

lemma read_fdt {d : List UInt8} (h8 : 8 ≤ d.length) (hm : startsWith d fdtMagic = true)
    (htotal : beNat (sub d 4 4) = d.length) (t : List UInt8) :
    readRecord codec allow (d ++ t) offset vars =
      if d.length < 40 then .error (.invalidFdtSize d.length offset)
      else if maxDtbSize < d.length then .error (.fdtLimit d.length)
      else .ok (dtbRecord d offset, vars) := by
  have hread : readRecord codec allow (d ++ t) offset vars =
      (·, vars) <$> readFdt (d ++ t) offset := by
    obtain ⟨u, rfl⟩ := startsWith_iff.mp hm
    rfl
  have hlen : (d ++ t).length = d.length + t.length := List.length_append
  rw [hread, readFdt]
  dsimp only
  rw [sub_append_left t h8, htotal, rejectIf_of_not (by omega)]
  split_ifs with h1 h2
  · rw [rejectIf_of (Or.inl h1)]
    rfl
  · rw [rejectIf_of_not (by omega), rejectIf_of h2]
    rfl
  · rw [rejectIf_of_not (by omega), rejectIf_of_not h2, List.take_left]
    rfl

/-- The wrapper around a payload. -/
def wrap (p : List UInt8) : List UInt8 := initramfsMagic ++ toLe 4 p.length ++ p

def wrapperRecord (p : List UInt8) (offset : ℕ) : Record :=
  { role := .initramfs, encoding := .wrapper, offset, size := (wrap p).length, sha256 := wrap p
    expandedSize := some p.length
    expandedSha256 := some p
    runtimeReserve := p.length }

lemma length_wrap (p : List UInt8) : (wrap p).length = 18 + p.length := by
  simp only [wrap, initramfsMagic, List.length_append, length_toLe, List.length_cons,
    List.length_nil]

lemma read_wrapper {p : List UInt8} (hp : p.length < 2 ^ 32) (t : List UInt8) :
    readRecord codec allow (wrap p ++ t) offset vars =
      if ¬ wrappable allow p then .error (.wrapperNotCpio allow)
      else if maxInitramfsExpanded < p.length then .error .wrapperLimit
      else .ok (wrapperRecord p offset, vars) := by
  have hread : readRecord codec allow (wrap p ++ t) offset vars =
      (·, vars) <$> readWrapper allow (wrap p ++ t) offset := rfl
  have hlen : (wrap p ++ t).length = 18 + p.length + t.length := by
    rw [List.length_append, length_wrap]
  have hsize : leNat (sub (wrap p ++ t) 14 4) = p.length := by
    have h14 : sub (wrap p ++ t) 14 4 = toLe 4 p.length := by
      rw [wrap, List.append_assoc, List.append_assoc]
      have h := sub_middle initramfsMagic (toLe 4 p.length) (p ++ t)
      rwa [length_toLe] at h
    rw [h14, leNat_toLe _ _ (by simpa using hp)]
  have hpay : sub (wrap p ++ t) 18 p.length = p := by
    rw [wrap, List.append_assoc]
    have h := sub_middle (initramfsMagic ++ toLe 4 p.length) p t
    rwa [List.length_append, length_toLe] at h
  have htake : (wrap p ++ t).take (18 + p.length) = wrap p := by
    rw [← length_wrap, List.take_left]
  rw [hread, readWrapper]
  dsimp only
  rw [hsize, hpay, htake, rejectIf_of_not (by omega), rejectIf_of_not (by omega)]
  split_ifs with h1 h2
  · rw [rejectIf_of_not (not_not.mpr h1), rejectIf_of h2]
    rfl
  · rw [rejectIf_of_not (not_not.mpr h1), rejectIf_of_not h2, wrapperRecord, length_wrap]
    rfl
  · rw [rejectIf_of h1]
    rfl

lemma read_terminator {n : ℕ} (hn : 4 ≤ n) :
    readRecord codec allow (zeros n) offset vars =
      .ok ({ role := .terminator, encoding := .zero, offset, size := n, sha256 := zeros n },
        vars) := by
  obtain ⟨k, rfl⟩ : ∃ k, n = 4 + k := ⟨n - 4, by omega⟩
  have hz : zeros (4 + k) = [0, 0, 0, 0] ++ zeros k := by
    rw [zeros, List.replicate_add]
    rfl
  have hread : readRecord codec allow (zeros (4 + k)) offset vars =
      (·, vars) <$> readTerminator (zeros (4 + k)) offset := by
    rw [hz]
    rfl
  have hlen : (zeros (4 + k)).length = 4 + k := List.length_replicate
  rw [hread, readTerminator, rejectIf_of_not (by simp [zeros]), hlen]
  rfl

/-! ### Variables -/

lemma decode_encode {s : List Char} {b : List UInt8} (h : encodeAscii s = some b) :
    decodeAscii b = some s := by
  unfold encodeAscii at h
  split_ifs at h with hs
  cases h
  have hs' : ∀ c ∈ s, c.toNat < 128 := by simpa using hs
  have hbyte : ∀ c ∈ s, (UInt8.ofNat c.toNat).toNat = c.toNat := by
    intro c hc
    have := hs' c hc
    rw [UInt8.toNat_ofNat']
    omega
  have hall : (s.map fun c => UInt8.ofNat c.toNat).all (·.toNat < 128) = true := by
    rw [List.all_map, List.all_eq_true]
    intro c hc
    simpa [hbyte c hc] using hs' c hc
  rw [decodeAscii, if_pos hall, List.map_map]
  congr 1
  calc s.map ((fun b : UInt8 => Char.ofNat b.toNat) ∘ fun c => UInt8.ofNat c.toNat)
      = s.map id := List.map_congr_left fun c hc => by simp [hbyte c hc]
    _ = s := List.map_id s

/-- The line of a variable. -/
def lineOf (name value : List UInt8) : List UInt8 := name ++ [0x3d] ++ value ++ [0x0a]

lemma encode_line {name value : List Char} {line : List UInt8}
    (h : encodeAscii (name ++ ['='] ++ value ++ ['\n']) = some line) :
    ∃ n v, encodeAscii name = some n ∧ encodeAscii value = some v ∧ line = lineOf n v := by
  unfold encodeAscii at h
  split_ifs at h with hs
  simp only [List.all_append, Bool.and_eq_true] at hs
  cases h
  refine ⟨_, _, if_pos hs.1.1.1, if_pos hs.1.2, ?_⟩
  simp only [List.map_append, lineOf]
  rfl

lemma findIdx_first {l t : List UInt8} {b : UInt8} (h : b ∉ l) :
    (l ++ b :: t).findIdx? (· = b) = some l.length := by
  induction l with
  | nil =>
    rw [List.nil_append, List.findIdx?_cons]
    simp
  | cons a l ih =>
    have hne : ¬ a = b := fun e => h (e ▸ List.mem_cons_self)
    have htail := ih fun hb => h (List.mem_cons_of_mem _ hb)
    rw [List.cons_append, List.findIdx?_cons]
    simp only [hne, decide_false, Bool.false_eq_true, if_false, htail, Option.map_some,
      List.length_cons]

/-- The newline is found if the value leaves room for it in the window. -/
lemma findIdx_window {v t : List UInt8} (hv : (0x0a : UInt8) ∉ v) :
    ((v ++ 0x0a :: t).take 1025).findIdx? (· = 0x0a) =
      if v.length ≤ 1024 then some v.length else none := by
  split_ifs with h
  · obtain ⟨k, hk⟩ : ∃ k, 1025 - v.length = k + 1 := ⟨1024 - v.length, by omega⟩
    rw [List.take_append, List.take_of_length_le (by omega), hk, List.take_succ_cons]
    exact findIdx_first hv
  · rw [List.take_append_of_le_length (by omega), List.findIdx?_eq_none_iff]
    intro b hb
    have hne : b ≠ 0x0a := fun e => hv (e ▸ List.mem_of_mem_take hb)
    simpa using hne

/-- `chosen.bootargs`, in bytes. -/
def bootargsBytes : List UInt8 := bootargsName.map fun c => UInt8.ofNat c.toNat

def variableRecord (line : List UInt8) (offset : ℕ) : Record :=
  { role := .variable, encoding := .name bootargsName, offset, size := line.length, sha256 := line }

lemma parse_bootargs {v : List UInt8} {bootargs : List Char}
    (hv : encodeAscii bootargs = some v) (hnl : (0x0a : UInt8) ∉ v) (t : List UInt8) :
    parseVariable (lineOf bootargsBytes v ++ t) offset =
      if 1024 < v.length then .error (.unterminatedVariable offset)
      else .ok (some (bootargsName, bootargs, (lineOf bootargsBytes v).length)) := by
  have hsplit : lineOf bootargsBytes v ++ t = bootargsBytes ++ 0x3d :: (v ++ 0x0a :: t) := by
    simp [lineOf]
  have hname : ((lineOf bootargsBytes v ++ t).take 65).findIdx? (· = 0x3d) = some 15 := by
    rw [hsplit]
    rfl
  have hdrop : (lineOf bootargsBytes v ++ t).drop (15 + 1) = v ++ 0x0a :: t := by
    rw [hsplit]
    rfl
  have htake : (lineOf bootargsBytes v ++ t).take 15 = bootargsBytes := by
    rw [hsplit]
    rfl
  have hval : sub (lineOf bootargsBytes v ++ t) (15 + 1) v.length = v := by
    rw [sub, hdrop, List.take_left]
  have hdec : decodeAscii bootargsBytes = some bootargsName := by decide
  have hlen : (lineOf bootargsBytes v).length = 15 + 1 + v.length + 1 := by
    have h15 : bootargsBytes.length = 15 := rfl
    simp only [lineOf, List.length_append, List.length_singleton]
    omega
  rw [parseVariable, hname]
  dsimp only
  rw [hdrop, findIdx_window hnl]
  split_ifs with h1 h2 h2
  · omega
  · dsimp only
    rw [htake, hval, hdec, decode_encode hv, hlen]
    rfl
  · rfl
  · omega

lemma read_bootargs {v : List UInt8} {bootargs : List Char} (hv : encodeAscii bootargs = some v)
    (hnl : (0x0a : UInt8) ∉ v) (t : List UInt8) :
    readRecord codec allow (lineOf bootargsBytes v ++ t) offset [] =
      if 1024 < v.length then .error (.unterminatedVariable offset)
      else .ok (variableRecord (lineOf bootargsBytes v) offset, [(bootargsName, bootargs)]) := by
  have hread : readRecord codec allow (lineOf bootargsBytes v ++ t) offset [] =
      readVariable (lineOf bootargsBytes v ++ t) offset [] := rfl
  rw [hread, readVariable, parse_bootargs hv hnl]
  split_ifs with h
  · rfl
  · have htake : (lineOf bootargsBytes v ++ t).take (lineOf bootargsBytes v).length =
        lineOf bootargsBytes v := List.take_left
    change Except.ok ((⟨.variable, .name bootargsName, offset, (lineOf bootargsBytes v).length,
      (lineOf bootargsBytes v ++ t).take (lineOf bootargsBytes v).length, none, none, 0, none⟩ :
        Record), _) = _
    rw [htake]
    rfl

/-! ### What has been read -/

/-- A record lies at the start of what remains. -/
structure Located (rest : List UInt8) (offset : ℕ) (r : Record) : Prop where
  offset : r.offset = offset
  pos : 0 < r.size
  size : r.size ≤ rest.length

/-- What the verifier has seen when it made a record, and the variables after it. -/
inductive Seen (codec : Codec) (allow : Bool) (rest : List UInt8) (vars : Vars) (r : Record) :
    Vars → Prop
  | terminator (role : r.role = .terminator) (zero : ∀ b ∈ rest, b = 0) (four : 4 ≤ r.size)
      (size : r.size = rest.length) : Seen codec allow rest vars r vars
  | member (d : Inflated) (encoding : r.encoding = .member (encOf rest))
      (payload : isPayload r = true) (magic : isMember rest = true)
      (inflate : codec.inflate (encOf rest) rest (maxCompressedExpansion + 1) = some d)
      (eof : d.eof = true) (size : r.size = rest.length - d.unused) :
      Seen codec allow rest vars r vars
  | fdt (role : r.role = .dtb) (encoding : r.encoding = .raw)
      (magic : startsWith rest fdtMagic = true) (total : beNat (sub rest 4 4) = r.size)
      (forty : 40 ≤ r.size) : Seen codec allow rest vars r vars
  | wrapper (p : List UInt8) (role : r.role = .initramfs) (encoding : r.encoding = .wrapper)
      (bytes : rest.take r.size = wrap p) (short : p.length < 2 ^ 32)
      (cpio : wrappable allow p) : Seen codec allow rest vars r vars
  | inert (role : r.role = .signature ∨ r.role = .logo) : Seen codec allow rest vars r vars
  | setting (name value : List Char) (n v : List UInt8) (role : r.role = .variable)
      (encoding : r.encoding = .name name) (hn : decodeAscii n = some name)
      (hv : decodeAscii v = some value) (newline : (0x0a : UInt8) ∉ v)
      (bytes : rest.take r.size = lineOf n v) (fresh : name ∉ vars.map Prod.fst) :
      Seen codec allow rest vars r ((name, value) :: vars)

lemma readTerminator_ok {rest : List UInt8} {r : Record} (hm : startsWith rest [0, 0, 0, 0] = true)
    (h : readTerminator rest offset = .ok r) :
    Located rest offset r ∧ Seen codec allow rest vars r vars := by
  obtain ⟨_, hc, h⟩ := bind_ok h
  cases h
  obtain ⟨t, ht⟩ := startsWith_iff.mp hm
  have hfour : 4 ≤ rest.length := by
    rw [ht, List.length_append]
    exact Nat.le_add_right _ _
  have hzero : ∀ b ∈ rest, b = 0 := by
    simpa using rejectIf_ok hc
  exact ⟨⟨rfl, by dsimp only; omega, Nat.le_refl _⟩, .terminator rfl hzero hfour rfl⟩

lemma classifyExpanded_ok {data : List UInt8} {role : Role} {reserve : ℕ}
    (h : classifyExpanded data = .ok (role, reserve)) :
    role = .kernel ∨ role = .dtb ∨ role = .initramfs := by
  unfold classifyExpanded at h
  split_ifs at h
  · obtain ⟨_, -, h⟩ := bind_ok h
    obtain ⟨_, -, h⟩ := bind_ok h
    obtain ⟨_, -, h⟩ := bind_ok h
    cases h
    exact .inl rfl
  · obtain ⟨_, -, h⟩ := bind_ok h
    obtain ⟨_, -, h⟩ := bind_ok h
    obtain ⟨_, -, h⟩ := bind_ok h
    cases h
    exact .inr (.inl rfl)
  · obtain ⟨_, -, h⟩ := bind_ok h
    cases h
    exact .inr (.inr rfl)
  · cases h

lemma decompressMember_ok {data out : List UInt8} {e : Enc} {consumed : ℕ}
    (h : decompressMember codec data e = .ok (out, consumed)) :
    ∃ d, codec.inflate e data (maxCompressedExpansion + 1) = some d ∧ d.eof = true ∧
      d.out = out ∧ consumed = data.length - d.unused ∧ 0 < consumed := by
  unfold decompressMember at h
  cases hd : codec.inflate e data (maxCompressedExpansion + 1) with
  | none =>
    rw [hd] at h
    cases h
  | some d =>
    rw [hd] at h
    obtain ⟨_, -, h⟩ := bind_ok h
    obtain ⟨_, heof, h⟩ := bind_ok h
    obtain ⟨_, hpos, h⟩ := bind_ok h
    cases h
    have heof' := rejectIf_ok heof
    have hpos' := rejectIf_ok hpos
    exact ⟨d, rfl, by simpa using heof', rfl, rfl, by omega⟩

lemma readMember_ok {rest : List UInt8} {r : Record} (hm : isMember rest = true)
    (h : readMember codec rest offset = .ok r) :
    Located rest offset r ∧ Seen codec allow rest vars r vars := by
  obtain ⟨⟨out, consumed⟩, hd, h⟩ := bind_ok h
  obtain ⟨⟨role, reserve⟩, hclass, h⟩ := bind_ok h
  cases h
  obtain ⟨d, hinflate, heof, -, hsize, hpos⟩ := decompressMember_ok hd
  have hlen : (rest.take consumed).length = consumed := by
    rw [List.length_take]
    omega
  have hrole := classifyExpanded_ok hclass
  refine ⟨⟨rfl, ?_, ?_⟩, .member d rfl ?_ hm hinflate heof ?_⟩
  · dsimp only
    omega
  · dsimp only
    omega
  · rcases hrole with rfl | rfl | rfl <;> rfl
  · dsimp only
    omega

lemma readFdt_ok {rest : List UInt8} {r : Record} (hm : startsWith rest fdtMagic = true)
    (h : readFdt rest offset = .ok r) :
    Located rest offset r ∧ Seen codec allow rest vars r vars := by
  obtain ⟨_, -, h⟩ := bind_ok h
  obtain ⟨_, hsize, h⟩ := bind_ok h
  obtain ⟨_, -, h⟩ := bind_ok h
  cases h
  have hsize' := rejectIf_ok hsize
  refine ⟨⟨rfl, ?_, ?_⟩, .fdt rfl rfl hm rfl ?_⟩
  · dsimp only
    omega
  · dsimp only
    omega
  · dsimp only
    omega

/-- The wrapper that a header and its payload make up. -/
lemma take_wrapper {rest : List UInt8} (hm : startsWith rest initramfsMagic = true)
    (hlen : 18 + leNat (sub rest 14 4) ≤ rest.length) :
    rest.take (18 + leNat (sub rest 14 4)) = wrap (sub rest 18 (leNat (sub rest 14 4))) := by
  obtain ⟨t, rfl⟩ := startsWith_iff.mp hm
  have h14 : initramfsMagic.length = 14 := rfl
  have ht : 4 ≤ t.length := by
    rw [List.length_append, h14] at hlen
    omega
  have hfield : sub (initramfsMagic ++ t) 14 4 = t.take 4 := sub_append_right _ t 0 4
  have hpay (k : ℕ) : sub (initramfsMagic ++ t) 18 k = (t.drop 4).take k :=
    sub_append_right _ t 4 k
  rw [hfield, List.length_append, h14] at hlen
  rw [hfield, hpay]
  have hplen : ((t.drop 4).take (leNat (t.take 4))).length = leNat (t.take 4) := by
    rw [List.length_take, List.length_drop]
    omega
  have hle : toLe 4 (leNat (t.take 4)) = t.take 4 := by
    have h4 : (t.take 4).length = 4 := by
      rw [List.length_take]
      omega
    have hback := toLe_leNat (t.take 4)
    rwa [h4] at hback
  rw [wrap, hplen, hle, List.take_append, List.take_of_length_le (by omega), h14,
    List.append_assoc]
  have h18 : 18 + leNat (t.take 4) - 14 = 4 + leNat (t.take 4) := by omega
  rw [h18, List.take_add]

lemma readWrapper_ok {rest : List UInt8} {r : Record}
    (hm : startsWith rest initramfsMagic = true)
    (h : readWrapper allow rest offset = .ok r) :
    Located rest offset r ∧ Seen codec allow rest vars r vars := by
  obtain ⟨_, -, h⟩ := bind_ok h
  obtain ⟨_, hsize, h⟩ := bind_ok h
  obtain ⟨_, hcpio, h⟩ := bind_ok h
  obtain ⟨_, -, h⟩ := bind_ok h
  cases h
  have hsize' := rejectIf_ok hsize
  have hlen : 18 + leNat (sub rest 14 4) ≤ rest.length := by omega
  have hpay : (sub rest 18 (leNat (sub rest 14 4))).length = leNat (sub rest 14 4) :=
    length_sub (by omega)
  have hshort := leNat_sub_lt rest 14 4
  refine ⟨⟨rfl, ?_, hlen⟩, .wrapper _ rfl rfl (take_wrapper hm hlen) ?_ ?_⟩
  · dsimp only
    omega
  · rw [hpay]
    omega
  · exact not_not.mp (rejectIf_ok hcpio)

lemma readSignature_ok {rest : List UInt8} {r : Record}
    (h : readSignature rest offset = .ok r) :
    Located rest offset r ∧ Seen codec allow rest vars r vars := by
  obtain ⟨_, -, h⟩ := bind_ok h
  obtain ⟨_, hsize, h⟩ := bind_ok h
  cases h
  have hsize' := rejectIf_ok hsize
  refine ⟨⟨rfl, ?_, ?_⟩, .inert (.inl rfl)⟩
  · dsimp only
    omega
  · dsimp only
    omega

lemma readLogo_ok {rest : List UInt8} {r : Record} (h : readLogo rest offset = .ok r) :
    Located rest offset r ∧ Seen codec allow rest vars r vars := by
  obtain ⟨_, hsize, h⟩ := bind_ok h
  cases h
  have hsize' := rejectIf_ok hsize
  refine ⟨⟨rfl, ?_, ?_⟩, .inert (.inr rfl)⟩
  · exact Nat.add_pos_left (by decide) _
  · dsimp only
    omega

/-- The first byte of a kind in a window, and what lies on its two sides. -/
lemma findIdx_ok {l : List UInt8} {b : UInt8} {i k : ℕ}
    (h : (l.take k).findIdx? (· = b) = some i) :
    ∃ p t, p.length = i ∧ b ∉ p ∧ l = p ++ b :: t := by
  obtain ⟨hi, hb, hfirst⟩ := List.findIdx?_eq_some_iff_getElem.mp h
  rw [List.length_take] at hi
  have hil : i < l.length := by omega
  have hget : l[i] = b := by simpa using hb
  refine ⟨l.take i, l.drop (i + 1), ?_, ?_, ?_⟩
  · rw [List.length_take]
    omega
  · intro hmem
    obtain ⟨j, hj, hjb⟩ := List.mem_take_iff_getElem.mp hmem
    exact absurd hjb (by simpa using hfirst j (by omega))
  · rw [← hget, ← List.drop_eq_getElem_cons, List.take_append_drop]

lemma parseVariable_ok {rest : List UInt8} {name value : List Char} {len : ℕ}
    (h : parseVariable rest offset = .ok (some (name, value, len))) :
    ∃ n v t, decodeAscii n = some name ∧ decodeAscii v = some value ∧ (0x0a : UInt8) ∉ v ∧
      rest = lineOf n v ++ t ∧ len = (lineOf n v).length := by
  unfold parseVariable at h
  split at h
  · cases h
  rename_i i hi
  split at h
  · cases h
  rename_i j hj
  split at h
  · rename_i name' value' hn hv
    obtain ⟨_, -, h⟩ := bind_ok h
    cases h
    obtain ⟨n, u, rfl, -, rfl⟩ := findIdx_ok hi
    have hdrop : (n ++ 0x3d :: u).drop (n.length + 1) = u := by
      rw [List.drop_append]
      simp
    rw [hdrop] at hj
    obtain ⟨v, t, rfl, hnl, rfl⟩ := findIdx_ok hj
    rw [List.take_left] at hn
    rw [sub, hdrop, List.take_left] at hv
    refine ⟨n, v, t, hn, hv, hnl, ?_, ?_⟩
    · simp [lineOf]
    · simp only [lineOf, List.length_append, List.length_singleton]
  · cases h

lemma readVariable_ok {rest : List UInt8} {r : Record} {vars' : Vars}
    (h : readVariable rest offset vars = .ok (r, vars')) :
    Located rest offset r ∧ Seen codec allow rest vars r vars' := by
  obtain ⟨parsed, hp, h⟩ := bind_ok h
  rcases parsed with _ | ⟨name, value, len⟩
  · obtain ⟨_, -, h⟩ := bind_ok h
    obtain ⟨_, -, h⟩ := bind_ok h
    cases h
  · obtain ⟨_, hfresh, h⟩ := bind_ok h
    cases h
    obtain ⟨n, v, t, hn, hv, hnl, rfl, rfl⟩ := parseVariable_ok hp
    refine ⟨⟨rfl, ?_, ?_⟩, .setting name value n v rfl rfl hn hv hnl ?_ (rejectIf_ok hfresh)⟩
    · dsimp only
      simp only [lineOf, List.length_append, List.length_singleton]
      omega
    · dsimp only
      rw [List.length_append]
      omega
    · exact List.take_left

/-- **A record lies at the start of what remains and is of one of the kinds.** -/
theorem readRecord_ok {rest : List UInt8} {r : Record} {vars' : Vars}
    (h : readRecord codec allow rest offset vars = .ok (r, vars')) :
    Located rest offset r ∧ Seen codec allow rest vars r vars' := by
  unfold readRecord at h
  split_ifs at h with hz hm hf hw hs hl
  · obtain ⟨_, hr, e⟩ := map_ok h
    cases e
    exact readTerminator_ok hz hr
  · obtain ⟨_, hr, e⟩ := map_ok h
    cases e
    exact readMember_ok hm hr
  · obtain ⟨_, hr, e⟩ := map_ok h
    cases e
    exact readFdt_ok hf hr
  · obtain ⟨_, hr, e⟩ := map_ok h
    cases e
    exact readWrapper_ok hw hr
  · obtain ⟨_, hr, e⟩ := map_ok h
    cases e
    exact readSignature_ok hr
  · obtain ⟨_, hr, e⟩ := map_ok h
    cases e
    exact readLogo_ok hr
  · exact readVariable_ok h

end Wallace.ObjRead
