import Mathlib.Data.List.Basic
import Mathlib.Tactic.Common
import Wallace.ObjBuild

/-!
Strict verification is sound: the records of an accepted object tile it without a gap, the
payloads are the expected artifacts, and a plain object is what the packer writes for them,
up to the zeros at its end.
-/

namespace Wallace.ObjSound

open Bytes Checks ObjModel ObjRead ObjStream ObjBuild

/-! ### The records tile the stream -/

/-- The records lie one after the other from `start` to `stop`, and none is empty. -/
def Tiles (start stop : ℕ) : List Record → Prop
  | [] => start = stop
  | r :: rs => r.offset = start ∧ 0 < r.size ∧ Tiles (start + r.size) stop rs

variable {codec : Codec} {allow : Bool} {object rest : List UInt8} {offset : ℕ}
  {vars vs : Vars} {rs : List Record}

lemma tiles_of_parses (h : Parses codec allow rest offset vars rs vs) :
    Tiles offset (offset + rest.length) rs := by
  induction h with
  | done => rfl
  | @read rest offset vars vars' vars'' r rs hne hr hrs ih =>
    have hloc := (readRecord_ok hr).1
    have hsize := hloc.size
    refine ⟨hloc.offset, hloc.pos, ?_⟩
    have hstop : offset + r.size + (rest.drop r.size).length = offset + rest.length := by
      rw [List.length_drop]
      omega
    rwa [hstop] at ih

lemma flatten_of_parses (h : Parses codec allow rest offset vars rs vs)
    (hrest : object.drop offset = rest) : (rs.map (bytesOf object)).flatten = rest := by
  induction h with
  | done => rfl
  | @read rest offset vars vars' vars'' r rs hne hr hrs ih =>
    have hloc := (readRecord_ok hr).1
    have hnext : object.drop (offset + r.size) = rest.drop r.size := by
      rw [← hrest, List.drop_drop]
    have hbytes : bytesOf object r = rest.take r.size := by
      rw [bytesOf, sub, hloc.offset, hrest]
    rw [List.map_cons, List.flatten_cons, ih hnext, hbytes, List.take_append_drop]

/-- Each record was seen at its offset. -/
lemma seen_of_parses (h : Parses codec allow rest offset vars rs vs)
    (hrest : object.drop offset = rest) : ∀ r ∈ rs,
      r.size ≤ (object.drop r.offset).length ∧
        ∃ vars vars', Seen codec allow (object.drop r.offset) vars r vars' := by
  induction h with
  | done =>
    intro r' hr'
    cases hr'
  | @read rest offset vars vars' vars'' r rs hne hr hrs ih =>
    obtain ⟨hloc, hseen⟩ := readRecord_ok hr
    intro r' hr'
    rcases List.mem_cons.mp hr' with rfl | hmem
    · rw [hloc.offset, hrest]
      exact ⟨hloc.size, vars, vars', hseen⟩
    · refine ih ?_ r' hmem
      rw [← hrest, List.drop_drop]

lemma seen_terminator {r : Record} {vars' : Vars} (h : Seen codec allow rest vars r vars')
    (hr : r.role = .terminator) : (∀ b ∈ rest, b = 0) ∧ r.size = rest.length := by
  cases h with
  | terminator _ zero _ size => exact ⟨zero, size⟩
  | _ => simp_all [isPayload]

/-- Nothing follows the terminator. -/
lemma terminator_last {a c : List Record} {r : Record}
    (h : Parses codec allow rest offset vars (a ++ r :: c) vs) (hr : r.role = .terminator) :
    c = [] := by
  induction a generalizing rest offset vars with
  | nil =>
    cases h with
    | read hne hread hrs =>
      have hsize := (seen_terminator (readRecord_ok hread).2 hr).2
      rw [hsize, List.drop_length] at hrs
      cases hrs with
      | done => rfl
      | read hne _ _ => exact absurd rfl hne
  | cons x a ih =>
    cases h with
    | read _ _ hrs => exact ih hrs

/-! ### The variables -/

/-- A variable of the name `chosen.bootargs`. -/
def isBootargs (r : Record) : Bool := r.role = .variable && r.encoding = .name bootargsName

/-- A record is a variable or leaves the variables alone. -/
lemma seen_variable {r : Record} {vars' : Vars} (h : Seen codec allow rest vars r vars') :
    (r.role ≠ .variable ∧ vars' = vars) ∨
      ∃ name value n v, r.role = .variable ∧ r.encoding = .name name ∧
        decodeAscii n = some name ∧ decodeAscii v = some value ∧ (0x0a : UInt8) ∉ v ∧
        rest.take r.size = lineOf n v ∧ name ∉ vars.map Prod.fst ∧
        vars' = (name, value) :: vars := by
  cases h with
  | terminator role => exact .inl ⟨by rw [role]; nofun, rfl⟩
  | member d _ payload =>
    refine .inl ⟨fun h => ?_, rfl⟩
    rw [isPayload, h] at payload
    cases payload
  | fdt role => exact .inl ⟨by rw [role]; nofun, rfl⟩
  | wrapper p role => exact .inl ⟨by rw [role]; nofun, rfl⟩
  | inert role =>
    refine .inl ⟨fun h => ?_, rfl⟩
    rw [h] at role
    rcases role with h | h <;> cases h
  | setting name value n v role encoding hn hv newline bytes fresh =>
    exact .inr ⟨name, value, n, v, role, encoding, hn, hv, newline, bytes, fresh, rfl⟩

lemma lookup_of_not_mem {name : List Char} (h : name ∉ vars.map Prod.fst) :
    vars.lookup name = none := by
  rw [List.lookup_eq_none_iff]
  intro p hp
  have hne : name ≠ p.1 := fun e => h (e ▸ List.mem_map_of_mem hp)
  simpa using hne

lemma encode_decode {b : List UInt8} {s : List Char} (h : decodeAscii b = some s) :
    encodeAscii s = some b := by
  unfold decodeAscii at h
  split_ifs at h with hb
  cases h
  have hb' : ∀ x ∈ b, x.toNat < 128 := by simpa using hb
  have hchar : ∀ x ∈ b, (Char.ofNat x.toNat).toNat = x.toNat := by
    intro x hx
    have hlt := hb' x hx
    have hvalid : x.toNat.isValidChar := Or.inl (by omega)
    rw [Char.ofNat, dif_pos hvalid]
    rfl
  have hall : (b.map fun x => Char.ofNat x.toNat).all (·.toNat < 128) = true := by
    rw [List.all_map, List.all_eq_true]
    intro x hx
    simpa [hchar x hx] using hb' x hx
  rw [encodeAscii, if_pos hall, List.map_map]
  congr 1
  calc b.map ((fun c : Char => UInt8.ofNat c.toNat) ∘ fun x => Char.ofNat x.toNat)
      = b.map id := List.map_congr_left fun x hx => by simp [hchar x hx]
    _ = b := List.map_id b

lemma encode_append {s t : List Char} {a b : List UInt8} (ha : encodeAscii s = some a)
    (hb : encodeAscii t = some b) : encodeAscii (s ++ t) = some (a ++ b) := by
  unfold encodeAscii at ha hb ⊢
  split_ifs at ha hb with hs ht
  cases ha
  cases hb
  rw [List.all_append, hs, ht, List.map_append]
  rfl

/-- A line in bytes is a line in characters. -/
lemma encode_lineOf {n v : List UInt8} {name value : List Char} (hn : decodeAscii n = some name)
    (hv : decodeAscii v = some value) :
    encodeAscii (name ++ ['='] ++ value ++ ['\n']) = some (lineOf n v) :=
  encode_append (encode_append (encode_append (encode_decode hn) (by decide)) (encode_decode hv))
    (by decide)

lemma newline_decode {b : List UInt8} {s : List Char} (h : decodeAscii b = some s)
    (hb : (0x0a : UInt8) ∉ b) : '\n' ∉ s := by
  have he := encode_decode h
  unfold encodeAscii at he
  split_ifs at he
  cases he
  intro hs
  exact hb (List.mem_map.mpr ⟨'\n', hs, rfl⟩)

/-- **The variable `chosen.bootargs` is set by one record, and by no other.** -/
theorem bootargs_of_parses (h : Parses codec allow rest offset vars rs vs)
    (hrest : object.drop offset = rest) :
    (bootargsName ∈ vars.map Prod.fst →
      rs.filter isBootargs = [] ∧ vs.lookup bootargsName = vars.lookup bootargsName) ∧
    (bootargsName ∉ vars.map Prod.fst → ∀ value, vs.lookup bootargsName = some value →
      '\n' ∉ value ∧ ∃ r, rs.filter isBootargs = [r] ∧
        encodeAscii (bootargsName ++ ['='] ++ value ++ ['\n']) = some (bytesOf object r)) := by
  induction h with
  | @done offset vars =>
    refine ⟨fun _ => ⟨rfl, rfl⟩, fun hfree value h => ?_⟩
    rw [lookup_of_not_mem hfree] at h
    cases h
  | @read rest offset vars vars' vars'' r rs hne hr hrs ih =>
    obtain ⟨hloc, hseen⟩ := readRecord_ok hr
    have hnext : object.drop (offset + r.size) = rest.drop r.size := by
      rw [← hrest, List.drop_drop]
    have ih' := ih hnext
    rcases seen_variable hseen with ⟨hrole, rfl⟩ | ⟨name, value, n, v, hrole, henc, hn, hv, hnl,
      hbytes, hfresh, rfl⟩
    · have hno : isBootargs r = false := by simp [isBootargs, hrole]
      rw [List.filter_cons, hno]
      exact ih'
    · by_cases hname : name = bootargsName
      · subst hname
        have hyes : isBootargs r = true := by simp [isBootargs, hrole, henc]
        obtain ⟨hnone, hlookup⟩ := ih'.1 (by simp)
        refine ⟨fun hmem => absurd hmem hfresh, fun _ value' h => ?_⟩
        rw [hlookup, List.lookup_cons_self] at h
        cases h
        refine ⟨newline_decode hv hnl, r, ?_, ?_⟩
        · rw [List.filter_cons, hyes, hnone]
          rfl
        · have hb : bytesOf object r = lineOf n v := by
            rw [bytesOf, sub, hloc.offset, hrest, hbytes]
          rw [hb]
          exact encode_lineOf hn hv
      · have hno : isBootargs r = false := by simp [isBootargs, henc, hname]
        have hother : bootargsName ≠ name := fun e => hname e.symm
        rw [List.filter_cons, hno]
        refine ⟨fun hmem => ?_, fun hfree => ih'.2 ?_⟩
        · obtain ⟨hnone, hlookup⟩ := ih'.1 (List.mem_cons_of_mem _ hmem)
          refine ⟨hnone, hlookup.trans ?_⟩
          rw [List.lookup_cons, beq_false_of_ne hother]
        · rw [List.map_cons, List.mem_cons, not_or]
          exact ⟨hother, hfree⟩

/-! ### Soundness -/

/-- What an accepted object is: m1n1 and the bytes of the records, and in them the expected
artifacts, the expected bootargs and the terminator. -/
structure Sound (object m1n1 : List UInt8) (expected : Expected) (bootargs : List Char)
    (records : List Record) : Prop where
  aligned : object.length % m1n1Alignment = 0 ∧ m1n1.length % m1n1Alignment = 0
  tiles : Tiles m1n1.length object.length records
  pieces : object = m1n1 ++ (records.map (bytesOf object)).flatten
  terminator : ∃ r ∈ records.getLast?, 4 ≤ r.size ∧ ∀ b ∈ bytesOf object r, b = 0
  payloads : ∃ k d i, records.filter isPayload = [k, d, i] ∧
    (k.role = .kernel ∧ expected.kernel = some (bytesOf object k)) ∧
    (d.role = .dtb ∧ expected.dtb = some (bytesOf object d)) ∧
    (i.role = .initramfs ∧ expected.initramfs = some (bytesOf object i))
  bootargs : ∃ r, records.filter isBootargs = [r] ∧
    encodeAscii (bootargsName ++ ['='] ++ bootargs ++ ['\n']) = some (bytesOf object r)

variable {m1n1 : List UInt8} {expected : Expected} {bootargs : List Char} {limit : ℕ}

lemma Accepted.payloads (h : Accepted object expected bootargs rs vs) :
    ∃ k d i, rs.filter isPayload = [k, d, i] ∧
      (k.role = .kernel ∧ expected.kernel = some (bytesOf object k)) ∧
      (d.role = .dtb ∧ expected.dtb = some (bytesOf object d)) ∧
      (i.role = .initramfs ∧ expected.initramfs = some (bytesOf object i)) := by
  have horder := h.order
  have hart := h.artifacts
  have hlen := congrArg List.length horder
  rw [List.length_map] at hlen
  obtain ⟨k, d, i, hf⟩ := List.length_eq_three.mp hlen
  rw [hf] at horder hart
  simp only [List.map_cons, List.map_nil, List.cons.injEq, and_true] at horder
  obtain ⟨hk, hd, hi⟩ := horder
  have hka := hart k (by simp)
  have hda := hart d (by simp)
  have hia := hart i (by simp)
  rw [hk] at hka
  rw [hd] at hda
  rw [hi] at hia
  exact ⟨k, d, i, hf, ⟨hk, hka⟩, ⟨hd, hda⟩, ⟨hi, hia⟩⟩

lemma sound_of_accepted (henv : Envelope object m1n1 limit)
    (hparse : Parses codec allow (object.drop m1n1.length) m1n1.length [] rs vs)
    (hacc : Accepted object expected bootargs rs vs) :
    Sound object m1n1 expected bootargs rs := by
  obtain ⟨t, ht⟩ := startsWith_iff.mp henv.starts
  have hdrop : object.drop m1n1.length = t := by rw [ht, List.drop_left]
  refine ⟨⟨henv.aligned, henv.base⟩, ?_, ?_, ?_, Accepted.payloads hacc, ?_⟩
  · have hlen : m1n1.length + (object.drop m1n1.length).length = object.length := by
      rw [hdrop, ht, List.length_append]
    have htiles := tiles_of_parses hparse
    rwa [hlen] at htiles
  · rw [flatten_of_parses hparse rfl, hdrop]
    exact ht
  · obtain ⟨r, hr, hrole, hfour⟩ := hacc.terminator
    refine ⟨r, hr, hfour, fun b hb => ?_⟩
    obtain ⟨-, _, _, hseen⟩ := seen_of_parses hparse rfl r (List.mem_of_getLast? hr)
    exact (seen_terminator hseen hrole).1 b (List.mem_of_mem_take hb)
  · exact ((bootargs_of_parses hparse rfl).2 nofun bootargs hacc.bootargs).2

/-! ### Plain objects and the packer -/

def magicOf : Enc → List UInt8
  | .gzip => gzipMagic
  | .xz => xzMagic

/-- A decoder that has come to the end of a member has consumed its magic at least. -/
def Whole (codec : Codec) : Prop :=
  ∀ e data max d, codec.inflate e data max = some d → d.eof = true →
    (magicOf e).length ≤ data.length - d.unused

lemma startsWith_take {data magic : List UInt8} {n : ℕ} (h : startsWith data magic = true)
    (hn : magic.length ≤ n) : startsWith (data.take n) magic = true := by
  obtain ⟨t, rfl⟩ := startsWith_iff.mp h
  rw [List.take_append, List.take_of_length_le hn]
  exact startsWith_iff.mpr ⟨_, rfl⟩

/-- The bytes of a member that was read whole start with a magic. -/
lemma isMember_take {d : Inflated} {max n : ℕ} (hw : Whole codec) (hm : isMember rest = true)
    (hd : codec.inflate (encOf rest) rest max = some d) (heof : d.eof = true)
    (hn : n = rest.length - d.unused) : isMember (rest.take n) = true := by
  have hlen := hw _ _ _ _ hd heof
  rw [← hn] at hlen
  unfold isMember at hm ⊢
  unfold encOf at hlen
  split_ifs at hlen with hg
  · rw [startsWith_take hg hlen]
    rfl
  · rw [Bool.not_eq_true] at hg
    rw [hg, Bool.false_or] at hm
    rw [startsWith_take hm hlen, Bool.or_true]

variable {r : Record} {vars' : Vars}

lemma seen_kernel (hw : Whole codec) (h : Seen codec allow rest vars r vars')
    (hr : r.role = .kernel) : isMember (rest.take r.size) = true := by
  cases h with
  | member d _ _ magic inflate eof size => exact isMember_take hw magic inflate eof size
  | _ => simp_all

lemma seen_dtb (h : Seen codec allow rest vars r vars') (hr : r.role = .dtb)
    (he : r.encoding = .raw) (hsize : r.size ≤ rest.length) :
    8 ≤ (rest.take r.size).length ∧ startsWith (rest.take r.size) fdtMagic = true ∧
      beNat (sub (rest.take r.size) 4 4) = (rest.take r.size).length := by
  cases h with
  | fdt _ _ magic total forty =>
    have hlen : (rest.take r.size).length = r.size := List.length_take_of_le hsize
    have hfield : sub rest 4 4 = sub (rest.take r.size) 4 4 := by
      have h : sub (rest.take r.size ++ rest.drop r.size) 4 4 = sub (rest.take r.size) 4 4 :=
        sub_append_left _ (by omega)
      rwa [List.take_append_drop] at h
    refine ⟨by omega, startsWith_take magic ?_, ?_⟩
    · change 4 ≤ r.size
      omega
    · rw [← hfield, total, hlen]
  | _ => simp_all

lemma seen_initramfs (hw : Whole codec) (h : Seen codec allow rest vars r vars')
    (hr : r.role = .initramfs) :
    isMember (rest.take r.size) = true ∨
      ∃ p, rest.take r.size = wrap p ∧ p.length < 2 ^ 32 ∧ wrappable allow p := by
  cases h with
  | member d _ _ magic inflate eof size => exact .inl (isMember_take hw magic inflate eof size)
  | wrapper p _ _ bytes short cpio => exact .inr ⟨p, bytes, short, cpio⟩
  | _ => simp_all

/-- The variable comes first, and besides the payloads there is only the terminator. -/
def Plain (records : List Record) : Prop :=
  ∃ r rest, records = r :: rest ∧ r.role = .variable ∧
    ∀ r' ∈ rest, isPayload r' = true ∨ r'.role = .terminator

/-- The records of a plain object, one by one. -/
lemma plain_records (hparse : Parses codec allow rest offset vars rs vs)
    (hacc : Accepted object expected bootargs rs vs) (hplain : Plain rs) :
    ∃ v t, rs = v :: (rs.filter isPayload ++ [t]) ∧ v.role = .variable ∧ t.role = .terminator := by
  obtain ⟨v, l, rfl, hv, hl⟩ := hplain
  obtain ⟨t, ht, htrole, -⟩ := hacc.terminator
  have hl' : l ≠ [] := by
    rintro rfl
    have hvt : v = t := Option.some.inj ht
    rw [← hvt, hv] at htrole
    cases htrole
  obtain ⟨a, t', rfl⟩ := (List.eq_nil_or_concat' l).resolve_left hl'
  have ht' : t' = t := by
    rw [← List.cons_append, List.getLast?_concat] at ht
    exact Option.some.inj ht
  subst ht'
  have hnv : isPayload v = false := by rw [isPayload, hv]; rfl
  have hnt : isPayload t' = false := by rw [isPayload, htrole]; rfl
  -- a terminator before the last record would have nothing after it
  have ha : ∀ x ∈ a, isPayload x = true := by
    intro x hx
    rcases hl x (List.mem_append_left _ hx) with hp | hterm
    · exact hp
    · obtain ⟨b, c, rfl⟩ := List.append_of_mem hx
      have hparse' : Parses codec allow rest offset vars ((v :: b) ++ x :: (c ++ [t'])) vs := by
        simpa using hparse
      have hnil := terminator_last hparse' hterm
      exact absurd hnil (by simp)
  have hfilter : (v :: (a ++ [t'])).filter isPayload = a := by
    rw [List.filter_cons, hnv, List.filter_append, List.filter_cons, hnt]
    simpa using ha
  exact ⟨v, t', by rw [hfilter], hv, htrole⟩

/-- The inputs of the packer are the artifacts that the object was compared with. -/
structure Names (m1n1 : List UInt8) (expected : Expected) (bootargs : List Char) (i : Inputs) :
    Prop where
  m1n1 : i.m1n1 = m1n1
  kernel : expected.kernel = some i.kernel
  dtb : expected.dtb = some i.dtb
  initramfs : expected.initramfs =
    some (if i.initrdWrapped then wrap i.initramfs else i.initramfs)
  bootargs : i.bootargs = bootargs

def SameUpToZeros (a b : List UInt8) : Prop :=
  ∃ core j k, a = core ++ zeros j ∧ b = core ++ zeros k

/-- The initramfs of an accepted object is one that the packer can write. -/
lemma initramfs_input {m : List UInt8} (h : isMember m = true ∨
    ∃ p, m = wrap p ∧ p.length < 2 ^ 32 ∧ wrappable false p) :
    ∃ data wrapped, initramfsMember data wrapped = .ok m ∧
      m = if wrapped then wrap data else data := by
  rcases h with hm | ⟨p, rfl, hlen, hcpio⟩
  · refine ⟨m, false, ?_, rfl⟩
    rw [initramfsMember, failIf_of_not (not_not.mpr hm)]
    rfl
  · refine ⟨p, true, ?_, rfl⟩
    have hp : isCpio p = true := by
      rcases hcpio with h | ⟨h, -⟩
      · exact h
      · cases h
    have hplain : ¬ isMember p = true := by
      rw [(isCpio_head hp).2]
      nofun
    rw [initramfsMember, failIf_of_not hplain, failIf_of_not (by omega)]
    rfl

lemma bootargs_first {v r : Record} {l : List Record} (hl : ∀ x ∈ l, x.role ≠ .variable)
    (h : (v :: l).filter isBootargs = [r]) : r = v := by
  obtain ⟨hmem, hb⟩ := List.mem_filter.mp (h ▸ List.mem_singleton_self r)
  rw [isBootargs, Bool.and_eq_true] at hb
  rcases List.mem_cons.mp hmem with rfl | htail
  · rfl
  · exact absurd (of_decide_eq_true hb.1) (hl r htail)

/-- The parts of a plain object, with what the packer asks of them. -/
structure Parts (allow : Bool) (object m1n1 : List UInt8) (expected : Expected)
    (bootargs : List Char) (line k d i : List UInt8) (n : ℕ) : Prop where
  object : object = m1n1 ++ line ++ k ++ d ++ i ++ zeros n
  newline : '\n' ∉ bootargs
  line : encodeAscii (bootargsName ++ ['='] ++ bootargs ++ ['\n']) = some line
  kernel : expected.kernel = some k ∧ isMember k = true
  dtb : expected.dtb = some d ∧ 8 ≤ d.length ∧ startsWith d fdtMagic = true ∧
    beNat (sub d 4 4) = d.length
  initramfs : expected.initramfs = some i ∧
    (isMember i = true ∨ ∃ p, i = wrap p ∧ p.length < 2 ^ 32 ∧ wrappable allow p)

lemma plain_parts (hw : Whole codec) (henv : Envelope object m1n1 limit)
    (hparse : Parses codec allow (object.drop m1n1.length) m1n1.length [] rs vs)
    (hacc : Accepted object expected bootargs rs vs) (hplain : Plain rs)
    (hraw : ∀ r ∈ rs, r.role = .dtb → r.encoding = .raw) :
    ∃ line k d i n, Parts allow object m1n1 expected bootargs line k d i n := by
  obtain ⟨v, t, hrs, hv, ht⟩ := plain_records hparse hacc hplain
  obtain ⟨k, d, i, hf, ⟨hk, hka⟩, ⟨hd, hda⟩, ⟨hi, hia⟩⟩ := Accepted.payloads hacc
  rw [hf] at hrs
  have hmem : ∀ r ∈ [v, k, d, i, t], r ∈ rs := fun r hr => by rwa [hrs]
  have hseen := seen_of_parses hparse rfl
  obtain ⟨hnl, r, hr, hline⟩ := (bootargs_of_parses hparse rfl).2 nofun bootargs hacc.bootargs
  have hvr : r = v := by
    rw [hrs] at hr
    refine bootargs_first ?_ hr
    simp [hk, hd, hi, ht]
  subst hvr
  obtain ⟨-, _, _, hseenk⟩ := hseen k (hmem k (by simp))
  obtain ⟨hsized, _, _, hseend⟩ := hseen d (hmem d (by simp))
  obtain ⟨-, _, _, hseeni⟩ := hseen i (hmem i (by simp))
  obtain ⟨-, _, _, hseent⟩ := hseen t (hmem t (by simp))
  have hzero : bytesOf object t = zeros (bytesOf object t).length := by
    refine List.eq_replicate_iff.mpr ⟨rfl, fun b hb => ?_⟩
    exact (seen_terminator hseent ht).1 b (List.mem_of_mem_take hb)
  refine ⟨bytesOf object r, bytesOf object k, bytesOf object d, bytesOf object i,
    (bytesOf object t).length, ?_, hnl, hline, ⟨hka, seen_kernel hw hseenk hk⟩,
    ⟨hda, seen_dtb hseend hd (hraw d (hmem d (by simp)) hd) hsized⟩,
    ⟨hia, seen_initramfs hw hseeni hi⟩⟩
  have h := (sound_of_accepted henv hparse hacc).pieces
  rw [hrs] at h
  rw [← hzero]
  simpa using h

/-- **A plain object is what the packer writes for its parts, up to the zeros at the end.** The
packer takes no NUL in the bootargs, and only a device tree that is not compressed. -/
theorem repack (hw : Whole codec) (henv : Envelope object m1n1 limit)
    (hparse : Parses codec false (object.drop m1n1.length) m1n1.length [] rs vs)
    (hacc : Accepted object expected bootargs rs vs) (hplain : Plain rs)
    (hnul : '\x00' ∉ bootargs) (hraw : ∀ r ∈ rs, r.role = .dtb → r.encoding = .raw) :
    ∃ i b, Names m1n1 expected bootargs i ∧ build codec i = .ok b ∧
      SameUpToZeros object b.output := by
  obtain ⟨line, k, d, m, n, hparts⟩ := plain_parts hw henv hparse hacc hplain hraw
  obtain ⟨data, wrapped, hm, hdata⟩ := initramfs_input hparts.initramfs.2
  obtain ⟨hda, hd8, hdm, hdt⟩ := hparts.dtb
  let inputs : Inputs :=
    { m1n1, kernel := k, dtb := d, initramfs := data, bootargs, initrdWrapped := wrapped }
  have hkernel : kernelMember codec k = .ok k := if_pos hparts.kernel.2
  have hbuild : build codec inputs =
      .ok ⟨pageAlign (m1n1 ++ line ++ k ++ d ++ m ++ zeros 4), k, d, m⟩ :=
    build_of_checks hparts.newline hnul henv.base henv.entry henv.nonzero hkernel hd8 hdm hdt hm
      hparts.line
  obtain ⟨j, hj, -, -⟩ := pageAlign_eq (m1n1 ++ line ++ k ++ d ++ m ++ zeros 4)
  refine ⟨inputs, _, ⟨rfl, hparts.kernel.1, hda, ?_, rfl⟩, hbuild,
    m1n1 ++ line ++ k ++ d ++ m, n, 4 + j, hparts.object, ?_⟩
  · rw [hparts.initramfs.1]
    exact congrArg some hdata
  · rw [hj, zeros, zeros, zeros, List.replicate_add, List.append_assoc]

/-- **Strict verification is sound.** The loop ends on every object. An accepted object is m1n1
and its records, without a gap, with the expected parts; and if it is plain, it is what the
packer writes for them, up to the zeros at its end. -/
theorem strict_sound (codec : Codec) (object m1n1 : List UInt8) (allow : Bool) :
    (∃ res, parseLoop codec allow object (object.length + 1) m1n1.length [] [] = some res) ∧
    ∀ expected wanted limit rep,
      verifyObject codec object m1n1 expected wanted true allow limit = .ok rep →
      ∃ bootargs, wanted = some bootargs ∧ Sound object m1n1 expected bootargs rep.records ∧
        (Whole codec → allow = false → Plain rep.records → '\x00' ∉ bootargs →
          (∀ r ∈ rep.records, r.role = .dtb → r.encoding = .raw) →
          ∃ i b, Names m1n1 expected bootargs i ∧ build codec i = .ok b ∧
            SameUpToZeros object b.output) := by
  refine ⟨parseLoop_halts object [] [] (by omega), fun expected wanted limit rep h => ?_⟩
  obtain ⟨henv, records, vars, hparse, ⟨bootargs, rfl, hacc⟩, rfl⟩ := verifyObject_ok.mp h
  refine ⟨bootargs, rfl, sound_of_accepted henv hparse hacc, ?_⟩
  rintro hw rfl hplain hnul hraw
  exact repack hw henv hparse hacc hplain hnul hraw

lemma whole_small : Whole smallCodec := by
  intro e data max d h heof
  cases e with
  | xz => cases h
  | gzip =>
    obtain ⟨p, hp, rfl⟩ := Option.map_eq_some_iff.mp h
    obtain ⟨t, rfl⟩ := startsWith_iff.mp (by simpa using List.find?_some hp)
    have hlong : ∀ q ∈ smallMembers, 2 ≤ q.1.length := by decide
    have htwo := hlong p (List.mem_of_find?_eq_some hp)
    change 2 ≤ _
    rw [List.length_append]
    dsimp only
    omega

lemma plain_layout (i : Inputs) (b : Built) (xk xi : List UInt8) : Plain (layout i b xk xi) := by
  refine ⟨_, _, rfl, rfl, ?_⟩
  simp only [List.mem_cons, List.not_mem_nil, or_false]
  rintro r (rfl | rfl | rfl | rfl)
  · exact .inl rfl
  · exact .inl rfl
  · left
    rw [isPayload, (initramfsRecord_head _ _ _ _).1]
    rfl
  · exact .inr rfl

lemma raw_layout (i : Inputs) (b : Built) (xk xi : List UInt8) :
    ∀ r ∈ layout i b xk xi, r.role = .dtb → r.encoding = .raw := by
  intro r hr hrole
  simp only [layout, partRecords, List.mem_cons, List.not_mem_nil, or_false] at hr
  rcases hr with rfl | rfl | rfl | rfl | rfl
  · cases hrole
  · cases hrole
  · rfl
  · rw [(initramfsRecord_head _ _ _ _).1] at hrole
    cases hrole
  · cases hrole

theorem strict_sound_small :
    Whole smallCodec ∧ ∃ rep,
      verifyObject smallCodec (smallObject smallValue).output (List.replicate m1n1Alignment 1)
        ⟨some smallImageGz, some smallDtb, some smallArchiveGz⟩ (some smallBootargs) true false
        maxObjectSize = .ok rep ∧
      ∃ i b, build smallCodec i = .ok b ∧
        SameUpToZeros (smallObject smallValue).output b.output := by
  have hp := packed_smallBootargs
  have hc := contents_small smallBootargs
  obtain ⟨rep, hrep⟩ := verdict_of_limits hp hc limits_smallBootargs
  have hrs := (limits_of_verdict hp hc hrep).2.1
  refine ⟨whole_small, rep, hrep, ?_⟩
  obtain ⟨bootargs, hb, -, hpack⟩ :=
    (strict_sound smallCodec (smallObject smallValue).output _ false).2 _ _ _ rep hrep
  cases hb
  rw [hrs] at hpack
  obtain ⟨i, b, -, hbuild, hsame⟩ := hpack whole_small rfl (plain_layout _ _ _ _) (by decide)
    (raw_layout _ _ _ _)
  exact ⟨i, b, hbuild, hsame⟩

/-! ### Plain objects that the packer does not write -/

/-- Bootargs with a NUL are ASCII, so the verifier takes them. -/
lemma accepts_nul : ∃ rep,
    verifyObject smallCodec (smallObject [0x61, 0x00, 0x62]).output (List.replicate m1n1Alignment 1)
      ⟨some smallImageGz, some smallDtb, some smallArchiveGz⟩ (some ['a', '\x00', 'b']) true false
      maxObjectSize = .ok rep ∧ Plain rep.records := by
  have hp : Packed smallCodec (smallInputs ['a', '\x00', 'b']) (smallObject [0x61, 0x00, 0x62])
      [0x61, 0x00, 0x62] := packed_small (by decide) (by decide)
  have hc := contents_small ['a', '\x00', 'b']
  obtain ⟨rep, hrep⟩ := verdict_of_limits hp hc (limits_small (by decide) (by decide))
  refine ⟨rep, hrep, ?_⟩
  rw [(limits_of_verdict hp hc hrep).2.1]
  exact plain_layout _ _ _ _

/-- The small parts with the device tree compressed. -/
def gzDtbParts (z : ℕ) : List UInt8 :=
  lineOf bootargsBytes smallValue ++
    (smallImageGz ++ (smallDtbGz ++ (smallArchiveGz ++ zeros z)))

def gzDtbObject : List UInt8 := List.replicate m1n1Alignment 1 ++ gzDtbParts 16266

def gzDtbRecord (offset : ℕ) : Record :=
  { role := .dtb, encoding := .member .gzip, offset, size := smallDtbGz.length
    sha256 := smallDtbGz
    expandedSize := some smallDtb.length
    expandedSha256 := some smallDtb
    runtimeReserve := smallDtb.length + dtbGrowthReserve }

/-- The records of the small parts with the device tree compressed. -/
def gzDtbRecords (z : ℕ) : List Record :=
  [variableRecord (lineOf bootargsBytes smallValue) 16384,
    kernelRecord smallImageGz smallImage 16410, gzDtbRecord 16443,
    archiveRecord smallArchiveGz smallArchive 16474, terminatorRecord z 16502]

lemma parses_gz_dtb {z : ℕ} (hz : 4 ≤ z) :
    Parses smallCodec false (gzDtbParts z) 16384 [] (gzDtbRecords z)
      [(bootargsName, smallBootargs)] := by
  have hne : ∀ (x : UInt8) (l : List UInt8), x :: l ≠ [] := List.cons_ne_nil
  have hvalue : encodeAscii smallBootargs = some smallValue := by decide
  have hkernel : KernelLimits smallImage := ⟨by decide, by decide, by decide, by decide⟩
  have harchive : InitramfsLimits false false smallArchive :=
    ⟨by decide, (by decide : isCpio smallArchive = true ∧ ¬ isKernel smallArchive)⟩
  have hdtb : memberRecord .gzip smallDtbGz smallDtb 16443 = .ok (gzDtbRecord 16443) := by
    have hclass : classifyExpanded smallDtb = .ok (.dtb, smallDtb.length + dtbGrowthReserve) := by
      decide
    rw [memberRecord, hclass]
    rfl
  refine .cons (hne _ _) ((read_bootargs_ok hvalue (by decide) _).mpr
    ⟨by decide, rfl, rfl⟩) rfl ?_
  refine .cons (hne _ _) ((read_kernel_ok (by decide) (expands_small rfl fun _ => rfl) _).mpr
    ⟨hkernel, rfl, rfl⟩).1 rfl ?_
  refine .cons (hne _ _) ((read_member_ok (by decide) (expands_small rfl fun _ => rfl) _).mpr
    ⟨by decide, hdtb, rfl⟩) rfl ?_
  refine .cons (hne _ _) ((read_archive_ok (by decide) (expands_small rfl fun _ => rfl) _).mpr
    ⟨harchive, rfl, rfl⟩).1 rfl ?_
  exact (parses_zeros hz).mpr ⟨rfl, rfl⟩

lemma length_gz_dtb : gzDtbObject.length = 2 * m1n1Alignment := by
  have hline : (lineOf bootargsBytes smallValue).length = 26 := rfl
  have himage : smallImageGz.length = 33 := rfl
  have hdtb : smallDtbGz.length = 31 := rfl
  have harchive : smallArchiveGz.length = 28 := rfl
  simp only [gzDtbObject, gzDtbParts, List.length_append, List.length_replicate, hline, himage,
    hdtb, harchive, zeros]
  rfl

lemma accepted_gz_dtb :
    Accepted gzDtbObject ⟨some smallImageGz, some smallDtbGz, some smallArchiveGz⟩
      smallBootargs (gzDtbRecords 16266) [(bootargsName, smallBootargs)] where
  order := rfl
  terminator := ⟨_, rfl, rfl, by decide⟩
  artifacts := by
    let base := List.replicate m1n1Alignment (1 : UInt8) ++ lineOf bootargsBytes smallValue
    have hbase : base.length = 16410 := by
      rw [List.length_append, List.length_replicate]
      rfl
    have himage : gzDtbObject = base ++
        (smallImageGz ++ (smallDtbGz ++ (smallArchiveGz ++ zeros 16266))) :=
      (List.append_assoc _ _ _).symm
    have hdtb : gzDtbObject = (base ++ smallImageGz) ++
        (smallDtbGz ++ (smallArchiveGz ++ zeros 16266)) :=
      himage.trans (List.append_assoc base smallImageGz _).symm
    have harchive : gzDtbObject = (base ++ smallImageGz ++ smallDtbGz) ++
        (smallArchiveGz ++ zeros 16266) :=
      hdtb.trans (List.append_assoc (base ++ smallImageGz) smallDtbGz _).symm
    have hrecords : (gzDtbRecords 16266).filter isPayload =
        [kernelRecord smallImageGz smallImage 16410, gzDtbRecord 16443,
          archiveRecord smallArchiveGz smallArchive 16474] := rfl
    rw [hrecords]
    simp only [List.mem_cons, List.not_mem_nil, or_false]
    rintro r (rfl | rfl | rfl)
    · exact congrArg some (bytesOf_part _ himage hbase.symm rfl).symm
    · refine congrArg some (bytesOf_part _ hdtb ?_ rfl).symm
      rw [List.length_append, hbase]
      rfl
    · refine congrArg some (bytesOf_part _ harchive ?_ rfl).symm
      rw [List.length_append, List.length_append, hbase]
      rfl
  bootargs := List.lookup_cons_self

/-- A compressed device tree is a device tree to the verifier. -/
lemma accepts_gz_dtb : ∃ rep,
    verifyObject smallCodec gzDtbObject (List.replicate m1n1Alignment 1)
      ⟨some smallImageGz, some smallDtbGz, some smallArchiveGz⟩ (some smallBootargs) true false
      maxObjectSize = .ok rep ∧ Plain rep.records := by
  have hlen : (List.replicate m1n1Alignment (1 : UInt8)).length = m1n1Alignment :=
    List.length_replicate
  have henv : Envelope gzDtbObject (List.replicate m1n1Alignment 1) maxObjectSize := by
    refine ⟨?_, ?_, ?_, entry_small.1, entry_small.2, startsWith_iff.mpr ⟨_, rfl⟩⟩
    · rw [length_gz_dtb]
      decide
    · rw [hlen, Nat.mod_self]
    · rw [length_gz_dtb, Nat.mul_mod_left]
  have hparse : Parses smallCodec false
      (gzDtbObject.drop (List.replicate m1n1Alignment (1 : UInt8)).length)
      (List.replicate m1n1Alignment (1 : UInt8)).length [] (gzDtbRecords 16266)
      [(bootargsName, smallBootargs)] := by
    rw [gzDtbObject, List.drop_left, hlen]
    exact parses_gz_dtb (by decide)
  refine ⟨_, verifyObject_ok.mpr ⟨henv, _, _, hparse, ⟨_, rfl, accepted_gz_dtb⟩, rfl⟩, ?_⟩
  refine ⟨_, _, rfl, rfl, ?_⟩
  simp only [List.mem_cons, List.not_mem_nil, or_false]
  rintro r (rfl | rfl | rfl | rfl)
  · exact .inl rfl
  · exact .inl rfl
  · exact .inl rfl
  · exact .inr rfl

/-- The verifier accepts a plain object with a NUL in the bootargs, and one with a compressed
device tree, and the packer refuses the parts of both. -/
theorem strict_not_packed :
    (∃ rep, verifyObject smallCodec (smallObject [0x61, 0x00, 0x62]).output
        (List.replicate m1n1Alignment 1)
        ⟨some smallImageGz, some smallDtb, some smallArchiveGz⟩ (some ['a', '\x00', 'b']) true false
        maxObjectSize = .ok rep ∧ Plain rep.records ∧
      ∀ i b, i.bootargs = ['a', '\x00', 'b'] → build smallCodec i ≠ .ok b) ∧
    (∃ rep, verifyObject smallCodec gzDtbObject (List.replicate m1n1Alignment 1)
        ⟨some smallImageGz, some smallDtbGz, some smallArchiveGz⟩ (some smallBootargs) true
        false maxObjectSize = .ok rep ∧ Plain rep.records ∧
      ∀ i b, i.dtb = smallDtbGz → build smallCodec i ≠ .ok b) := by
  obtain ⟨rep, hrep, hplain⟩ := accepts_nul
  obtain ⟨rep', hrep', hplain'⟩ := accepts_gz_dtb
  refine ⟨⟨rep, hrep, hplain, ?_⟩, ⟨rep', hrep', hplain', ?_⟩⟩
  · intro i b hi h
    obtain ⟨_, hchar, -⟩ := bind_ok h
    refine failIf_ok hchar (.inr ?_)
    rw [hi]
    decide
  · intro i b hi h
    obtain ⟨v, hp⟩ := build_ok h
    have hmagic := hp.magic
    rw [hi] at hmagic
    exact absurd hmagic (by decide)

end Wallace.ObjSound
