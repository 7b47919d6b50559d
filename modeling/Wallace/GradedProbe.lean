import Mathlib.Order.Bounds.Basic
import Mathlib.Data.List.Basic
import Mathlib.Tactic.Common
import Wallace.Bytes

/-!
Measuring how much of a boot object is loaded: `t6040-build-graded-probe.py`, which writes an
object with stamps, and `t6040-probe-load-extent.py`, which looks for them in memory.

A stamp is five letters and the offset that it stands at. The builder writes one every 64 KiB from
0x10C000 on; the reader starts there too.
-/

namespace Wallace.GradedProbe

open Wallace.Bytes

abbrev Bytes := List UInt8

/-- `b"WLOFS"`. -/
def stampMagic : Bytes := [0x57, 0x4c, 0x4f, 0x46, 0x53]

def stampBase : ℕ := 0x10C000
def stampStep : ℕ := 0x10000
def filler : UInt8 := 0x5A
def alignment : ℕ := 0x4000
def stampLen : ℕ := stampMagic.length + 8

/-- `STAMP_MAGIC + struct.pack("<Q", off)`. -/
def stamp (off : ℕ) : Bytes := stampMagic ++ toLe 8 off

/-! ### The builder -/

inductive BuildErr
  | notLarger
  | notAligned (short : ℕ)
  | overruns
  | structError
  deriving DecidableEq

/-- `out[off : off + len(b)] = b`. -/
def patch (out : Bytes) (off : ℕ) (b : Bytes) : Bytes :=
  out.take off ++ b ++ out.drop (off + b.length)

/-- The loop of `build`; `pack` takes what fits in 64 bits. -/
def stampLoop (total off : ℕ) (out : Bytes) (stamps : ℕ) : Except BuildErr (Bytes × ℕ) :=
  if off + stampLen ≤ total then
    if off < 2 ^ 64 then
      stampLoop total (off + stampStep) (patch out off (stamp off)) (stamps + 1)
    else .error .structError
  else .ok (out, stamps)
termination_by total - off
decreasing_by
  have : 0 < stampStep := by decide
  have : 0 < stampLen := by decide
  omega

def build (m1n1 : Bytes) (total : ℕ) : Except BuildErr (Bytes × ℕ) :=
  if total ≤ m1n1.length then .error .notLarger
  else if total % alignment ≠ 0 then .error (.notAligned (alignment - total % alignment))
  else if stampBase < m1n1.length then .error .overruns
  else
    stampLoop total stampBase (m1n1 ++ List.replicate (total - m1n1.length) filler) 0

inductive CheckErr
  | notAligned
  | missing (off : ℕ)
  | wrongOffset (off got : ℕ)
  | mismatch (wrote seen : ℕ)
  deriving DecidableEq

/-- The loop of `selfcheck`. -/
def checkLoop (data : Bytes) (off seen : ℕ) : Except CheckErr ℕ :=
  if off + stampLen ≤ data.length then
    let blob := sub data off stampLen
    if blob.take stampMagic.length ≠ stampMagic then .error (.missing off)
    else
      let got := leNat (blob.drop stampMagic.length)
      if got ≠ off then .error (.wrongOffset off got)
      else checkLoop data (off + stampStep) (seen + 1)
  else .ok seen
termination_by data.length - off
decreasing_by
  have : 0 < stampStep := by decide
  have : 0 < stampLen := by decide
  omega

def selfcheck (data : Bytes) (expected : ℕ) : Except CheckErr Unit :=
  if data.length % alignment ≠ 0 then .error .notAligned
  else
    match checkLoop data stampBase 0 with
    | .error e => .error e
    | .ok seen => if seen ≠ expected then .error (.mismatch expected seen) else .ok ()

/-! ### The reader -/

inductive Verdict
  | loaded
  | wrongOff (got : ℕ)
  | zero
  | stale
  deriving DecidableEq

def baseOff : ℕ := 0x10C000
def step : ℕ := 0x10000

def classify (data : Bytes) (wantOff : ℕ) : Verdict :=
  if data.take 5 = stampMagic then
    let got := leNat (sub data 5 8)
    if got = wantOff then .loaded else .wrongOff got
  else if data = List.replicate data.length 0 then .zero
  else .stale

/-- `STEP if off < 0x100000 else 0x100000`. -/
def stride (off : ℕ) : ℕ := if off < 0x100000 then step else 0x100000

/-- What the reader prints: a line for each block that is not loaded, with its mark, and
`last_loaded`. -/
structure Report where
  lines : List (ℕ × Verdict × Bool)
  lastLoaded : Option ℕ

/-- The loop. The memory is that from the base of m1n1 on. -/
def scan (mem : ℕ → UInt8) (limit off : ℕ) (r : Report) : Report :=
  if off < limit then
    let verdict := classify (slice mem off 16) off
    if verdict = .loaded then scan mem limit (off + stride off) { r with lastLoaded := some off }
    else
      let line := (off, verdict, decide (off ≤ 0x77C000 ∧ 0x77C000 < off + step))
      let r := { r with lines := r.lines ++ [line] }
      if r.lastLoaded.isSome then r else scan mem limit (off + stride off) r
  else r
termination_by limit - off
decreasing_by
  all_goals
    have hpos : 0 < stride off := by
      unfold stride step
      split_ifs <;> decide
    omega

def probe (mem : ℕ → UInt8) (probeLimitMib : ℕ) : Report :=
  scan mem (probeLimitMib * 1024 * 1024) baseOff ⟨[], none⟩

/-- The offset is reported as the highest that is loaded. -/
def Reports (mem : ℕ → UInt8) (probeLimitMib off : ℕ) : Prop :=
  ∃ lines, probe mem probeLimitMib = ⟨lines, some off⟩

/-! ### Stamps -/

lemma stampLen_eq : stampLen = 13 := by decide

lemma length_stamp (off : ℕ) : (stamp off).length = stampLen := by
  rw [stamp, List.length_append, length_toLe]
  rfl

section Patch

variable {out b : Bytes} {off : ℕ}

lemma length_patch (h : off + b.length ≤ out.length) : (patch out off b).length = out.length := by
  rw [patch, List.length_append, List.length_append, List.length_take, List.length_drop]
  omega

lemma sub_patch (h : off + b.length ≤ out.length) : sub (patch out off b) off b.length = b := by
  have hlen : (out.take off).length = off := by
    rw [List.length_take]
    omega
  have hmid := sub_middle (out.take off) b (out.drop (off + b.length))
  rw [hlen] at hmid
  rw [patch, List.append_assoc, hmid]

/-- What is before stays. -/
lemma sub_patch_of_le (h : off ≤ out.length) {o n : ℕ} (hle : o + n ≤ off) :
    sub (patch out off b) o n = sub out o n := by
  have hlen : (out.take off).length = off := by
    rw [List.length_take]
    omega
  rw [patch, List.append_assoc, sub_append_left _ (by omega)]
  conv_rhs => rw [← List.take_append_drop off out]
  rw [sub_append_left _ (by omega)]

end Patch

/-- The stamps of an object, from an offset on; each offset fits in its stamp. -/
def Stamped (data : Bytes) (off : ℕ) : Prop :=
  ∀ k, off + k * stampStep + stampLen ≤ data.length → off + k * stampStep < 2 ^ 64 ∧
    sub data (off + k * stampStep) stampLen = stamp (off + k * stampStep)

/-- **The loop of the builder** leaves what is before its offset, and writes every stamp from
there on that has room. -/
lemma stampLoop_spec {total off : ℕ} {out data : Bytes} {n n' : ℕ} (hlen : out.length = total)
    (h : stampLoop total off out n = .ok (data, n')) :
    data.length = total ∧ (∀ o, o + stampLen ≤ off → sub data o stampLen = sub out o stampLen) ∧
      Stamped data off := by
  induction off, out, n using stampLoop.induct total with
  | case1 off out n hroom hpack ih =>
    rw [stampLoop, if_pos hroom, if_pos hpack] at h
    have hroom' : off + (stamp off).length ≤ out.length := by
      rw [length_stamp, hlen]
      exact hroom
    obtain ⟨hdata, hbefore, hafter⟩ := ih ((length_patch hroom').trans hlen) h
    refine ⟨hdata, fun o ho => ?_, fun k hk => ?_⟩
    · rw [hbefore o (by omega), sub_patch_of_le (by omega) ho]
    · cases k with
      | zero =>
        have hnext : off + stampLen ≤ off + stampStep := by
          rw [stampLen_eq, stampStep]
          omega
        rw [Nat.zero_mul, Nat.add_zero]
        exact ⟨hpack, by rw [hbefore off hnext, ← length_stamp off, sub_patch hroom']⟩
      | succ k =>
        rw [Nat.succ_mul, Nat.add_comm (k * stampStep), ← Nat.add_assoc] at hk ⊢
        exact hafter k hk
  | case2 off out n hroom hpack =>
    rw [stampLoop, if_pos hroom, if_neg hpack] at h
    cases h
  | case3 off out n hroom =>
    rw [stampLoop, if_neg hroom] at h
    cases h
    refine ⟨hlen, fun o _ => rfl, fun k hk => ?_⟩
    omega

/-- **The loop of the check** counts the stamps that the builder has counted. -/
lemma checkLoop_of_stampLoop {total off : ℕ} {out out' data : Bytes} {n n' : ℕ}
    (h : stampLoop total off out n = .ok (out', n')) (hlen : data.length = total)
    (hdata : Stamped data off) : checkLoop data off n = .ok n' := by
  induction off, out, n using stampLoop.induct total with
  | case1 off out n hroom hpack ih =>
    rw [stampLoop, if_pos hroom, if_pos hpack] at h
    have hstamp := (hdata 0 (by omega)).2
    rw [Nat.zero_mul, Nat.add_zero] at hstamp
    have hnext : Stamped data (off + stampStep) := by
      intro k hk
      have hk' := hdata (k + 1) (by rw [Nat.succ_mul]; omega)
      rwa [Nat.succ_mul, Nat.add_comm (k * stampStep), ← Nat.add_assoc] at hk'
    have hnum : leNat (toLe 8 off) = off := leNat_toLe 8 off (by omega)
    rw [checkLoop, hlen, if_pos hroom]
    simp only [hstamp, stamp, List.take_left, List.drop_left, hnum, ne_eq, not_true_eq_false,
      if_false]
    exact ih h hnext
  | case2 off out n hroom hpack =>
    rw [stampLoop, if_pos hroom, if_neg hpack] at h
    cases h
  | case3 off out n hroom =>
    rw [stampLoop, if_neg hroom] at h
    cases h
    rw [checkLoop, hlen, if_neg hroom]

/-- **What the builder writes**: an object of the given size with all its stamps, which passes
the check. -/
lemma build_spec {m1n1 data : Bytes} {total n : ℕ} (h : build m1n1 total = .ok (data, n)) :
    data.length = total ∧ Stamped data stampBase ∧ selfcheck data n = .ok () := by
  unfold build at h
  split_ifs at h with hsmall halign hover
  have hlen : (m1n1 ++ List.replicate (total - m1n1.length) filler).length = total := by
    rw [List.length_append, List.length_replicate]
    omega
  obtain ⟨hdata, -, hstamped⟩ := stampLoop_spec hlen h
  refine ⟨hdata, hstamped, ?_⟩
  rw [selfcheck, hdata, if_neg halign, checkLoop_of_stampLoop h hdata hstamped]
  simp

/-! ### The scan -/

section Scan

variable {mem : ℕ → UInt8} {limit off : ℕ}

/-- The first bytes of a block are those of its stamp. -/
lemma take_slice (mem : ℕ → UInt8) (off : ℕ) : (slice mem off 16).take 5 = slice mem off 5 ∧
    sub (slice mem off 16) 5 8 = slice mem (off + 5) 8 ∧
    slice mem off stampLen = slice mem off 5 ++ slice mem (off + 5) 8 := by
  refine ⟨?_, sub_slice mem (by decide), slice_add mem off 5 8⟩
  have h : sub (slice mem off 16) 0 5 = slice mem (off + 0) 5 := sub_slice mem (by decide)
  rwa [Nat.add_zero] at h

lemma stamp_of_loaded (h : classify (slice mem off 16) off = .loaded) :
    slice mem off stampLen = stamp off := by
  obtain ⟨hmagic, hnum, hsplit⟩ := take_slice mem off
  rw [classify, hmagic, hnum] at h
  by_cases hm : slice mem off 5 = stampMagic
  · by_cases hgot : leNat (slice mem (off + 5) 8) = off
    · have hback := toLe_leNat (slice mem (off + 5) 8)
      rw [length_slice, hgot] at hback
      rw [hsplit, hm, stamp, hback]
    · simp [hm, hgot] at h
  · rw [if_neg hm] at h
    split_ifs at h

lemma loaded_of_stamp (hoff : off < 2 ^ 64) (h : slice mem off stampLen = stamp off) :
    classify (slice mem off 16) off = .loaded := by
  obtain ⟨hmagic, hnum, hsplit⟩ := take_slice mem off
  rw [hsplit, stamp] at h
  obtain ⟨hm, hoffset⟩ := List.append_inj h (by rw [length_slice]; rfl)
  rw [classify, hmagic, hnum, hm, hoffset, leNat_toLe 8 off (by omega)]
  simp

/-- From the base of the stamps on, the reader takes steps of 1 MiB. -/
lemma stride_of_le (h : baseOff ≤ off) : stride off = 0x100000 := by
  unfold baseOff at h
  rw [stride, if_neg (by omega)]

/-- The blocks that the reader visits. -/
def visit (j : ℕ) : ℕ := baseOff + j * 0x100000

lemma visit_succ (j : ℕ) : visit j + stride (visit j) = visit (j + 1) := by
  have hstride : stride (visit j) = 0x100000 := stride_of_le (Nat.le_add_right ..)
  rw [hstride, visit, visit]
  omega

/-- **The scan** goes on while the blocks it visits are loaded, and reports the last. -/
lemma scan_spec {j top : ℕ} (r : Report) (hle : j ≤ top) (hlimit : visit top < limit)
    (hloaded : ∀ i ≤ top, classify (slice mem (visit i) 16) (visit i) = .loaded)
    (hstop : classify (slice mem (visit (top + 1)) 16) (visit (top + 1)) ≠ .loaded) :
    ∃ lines, scan mem limit (visit j) r = ⟨lines, some (visit top)⟩ := by
  obtain ⟨d, rfl⟩ := Nat.exists_eq_add_of_le hle
  induction d generalizing j r with
  | zero =>
    rw [Nat.add_zero] at hlimit hloaded hstop ⊢
    rw [scan, if_pos hlimit]
    simp only [hloaded j (Nat.le_refl _), if_true, visit_succ]
    rw [scan]
    by_cases hnext : visit (j + 1) < limit
    · rw [if_pos hnext]
      simp only [hstop, if_false, Option.isSome_some, if_true]
      exact ⟨_, rfl⟩
    · rw [if_neg hnext]
      exact ⟨_, rfl⟩
  | succ d ih =>
    have hj : visit j < limit := by
      refine Nat.lt_of_le_of_lt ?_ hlimit
      rw [visit, visit]
      omega
    rw [scan, if_pos hj]
    simp only [hloaded j (by omega), if_true, visit_succ]
    have heq : j + (d + 1) = j + 1 + d := by omega
    rw [heq] at hlimit hloaded hstop ⊢
    exact ih _ (by omega) hlimit hloaded hstop

end Scan

/-! ### What is measured -/

/-- The offsets of stamps that are entirely below a load extent. -/
def stampsBelow (extent : ℕ) : Set ℕ :=
  {o | ∃ k, o = stampBase + k * stampStep ∧ o + stampLen ≤ extent}

/-- The number of the last stamp below the extent. -/
def lastStamp (extent : ℕ) : ℕ := (extent - stampLen - stampBase) / stampStep

/-- Memory with an object up to the extent: what is there of a stamp that is not entirely loaded
is not that stamp. -/
structure LoadedUpTo (data : Bytes) (mem : ℕ → UInt8) (extent : ℕ) : Prop where
  below : ∀ i < extent, data[i]? = some (mem i)
  stale : ∀ k, extent < stampBase + k * stampStep + stampLen →
    slice mem (stampBase + k * stampStep) stampLen ≠ stamp (stampBase + k * stampStep)

lemma Reports.unique {mem : ℕ → UInt8} {mib o o' : ℕ} (h : Reports mem mib o)
    (h' : Reports mem mib o') : o = o' := by
  obtain ⟨lines, h⟩ := h
  obtain ⟨lines', h'⟩ := h'
  rw [h] at h'
  exact Option.some.inj (Report.mk.inj h').2

lemma isGreatest_lastStamp {extent : ℕ} (h : stampBase + stampLen ≤ extent) :
    IsGreatest (stampsBelow extent) (stampBase + lastStamp extent * stampStep) := by
  have hdiv := Nat.div_mul_le_self (extent - stampLen - stampBase) stampStep
  refine ⟨⟨lastStamp extent, rfl, ?_⟩, ?_⟩
  · rw [lastStamp]
    omega
  · rintro o ⟨k, rfl, hk⟩
    refine Nat.add_le_add_left (Nat.mul_le_mul_right stampStep ?_) stampBase
    exact (Nat.le_div_iff_mul_le (by decide)).mpr (by omega)

lemma slice_of_below {data : Bytes} {mem : ℕ → UInt8} {extent off n : ℕ}
    (h : ∀ i < extent, data[i]? = some (mem i)) (hle : off + n ≤ extent) :
    slice mem off n = sub data off n := by
  refine List.ext_getElem? fun i => ?_
  rw [slice, sub, List.getElem?_map, List.getElem?_take, List.getElem?_drop]
  by_cases hi : i < n
  · rw [if_pos hi, List.getElem?_range hi, h (off + i) (by omega)]
    rfl
  · rw [if_neg hi, List.getElem?_eq_none (by rw [List.length_range]; omega)]
    rfl

/-- **What is reported**: of the stamps below the extent, the last that is a whole number of MiB
after the first. -/
lemma reports_visit {data : Bytes} {mem : ℕ → UInt8} {mib extent : ℕ}
    (hstamped : Stamped data stampBase) (hlen : data.length = mib * 1024 * 1024)
    (hmem : LoadedUpTo data mem extent) (hlow : stampBase + stampLen ≤ extent)
    (hhigh : extent ≤ mib * 1024 * 1024) :
    Reports mem mib (visit (lastStamp extent / 16)) := by
  have hvisit (i : ℕ) : visit i = stampBase + 16 * i * stampStep := by
    rw [visit, stampStep, baseOff, stampBase]
    omega
  have hbelow : ∀ i ≤ lastStamp extent / 16, visit i + stampLen ≤ extent := by
    intro i hi
    have hdiv := Nat.div_mul_le_self (extent - stampLen - stampBase) stampStep
    have hmul : 16 * i * stampStep ≤ lastStamp extent * stampStep :=
      Nat.mul_le_mul_right _ (by omega)
    rw [hvisit]
    rw [lastStamp] at hmul
    omega
  have htop := hbelow _ (Nat.le_refl _)
  have hlen13 : 0 < stampLen := by decide
  have hfirst : visit 0 = baseOff := by
    rw [visit, Nat.zero_mul, Nat.add_zero]
  rw [Reports, probe, ← hfirst]
  refine scan_spec _ (Nat.zero_le _) (by omega) (fun i hi => ?_) (fun hl => ?_)
  · obtain ⟨hword, hstamp⟩ := hstamped (16 * i) (by rw [← hvisit]; have := hbelow i hi; omega)
    rw [← hvisit] at hword hstamp
    exact loaded_of_stamp hword (by rw [slice_of_below hmem.below (hbelow i hi), hstamp])
  · have habove : extent < stampBase + 16 * (lastStamp extent / 16 + 1) * stampStep + stampLen := by
      have hlt := Nat.lt_div_mul_add (a := extent - stampLen - stampBase) (b := stampStep)
        (by decide)
      have hmul : (lastStamp extent + 1) * stampStep ≤
          16 * (lastStamp extent / 16 + 1) * stampStep := Nat.mul_le_mul_right _ (by omega)
      rw [Nat.succ_mul] at hmul
      rw [lastStamp] at hmul ⊢
      omega
    have hstale := hmem.stale _ habove
    rw [← hvisit] at hstale
    exact hstale (stamp_of_loaded hl)

/-! ### Objects -/

lemma stampLoop_ok {total : ℕ} (htotal : total ≤ 2 ^ 64) (off : ℕ) (out : Bytes) (n : ℕ) :
    ∃ data n', stampLoop total off out n = .ok (data, n') := by
  induction off, out, n using stampLoop.induct total with
  | case1 off out n hroom hpack ih =>
    rw [stampLoop, if_pos hroom, if_pos hpack]
    exact ih
  | case2 off out n hroom hpack =>
    have : 0 < stampLen := by decide
    omega
  | case3 off out n hroom =>
    rw [stampLoop, if_neg hroom]
    exact ⟨out, n, rfl⟩

lemma build_ok {m1n1 : Bytes} {total : ℕ} (hlarger : m1n1.length < total)
    (halign : total % alignment = 0) (hbase : m1n1.length ≤ stampBase) (htotal : total ≤ 2 ^ 64) :
    ∃ data n, build m1n1 total = .ok (data, n) := by
  rw [build, if_neg (by omega), if_neg (by omega), if_neg (by omega)]
  exact stampLoop_ok htotal _ _ _

lemma build_two_mib : ∃ data n, build [] (2 * 1024 * 1024) = .ok (data, n) :=
  build_ok (by decide) (by decide) (by decide) (by decide)

/-- Memory with an object up to an extent, and zeros behind it. -/
def memUpTo (data : Bytes) (extent : ℕ) (i : ℕ) : UInt8 := if i < extent then data.getD i 0 else 0

/-- With a stamp at its end, the object is loaded up to the extent. -/
lemma loadedUpTo_memUpTo {data : Bytes} {extent k : ℕ}
    (hextent : extent = stampBase + k * stampStep + stampLen) (hlen : extent ≤ data.length) :
    LoadedUpTo data (memUpTo data extent) extent where
  below := by
    intro i hi
    rw [memUpTo, if_pos hi, List.getD_eq_getElem?_getD, List.getElem?_eq_getElem (by omega)]
    rfl
  stale := by
    intro k' hk' hstamp
    have hlt : k * stampStep < k' * stampStep := by omega
    have hk : k + 1 ≤ k' := Nat.lt_of_mul_lt_mul_right hlt
    have hmul : (k + 1) * stampStep ≤ k' * stampStep := Nat.mul_le_mul_right _ hk
    rw [Nat.succ_mul] at hmul
    have hroom : stampLen ≤ stampStep := by decide
    -- the first letter of the stamp would be a zero
    have hfirst := congrArg (fun l => l[0]?) hstamp
    have hzero : memUpTo data extent (stampBase + k' * stampStep + 0) = 0 := if_neg (by omega)
    have hslice : (slice (memUpTo data extent) (stampBase + k' * stampStep) stampLen)[0]? =
        some (memUpTo data extent (stampBase + k' * stampStep + 0)) := rfl
    rw [hslice, hzero] at hfirst
    exact absurd hfirst (by simp [stamp, stampMagic])

/-- **The reader reports the last stamp below the load extent exactly if** that stamp is a whole
number of MiB after the first: it visits no other. -/
theorem reports_highest_iff (m1n1 data : Bytes) (mib n extent : ℕ) (mem : ℕ → UInt8)
    (hbuild : build m1n1 (mib * 1024 * 1024) = .ok (data, n))
    (hlow : stampBase + stampLen ≤ extent) (hhigh : extent ≤ mib * 1024 * 1024)
    (hmem : LoadedUpTo data mem extent) :
    selfcheck data n = .ok () ∧
    ((∃ o, Reports mem mib o ∧ IsGreatest (stampsBelow extent) o) ↔
      16 ∣ lastStamp extent) := by
  obtain ⟨hlen, hstamped, hcheck⟩ := build_spec hbuild
  have hreport := reports_visit hstamped hlen hmem hlow hhigh
  have hgreatest := isGreatest_lastStamp hlow
  have hvisit : visit (lastStamp extent / 16) =
      stampBase + 16 * (lastStamp extent / 16) * stampStep := by
    rw [visit, stampStep, baseOff, stampBase]
    omega
  refine ⟨hcheck, ?_⟩
  constructor
  · rintro ⟨o, ho, hmax⟩
    obtain rfl := ho.unique hreport
    have heq := hmax.unique hgreatest
    rw [hvisit] at heq
    have hmul := Nat.eq_of_mul_eq_mul_right (by decide) (Nat.add_left_cancel heq)
    exact ⟨_, hmul.symm⟩
  · intro hdvd
    refine ⟨_, hreport, ?_⟩
    rw [hvisit, Nat.mul_div_cancel' hdvd]
    exact hgreatest

/-- An object of 3 MiB, its loader right up to the first stamp, loaded up to the seventeenth: the
reader steps there and reports it. -/
theorem reports_seventeenth_stamp :
    ∃ data n, build (List.replicate stampBase 0x14) (3 * 1024 * 1024) = .ok (data, n) ∧
      selfcheck data n = .ok () ∧
      LoadedUpTo data (memUpTo data (0x20C000 + stampLen)) (0x20C000 + stampLen) ∧
      Reports (memUpTo data (0x20C000 + stampLen)) 3 0x20C000 ∧
      IsGreatest (stampsBelow (0x20C000 + stampLen)) 0x20C000 := by
  have hloader : (List.replicate stampBase (0x14 : UInt8)).length = stampBase :=
    List.length_replicate
  obtain ⟨data, n, hbuild⟩ : ∃ data n,
      build (List.replicate stampBase 0x14) (3 * 1024 * 1024) = .ok (data, n) :=
    build_ok (by rw [hloader]; decide) (by decide) (by rw [hloader]) (by decide)
  have hlen := (build_spec hbuild).1
  have hmem : LoadedUpTo data (memUpTo data (0x20C000 + stampLen)) (0x20C000 + stampLen) :=
    loadedUpTo_memUpTo (k := 16) (by decide) (by rw [hlen]; decide)
  have hlow : stampBase + stampLen ≤ 0x20C000 + stampLen := by decide
  obtain ⟨hcheck, hiff⟩ := reports_highest_iff _ data 3 n _ _ hbuild hlow (by decide) hmem
  obtain ⟨o, hreport, hmax⟩ := hiff.mpr (by decide)
  obtain rfl : o = 0x20C000 := hmax.unique (isGreatest_lastStamp hlow)
  exact ⟨data, n, hbuild, hcheck, hmem, hreport, hmax⟩

/-- **The second stamp is not seen**: with the object loaded up to its end, the first one is still
reported as the highest. -/
theorem not_reports_second_stamp :
    ∃ data n, build [] (2 * 1024 * 1024) = .ok (data, n) ∧
      ∃ mem, LoadedUpTo data mem (stampBase + stampStep + stampLen) ∧ Reports mem 2 0x10C000 ∧
        IsGreatest (stampsBelow (stampBase + stampStep + stampLen)) 0x11C000 ∧
        ¬ ∃ o, Reports mem 2 o ∧
          IsGreatest (stampsBelow (stampBase + stampStep + stampLen)) o := by
  obtain ⟨data, n, hbuild⟩ := build_two_mib
  obtain ⟨hlen, hstamped, -⟩ := build_spec hbuild
  have hmem : LoadedUpTo data (memUpTo data (stampBase + stampStep + stampLen))
      (stampBase + stampStep + stampLen) :=
    loadedUpTo_memUpTo (k := 1) (by rw [Nat.one_mul]) (by rw [hlen]; decide +kernel)
  have hreport : Reports (memUpTo data (stampBase + stampStep + stampLen)) 2 0x10C000 :=
    reports_visit hstamped hlen hmem (by decide +kernel) (by decide +kernel)
  have hgreatest : IsGreatest (stampsBelow (stampBase + stampStep + stampLen)) 0x11C000 :=
    isGreatest_lastStamp (by decide +kernel)
  refine ⟨data, n, hbuild, _, hmem, hreport, hgreatest, ?_⟩
  rintro ⟨o, ho, hmax⟩
  have h := hmax.unique hgreatest
  rw [ho.unique hreport] at h
  exact absurd h (by decide)

end Wallace.GradedProbe
