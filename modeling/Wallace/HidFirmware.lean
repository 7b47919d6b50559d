import Mathlib.Data.List.Basic
import Mathlib.Tactic.Common
import Wallace.Bytes
import Wallace.HidPower

/-!
The firmware of the multi-touch interface: the HIDF file, as `validate_hidf` of
`t6040-extract-trackpad-firmware.py` and `dchid_get_firmware` read it, and the way of an open
through `dchid_open` and `dchid_start_interface`, with `dchid_handle_ready` at any time.

The HID core holds a lock over `dchid_open`, so there is one open of an interface at a time; opens
of different interfaces run side by side. The results of the calls into the kernel and of
`dchid_comm_cmd` are inputs.
-/

namespace Wallace.HidFirmware

open Runs Bytes

/-! ### The file -/

/-- `struct dchid_fw_header`. -/
structure Header where
  magic : ℕ
  version : ℕ
  headerLength : ℕ
  dataLength : ℕ
  ifaceOffset : ℕ

def header (b : List UInt8) : Header where
  magic := leNat (sub b 0 4)
  version := leNat (sub b 4 4)
  headerLength := leNat (sub b 8 4)
  dataLength := leNat (sub b 12 4)
  ifaceOffset := leNat (sub b 16 4)

/-- The checks of `dchid_get_firmware`. -/
def headerOk (b : List UInt8) : Bool :=
  20 ≤ b.length && (header b).magic = 0x46444948 && (header b).version = 1 &&
    20 ≤ (header b).headerLength && (header b).headerLength ≤ b.length &&
    (header b).dataLength ≤ b.length - (header b).headerLength &&
    (header b).ifaceOffset < (header b).dataLength

/-- What `validate_hidf` raises. -/
inductive HidfError
  | short
  | magic (m : List UInt8)
  | version (version headerSize : ℕ)
  | truncated (declared actual : ℕ)
  | outside (ifaceOffset dataSize : ℕ)

def validateHidf (b : List UInt8) : Except HidfError Header :=
  if b.length < 32 then .error .short
  else if sub b 0 4 ≠ [0x48, 0x49, 0x44, 0x46] then .error (.magic (sub b 0 4))
  else if (header b).version ≠ 1 ∨ (header b).headerLength ≠ 32 then
    .error (.version (header b).version (header b).headerLength)
  else if (header b).dataLength ≠ b.length - (header b).headerLength then
    .error (.truncated (header b).dataLength (b.length - (header b).headerLength))
  else if (header b).dataLength ≤ (header b).ifaceOffset then
    .error (.outside (header b).ifaceOffset (header b).dataLength)
  else .ok (header b)

/-- The data behind the header, with the number of the interface put in unless its offset is 0. -/
def payload (index : ℕ) (b : List UInt8) : List UInt8 :=
  let data := sub b (header b).headerLength (header b).dataLength
  if (header b).ifaceOffset = 0 then data
  else data.set (header b).ifaceOffset (UInt8.ofNat index)

/-- What is found under `firmware-name`: nothing, an error of `request_firmware`, or a file, for
whose data there is memory or not. -/
inductive Fetch
  | unnamed
  | failed (ret : ℤ)
  | file (b : List UInt8) (copied : Bool)

def einval : ℤ := 22
def enomem : ℤ := 12
def efbig : ℤ := 27
def einprogress : ℤ := 115
def etimedout : ℤ := 110

def dchidGetFirmware (index : ℕ) : Fetch → Except ℤ (Option (List UInt8))
  | .unnamed => .ok none
  | .failed ret => .error ret
  | .file b copied =>
    if headerOk b = false then .error (-einval)
    else if copied = false then .error (-enomem)
    else .ok (some (payload index b))

/-- The packed command of `dchid_send_firmware`. -/
def firmwareMsg (index addr size : ℕ) : List HidPower.Byte :=
  [0x95, 2, 0, BitVec.ofNat 8 index] ++ (toLe 8 addr ++ toLe 4 size).map UInt8.toBitVec

/-- `dchid_send_firmware`: what it sends, and what it returns. The memory is at `addr`. -/
def dchidSendFirmware (index : ℕ) (fw : List UInt8) (addr : Option ℕ) (ret : ℤ) :
    List HidPower.Sent × ℤ :=
  if 2 ^ 32 ≤ fw.length then ([], -efbig)
  else
    match addr with
    | none => ([], -enomem)
    | some a => ([⟨firmwareMsg index a fw.length, ret⟩], ret)

/-! ### Opens -/

inductive Kind
  | upload
  | off
  | on
  deriving DecidableEq

/-- `PWR_STATE_OFF` and `PWR_STATE_ON`. -/
def Kind.state : Kind → ℤ
  | .on => 2
  | _ => 0

/-- A request with what was sent for it; for an upload also what is in the memory that the
coprocessor is told of. -/
structure Req where
  iface : ℕ
  kind : Kind
  data : List UInt8 := []
  sent : List HidPower.Sent
  ret : ℤ

/-- Where the open of an interface is. A wait remembers whether firmware was loaded. -/
inductive Pc
  | idle
  | check
  | start
  | fetch
  | upload (fw : List UInt8)
  | off
  | on
  | wait (loaded : Bool)
  | timedOut
  | failed (ret : ℤ)
  deriving DecidableEq

/-- The places after `starting` was set. -/
def Pc.inside : Pc → Bool
  | .idle | .check | .start => false
  | _ => true

structure Iface where
  starting : Bool := false
  ready : Bool := false
  isOpen : Bool := false
  pc : Pc := .idle

structure St where
  iface : ℕ → Iface := fun _ => {}
  powerReqV1 : Bool := false
  /-- The interface whose ready message is being handled. -/
  handler : Option ℕ := none
  log : List Req := []
  /-- The opens that have returned, with what they returned. -/
  rets : List (ℕ × ℤ) := []
  /-- An open was told that the interface is already starting. -/
  refused : Bool := false

def init : St := {}

def St.put (s : St) (i : ℕ) (f : Iface) : St := { s with iface := Function.update s.iface i f }

def St.goto (s : St) (i : ℕ) (pc : Pc) : St := s.put i { s.iface i with pc := pc }

/-- The open returns. -/
def St.ret (s : St) (i : ℕ) (f : Iface) (ret : ℤ) : St :=
  { s.put i { f with pc := .idle } with rets := s.rets ++ [(i, ret)] }

/-- `iface->open = true; return 0;`. -/
def St.succeed (s : St) (i : ℕ) : St := s.ret i { s.iface i with isOpen := true } 0

/-- `err:` of `dchid_start_interface`, or on with the start. -/
def Req.after (r : Req) (next : Pc) : Pc := if r.ret < 0 then .failed r.ret else next

def St.sent (s : St) (r : Req) (next : Pc) : St :=
  { s.goto r.iface (r.after next) with log := s.log ++ [r] }

/-- A call of `dchid_reset_interface`. -/
def St.power (s : St) (i : ℕ) (k : Kind) (next : Pc) (first second : ℤ) : St :=
  let c := HidPower.dchidResetInterface s.powerReqV1 ⟨i, k.state, first, second⟩
  { s.sent ⟨i, k, [], c.1, c.2.1⟩ next with powerReqV1 := c.2.2 }

inductive Act
  | begin (i : ℕ)
  | go (i : ℕ)
  | fetch (i : ℕ) (f : Fetch)
  | upload (i : ℕ) (addr : Option ℕ) (ret : ℤ)
  | power (i : ℕ) (first second : ℤ)
  | timeout (i : ℕ)
  | ready (i : ℕ)
  | complete
  | close (i : ℕ)

/-- The steps that need nothing from outside. -/
def go (s : St) (i : ℕ) : Option St :=
  match (s.iface i).pc with
  | .check => some (if (s.iface i).ready = true then s.succeed i else s.goto i .start)
  | .start =>
    some (if (s.iface i).starting = true then
        { s.ret i (s.iface i) (-einprogress) with refused := true }
      else s.put i { s.iface i with starting := true, pc := .fetch })
  | .wait _ => if (s.iface i).ready = true then some (s.succeed i) else none
  | .timedOut => some (s.ret i { s.iface i with starting := false } (-etimedout))
  | .failed ret => some (s.ret i { s.iface i with starting := false } ret)
  | .idle | .fetch | .upload _ | .off | .on => none

/-- After `dchid_get_firmware`. -/
def fetched (s : St) (i : ℕ) (f : Fetch) : Option St :=
  match dchidGetFirmware i f with
  | .error ret => if ret < 0 then some (s.goto i (.failed ret)) else none
  | .ok none => some (s.goto i (.wait false))
  | .ok (some fw) => some (s.goto i (.upload fw))

def step (s : St) : Act → Option St
  | .begin i => if (s.iface i).pc = .idle then some (s.goto i .check) else none
  | .go i => go s i
  | .fetch i f => if (s.iface i).pc = .fetch then fetched s i f else none
  | .upload i addr ret =>
    match (s.iface i).pc with
    | .upload fw =>
      let r := dchidSendFirmware i fw addr ret
      some (if r.1 = [] then s.goto i (.failed r.2) else s.sent ⟨i, .upload, fw, r.1, r.2⟩ .off)
    | _ => none
  | .power i first second =>
    match (s.iface i).pc with
    | .off => some (s.power i .off .on first second)
    | .on => some (s.power i .on (.wait true) first second)
    | _ => none
  | .timeout i =>
    match (s.iface i).pc with
    | .wait _ => if (s.iface i).ready = true then none else some (s.goto i .timedOut)
    | _ => none
  -- the handler clears `starting` before it completes
  | .ready i =>
    if s.handler = none then
      some { s.put i { s.iface i with starting := false } with handler := some i }
    else none
  | .complete =>
    match s.handler with
    | some i => some { s.put i { s.iface i with ready := true } with handler := none }
    | none => none
  | .close i =>
    if (s.iface i).pc = .idle then some (s.put i { s.iface i with isOpen := false }) else none

/-! ### The two readers of a file -/

lemma magic_iff {b : List UInt8} (h : 4 ≤ b.length) :
    sub b 0 4 = [0x48, 0x49, 0x44, 0x46] ↔ (header b).magic = 0x46444948 := by
  refine ⟨fun e => ?_, fun e => ?_⟩
  · change leNat (sub b 0 4) = _
    rw [e]
    rfl
  · have hlen : (sub b 0 4).length = 4 := length_sub h
    have hle := toLe_leNat (sub b 0 4)
    rw [hlen, show leNat (sub b 0 4) = 0x46444948 from e] at hle
    rw [← hle]
    rfl

/-- **The extractor passes what the driver takes**, if the header has 32 bytes and nothing follows
the data. -/
lemma validateHidf_iff (b : List UInt8) :
    (∃ h, validateHidf b = .ok h) ↔
      headerOk b = true ∧ (header b).headerLength = 32 ∧ 32 + (header b).dataLength = b.length := by
  have hmagic := @magic_iff b
  unfold validateHidf
  constructor
  · rintro ⟨h, hv⟩
    split_ifs at hv with h1 h2 h3 h4 h5
    have hm := (hmagic (by omega)).mp (not_not.mp h2)
    simp only [not_or, not_not] at h3
    simp only [headerOk, Bool.and_eq_true, decide_eq_true_eq]
    omega
  · rintro ⟨hok, hl, ht⟩
    simp only [headerOk, Bool.and_eq_true, decide_eq_true_eq] at hok
    obtain ⟨⟨⟨⟨⟨⟨h1, h2⟩, h3⟩, -⟩, -⟩, h6⟩, h7⟩ := hok
    refine ⟨header b, ?_⟩
    rw [if_neg (by omega), if_neg (not_not.mpr ((hmagic (by omega)).mpr h2)), if_neg (by omega),
      if_neg (by omega), if_neg (by omega)]

/-- Nothing is read behind the end of the file. -/
lemma length_payload {b : List UInt8} (h : headerOk b = true) (index : ℕ) :
    (payload index b).length = (header b).dataLength := by
  simp only [headerOk, Bool.and_eq_true, decide_eq_true_eq] at h
  have hlen : (sub b (header b).headerLength (header b).dataLength).length =
      (header b).dataLength := length_sub (by omega)
  simp only [payload]
  split_ifs
  · exact hlen
  · rw [List.length_set, hlen]

lemma length_payload_lt {b : List UInt8} (h : headerOk b = true) (index : ℕ) :
    (payload index b).length < 2 ^ 32 := by
  rw [length_payload h]
  exact leNat_sub_lt b 12 4

/-! ### What has to go before a request -/

def requests (s : St) (i : ℕ) : List Req := s.log.filter fun r => r.iface = i

/-- The last request of an interface is of this kind, and was accepted. -/
def Last (k : Kind) (l : List Req) : Prop := ∃ r, l.getLast? = some r ∧ r.kind = k ∧ 0 ≤ r.ret

/-- The interface is powered off right after an accepted upload, and on right after that. -/
def Follows (l : List Req) (r : Req) : Prop :=
  match r.kind with
  | .upload => True
  | .off => Last .upload l
  | .on => Last .off l

def Chain (l : List Req) : Prop := ∀ pre r post, l = pre ++ r :: post → Follows pre r

lemma chain_nil : Chain [] := by
  intro pre r post h
  cases pre <;> cases h

lemma Chain.snoc {l : List Req} {r : Req} (h : Chain l) (hr : Follows l r) : Chain (l ++ [r]) := by
  intro pre r' post he
  rcases History.split_append he with ⟨post', hl⟩ | ⟨pre', rfl, hl⟩
  · exact h pre r' post' hl
  · cases pre' with
    | nil =>
      obtain ⟨rfl, -⟩ := List.cons.inj hl
      rwa [List.append_nil]
    | cons x pre' =>
      obtain ⟨-, hl⟩ := List.cons.inj hl
      cases pre' <;> cases hl

/-- What is sent for a request, and that an upload is of a file with a good header. -/
def Sound (r : Req) : Prop :=
  match r.kind with
  | .upload => ∃ b addr, headerOk b = true ∧ r.data = payload r.iface b ∧
      r.data.length = (header b).dataLength ∧
      r.sent = [⟨firmwareMsg r.iface addr r.data.length, r.ret⟩]
  | _ => ∃ v1 first second,
      (HidPower.dchidResetInterface v1 ⟨r.iface, r.kind.state, first, second⟩).1 = r.sent ∧
      (HidPower.dchidResetInterface v1 ⟨r.iface, r.kind.state, first, second⟩).2.1 = r.ret

/-- What has been done when an open is at a place. -/
def Place (i : ℕ) (l : List Req) : Pc → Prop
  | .upload fw => ∃ b, headerOk b = true ∧ fw = payload i b
  | .off => Last .upload l
  | .on => Last .off l
  | .wait true => Last .on l
  | .failed ret => ret < 0
  | _ => True

structure Good (s : St) : Prop where
  starting : ∀ i, (s.iface i).starting = true →
    (s.iface i).pc.inside = true ∨ (s.iface i).ready = true
  start : ∀ i, (s.iface i).pc = .start → (s.iface i).starting = false
  place : ∀ i, Place i (requests s i) (s.iface i).pc
  chain : ∀ i, Chain (requests s i)
  sound : ∀ r ∈ s.log, Sound r
  rets : ∀ r ∈ s.rets, r.2 = 0 → (s.iface r.1).ready = true
  refused : s.refused = false

section Steps

variable {s s' : St} {i : ℕ} {f : Iface}

/-- An interface changes. -/
lemma Good.put (hg : Good s) (hst : f.starting = true → f.pc.inside = true ∨ f.ready = true)
    (hs : f.pc = .start → f.starting = false)
    (hr : (s.iface i).ready = true → f.ready = true) (hp : Place i (requests s i) f.pc) :
    Good (s.put i f) := by
  have hcase : ∀ j, (s.put i f).iface j = f ∧ j = i ∨ (s.put i f).iface j = s.iface j := by
    intro j
    rcases eq_or_ne j i with rfl | hj
    · exact .inl ⟨Function.update_self _ _ _, rfl⟩
    · exact .inr (Function.update_of_ne hj _ _)
  refine ⟨fun j => ?_, fun j => ?_, fun j => ?_, hg.chain, hg.sound, fun r hr0 h0 => ?_,
    hg.refused⟩
  · rcases hcase j with ⟨e, -⟩ | e <;> rw [e]
    · exact hst
    · exact hg.starting j
  · rcases hcase j with ⟨e, -⟩ | e <;> rw [e]
    · exact hs
    · exact hg.start j
  · rcases hcase j with ⟨e, rfl⟩ | e <;> rw [e]
    · exact hp
    · exact hg.place j
  · have hready := hg.rets r hr0 h0
    rcases hcase r.1 with ⟨e, he⟩ | e <;> rw [e]
    · exact hr (he ▸ hready)
    · exact hready

/-- An open goes on. -/
lemma Good.goto {pc : Pc} (hg : Good s)
    (hin : (s.iface i).starting = true → pc.inside = true ∨ (s.iface i).ready = true)
    (hs : pc = .start → (s.iface i).starting = false) (hp : Place i (requests s i) pc) :
    Good (s.goto i pc) :=
  hg.put hin hs id hp

/-- An open returns. -/
lemma Good.ret {ret : ℤ} (hg : Good s) (hst : f.starting = true → f.ready = true)
    (hr : (s.iface i).ready = true → f.ready = true) (h0 : ret = 0 → f.ready = true) :
    Good (s.ret i f ret) := by
  have hput : Good (s.put i { f with pc := .idle }) :=
    hg.put (fun h => .inr (hst h)) (fun h => by cases h) hr trivial
  refine { hput with rets := fun r hmem hz => ?_ }
  rcases List.mem_append.mp hmem with hmem | hmem
  · exact hput.rets r hmem hz
  · rw [List.mem_singleton] at hmem
    subst hmem
    change (Function.update s.iface i _ i).ready = true
    rw [Function.update_self]
    exact h0 hz

lemma last_snoc (l : List Req) {r : Req} (h : ¬ r.ret < 0) : Last r.kind (l ++ [r]) :=
  ⟨r, by simp, rfl, by omega⟩

lemma requests_sent (s : St) (r : Req) (next : Pc) :
    requests (s.sent r next) r.iface = requests s r.iface ++ [r] := by
  simp [requests, St.sent]

lemma requests_sent_of_ne (s : St) {r : Req} {j : ℕ} (next : Pc) (h : j ≠ r.iface) :
    requests (s.sent r next) j = requests s j := by
  simp [requests, St.sent, h.symm]

/-- A request is sent. -/
lemma Good.sent {r : Req} {next : Pc} (hg : Good s) (hin : next.inside = true)
    (hf : Follows (requests s r.iface) r) (hso : Sound r)
    (hn : ∀ l, Last r.kind l → Place r.iface l next) : Good (s.sent r next) := by
  have hthen : (r.after next).inside = true := by
    unfold Req.after
    split_ifs
    · rfl
    · exact hin
  have hself : (s.sent r next).iface r.iface = { s.iface r.iface with pc := r.after next } :=
    Function.update_self _ _ _
  have hother : ∀ j, j ≠ r.iface → (s.sent r next).iface j = s.iface j :=
    fun j hj => Function.update_of_ne hj _ _
  refine ⟨fun j => ?_, fun j => ?_, fun j => ?_, fun j => ?_, fun x hx => ?_, fun x hx h0 => ?_,
    hg.refused⟩
  · rcases eq_or_ne j r.iface with rfl | hj
    · rw [hself]
      exact fun _ => .inl hthen
    · rw [hother j hj]
      exact hg.starting j
  · rcases eq_or_ne j r.iface with rfl | hj
    · rw [hself]
      intro e
      have he : r.after next = .start := e
      rw [he] at hthen
      cases hthen
    · rw [hother j hj]
      exact hg.start j
  · rcases eq_or_ne j r.iface with rfl | hj
    · rw [hself, requests_sent]
      change Place r.iface _ (r.after next)
      unfold Req.after
      split_ifs with hneg
      · exact hneg
      · exact hn _ (last_snoc _ hneg)
    · rw [hother j hj, requests_sent_of_ne s next hj]
      exact hg.place j
  · rcases eq_or_ne j r.iface with rfl | hj
    · rw [requests_sent]
      exact (hg.chain _).snoc hf
    · rw [requests_sent_of_ne s next hj]
      exact hg.chain j
  · rcases List.mem_append.mp hx with hx | hx
    · exact hg.sound x hx
    · rw [List.mem_singleton.mp hx]
      exact hso
  · have hready := hg.rets x hx h0
    rcases eq_or_ne x.1 r.iface with hj | hj
    · rw [hj, hself]
      exact hj ▸ hready
    · rw [hother _ hj]
      exact hready

/-! ### The steps -/

lemma good_go (hg : Good s) (h : go s i = some s') : Good s' := by
  have hst := hg.starting i
  have hpl := hg.place i
  unfold go at h
  cases hpc : (s.iface i).pc with
  | check =>
    simp only [hpc, Option.some.injEq] at h hst
    subst h
    have hrest : (s.iface i).starting = true → (s.iface i).ready = true := fun e =>
      (hst e).resolve_left Bool.false_ne_true
    split_ifs with hr
    · exact hg.ret hrest id fun _ => hr
    · refine hg.goto (fun e => .inr (hrest e)) (fun _ => ?_) trivial
      exact Bool.eq_false_of_not_eq_true fun e => hr (hrest e)
  | start =>
    have hs := hg.start i hpc
    simp only [hpc, hs, Bool.false_eq_true, if_false, Option.some.injEq] at h
    subst h
    exact hg.put (fun _ => .inl rfl) (fun e => by cases e) id trivial
  | wait loaded =>
    simp only [hpc] at h
    split_ifs at h with hr
    cases h
    exact hg.ret (fun _ => hr) id fun _ => hr
  | timedOut =>
    simp only [hpc, Option.some.injEq] at h
    subst h
    exact hg.ret (fun e => by cases e) id fun e => by cases e
  | failed ret =>
    simp only [hpc, Option.some.injEq] at h hpl
    subst h
    have hneg : ret < 0 := hpl
    exact hg.ret (fun e => by cases e) id fun e => by omega
  | idle => simp [hpc] at h
  | fetch => simp [hpc] at h
  | upload fw => simp [hpc] at h
  | off => simp [hpc] at h
  | on => simp [hpc] at h

lemma good_fetched {f : Fetch} (hg : Good s) (h : fetched s i f = some s') : Good s' := by
  unfold fetched at h
  cases f with
  | unnamed =>
    cases h
    exact hg.goto (fun _ => .inl rfl) (fun e => by cases e) trivial
  | failed ret =>
    simp only [dchidGetFirmware] at h
    split_ifs at h with hneg
    cases h
    exact hg.goto (fun _ => .inl rfl) (fun e => by cases e) hneg
  | file b copied =>
    cases hok : headerOk b with
    | false =>
      simp only [dchidGetFirmware, hok, if_true, einval] at h
      rw [if_pos (by decide)] at h
      cases h
      exact hg.goto (fun _ => .inl rfl) (fun e => by cases e) (by decide : (-22 : ℤ) < 0)
    | true =>
      cases copied with
      | false =>
        simp only [dchidGetFirmware, hok, Bool.true_eq_false, if_false, if_true, enomem] at h
        rw [if_pos (by decide)] at h
        cases h
        exact hg.goto (fun _ => .inl rfl) (fun e => by cases e) (by decide : (-12 : ℤ) < 0)
      | true =>
        simp only [dchidGetFirmware, hok, Bool.true_eq_false, if_false, Option.some.injEq] at h
        subst h
        exact hg.goto (fun _ => .inl rfl) (fun e => by cases e) ⟨b, hok, rfl⟩

lemma good_upload {addr : Option ℕ} {ret : ℤ} (hg : Good s)
    (h : step s (.upload i addr ret) = some s') : Good s' := by
  simp only [step] at h
  cases hpc : (s.iface i).pc with
  | upload fw =>
    have hpl := hg.place i
    simp only [hpc, Option.some.injEq] at h hpl
    obtain ⟨b, hok, rfl⟩ := hpl
    subst h
    have hlt : ¬ 2 ^ 32 ≤ (payload i b).length := by
      have := length_payload_lt hok i
      omega
    cases addr with
    | none =>
      simp only [dchidSendFirmware, if_neg hlt, if_true]
      exact hg.goto (fun _ => .inl rfl) (fun e => by cases e) (by decide : -enomem < 0)
    | some a =>
      simp only [dchidSendFirmware, if_neg hlt, List.cons_ne_nil, if_false]
      exact hg.sent rfl trivial ⟨b, a, hok, rfl, length_payload hok i, rfl⟩ fun _ hl => hl
  | _ => simp [hpc] at h

/-- A call of `dchid_reset_interface` for the next state. -/
lemma Good.power {k : Kind} {next : Pc} {first second : ℤ} (hg : Good s) (hk : k ≠ .upload)
    (hin : next.inside = true) (hf : ∀ sent ret, Follows (requests s i) ⟨i, k, [], sent, ret⟩)
    (hn : ∀ l, Last k l → Place i l next) : Good (s.power i k next first second) := by
  have hso : Sound ⟨i, k, [],
      (HidPower.dchidResetInterface s.powerReqV1 ⟨i, k.state, first, second⟩).1,
      (HidPower.dchidResetInterface s.powerReqV1 ⟨i, k.state, first, second⟩).2.1⟩ := by
    cases k with
    | upload => exact absurd rfl hk
    | off => exact ⟨s.powerReqV1, first, second, rfl, rfl⟩
    | on => exact ⟨s.powerReqV1, first, second, rfl, rfl⟩
  have hsent := hg.sent hin (hf _ _) hso hn
  exact { hsent with }

lemma good_power {first second : ℤ} (hg : Good s)
    (h : step s (.power i first second) = some s') : Good s' := by
  have hpl := hg.place i
  simp only [step] at h
  cases hpc : (s.iface i).pc with
  | off =>
    simp only [hpc, Option.some.injEq] at h hpl
    exact h ▸ hg.power (by decide) rfl (fun _ _ => hpl) fun _ hl => hl
  | on =>
    simp only [hpc, Option.some.injEq] at h hpl
    exact h ▸ hg.power (by decide) rfl (fun _ _ => hpl) fun _ hl => hl
  | _ => simp [hpc] at h

theorem good_step (s : St) (a : Act) (s' : St) (hg : Good s) (h : step s a = some s') :
    Good s' := by
  cases a with
  | begin i =>
    simp only [step] at h
    split_ifs at h with hpc
    cases h
    have hst := hg.starting i
    rw [hpc] at hst
    exact hg.goto (fun e => .inr ((hst e).resolve_left Bool.false_ne_true)) (fun e => by cases e)
      trivial
  | go i => exact good_go hg h
  | fetch i f =>
    simp only [step] at h
    split_ifs at h
    exact good_fetched hg h
  | upload i addr ret => exact good_upload hg h
  | power i first second => exact good_power hg h
  | timeout i =>
    simp only [step] at h
    split at h
    · split_ifs at h
      cases h
      exact hg.goto (fun _ => .inl rfl) (fun e => by cases e) trivial
    · cases h
  | ready i =>
    simp only [step] at h
    split_ifs at h
    cases h
    have hput : Good (s.put i { s.iface i with starting := false }) :=
      hg.put (fun e => by cases e) (fun _ => rfl) id (hg.place i)
    exact { hput with }
  | complete =>
    simp only [step] at h
    split at h
    · rename_i i _
      cases h
      have hput : Good (s.put i { s.iface i with ready := true }) :=
        hg.put (fun _ => .inr rfl) (hg.start i) (fun _ => rfl) (hg.place i)
      exact { hput with }
    · cases h
  | close i =>
    simp only [step] at h
    split_ifs at h
    cases h
    exact hg.put (hg.starting i) (hg.start i) id (hg.place i)

end Steps

lemma good_init : Good init where
  starting _ h := by cases h
  start _ h := by cases h
  place _ := trivial
  chain _ := chain_nil
  sound _ h := by cases h
  rets _ h := by cases h
  refused := rfl

/-! ### Runs -/

/-- **The interface is powered into the firmware it was sent.** In every interleaving of opens of
any interfaces, ready messages and time-outs, whatever the calls return: what is uploaded is the
data of a file with a good header, in full and with the number of the interface in its place, and
every file that the extractor passes has such a header; an interface is powered off only right
after an upload of its own that was accepted, and on only right after that; an open waits for a
loaded interface only when it was powered on. An open that succeeds has found the interface ready,
no open is refused because of an earlier one, and between opens an interface that is not ready is
free to start again. -/
theorem firmware_before_power {s : St} (h : Reach step Any init s) :
    ((∀ r ∈ s.log, Sound r) ∧ ∀ b, (∃ hd, validateHidf b = .ok hd) → headerOk b = true) ∧
      (∀ i, Chain (requests s i) ∧ ((s.iface i).pc = .wait true → Last .on (requests s i))) ∧
      (∀ r ∈ s.rets, r.2 = 0 → (s.iface r.1).ready = true) ∧
      s.refused = false ∧
      ∀ i, (s.iface i).pc = .idle → (s.iface i).ready = false → (s.iface i).starting = false := by
  have hg : Good s := h.invariant Good good_init fun s a s' hi _ hs => good_step s a s' hi hs
  refine ⟨⟨hg.sound, fun b hb => ((validateHidf_iff b).mp hb).1⟩,
    fun i => ⟨hg.chain i, fun hpc => ?_⟩, hg.rets, hg.refused, fun i hpc hr => ?_⟩
  · have hpl := hg.place i
    rw [hpc] at hpl
    exact hpl
  · refine Bool.eq_false_of_not_eq_true fun hst => ?_
    rcases hg.starting i hst with hin | hready
    · rw [hpc] at hin
      cases hin
    · rw [hr] at hready
      cases hready

/-- Three bytes of firmware, with the number of the interface in the second. -/
def smallFile : List UInt8 :=
  [0x48, 0x49, 0x44, 0x46, 1, 0, 0, 0, 32, 0, 0, 0, 3, 0, 0, 0, 1, 0, 0, 0] ++
    List.replicate 12 0 ++ [7, 8, 9]

/-- A start of `smallFile` up to the wait. -/
def smallStart : List Act :=
  [.begin 2, .go 2, .go 2, .fetch 2 (.file smallFile true), .upload 2 (some 4096) 1, .power 2 1 1,
    .power 2 1 1]

/-- An open that times out, and one that then succeeds. -/
theorem firmware_before_power_retry :
    ∃ s, Reach step Any init s ∧
      (s.rets = [(2, -etimedout), (2, 0)] ∧ s.log.length = 6 ∧
        (s.log.map Req.data).head? = some [7, 2, 9]) ∧
      s.refused = false ∧ Chain (requests s 2) := by
  obtain ⟨s, hs, hp⟩ := exists_reach_of_run step Any init
    (smallStart ++ [.timeout 2, .go 2] ++ smallStart ++ [.ready 2, .complete, .go 2])
    (fun s => s.rets = [(2, -etimedout), (2, 0)] ∧ s.log.length = 6 ∧
      (s.log.map Req.data).head? = some [7, 2, 9]) (by decide +kernel)
  rw [decide_eq_true_eq] at hp
  obtain ⟨-, hchain, -, href, -⟩ := firmware_before_power hs
  exact ⟨s, hs, hp, href, (hchain 2).1⟩

end Wallace.HidFirmware
