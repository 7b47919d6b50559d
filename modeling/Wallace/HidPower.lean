import Mathlib.Data.Int.Notation
import Mathlib.Data.List.Basic
import Mathlib.Tactic.Common
import Wallace.History
import Wallace.Runs

/-!
Interface power requests of the dockchannel HID driver: `dchid_reset_interface` with the
version-2 request and its fallback.

A request is the bytes handed to `dchid_comm_cmd`, and what that returns is an input of the
call: a count when the coprocessor took the request, `-EIO` when it answered with an error
status, another errno when no answer came. The device keeps one flag for all its interfaces;
the record of the calls is kept beside it, with what each of them sent.
-/

namespace Wallace.HidPower

open Runs

abbrev Byte := BitVec 8

/-! ### The requests -/

def CMD_SET_POWER : Byte := 0x40

def PWR_REQ_V1 : Byte := 1
def PWR_REQ_V2 : Byte := 2

def PWR_PHASE_WILL_CHANGE : Byte := 0
def PWR_PHASE_HAS_CHANGED : Byte := 1

/-- `EIO`. -/
def eio : ℤ := 5

/-- `struct dchid_power_req`. -/
structure PowerReq where
  cmd : Byte
  version : Byte
  iface : Byte
  state : Byte
  phase : Byte
  status : BitVec 32

/-- The nine bytes of the packed record, the status little-endian. -/
def PowerReq.bytes (r : PowerReq) : List Byte :=
  [r.cmd, r.version, r.iface, r.state, r.phase,
    r.status.extractLsb' 0 8, r.status.extractLsb' 8 8, r.status.extractLsb' 16 8,
    r.status.extractLsb' 24 8]

/-- A request with the result of `dchid_comm_cmd`. -/
structure Sent where
  msg : List Byte
  ret : ℤ
  deriving DecidableEq

/-- The coprocessor took the request. -/
def Sent.Accepted (e : Sent) : Prop := 0 ≤ e.ret

/-- The coprocessor answered with an error status. -/
def Sent.Rejected (e : Sent) : Prop := e.ret = -eio

/-- The second byte of either form is its version. -/
def Sent.IsV1 (e : Sent) : Prop := e.msg[1]? = some PWR_REQ_V1

def Sent.IsV2 (e : Sent) : Prop := e.msg[1]? = some PWR_REQ_V2

def Sent.IsWill (e : Sent) : Prop := e.IsV2 ∧ e.msg[4]? = some PWR_PHASE_WILL_CHANGE

def Sent.IsHas (e : Sent) : Prop := e.IsV2 ∧ e.msg[4]? = some PWR_PHASE_HAS_CHANGED

/-- Both are about one interface and one power state. -/
def Sent.SameTarget (e f : Sent) : Prop := e.msg[2]? = f.msg[2]? ∧ e.msg[3]? = f.msg[3]?

instance (e : Sent) : Decidable e.Accepted := inferInstanceAs (Decidable (0 ≤ e.ret))
instance (e : Sent) : Decidable e.Rejected := inferInstanceAs (Decidable (e.ret = -eio))
instance (e : Sent) : Decidable e.IsV1 := inferInstanceAs (Decidable (_ = _))
instance (e : Sent) : Decidable e.IsV2 := inferInstanceAs (Decidable (_ = _))

/-! ### The driver -/

/-- One call: the interface and the state asked for, and what `dchid_comm_cmd` returns for
the first and for the second request of the call. -/
structure Call where
  index : ℤ
  state : ℤ
  first : ℤ
  second : ℤ

/-- A finished call: what it sent and what it returned. -/
structure Done where
  index : ℤ
  state : ℤ
  sent : List Sent
  ret : ℤ

/-- `(u8)x`. -/
def u8 (x : ℤ) : Byte := BitVec.ofInt 8 x

/-- The initial `req` of the call. -/
def willReq (index state : ℤ) : PowerReq where
  cmd := CMD_SET_POWER
  version := PWR_REQ_V2
  iface := u8 index
  state := u8 state
  phase := PWR_PHASE_WILL_CHANGE
  status := 0

def willMsg (index state : ℤ) : List Byte := (willReq index state).bytes

/-- The same record after `req.phase = PWR_PHASE_HAS_CHANGED`. -/
def hasMsg (index state : ℤ) : List Byte :=
  { willReq index state with phase := PWR_PHASE_HAS_CHANGED }.bytes

/-- `u8 cmd[]` of the call. -/
def v1Msg (index state : ℤ) : List Byte := [CMD_SET_POWER, PWR_REQ_V1, u8 index, u8 state]

/-- `dchid_reset_interface`: the requests it sends in order, what it returns, and
`power_req_v1` afterwards. -/
def dchidResetInterface (powerReqV1 : Bool) (c : Call) : List Sent × ℤ × Bool :=
  let will := willMsg c.index c.state
  let has := hasMsg c.index c.state
  let cmd := v1Msg c.index c.state
  if !powerReqV1 then
    if 0 ≤ c.first then
      ([⟨will, c.first⟩, ⟨has, c.second⟩], c.second, powerReqV1)
    else if c.first ≠ -eio then
      ([⟨will, c.first⟩], c.first, powerReqV1)
    else
      ([⟨will, c.first⟩, ⟨cmd, c.second⟩], c.second, true)
  else
    ([⟨cmd, c.first⟩], c.first, powerReqV1)

/-- The device, with the calls made so far. -/
structure Dev where
  powerReqV1 : Bool
  calls : List Done

/-- After probe the flag is clear. -/
def init : Dev := ⟨false, []⟩

/-- Everything sent so far, in order. -/
def Dev.log (d : Dev) : List Sent := d.calls.flatMap Done.sent

/-- A call, on any interface, with any results. -/
def step (d : Dev) (c : Call) : Option Dev :=
  let r := dchidResetInterface d.powerReqV1 c
  some ⟨r.2.2, d.calls ++ [⟨c.index, c.state, r.1, r.2.1⟩]⟩

/-! ### What the requests say of themselves -/

section Messages

variable (i s r : ℤ)

@[simp] lemma isV2_will : Sent.IsV2 ⟨willMsg i s, r⟩ := rfl

@[simp] lemma isV2_has : Sent.IsV2 ⟨hasMsg i s, r⟩ := rfl

@[simp] lemma isV1_v1 : Sent.IsV1 ⟨v1Msg i s, r⟩ := rfl

@[simp] lemma not_isV1_will : ¬ Sent.IsV1 ⟨willMsg i s, r⟩ := by
  simp [Sent.IsV1, willMsg, willReq, PowerReq.bytes, PWR_REQ_V1, PWR_REQ_V2]

@[simp] lemma not_isV1_has : ¬ Sent.IsV1 ⟨hasMsg i s, r⟩ := by
  simp [Sent.IsV1, hasMsg, willReq, PowerReq.bytes, PWR_REQ_V1, PWR_REQ_V2]

@[simp] lemma not_isV2_v1 : ¬ Sent.IsV2 ⟨v1Msg i s, r⟩ := by
  simp [Sent.IsV2, v1Msg, PWR_REQ_V1, PWR_REQ_V2]

@[simp] lemma not_isHas_v1 : ¬ Sent.IsHas ⟨v1Msg i s, r⟩ := fun h => not_isV2_v1 i s r h.1

@[simp] lemma isWill_will : Sent.IsWill ⟨willMsg i s, r⟩ := ⟨rfl, rfl⟩

@[simp] lemma not_isHas_will : ¬ Sent.IsHas ⟨willMsg i s, r⟩ := by
  simp [Sent.IsHas, willMsg, willReq, PowerReq.bytes, PWR_PHASE_WILL_CHANGE,
    PWR_PHASE_HAS_CHANGED]

lemma sameTarget_will_has (r' : ℤ) : Sent.SameTarget ⟨willMsg i s, r⟩ ⟨hasMsg i s, r'⟩ :=
  ⟨rfl, rfl⟩

end Messages

/-! ### What one call does -/

/-- **The four ways of a call**, by the flag and the result of the first request. -/
lemma step_cases {d d' : Dev} {c : Call} (h : step d c = some d') :
    ∃ sent ret,
      d'.calls = d.calls ++ [⟨c.index, c.state, sent, ret⟩] ∧
      ((d.powerReqV1 = false ∧ 0 ≤ c.first ∧ d'.powerReqV1 = false ∧ ret = c.second ∧
          sent = [⟨willMsg c.index c.state, c.first⟩, ⟨hasMsg c.index c.state, c.second⟩]) ∨
        (d.powerReqV1 = false ∧ c.first < 0 ∧ c.first ≠ -eio ∧ d'.powerReqV1 = false ∧
          ret = c.first ∧ sent = [⟨willMsg c.index c.state, c.first⟩]) ∨
        (d.powerReqV1 = false ∧ c.first = -eio ∧ d'.powerReqV1 = true ∧ ret = c.second ∧
          sent = [⟨willMsg c.index c.state, c.first⟩, ⟨v1Msg c.index c.state, c.second⟩]) ∨
        (d.powerReqV1 = true ∧ d'.powerReqV1 = true ∧ ret = c.first ∧
          sent = [⟨v1Msg c.index c.state, c.first⟩])) := by
  obtain ⟨flag, calls⟩ := d
  simp only [step, Option.some.injEq] at h
  subst h
  refine ⟨_, _, rfl, ?_⟩
  cases flag with
  | true => exact .inr (.inr (.inr ⟨rfl, rfl, rfl, rfl⟩))
  | false =>
    by_cases h0 : 0 ≤ c.first
    · exact .inl (by simp [dchidResetInterface, h0])
    by_cases h1 : c.first = -eio
    · exact .inr (.inr (.inl (by simp [dchidResetInterface, h1, eio])))
    · exact .inr (.inl (by simp [dchidResetInterface, h0, h1]; omega))

lemma log_of_calls {d d' : Dev} {x : Done} (h : d'.calls = d.calls ++ [x]) :
    d'.log = d.log ++ x.sent := by
  simp [Dev.log, h]

/-! ### The properties of a record -/

/-- Once a version-2 request was accepted, none of version 1 is sent. -/
def Dev.KeepsV2 (d : Dev) : Prop :=
  d.log.Pairwise fun e f => e.IsV2 → e.Accepted → ¬ f.IsV1

/-- Once a version-2 request was rejected, none of version 2 is sent. -/
def Dev.LeavesV2 (d : Dev) : Prop :=
  d.log.Pairwise fun e f => e.IsV2 → e.Rejected → ¬ f.IsV2

/-- A has-changed request stands right after an accepted will-change request for the same
interface and state. -/
def Dev.Paired (d : Dev) : Prop :=
  ∀ pre f post, d.log = pre ++ f :: post → f.IsHas →
    ∃ pre' e, pre = pre' ++ [e] ∧ e.IsWill ∧ e.Accepted ∧ e.SameTarget f

/-- What a successful call got accepted is one version-1 request or one pair. -/
def Done.Honest (x : Done) : Prop :=
  0 ≤ x.ret → (x.sent.filter fun e => e.Accepted).map Sent.msg ∈
    [[v1Msg x.index x.state], [willMsg x.index x.state, hasMsg x.index x.state]]

/-- All of it. -/
structure Dev.Commits (d : Dev) : Prop where
  keepsV2 : d.KeepsV2
  leavesV2 : d.LeavesV2
  paired : d.Paired
  honest : ∀ x ∈ d.calls, x.Honest

/-! ### What holds whatever the coprocessor answers -/

lemma paired_init : init.Paired := by
  intro pre f post h
  simp [init, Dev.log] at h

/-- In the requests of one call a has-changed request can only be the second. -/
lemma has_of_call {d d' : Dev} {c : Call} (h : step d c = some d') :
    ∃ sent, d'.log = d.log ++ sent ∧
      ∀ pre f post, sent = pre ++ f :: post → f.IsHas →
        ∃ e, pre = [e] ∧ e.IsWill ∧ e.Accepted ∧ e.SameTarget f := by
  obtain ⟨sent, ret, hcalls, hcase⟩ := step_cases h
  refine ⟨sent, log_of_calls hcalls, fun pre f post hs hf => ?_⟩
  rcases hcase with ⟨-, h0, -, -, rfl⟩ | ⟨-, -, -, -, -, rfl⟩ | ⟨-, -, -, -, rfl⟩ |
    ⟨-, -, -, rfl⟩
  · rcases pre with _ | ⟨e, _ | ⟨e', pre⟩⟩
    · obtain ⟨rfl, -⟩ := List.cons.inj hs
      exact absurd hf (not_isHas_will _ _ _)
    · obtain ⟨rfl, htail⟩ := List.cons.inj hs
      obtain ⟨rfl, -⟩ := List.cons.inj htail
      exact ⟨_, rfl, isWill_will _ _ _, h0, sameTarget_will_has _ _ _ _⟩
    · simp at hs
  · have hf' : f ∈ [(⟨willMsg c.index c.state, c.first⟩ : Sent)] := by simp [hs]
    rw [List.mem_singleton.mp hf'] at hf
    exact absurd hf (not_isHas_will _ _ _)
  · have hf' : f ∈ [(⟨willMsg c.index c.state, c.first⟩ : Sent),
        ⟨v1Msg c.index c.state, c.second⟩] := by simp [hs]
    rcases List.mem_pair.mp hf' with rfl | rfl
    · exact absurd hf (not_isHas_will _ _ _)
    · exact absurd hf (not_isHas_v1 _ _ _)
  · have hf' : f ∈ [(⟨v1Msg c.index c.state, c.first⟩ : Sent)] := by simp [hs]
    rw [List.mem_singleton.mp hf'] at hf
    exact absurd hf (not_isHas_v1 _ _ _)

lemma paired_step {d d' : Dev} {c : Call} (hd : d.Paired) (h : step d c = some d') :
    d'.Paired := by
  obtain ⟨sent, hlog, hsent⟩ := has_of_call h
  intro pre f post hsplit hf
  rw [hlog] at hsplit
  rcases History.split_append hsplit with ⟨post', hpre⟩ | ⟨pre', rfl, hpre⟩
  · exact hd pre f post' hpre hf
  · obtain ⟨e, rfl, he⟩ := hsent pre' f post hpre hf
    exact ⟨d.log, e, rfl, he⟩

lemma honest_step {d d' : Dev} {c : Call} (hd : ∀ x ∈ d.calls, x.Honest)
    (h : step d c = some d') : ∀ x ∈ d'.calls, x.Honest := by
  obtain ⟨sent, ret, hcalls, hcase⟩ := step_cases h
  intro x hx
  rw [hcalls] at hx
  rcases List.mem_append.mp hx with hx | hx
  · exact hd x hx
  rw [List.mem_singleton.mp hx]
  intro hret
  rcases hcase with ⟨-, h0, -, rfl, rfl⟩ | ⟨-, h0, -, -, rfl, rfl⟩ | ⟨-, h0, -, rfl, rfl⟩ |
    ⟨-, -, rfl, rfl⟩
  · simp only at hret
    simp [Sent.Accepted, h0, hret]
  · exact absurd hret (by simpa using h0)
  · have hneg : ¬ 0 ≤ c.first := by rw [h0]; decide
    simp only at hret
    simp [Sent.Accepted, hneg, hret]
  · simp only at hret
    simp [Sent.Accepted, hret]

/-! ### When the driver stays with one version -/

/-- No version-2 request is answered with an error status once one was accepted: neither the
has-changed request of this call, nor the will-change request of this call after an earlier
call's. -/
def Steady (d : Dev) (c : Call) : Prop :=
  d.powerReqV1 = false →
    (0 ≤ c.first → c.second ≠ -eio) ∧
    (c.first = -eio → ∀ e ∈ d.log, e.IsV2 → ¬ e.Accepted)

instance (d : Dev) (c : Call) : Decidable (Steady d c) :=
  inferInstanceAs (Decidable (d.powerReqV1 = false → _ ∧ _))

/-- While the flag is clear every request was of version 2 and none was rejected; once it is
set no version-2 request has ever been accepted. -/
structure Dev.Settled (d : Dev) : Prop where
  probing : d.powerReqV1 = false → ∀ e ∈ d.log, ¬ e.IsV1 ∧ ¬ e.Rejected
  fallen : d.powerReqV1 = true → ∀ e ∈ d.log, e.IsV2 → ¬ e.Accepted
  keepsV2 : d.KeepsV2
  leavesV2 : d.LeavesV2

lemma settled_init : init.Settled where
  probing := by simp [init, Dev.log]
  fallen := by simp [init]
  keepsV2 := by simp [init, Dev.log, Dev.KeepsV2]
  leavesV2 := by simp [init, Dev.log, Dev.LeavesV2]

lemma not_rejected_of_accepted {e : Sent} (h : e.Accepted) : ¬ e.Rejected := by
  intro hr
  rw [Sent.Accepted, hr] at h
  exact absurd h (by decide)

lemma not_accepted_of_rejected {e : Sent} (h : e.Rejected) : ¬ e.Accepted :=
  fun ha => not_rejected_of_accepted ha h

/-- A pairwise property of the record goes on if it holds among the new requests and between
every old and every new one. -/
lemma pairwise_log {R : Sent → Sent → Prop} {d d' : Dev} {sent : List Sent}
    (hlog : d'.log = d.log ++ sent) (hd : d.log.Pairwise R) (hs : sent.Pairwise R)
    (hcross : ∀ e ∈ d.log, ∀ f ∈ sent, R e f) : d'.log.Pairwise R := by
  rw [hlog]
  exact List.pairwise_append.mpr ⟨hd, hs, hcross⟩

/-- So does what holds of every request. -/
lemma forall_log {P : Sent → Prop} {d d' : Dev} {sent : List Sent}
    (hlog : d'.log = d.log ++ sent) (hd : ∀ e ∈ d.log, P e) (hs : ∀ e ∈ sent, P e) :
    ∀ e ∈ d'.log, P e := by
  rw [hlog]
  exact List.forall_mem_append.mpr ⟨hd, hs⟩

/-- **One steady call** keeps the driver settled. -/
lemma settled_step {d d' : Dev} {c : Call} (hd : d.Settled) (hc : Steady d c)
    (h : step d c = some d') : d'.Settled := by
  obtain ⟨sent, ret, hcalls, hcase⟩ := step_cases h
  have hlog : d'.log = d.log ++ sent := log_of_calls hcalls
  rcases hcase with ⟨hv, h0, hv', -, rfl⟩ | ⟨hv, h0, h1, hv', -, rfl⟩ | ⟨hv, h0, hv', -, rfl⟩ |
    ⟨hv, hv', -, rfl⟩
  · -- an accepted pair: nothing before it was rejected, and nothing of it is
    have hold := hd.probing hv
    have hsecond := (hc hv).1 h0
    refine ⟨fun _ => forall_log hlog hold fun e he => ?_, by simp [hv'],
      pairwise_log hlog hd.keepsV2 (by simp) ?_,
      pairwise_log hlog hd.leavesV2 ?_ fun e he f _ _ hr => absurd hr (hold e he).2⟩
    · rcases List.mem_pair.mp he with rfl | rfl
      · exact ⟨not_isV1_will _ _ _, not_rejected_of_accepted h0⟩
      · exact ⟨not_isV1_has _ _ _, hsecond⟩
    · intro e _ f hf _ _
      rcases List.mem_pair.mp hf with rfl | rfl <;> simp
    · simp only [List.pairwise_pair]
      exact fun _ hr => absurd hr (not_rejected_of_accepted h0)
  · -- no answer: the flag stays clear
    have hold := hd.probing hv
    refine ⟨fun _ => forall_log hlog hold fun e he => ?_, by simp [hv'],
      pairwise_log hlog hd.keepsV2 (by simp) ?_,
      pairwise_log hlog hd.leavesV2 (by simp) fun e he f _ _ hr => absurd hr (hold e he).2⟩
    · rw [List.mem_singleton.mp he]
      exact ⟨not_isV1_will _ _ _, h1⟩
    · intro e _ f hf _ _
      rw [List.mem_singleton.mp hf]
      exact not_isV1_will _ _ _
  · -- the probe is rejected, and it is the first answer the driver gets
    have hold := (hc hv).2 h0
    refine ⟨by simp [hv'], fun _ => forall_log hlog hold fun e he => ?_,
      pairwise_log hlog hd.keepsV2 ?_ ?_, pairwise_log hlog hd.leavesV2 (by simp) ?_⟩
    · rcases List.mem_pair.mp he with rfl | rfl
      · exact fun _ => not_accepted_of_rejected h0
      · exact fun h2 => absurd h2 (not_isV2_v1 _ _ _)
    · simp only [List.pairwise_pair]
      exact fun _ ha => absurd ha (not_accepted_of_rejected h0)
    · exact fun e he f _ h2 ha => absurd ha (hold e he h2)
    · exact fun e he f _ _ hr => absurd hr (hd.probing hv e he).2
  · -- version 1 for good
    have hold := hd.fallen hv
    refine ⟨by simp [hv'], fun _ => forall_log hlog hold fun e he => ?_,
      pairwise_log hlog hd.keepsV2 (by simp) ?_, pairwise_log hlog hd.leavesV2 (by simp) ?_⟩
    · rw [List.mem_singleton.mp he]
      exact fun h2 => absurd h2 (not_isV2_v1 _ _ _)
    · exact fun e he f _ h2 ha => absurd ha (hold e he h2)
    · intro e _ f hf _ _
      rw [List.mem_singleton.mp hf]
      exact not_isV2_v1 _ _ _

/-! ### A call that is not steady -/

lemma keepsV2_of_append {d d' : Dev} {sent : List Sent} (hlog : d'.log = d.log ++ sent)
    (h : d'.KeepsV2) : d.KeepsV2 := by
  rw [Dev.KeepsV2, hlog] at h
  exact (List.pairwise_append.mp h).1

/-- A has-changed request that is rejected leaves the flag clear: the next call sends
version 2 again. -/
lemma not_leavesV2_of_rejected_has {d d₁ d₂ : Dev} {c c' : Call} (h : step d c = some d₁)
    (h' : step d₁ c' = some d₂) (hv : d.powerReqV1 = false) (h0 : 0 ≤ c.first)
    (hr : c.second = -eio) : ¬ d₂.LeavesV2 := by
  obtain ⟨sent, ret, hcalls, hcase⟩ := step_cases h
  obtain ⟨sent', ret', hcalls', hcase'⟩ := step_cases h'
  have hneg : ¬ c.first < 0 := by omega
  have hne : c.first ≠ -eio := fun he => hneg (by rw [he]; decide)
  obtain ⟨hv₁, rfl⟩ : d₁.powerReqV1 = false ∧ sent =
      [⟨willMsg c.index c.state, c.first⟩, ⟨hasMsg c.index c.state, c.second⟩] := by
    rcases hcase with ⟨-, -, hv₁, -, hs⟩ | ⟨-, hlt, -⟩ | ⟨-, he, -⟩ | ⟨hv', -⟩
    · exact ⟨hv₁, hs⟩
    · exact absurd hlt hneg
    · exact absurd he hne
    · simp [hv] at hv'
  -- whatever becomes of it, the next call starts with a will-change request
  obtain ⟨rest, rfl⟩ : ∃ rest, sent' = ⟨willMsg c'.index c'.state, c'.first⟩ :: rest := by
    rcases hcase' with ⟨-, -, -, -, rfl⟩ | ⟨-, -, -, -, -, rfl⟩ | ⟨-, -, -, -, rfl⟩ | ⟨hv', -⟩
    · exact ⟨_, rfl⟩
    · exact ⟨_, rfl⟩
    · exact ⟨_, rfl⟩
    · simp [hv₁] at hv'
  intro hl
  rw [Dev.LeavesV2, log_of_calls hcalls', log_of_calls hcalls] at hl
  have hcross := (List.pairwise_append.mp hl).2.2
  exact hcross ⟨hasMsg c.index c.state, c.second⟩ (by simp) _ (List.mem_cons_self ..)
    (isV2_has _ _ _) hr (isV2_will _ _ _)

/-- A will-change request that is rejected after an accepted one is followed by a version-1
request. -/
lemma not_keepsV2_of_late_rejection {d d₁ : Dev} {c : Call} (h : step d c = some d₁)
    (hv : d.powerReqV1 = false) (h0 : c.first = -eio) {e : Sent} (he : e ∈ d.log)
    (h2 : e.IsV2) (ha : e.Accepted) : ¬ d₁.KeepsV2 := by
  obtain ⟨sent, ret, hcalls, hcase⟩ := step_cases h
  obtain rfl : sent = [⟨willMsg c.index c.state, c.first⟩, ⟨v1Msg c.index c.state, c.second⟩] := by
    rcases hcase with ⟨-, hle, -⟩ | ⟨-, -, hne, -⟩ | ⟨-, -, -, -, hs⟩ | ⟨hv', -⟩
    · rw [h0] at hle
      exact absurd hle (by decide)
    · exact absurd h0 hne
    · exact hs
    · simp [hv] at hv'
  intro hk
  rw [Dev.KeepsV2, log_of_calls hcalls] at hk
  have hcross := (List.pairwise_append.mp hk).2.2
  exact hcross e he ⟨v1Msg c.index c.state, c.second⟩ (by simp) h2 ha (isV1_v1 _ _ _)

/-- **A call that is not steady** shows in the record, with the next call at the latest. -/
lemma not_commits_of_not_steady {d d₁ d₂ : Dev} {c c' : Call} (h : step d c = some d₁)
    (h' : step d₁ c' = some d₂) (hc : ¬ Steady d c) : ¬ d₂.Commits := by
  intro hcom
  refine hc fun hv => ⟨fun h0 hr => ?_, fun h0 e he h2 ha => ?_⟩
  · exact not_leavesV2_of_rejected_has h h' hv h0 hr hcom.leavesV2
  · obtain ⟨sent', ret', hcalls', -⟩ := step_cases h'
    exact not_keepsV2_of_late_rejection h hv h0 he h2 ha
      (keepsV2_of_append (log_of_calls hcalls') hcom.keepsV2)

/-! ### Runs -/

lemma reach_paired {C : Dev → Call → Prop} {d : Dev} (h : Reach step C init d) :
    d.Paired ∧ ∀ x ∈ d.calls, x.Honest := by
  refine h.invariant (fun d => d.Paired ∧ ∀ x ∈ d.calls, x.Honest) ?_ ?_
  · exact ⟨paired_init, by simp [init]⟩
  · exact fun s c s' hs _ hstep => ⟨paired_step hs.1 hstep, honest_step hs.2 hstep⟩

lemma reach_settled {d : Dev} (h : Reach step Steady init d) : d.Settled :=
  h.invariant _ settled_init fun _ _ _ hs hc hstep => settled_step hs hc hstep

/-- **One protocol version.** The pairs and the return values are right in every run. As long
as no version-2 request is rejected after one was accepted, the driver also stays with the
version it settled on; and the first call where that happens breaks the rule. -/
theorem commits_of_steady (d : Dev) :
    (Reach step Any init d → d.Paired ∧ ∀ x ∈ d.calls, x.Honest) ∧
    (Reach step Steady init d → d.Commits ∧
      ∀ c d₁ c' d₂, step d c = some d₁ → step d₁ c' = some d₂ → ¬ Steady d c →
        ¬ d₂.Commits) := by
  refine ⟨fun hd => reach_paired hd, fun hd => ⟨?_, fun c d₁ c' d₂ h h' hc => ?_⟩⟩
  · obtain ⟨hp, hx⟩ := reach_paired hd
    have hs := reach_settled hd
    exact ⟨hs.keepsV2, hs.leavesV2, hp, hx⟩
  · exact not_commits_of_not_steady h h' hc

/-- A device that took the pair for off and for on. -/
theorem commits_of_off_on :
    ∃ d, Reach step Steady init d ∧ d.log.length = 4 ∧ d.Commits := by
  obtain ⟨d, hd, hl⟩ := exists_reach_of_run step Steady init
    [⟨3, 0, 0, 0⟩, ⟨3, 2, 0, 0⟩] (fun d => d.log.length = 4) (by decide)
  exact ⟨d, hd, by simpa using hl, ((commits_of_steady d).2 hd).1⟩

/-- The pair for off is taken, the announcement of on is answered with an error status, and
the driver goes on with version 1. -/
theorem not_commits_of_late_error : ¬ ∀ d, Reach step Any init d → d.Commits := by
  intro hall
  obtain ⟨d, hd, hv⟩ := exists_reach_of_run step Any init
    [⟨3, 0, 0, 0⟩, ⟨3, 2, -eio, 0⟩]
    (fun d => ¬ d.log.Pairwise fun e f => e.IsV2 → e.Accepted → ¬ f.IsV1) (by decide)
  exact of_decide_eq_true hv (hall d hd).keepsV2

end Wallace.HidPower
