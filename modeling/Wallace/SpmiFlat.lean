import Mathlib.Data.List.GetD
import Mathlib.Data.List.TakeDrop
import Mathlib.Tactic.IntervalCases
import Wallace.SpmiModel

/-!
The paged SPMI bus refines a flat register file.

The select step ends with the requested register selected and settled, or with an error and
all registers as they were. From there on every turn of a window loop moves one chunk
between the payload and the bytes of that register that come next.
-/

namespace Wallace.SpmiFlat

open Wallace.SpmiModel

variable (env : ℕ → Tx) {sid reg : Byte} {w w' : World}

/-! ### The flat register file -/

lemma flatRead_add (regs : Regs) (reg : Byte) (off m n : ℕ) :
    flatRead regs reg off (m + n) =
      flatRead regs reg off m ++ flatRead regs reg (off + m) n := by
  unfold flatRead
  rw [List.range_add, List.map_append, List.map_map]
  congr 1
  refine List.map_congr_left fun i _ => ?_
  simp [Nat.add_assoc]

lemma flatWrite_nil (regs : Regs) (reg : Byte) (off : ℕ) : flatWrite regs reg off [] = regs := by
  unfold flatWrite
  have h : (fun i => if off ≤ i ∧ i < off + ([] : List Byte).length then
      ([] : List Byte).getD (i - off) 0 else regs reg i) = regs reg := by
    funext i
    rw [if_neg]
    rw [List.length_nil]
    omega
  rw [h, Function.update_eq_self]

/-- Two writes, the second where the first ends, are one. -/
lemma flatWrite_append (regs : Regs) (reg : Byte) (off : ℕ) (a b : List Byte) :
    flatWrite (flatWrite regs reg off a) reg (off + a.length) b =
      flatWrite regs reg off (a ++ b) := by
  unfold flatWrite
  rw [Function.update_self, Function.update_idem]
  congr 1
  funext i
  rw [List.length_append]
  by_cases hb : off + a.length ≤ i ∧ i < off + a.length + b.length
  · rw [if_pos hb, if_pos (by omega), List.getD_append_right _ _ _ _ (by omega)]
    congr 1
    omega
  · rw [if_neg hb]
    by_cases ha : off ≤ i ∧ i < off + a.length
    · rw [if_pos ha, if_pos (by omega), List.getD_append _ _ _ _ (by omega)]
    · rw [if_neg ha, if_neg (by omega)]

/-! ### The command word -/

/-- The low seven bits of the command word are those of the value. -/
lemma word_low (sid data : Byte) : (zeroWriteWord sid data).setWidth 7 = data.setWidth 7 := by
  unfold zeroWriteWord zeroWriteOpc
  apply BitVec.eq_of_getLsbD_eq
  intro i hi
  have h15 : (0x8000#32).getLsbD i = false := by
    interval_cases i <;> rfl
  have h7f : (0x7f : Byte).getLsbD i = true := by
    interval_cases i <;> rfl
  have h80 : (0x80 : Byte).getLsbD i = false := by
    interval_cases i <;> rfl
  have h8 : i < 8 := by omega
  have h24 : i < 24 := by omega
  have h32 : i < 32 := by omega
  simp only [BitVec.getLsbD_setWidth, BitVec.getLsbD_or, BitVec.getLsbD_and,
    BitVec.getLsbD_shiftLeft, h15, h7f, h80, hi, h8, h24, h32]
  simp

/-- A register number survives the encoding. -/
lemma select_reg (sid : Byte) (h : reg ≤ 0x7f) :
    ((zeroWriteWord sid reg).setWidth 7).setWidth 8 = reg := by
  have hle : reg.toNat ≤ 0x7f := h
  rw [word_low]
  apply BitVec.eq_of_toNat_eq
  rw [BitVec.toNat_setWidth, BitVec.toNat_setWidth]
  omega

/-- A busy selection never reads as a register number. -/
lemma busy_ne (sel : Byte) (h : reg ≤ 0x7f) : sel ||| 0x80 ≠ reg := by
  have hle : reg.toNat ≤ 0x7f := h
  intro e
  have hor : (0x80 : Byte).toNat ≤ (sel ||| 0x80).toNat := by
    rw [BitVec.toNat_or]
    exact Nat.right_le_or
  rw [e] at hor
  have : (0x80 : Byte).toNat = 0x80 := rfl
  omega

/-! ### The select step -/

/-- What the select step does on the bus. -/
def Selecting (sid reg : Byte) (e : Event) : Prop :=
  e = .readSelect ∨ e = .zeroWrite (zeroWriteWord sid reg)

/-- The log has grown by events that all have the property. -/
def Grows (P : Event → Prop) (w w' : World) : Prop :=
  ∃ new, w'.log = w.log ++ new ∧ ∀ e ∈ new, P e

lemma Grows.refl {P : Event → Prop} (w : World) : Grows P w w := ⟨[], by simp, by simp⟩

lemma Grows.trans {P : Event → Prop} {w₁ w₂ w₃ : World} (h : Grows P w₁ w₂) (h' : Grows P w₂ w₃) :
    Grows P w₁ w₃ := by
  obtain ⟨a, ha, hpa⟩ := h
  obtain ⟨b, hb, hpb⟩ := h'
  refine ⟨a ++ b, by rw [hb, ha, List.append_assoc], fun e he => ?_⟩
  exact (List.mem_append.mp he).elim (hpa e) (hpb e)

lemma grows_next {P : Event → Prop} {e : Event} (h : P e) : Grows P w (w.next e) :=
  ⟨[e], rfl, fun e' he => by rw [List.mem_singleton.mp he]; exact h⟩

/-- One poll: registers and selection stay, and what it reads is busy or the selection. -/
lemma poll_spec (sid reg : Byte) (w : World) :
    let r := spmiExtRegisterRead env 0 1 w
    r.2.regs = w.regs ∧ r.2.selected = w.selected ∧ Grows (Selecting sid reg) w r.2 ∧
      ∀ bytes, r.1 = .ok bytes →
        bytes = [w.selected ||| 0x80] ∨ bytes = [w.selected] ∧ r.2.busy = 0 := by
  unfold spmiExtRegisterRead
  simp only [and_self, if_true]
  rw [if_neg (by omega)]
  have hg : Grows (Selecting sid reg) w (w.next .readSelect) := grows_next (.inl rfl)
  split
  · exact ⟨rfl, rfl, hg, fun bytes e => by cases e⟩
  · refine ⟨rfl, rfl, hg, fun bytes e => ?_⟩
    cases e
    by_cases hb : w.busy = 0
    · right
      simp [hb, World.next]
    · left
      simp [hb]

lemma selectLoop_spec (sid : Byte) (h : reg ≤ 0x7f) (n : ℕ) (w : World) :
    let r := selectLoop env reg n w
    r.2.regs = w.regs ∧ Grows (Selecting sid reg) w r.2 ∧
      (r.1 = none → r.2.selected = reg ∧ r.2.busy = 0) := by
  induction n generalizing w with
  | zero => exact ⟨rfl, .refl w, fun e => by cases e⟩
  | succ n ih =>
    obtain ⟨hregs, hsel, hgrow, hread⟩ := poll_spec env sid reg w
    unfold selectLoop
    cases hr : spmiExtRegisterRead env 0 1 w with
    | mk r w₁ =>
      rw [hr] at hregs hsel hgrow hread
      cases r with
      | error e => exact ⟨hregs, hgrow, fun e => by cases e⟩
      | ok bytes =>
        simp only at hregs hsel hgrow hread ⊢
        split
        · rename_i heq
          refine ⟨hregs, hgrow, fun _ => ?_⟩
          rcases hread bytes rfl with rfl | ⟨rfl, hb⟩
          · exact absurd heq (busy_ne _ h)
          · exact ⟨hsel.trans heq, hb⟩
        · split
          · exact ⟨hregs, hgrow, fun e => by cases e⟩
          · obtain ⟨hregs', hgrow', hok⟩ := ih w₁
            exact ⟨hregs'.trans hregs, hgrow.trans hgrow', hok⟩

lemma zeroWrite_spec (sid : Byte) (h : reg ≤ 0x7f) (w : World) :
    let r := spmiRegisterZeroWrite env sid reg w
    r.2.regs = w.regs ∧ Grows (Selecting sid reg) w r.2 := by
  have hle : ¬reg > 0x7f := by
    intro hgt
    exact absurd h (BitVec.not_le.mpr hgt)
  have hg : Grows (Selecting sid reg) w (w.next (.zeroWrite (zeroWriteWord sid reg))) :=
    grows_next (.inr rfl)
  have hfail : ∀ c : Prop, [Decidable c] →
      (if c then w.next (.zeroWrite (zeroWriteWord sid reg))
        else (w.next (.zeroWrite (zeroWriteWord sid reg))).select (zeroWriteWord sid reg)
          (env w.clock).polls).regs = w.regs ∧
      Grows (Selecting sid reg) w (if c then w.next (.zeroWrite (zeroWriteWord sid reg))
        else (w.next (.zeroWrite (zeroWriteWord sid reg))).select (zeroWriteWord sid reg)
          (env w.clock).polls) := by
    intro c _
    split
    · exact ⟨rfl, hg⟩
    · exact ⟨rfl, hg⟩
  unfold spmiRegisterZeroWrite appleSpmiZeroWrite
  rw [if_neg hle]
  simp only
  split
  · exact hfail _
  · split
    · exact hfail _
    · exact ⟨rfl, hg⟩

/-- **The select step**: no register changes, nothing but selecting is done on the bus, and
if it succeeds, the register is selected and settled. -/
theorem select_spec (sid : Byte) (h : reg ≤ 0x7f) (w : World) :
    let r := spmiSelect env sid reg w
    r.2.regs = w.regs ∧ Grows (Selecting sid reg) w r.2 ∧
      (r.1 = none → r.2.selected = reg ∧ r.2.busy = 0) := by
  obtain ⟨hregs, hgrow⟩ := zeroWrite_spec env sid h w
  unfold spmiSelect
  cases hz : spmiRegisterZeroWrite env sid reg w with
  | mk r w₁ =>
    rw [hz] at hregs hgrow
    cases r with
    | some e => exact ⟨hregs, hgrow, fun e => by cases e⟩
    | none =>
      obtain ⟨hregs', hgrow', hok⟩ := selectLoop_spec env sid h 100 w₁
      exact ⟨hregs'.trans hregs, hgrow.trans hgrow', hok⟩

/-! ### The window -/

/-- The addresses that an access to the window covers: the first and how many. -/
def span : Event → Option (ℕ × ℕ)
  | .windowRead addr len _ _ => some (addr.toNat, len)
  | .windowWrite addr bytes _ _ => some (addr.toNat, bytes.length)
  | _ => none

/-- The bytes that an access writes. -/
def written : Event → List Byte
  | .windowWrite _ bytes _ _ => bytes
  | _ => []

/-- An access to the window while `reg` is selected and settled. -/
def InWindow (reg : Byte) : Event → Prop
  | .windowRead _ _ selected settled => selected = reg ∧ settled = true
  | .windowWrite _ _ selected settled => selected = reg ∧ settled = true
  | _ => False

/-- Each span begins where the one before it ends, from `a` to `b`, and is one transfer. -/
def Tiles : ℕ → ℕ → List (ℕ × ℕ) → Prop
  | a, b, [] => a = b
  | a, b, (s, n) :: rest => s = a ∧ 0 < n ∧ n ≤ 16 ∧ Tiles (a + n) b rest

/-- What a window loop does on the bus for a payload of `len` bytes from address `a` on, the
first `k` of them: it tiles them in order, and what it writes are those bytes. -/
structure Transfers (reg : Byte) (a k : ℕ) (payload : List Byte) (w w' : World) (win : List Event) :
    Prop where
  log : w'.log = w.log ++ win
  inWindow : ∀ e ∈ win, InWindow reg e
  tiles : Tiles a (a + k) (win.filterMap span)
  bytes : win.flatMap written = payload.take k

lemma Transfers.nil (reg : Byte) (a : ℕ) (payload : List Byte) (w : World) :
    Transfers reg a 0 payload w w [] :=
  ⟨by simp, by simp, rfl, by simp⟩

/-- One access, and then the rest. -/
lemma Transfers.cons {a n k : ℕ} {payload : List Byte} {w₁ : World} {e : Event} {win : List Event}
    (hlog : w₁.log = w.log ++ [e]) (he : InWindow reg e) (hspan : span e = some (a, n))
    (hpos : 0 < n) (hle : n ≤ 16) (hbytes : written e = payload.take n)
    (h : Transfers reg (a + n) k (payload.drop n) w₁ w' win) :
    Transfers reg a (n + k) payload w w' (e :: win) where
  log := by rw [h.log, hlog, List.append_assoc, List.singleton_append]
  inWindow := fun e' he' => by
    rcases List.mem_cons.mp he' with rfl | he'
    · exact he
    · exact h.inWindow e' he'
  tiles := by
    rw [List.filterMap_cons_some hspan, ← Nat.add_assoc]
    exact ⟨rfl, hpos, hle, h.tiles⟩
  bytes := by
    rw [List.flatMap_cons, hbytes, h.bytes, ← List.take_add]

/-- The address of the next chunk, if there is one. -/
lemma toNat_next {addr : Byte} {off chunk rest : ℕ} (ha : addr.toNat = 0x20 + off)
    (h : off + (chunk + rest) ≤ 0xe0) :
    rest = 0 ∨ (addr + BitVec.ofNat 8 chunk).toNat = 0x20 + (off + chunk) := by
  by_cases hz : rest = 0
  · exact .inl hz
  · right
    rw [BitVec.toNat_add, BitVec.toNat_ofNat, ha]
    omega

/-- A chunk is read from the selected and settled register, or the transport fails. -/
lemma extRead_window {addr : Byte} {off : ℕ} (len : ℕ) (hsel : w.selected = reg)
    (hbusy : w.busy = 0) (ha : addr.toNat = 0x20 + off) (hpos : 0 < len) (hle : len ≤ 16)
    (hlen : off + len ≤ 0xe0) :
    ∃ r, spmiExtRegisterRead env addr len w = (r, w.next (.windowRead addr len reg true)) ∧
      (r = .ok (flatRead w.regs reg off len) ∨ ∃ e, r = .error e) := by
  have hne : ¬(addr = 0 ∧ len = 1) := by
    rintro ⟨rfl, -⟩
    have : (0 : Byte).toNat = 0 := rfl
    omega
  have hprom : w.promised addr len := ⟨hbusy, by omega, by omega⟩
  have hoff : addr.toNat - 0x20 = off := by omega
  unfold spmiExtRegisterRead
  rw [if_neg (by omega)]
  simp only [if_neg hne, if_pos hprom, hsel, hbusy, decide_true, hoff]
  cases htx : (env w.clock).err with
  | some e => exact ⟨_, rfl, .inr ⟨e, rfl⟩⟩
  | none => exact ⟨_, rfl, .inl rfl⟩

/-- A chunk is written to it, or the transport fails after some of its bytes. -/
lemma extWrite_window {addr : Byte} {off : ℕ} (bytes : List Byte) (hsel : w.selected = reg)
    (hbusy : w.busy = 0) (ha : addr.toNat = 0x20 + off) (hpos : 0 < bytes.length)
    (hle : bytes.length ≤ 16) (hlen : off + bytes.length ≤ 0xe0) :
    ∃ r j, spmiExtRegisterWrite env addr bytes w =
        (r, { w.next (.windowWrite addr bytes reg true) with
          regs := flatWrite w.regs reg off (bytes.take j) }) ∧
      j ≤ bytes.length ∧ (r = none → j = bytes.length) := by
  have hprom : w.promised addr bytes.length := ⟨hbusy, by omega, by omega⟩
  have hoff : addr.toNat - 0x20 = off := by omega
  unfold spmiExtRegisterWrite
  rw [if_neg (by omega)]
  simp only [if_pos hprom, hsel, hbusy, decide_true, hoff]
  cases htx : (env w.clock).err with
  | some e =>
    refine ⟨some e, min (env w.clock).acted bytes.length, ?_, by omega, fun h => by cases h⟩
    simp only [Prod.mk.injEq, true_and]
    rw [List.take_eq_take_min]
  | none => exact ⟨none, bytes.length, by rw [List.take_length], by omega, fun _ => rfl⟩

/-- **The read loop**, on a selected and settled register. -/
theorem windowReadLoop_spec (n : ℕ) (addr : Byte) (off len : ℕ) (w : World)
    (hsel : w.selected = reg) (hbusy : w.busy = 0) (ha : len = 0 ∨ addr.toNat = 0x20 + off)
    (hlen : off + len ≤ 0xe0) (hn : len ≤ n) :
    let r := windowReadLoop env n addr len w
    r.2.regs = w.regs ∧ (∀ bytes, r.1 = .ok bytes → bytes = flatRead w.regs reg off len) ∧
      ∃ k win, k ≤ len ∧ Transfers reg (0x20 + off) k [] w r.2 win ∧
        (∀ bytes, r.1 = .ok bytes → k = len) := by
  induction n generalizing addr off len w with
  | zero =>
    have hz : len = 0 := by omega
    subst hz
    exact ⟨rfl, fun bytes e => by cases e; rfl, 0, [], by omega, .nil _ _ _ _, fun _ _ => rfl⟩
  | succ n ih =>
    unfold windowReadLoop
    by_cases hz : len = 0
    · subst hz
      rw [if_pos rfl]
      exact ⟨rfl, fun bytes e => by cases e; rfl, 0, [], by omega, .nil _ _ _ _, fun _ _ => rfl⟩
    · rw [if_neg hz]
      have haddr : addr.toNat = 0x20 + off := ha.resolve_left hz
      obtain ⟨chunk, hchunk⟩ : ∃ chunk, chunk = min len 16 := ⟨_, rfl⟩
      obtain ⟨r, hr, hcase⟩ := extRead_window env chunk hsel hbusy haddr (by omega) (by omega)
        (by omega)
      have hspan : span (.windowRead addr chunk reg true) = some (0x20 + off, chunk) := by
        rw [span, haddr]
      have hin : InWindow reg (.windowRead addr chunk reg true) := ⟨rfl, rfl⟩
      have hnone : written (.windowRead addr chunk reg true) = ([] : List Byte).take chunk := by
        rw [List.take_nil]
        rfl
      rcases hcase with rfl | ⟨e, rfl⟩
      · obtain ⟨hregs, hbytes, k, win, hk, htr, hok⟩ :=
          ih (addr + BitVec.ofNat 8 chunk) (off + chunk) (len - chunk)
            (w.next (.windowRead addr chunk reg true)) hsel hbusy
            (toNat_next haddr (by omega)) (by omega) (by omega)
        rw [← Nat.add_assoc, ← List.drop_nil (i := chunk)] at htr
        have hcons := Transfers.cons (w := w) rfl hin hspan (by omega) (by omega) hnone htr
        simp only [← hchunk, hr]
        cases hrest : windowReadLoop env n (addr + BitVec.ofNat 8 chunk) (len - chunk)
          (w.next (.windowRead addr chunk reg true)) with
        | mk r₂ w₂ =>
          rw [hrest] at hregs hbytes hok hcons
          cases r₂ with
          | error e =>
            simp only
            exact ⟨hregs, fun _ h => (nomatch h), chunk + k, _, by omega, hcons,
              fun _ h => (nomatch h)⟩
          | ok rest =>
            simp only
            refine ⟨hregs, fun bytes e => ?_, chunk + k, _, by omega, hcons, fun _ _ => ?_⟩
            · cases e
              have hadd : flatRead w.regs reg off len =
                  flatRead w.regs reg off (chunk + (len - chunk)) := by
                congr 1
                omega
              rw [hbytes rest rfl, hadd, flatRead_add]
              rfl
            · have := hok rest rfl
              omega
      · simp only [← hchunk, hr]
        refine ⟨rfl, fun _ h => (nomatch h), chunk, [.windowRead addr chunk reg true], by omega, ?_,
          fun _ h => (nomatch h)⟩
        exact Transfers.cons (k := 0) rfl hin hspan (by omega) (by omega) hnone (.nil _ _ _ _)

/-- **The write loop**, on a selected and settled register: the bytes of a prefix of the
payload are written, all of them if it succeeds. -/
theorem windowWriteLoop_spec (n : ℕ) (addr : Byte) (off : ℕ) (val : List Byte) (w : World)
    (hsel : w.selected = reg) (hbusy : w.busy = 0)
    (ha : val.length = 0 ∨ addr.toNat = 0x20 + off) (hlen : off + val.length ≤ 0xe0)
    (hn : val.length ≤ n) :
    let r := windowWriteLoop env n addr val w
    (∃ j, r.2.regs = flatWrite w.regs reg off (val.take j) ∧ (r.1 = none → j = val.length)) ∧
      ∃ k win, k ≤ val.length ∧ Transfers reg (0x20 + off) k val w r.2 win ∧
        (r.1 = none → k = val.length) := by
  induction n generalizing addr off val w with
  | zero =>
    have hz : val = [] := List.length_eq_zero_iff.mp (by omega)
    subst hz
    exact ⟨⟨0, (flatWrite_nil _ _ _).symm, fun _ => rfl⟩, 0, [], by simp, .nil _ _ _ _,
      fun _ => rfl⟩
  | succ n ih =>
    unfold windowWriteLoop
    by_cases hz : val.length = 0
    · rw [if_pos hz]
      have hnil : val = [] := List.length_eq_zero_iff.mp hz
      subst hnil
      exact ⟨⟨0, (flatWrite_nil _ _ _).symm, fun _ => rfl⟩, 0, [], by simp, .nil _ _ _ _,
        fun _ => rfl⟩
    · rw [if_neg hz]
      have haddr : addr.toNat = 0x20 + off := ha.resolve_left hz
      obtain ⟨chunk, hchunk⟩ : ∃ chunk, chunk = min val.length 16 := ⟨_, rfl⟩
      have htake : (val.take chunk).length = chunk := by
        rw [List.length_take]
        omega
      obtain ⟨r, j, hr, hj, hfull⟩ := extWrite_window env (val.take chunk) hsel hbusy haddr
        (by omega) (by omega) (by omega)
      rw [htake] at hj hfull
      have htj : (val.take chunk).take j = val.take j := by
        rw [List.take_take, Nat.min_eq_left hj]
      rw [htj] at hr
      have hspan : span (.windowWrite addr (val.take chunk) reg true) =
          some (0x20 + off, chunk) := by
        rw [span, haddr, htake]
      have hin : InWindow reg (.windowWrite addr (val.take chunk) reg true) := ⟨rfl, rfl⟩
      cases r with
      | some e =>
        simp only [← hchunk, hr]
        refine ⟨⟨j, rfl, fun h => (nomatch h)⟩, chunk,
          [.windowWrite addr (val.take chunk) reg true], by omega, ?_, fun h => (nomatch h)⟩
        exact Transfers.cons (k := 0) rfl hin hspan (by omega) (by omega) rfl (.nil _ _ _ _)
      | none =>
        have hjc : j = chunk := hfull rfl
        simp only [← hchunk, hr]
        subst hjc
        have hdrop : (val.drop j).length = val.length - j := List.length_drop
        obtain ⟨⟨i, hregs, hi⟩, k, win, hk, htr, hok⟩ :=
          ih (addr + BitVec.ofNat 8 j) (off + j) (val.drop j)
            { w.next (.windowWrite addr (val.take j) reg true) with
              regs := flatWrite w.regs reg off (val.take j) } hsel hbusy
            (by rw [hdrop]; exact toNat_next haddr (by omega)) (by omega) (by omega)
        rw [← Nat.add_assoc] at htr
        refine ⟨⟨j + i, ?_, fun h => ?_⟩, j + k, _, by omega,
          Transfers.cons (w := w) rfl hin hspan (by omega) (by omega) rfl htr, fun h => ?_⟩
        · have happ := flatWrite_append w.regs reg off (val.take j) ((val.drop j).take i)
          rw [htake, ← List.take_add] at happ
          rw [hregs]
          exact happ
        · have := hi h
          omega
        · have := hok h
          omega

/-- Spans that tile from `a` to `b` all lie between them. -/
lemma Tiles.bounds {a b : ℕ} {l : List (ℕ × ℕ)} (h : Tiles a b l) :
    a ≤ b ∧ ∀ x ∈ l, a ≤ x.1 ∧ x.1 + x.2 ≤ b := by
  induction l generalizing a with
  | nil => exact ⟨Nat.le_of_eq h, by simp⟩
  | cons x rest ih =>
    obtain ⟨s, n⟩ := x
    obtain ⟨rfl, hpos, -, hrest⟩ := h
    obtain ⟨hle, hin⟩ := ih hrest
    refine ⟨by omega, fun y hy => ?_⟩
    rcases List.mem_cons.mp hy with rfl | hy
    · exact ⟨Nat.le_refl _, hle⟩
    · have := hin y hy
      omega

/-! ### The refinement -/

/-- The bytes that a call brings. -/
def payload : Call → List Byte
  | .read _ _ => []
  | .gatherWrite _ val => val
  | .write _ val => val

/-- One call on the flat register file. A call that fails may have written a prefix of its
payload. -/
inductive FlatStep : Regs → Call → Outcome → Regs → Prop
  | read (regs : Regs) (reg : Byte) (len : ℕ) :
    FlatStep regs (.read reg len) (.ok (flatRead regs reg 0 len)) regs
  | gatherWrite (regs : Regs) (reg : Byte) (val : List Byte) :
    FlatStep regs (.gatherWrite reg val) (.ok []) (flatWrite regs reg 0 val)
  | write (regs : Regs) (reg : Byte) (val : List Byte) :
    FlatStep regs (.write reg val) (.ok []) (flatWrite regs reg 0 val)
  | failed (regs : Regs) (c : Call) (e : Err) (j : ℕ) :
    FlatStep regs c (.error e) (flatWrite regs c.reg 0 ((payload c).take j))

/-- A sequence of calls on it. -/
inductive FlatRun : Regs → List (Call × Outcome) → Regs → Prop
  | nil (regs : Regs) : FlatRun regs [] regs
  | cons {regs regs' regs'' : Regs} {c : Call} {out : Outcome} {rest : List (Call × Outcome)}
    (head : FlatStep regs c out regs') (tail : FlatRun regs' rest regs'') :
    FlatRun regs ((c, out) :: rest) regs''

/-- What a call does: its step on the flat register file; on the bus, the selecting and then
the transfers of as much of the payload as was reached, at addresses of one byte; and
nothing after a select step that fails. -/
structure CallSpec (env : ℕ → Tx) (sid : Byte) (w : World) (c : Call) (out : Outcome) (w' : World) :
    Prop where
  flat : FlatStep w.regs c out w'.regs
  word : ((zeroWriteWord sid c.reg).setWidth 7).setWidth 8 = c.reg
  selecting : Grows (Selecting sid c.reg) w (spmiSelect env sid c.reg w).2
  transfers : ∃ k win, k ≤ c.size ∧
    Transfers c.reg 0x20 k (payload c) (spmiSelect env sid c.reg w).2 w' win ∧
    (∀ x ∈ win.filterMap span, 0x20 ≤ x.1 ∧ x.1 + x.2 ≤ 0x100) ∧
    ∀ bytes, out = .ok bytes → k = c.size
  unselected : ∀ e, (spmiSelect env sid c.reg w).1 = some e →
    out = .error e ∧ w' = (spmiSelect env sid c.reg w).2 ∧ w'.regs = w.regs

/-- A select step that fails ends the call. -/
lemma callSpec_unselected {c : Call} {e : Err} (h : c.reg ≤ 0x7f)
    (hs : (spmiSelect env sid c.reg w).1 = some e) :
    CallSpec env sid w c (.error e) (spmiSelect env sid c.reg w).2 := by
  obtain ⟨hregs, hgrow, -⟩ := select_spec env sid h w
  refine ⟨?_, select_reg sid h, hgrow, ⟨0, [], by omega, .nil _ _ _ _, by simp, ?_⟩, ?_⟩
  · have hfail := FlatStep.failed w.regs c e 0
    rw [List.take_zero, flatWrite_nil] at hfail
    rw [hregs]
    exact hfail
  · exact fun _ h => (nomatch h)
  · intro e' he'
    rw [hs] at he'
    cases he'
    exact ⟨rfl, rfl, hregs⟩

/-- After a select step that succeeds, what is left to show is about the window. -/
lemma callSpec_selected {c : Call} {out : Outcome} (h : c.reg ≤ 0x7f) (hsize : c.size ≤ 0xe0)
    (hs : (spmiSelect env sid c.reg w).1 = none) (hflat : FlatStep w.regs c out w'.regs)
    {k : ℕ} {win : List Event} (hk : k ≤ c.size)
    (htr : Transfers c.reg 0x20 k (payload c) (spmiSelect env sid c.reg w).2 w' win)
    (hok : ∀ bytes, out = .ok bytes → k = c.size) :
    CallSpec env sid w c out w' := by
  obtain ⟨-, hgrow, -⟩ := select_spec env sid h w
  refine ⟨hflat, select_reg sid h, hgrow, ⟨k, win, hk, htr, fun x hx => ?_, hok⟩, fun e he => ?_⟩
  · have := htr.tiles.bounds.2 x hx
    omega
  · rw [hs] at he
    cases he

lemma read_spec {len : ℕ} (h : reg ≤ 0x7f) (hlen : len ≤ 0xe0) :
    CallSpec env sid w (.read reg len) (spmiRead env sid [reg] len w).1
      (spmiRead env sid [reg] len w).2 := by
  obtain ⟨hregs, -, hok⟩ := select_spec env sid h w
  cases hs : (spmiSelect env sid reg w).1 with
  | some e =>
    have hout : spmiRead env sid [reg] len w = (.error e, (spmiSelect env sid reg w).2) := by
      simp only [spmiRead]
      split <;> simp_all
    rw [hout]
    exact callSpec_unselected env h hs
  | none =>
    have hout : spmiRead env sid [reg] len w =
        windowReadLoop env len 0x20 len (spmiSelect env sid reg w).2 := by
      simp only [spmiRead, spmiWindowRead]
      split <;> simp_all
    obtain ⟨hsel, hbusy⟩ := hok hs
    obtain ⟨hr, hbytes, k, win, hk, htr, hfull⟩ := windowReadLoop_spec env len 0x20 0 len
      (spmiSelect env sid reg w).2 hsel hbusy (.inr rfl) (by omega) (Nat.le_refl _)
    rw [hout]
    refine callSpec_selected env h hlen hs ?_ hk htr hfull
    rw [hr, hregs]
    cases hres : (windowReadLoop env len 0x20 len (spmiSelect env sid reg w).2).1 with
    | ok bytes =>
      rw [hbytes bytes hres, hregs]
      exact .read w.regs reg len
    | error e =>
      have hfail := FlatStep.failed w.regs (.read reg len) e 0
      rw [List.take_zero, flatWrite_nil] at hfail
      exact hfail

/-- Both kinds of write. -/
lemma write_spec {c : Call} (h : c.reg ≤ 0x7f) (hsize : c.size ≤ 0xe0)
    (hval : c.size = (payload c).length)
    (hflat : ∀ regs, FlatStep regs c (.ok []) (flatWrite regs c.reg 0 (payload c))) :
    CallSpec env sid w c (ofErr (spmiGatherWrite env sid [c.reg] (payload c) w).1)
      (spmiGatherWrite env sid [c.reg] (payload c) w).2 := by
  obtain ⟨hregs, -, hok⟩ := select_spec env sid h w
  cases hs : (spmiSelect env sid c.reg w).1 with
  | some e =>
    have hout : spmiGatherWrite env sid [c.reg] (payload c) w =
        (some e, (spmiSelect env sid c.reg w).2) := by
      simp only [spmiGatherWrite]
      split <;> simp_all
    rw [hout]
    exact callSpec_unselected env h hs
  | none =>
    have hout : spmiGatherWrite env sid [c.reg] (payload c) w =
        windowWriteLoop env (payload c).length 0x20 (payload c) (spmiSelect env sid c.reg w).2 := by
      simp only [spmiGatherWrite, spmiWindowWrite]
      split <;> simp_all
    obtain ⟨hsel, hbusy⟩ := hok hs
    obtain ⟨⟨j, hr, hj⟩, k, win, hk, htr, hfull⟩ := windowWriteLoop_spec env (payload c).length 0x20
      0 (payload c) (spmiSelect env sid c.reg w).2 hsel hbusy (.inr rfl) (by omega) (Nat.le_refl _)
    rw [hout]
    refine callSpec_selected env h hsize hs ?_ (by omega) htr fun bytes hbytes => ?_
    · rw [hr, hregs]
      cases hres : (windowWriteLoop env (payload c).length 0x20 (payload c)
        (spmiSelect env sid c.reg w).2).1 with
      | some e => exact .failed w.regs c e j
      | none =>
        rw [hj hres, List.take_length]
        exact hflat w.regs
    · rw [hval]
      refine hfull ?_
      cases hres : (windowWriteLoop env (payload c).length 0x20 (payload c)
        (spmiSelect env sid c.reg w).2).1 with
      | some e =>
        rw [hres] at hbytes
        cases hbytes
      | none => rfl

/-- One call. -/
lemma exec_spec (c : Call) (w : World) (h : c.reg ≤ 0x7f) (hsize : c.size ≤ 0xe0) :
    CallSpec env sid w c (exec env sid c w).1 (exec env sid c w).2 := by
  cases c with
  | read reg len => exact read_spec env h hsize
  | gatherWrite reg val =>
    exact write_spec env h hsize rfl fun regs => .gatherWrite regs reg val
  | write reg val => exact write_spec env h hsize rfl fun regs => .write regs reg val

/-- **The paged bus refines a flat register file.** For every sequence of calls with registers
up to `0x7f` and payloads of up to `0xe0` bytes, whatever the transport does: every call is as
`CallSpec` says, the whole sequence is a run of the flat register file, and the two entry
points for writing agree. -/
theorem runCalls_refines (calls : List Call) (w : World)
    (hcalls : ∀ c ∈ calls, c.reg ≤ 0x7f ∧ c.size ≤ 0xe0) :
    (∀ s ∈ runCalls env sid calls w, CallSpec env sid s.1 s.2.1 s.2.2.1 s.2.2.2) ∧
      FlatRun w.regs ((runCalls env sid calls w).map fun s => (s.2.1, s.2.2.1))
        (calls.foldl (fun w c => (exec env sid c w).2) w).regs ∧
      ∀ reg val w, exec env sid (.write reg val) w = exec env sid (.gatherWrite reg val) w := by
  refine ⟨?_, ?_, fun _ _ _ => rfl⟩
  · induction calls generalizing w with
    | nil => simp [runCalls]
    | cons c calls ih =>
      obtain ⟨hreg, hsize⟩ := hcalls c (by simp)
      intro s hs
      rw [runCalls] at hs
      rcases List.mem_cons.mp hs with rfl | hs
      · exact exec_spec env c w hreg hsize
      · exact ih _ (fun c' hc' => hcalls c' (by simp [hc'])) s hs
  · induction calls generalizing w with
    | nil => exact .nil w.regs
    | cons c calls ih =>
      obtain ⟨hreg, hsize⟩ := hcalls c (by simp)
      exact .cons (exec_spec env c w hreg hsize).flat
        (ih _ fun c' hc' => hcalls c' (by simp [hc']))

/-- Twenty bytes are written in two chunks and then read back, each time after the selection
has read busy twice. -/
theorem runCalls_refines_roundTrip :
    let tx : Tx := { rsp := zeroWriteWord 4 0x08, polls := 2 }
    let w : World := { regs := fun _ _ => 0, selected := 0x08, busy := 0 }
    let val : List Byte := (List.range 20).map (BitVec.ofNat 8)
    let calls : List Call := [.write 0x08 val, .read 0x08 20]
    ((runCalls (fun _ => tx) 4 calls w).map fun s => (s.2.2.1.toOption, s.2.2.2.log.length)) =
        [(some [], 6), (some val, 12)] ∧
      ∀ s ∈ runCalls (fun _ => tx) 4 calls w,
        CallSpec (fun _ => tx) 4 s.1 s.2.1 s.2.2.1 s.2.2.2 :=
  ⟨by decide +kernel, (runCalls_refines _ _ _ (by
    intro c hc
    rcases List.mem_cons.mp hc with rfl | hc
    · exact ⟨by decide, by decide⟩
    · rw [List.mem_singleton.mp hc]
      exact ⟨by decide, by decide⟩)).1⟩

end Wallace.SpmiFlat
