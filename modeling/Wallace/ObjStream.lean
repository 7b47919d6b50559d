import Mathlib.Data.List.Basic
import Mathlib.Tactic.Common
import Wallace.ObjRead

/-!
The payload stream as a relation between the data and the records, and the loop of the
verifier as the computation of it. The checks of the verifier are stated as propositions.
-/

namespace Wallace.ObjStream

open Bytes Checks ObjModel ObjRead

/-! ### The loop -/

/-- What remains at `offset` is read as these records. -/
inductive Parses (codec : Codec) (allow : Bool) : List UInt8 → ℕ → Vars → List Record → Vars → Prop
  | done {offset : ℕ} {vars : Vars} : Parses codec allow [] offset vars [] vars
  | read {rest : List UInt8} {offset : ℕ} {vars vars' vars'' : Vars} {r : Record}
      {rs : List Record} (hne : rest ≠ [])
      (hr : readRecord codec allow rest offset vars = .ok (r, vars'))
      (hrs : Parses codec allow (rest.drop r.size) (offset + r.size) vars' rs vars'') :
      Parses codec allow rest offset vars (r :: rs) vars''

variable {codec : Codec} {allow : Bool}

lemma parses_iff {rest : List UInt8} (hne : rest ≠ []) {offset : ℕ} {vars vars'' : Vars}
    {rs : List Record} :
    Parses codec allow rest offset vars rs vars'' ↔
      ∃ r vars' rs', readRecord codec allow rest offset vars = .ok (r, vars') ∧ rs = r :: rs' ∧
        Parses codec allow (rest.drop r.size) (offset + r.size) vars' rs' vars'' := by
  constructor
  · intro h
    cases h with
    | done => exact absurd rfl hne
    | read _ hr hrs => exact ⟨_, _, _, hr, rfl, hrs⟩
  · rintro ⟨r, vars', rs', hr, rfl, hrs⟩
    exact .read hne hr hrs

/-- A record that ends after `m`. -/
lemma Parses.cons {m t : List UInt8} {offset : ℕ} {vars vars' vars'' : Vars} {r : Record}
    {rs : List Record} (hne : m ≠ [])
    (hr : readRecord codec allow (m ++ t) offset vars = .ok (r, vars')) (hsize : r.size = m.length)
    (hrs : Parses codec allow t (offset + m.length) vars' rs vars'') :
    Parses codec allow (m ++ t) offset vars (r :: rs) vars'' := by
  have hne' : m ++ t ≠ [] := fun h => hne (List.append_eq_nil_iff.mp h).1
  refine .read hne' hr ?_
  rwa [hsize, List.drop_left]

lemma Parses.uncons {m t : List UInt8} {offset : ℕ} {vars vars'' : Vars} {rs : List Record}
    (h : Parses codec allow (m ++ t) offset vars rs vars'') (hne : m ≠ [])
    (hsize : ∀ r vars',
      readRecord codec allow (m ++ t) offset vars = .ok (r, vars') → r.size = m.length) :
    ∃ r vars' rs', readRecord codec allow (m ++ t) offset vars = .ok (r, vars') ∧
      rs = r :: rs' ∧ Parses codec allow t (offset + m.length) vars' rs' vars'' := by
  have hne' : m ++ t ≠ [] := fun h => hne (List.append_eq_nil_iff.mp h).1
  obtain ⟨r, vars', rs', hr, rfl, hrs⟩ := (parses_iff hne').mp h
  rw [hsize r vars' hr, List.drop_left] at hrs
  exact ⟨r, vars', rs', hr, rfl, hrs⟩

/-- Each turn takes a byte at least, so a turn for each byte that remains is enough. -/
lemma parseLoop_halts (data : List UInt8) {fuel offset : ℕ} (records : List Record) (vars : Vars)
    (hfuel : data.length - offset < fuel) :
    ∃ res, parseLoop codec allow data fuel offset records vars = some res := by
  induction fuel generalizing offset records vars with
  | zero => omega
  | succ fuel ih =>
    rw [parseLoop]
    split_ifs with hlt hstop
    · cases hr : readRecord codec allow (data.drop offset) offset vars with
      | error f => exact ⟨_, rfl⟩
      | ok p =>
        have hpos := (readRecord_ok hr).1.pos
        exact ih _ _ (by omega)
    · exact ⟨_, rfl⟩
    · exact ⟨_, rfl⟩

lemma parseLoop_ok {data : List UInt8} {fuel offset : ℕ} {records rs : List Record}
    {vars vs : Vars} (hfuel : data.length - offset < fuel) :
    parseLoop codec allow data fuel offset records vars = some (.ok (rs, vs)) ↔
      offset ≤ data.length ∧
        ∃ rs', rs = records ++ rs' ∧ Parses codec allow (data.drop offset) offset vars rs' vs := by
  induction fuel generalizing offset records vars with
  | zero => omega
  | succ fuel ih =>
    rw [parseLoop]
    split_ifs with hlt hstop
    · have hne : data.drop offset ≠ [] := by
        rw [Ne, List.drop_eq_nil_iff]
        omega
      cases hr : readRecord codec allow (data.drop offset) offset vars with
      | error f =>
        refine ⟨nofun, ?_⟩
        rintro ⟨-, rs', -, hp⟩
        obtain ⟨r, vars', rs'', hr', -, -⟩ := (parses_iff hne).mp hp
        rw [hr] at hr'
        cases hr'
      | ok p =>
        obtain ⟨r, vars'⟩ := p
        have hloc := (readRecord_ok hr).1
        have hsize := hloc.size
        have hpos := hloc.pos
        rw [List.length_drop] at hsize
        dsimp only
        rw [ih (by omega), List.append_cons]
        constructor
        · rintro ⟨-, rs', rfl, hp⟩
          refine ⟨by omega, r :: rs', by simp, .read hne hr ?_⟩
          rwa [List.drop_drop]
        · rintro ⟨-, rs', rfl, hp⟩
          obtain ⟨r', w, rs'', hr', rfl, hp'⟩ := (parses_iff hne).mp hp
          rw [hr] at hr'
          cases hr'
          rw [List.drop_drop] at hp'
          exact ⟨by omega, rs'', by simp, hp'⟩
    · refine ⟨nofun, ?_⟩
      omega
    · have heq : offset = data.length := by omega
      subst heq
      rw [List.drop_length]
      constructor
      · intro h
        cases h
        exact ⟨Nat.le_refl _, [], by simp, .done⟩
      · rintro ⟨-, rs', rfl, hp⟩
        cases hp with
        | done => simp
        | read hne _ _ => exact absurd rfl hne

/-- **The verifier reads exactly the records of the stream.** -/
theorem parsePayloadStream_ok {data : List UInt8} {start : ℕ} {rs : List Record} {vs : Vars} :
    parsePayloadStream codec allow data start = .ok (rs, vs) ↔
      start ≤ data.length ∧ Parses codec allow (data.drop start) start [] rs vs := by
  have hfuel : data.length - start < data.length + 1 := by omega
  have hloop : parseLoop codec allow data (data.length + 1) start [] [] = some (.ok (rs, vs)) ↔ _ :=
    parseLoop_ok hfuel
  have hhalt : ∃ res, parseLoop codec allow data (data.length + 1) start [] [] = some res :=
    parseLoop_halts data [] [] hfuel
  obtain ⟨res, hres⟩ := hhalt
  rw [hres, Option.some.injEq] at hloop
  rw [parsePayloadStream, hres]
  refine hloop.trans (and_congr_right fun _ => ?_)
  constructor
  · rintro ⟨rs', rfl, hp⟩
    exact hp
  · intro hp
    exact ⟨rs, rfl, hp⟩

/-! ### The checks -/

/-- What the verifier asks of the object before it reads the stream. -/
structure Envelope (object m1n1 : List UInt8) (limit : ℕ) : Prop where
  size : object.length ≤ limit
  base : m1n1.length % m1n1Alignment = 0
  aligned : object.length % m1n1Alignment = 0
  entry : rawEntryPoint + 4 < m1n1.length
  nonzero : sub m1n1 rawEntryPoint 4 ≠ [0, 0, 0, 0]
  starts : startsWith object m1n1 = true

/-- What the verifier in strict mode asks of the records. -/
structure Accepted (object : List UInt8) (expected : Expected) (bootargs : List Char)
    (records : List Record) (vars : Vars) : Prop where
  order : (records.filter isPayload).map Record.role = [.kernel, .dtb, .initramfs]
  terminator : ∃ r ∈ records.getLast?, r.role = .terminator ∧ 4 ≤ r.size
  artifacts : ∀ r ∈ records.filter isPayload, expected.get r.role = some (bytesOf object r)
  bootargs : vars.lookup bootargsName = some bootargs

lemma rejectIf_bind_ok {c : Prop} [Decidable c] {f : Fault} {β : Type} {g : Unit → Check β}
    {b : β} : (rejectIf c f >>= g) = .ok b ↔ ¬ c ∧ g () = .ok b := by
  by_cases hc : c
  · rw [rejectIf_of hc]
    exact ⟨nofun, fun h => absurd hc h.1⟩
  · rw [rejectIf_of_not hc]
    exact ⟨fun h => ⟨hc, h⟩, fun h => h.2⟩

lemma rejectIf_eq_ok {c : Prop} [Decidable c] {f : Fault} : rejectIf c f = .ok () ↔ ¬ c :=
  ⟨rejectIf_ok, fun h => rejectIf_of_not h f⟩

lemma checkEnvelope_ok {object m1n1 : List UInt8} {limit : ℕ} :
    checkEnvelope object m1n1 limit = .ok () ↔ Envelope object m1n1 limit := by
  unfold checkEnvelope
  simp only [rejectIf_bind_ok, rejectIf_eq_ok, Nat.not_lt, Decidable.not_not, Nat.not_le,
    Bool.not_eq_false]
  constructor
  · rintro ⟨h1, h2, h3, h4, h5, h6⟩
    exact ⟨h1, h2, h3, h4, h5, h6⟩
  · rintro ⟨h1, h2, h3, h4, h5, h6⟩
    exact ⟨h1, h2, h3, h4, h5, h6⟩

lemma forM_ok {α : Type} {f : α → Check Unit} {l : List α} :
    l.forM f = .ok () ↔ ∀ a ∈ l, f a = .ok () := by
  induction l with
  | nil => exact ⟨fun _ => nofun, fun _ => rfl⟩
  | cons a l ih =>
    rw [List.forall_mem_cons, ← ih]
    constructor
    · intro h
      obtain ⟨_, ha, hl⟩ := bind_ok h
      exact ⟨ha, hl⟩
    · rintro ⟨ha, hl⟩
      change (f a >>= fun _ => l.forM f) = _
      rw [ha]
      exact hl

lemma checkArtifact_ok {object : List UInt8} {expected : Expected} {r : Record} :
    checkArtifact object expected true r = .ok () ↔
      expected.get r.role = some (bytesOf object r) := by
  unfold checkArtifact
  cases expected.get r.role with
  | none => exact ⟨nofun, nofun⟩
  | some wanted =>
    dsimp only
    rw [rejectIf_eq_ok, Ne, Decidable.not_not, Option.some.injEq, eq_comm]

lemma checkStream_ok {object : List UInt8} {expected : Expected} {bootargs : Option (List Char)}
    {records : List Record} {vars : Vars} :
    checkStream object expected bootargs true records vars = .ok () ↔
      ∃ wanted, bootargs = some wanted ∧ Accepted object expected wanted records vars := by
  unfold checkStream
  simp only [rejectIf_bind_ok, Decidable.not_not]
  cases bootargs with
  | none =>
    constructor
    · rintro ⟨-, -, h⟩
      obtain ⟨_, -, h⟩ := bind_ok h
      cases h
    · rintro ⟨_, h, -⟩
      cases h
  | some wanted =>
    constructor
    · rintro ⟨horder, hterm, h⟩
      obtain ⟨_, hart, h⟩ := bind_ok h
      rw [rejectIf_bind_ok, Ne, Decidable.not_not] at h
      rw [forM_ok] at hart
      exact ⟨wanted, rfl, horder, hterm, fun r hr => checkArtifact_ok.mp (hart r hr), h.1⟩
    · rintro ⟨_, h, hacc⟩
      cases h
      have hart : (records.filter isPayload).forM (checkArtifact object expected true) = .ok () :=
        forM_ok.mpr fun r hr => checkArtifact_ok.mpr (hacc.artifacts r hr)
      refine ⟨hacc.order, hacc.terminator, ?_⟩
      rw [hart]
      refine rejectIf_bind_ok.mpr ⟨not_not.mpr hacc.bootargs, rejectIf_of_not ?_ _⟩
      rw [hacc.bootargs]
      rintro ⟨-, h⟩
      cases h

/-- The report on an object that is accepted. -/
def report (object m1n1 : List UInt8) (limit : ℕ) (records : List Record) (vars : Vars) : Report :=
  { objectSize := object.length
    maxSizePolicy := limit
    m1n1Size := m1n1.length
    vars
    records
    payloadBytes := ((records.filter isPayload).map Record.runtimeReserve).sum }

/-- **Strict acceptance, as a proposition on the object.** -/
theorem verifyObject_ok {object m1n1 : List UInt8} {expected : Expected}
    {bootargs : Option (List Char)} {limit : ℕ} {rep : Report} :
    verifyObject codec object m1n1 expected bootargs true allow limit = .ok rep ↔
      Envelope object m1n1 limit ∧
      ∃ records vars, Parses codec allow (object.drop m1n1.length) m1n1.length [] records vars ∧
        (∃ wanted, bootargs = some wanted ∧ Accepted object expected wanted records vars) ∧
        rep = report object m1n1 limit records vars := by
  constructor
  · intro h
    obtain ⟨_, henv, h⟩ := bind_ok h
    obtain ⟨⟨records, vars⟩, hparse, h⟩ := bind_ok h
    obtain ⟨_, hcheck, h⟩ := bind_ok h
    cases h
    exact ⟨checkEnvelope_ok.mp henv, records, vars, (parsePayloadStream_ok.mp hparse).2,
      checkStream_ok.mp hcheck, rfl⟩
  · rintro ⟨henv, records, vars, hparse, hcheck, rfl⟩
    obtain ⟨t, ht⟩ := startsWith_iff.mp henv.starts
    have hlen : m1n1.length ≤ object.length := by
      rw [ht, List.length_append]
      omega
    rw [verifyObject, checkEnvelope_ok.mpr henv]
    change (parsePayloadStream codec allow object m1n1.length >>= _) = _
    rw [parsePayloadStream_ok.mpr ⟨hlen, hparse⟩]
    change (checkStream object expected bootargs true records vars >>= _) = _
    rw [checkStream_ok.mpr hcheck]
    rfl

end Wallace.ObjStream
