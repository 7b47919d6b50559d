import Mathlib.Data.List.Basic
import Mathlib.Tactic.Common
import Wallace.GptSafe

/-!
Safety of the metadata gate on hostile media, and the end of its reads.

A `pread` that is interrupted is tried again, and nothing bounds how often: a read whose
every call is interrupted neither fills its buffer nor stops. Apart from that every call
makes progress or stops the gate, so that a read ends as soon as enough calls get through.
-/

namespace Wallace.GptReads

open Trail Bytes GptModel GptSafe

/-- The first `m` answers of a pattern. -/
def firstAnswers (σ : ℕ → Pread) (m : ℕ) : List Pread := (List.range m).map σ

/-- After some number of calls, `read_at` has filled its buffer or stopped. -/
def Ends (img : ℕ → UInt8) (mediaBytes n off : ℕ) (σ : ℕ → Pread) : Prop :=
  ∃ m, (∃ b, (readAt img mediaBytes n off (firstAnswers σ m)).fin = .done b ∧ b.length = n) ∨
    ∃ why, (readAt img mediaBytes n off (firstAnswers σ m)).fin = .stop why

/-- Again and again a call is not interrupted. -/
def GetsThrough (σ : ℕ → Pread) : Prop := ∀ m, ∃ j, m ≤ j ∧ σ j ≠ .intr

/-- The calls that are not interrupted. -/
def through (answers : List Pread) : ℕ := answers.countP (· ≠ .intr)

/-- As many calls that get through as there are bytes missing are enough. -/
lemma readLoop_ends (img : ℕ → UInt8) (mediaBytes size : ℕ) (answers : List Pread)
    (n off : ℕ) (buf : List UInt8) (hn : n < 2 ^ 64) (h : n ≤ through answers) :
    (readLoop img mediaBytes size n off buf answers).fin ≠ .wait := by
  induction answers generalizing n off buf with
  | nil =>
    have hn0 : n = 0 := Nat.le_zero.mp h
    rw [readLoop, if_pos hn0]
    intro hw
    cases hw
  | cons a answers ih =>
    rw [readLoop]
    split_ifs with h0
    · intro hw
      cases hw
    · cases a with
      | intr => exact ih n off buf hn (by simpa [through] using h)
      | fail =>
        intro hw
        cases hw
      | got k =>
        dsimp only
        generalize hk : min k n = k'
        split_ifs with hk0
        · intro hw
          cases hw
        · refine ih _ _ _ (Nat.mod_lt _ (by decide)) ?_
          have hth : through (.got k :: answers) = through answers + 1 := by simp [through]
          omega

lemma through_grows {σ : ℕ → Pread} (h : GetsThrough σ) (n : ℕ) :
    ∃ m, n ≤ through (firstAnswers σ m) := by
  induction n with
  | zero => exact ⟨0, Nat.zero_le _⟩
  | succ n ih =>
    obtain ⟨m, hm⟩ := ih
    obtain ⟨j, hj, hne⟩ := h m
    refine ⟨j + 1, ?_⟩
    have hmono : through (firstAnswers σ m) ≤ through (firstAnswers σ j) := by
      unfold through firstAnswers
      refine List.Sublist.countP_le (List.Sublist.map σ ?_)
      rw [List.range_sublist]
      exact hj
    have hstep : through (firstAnswers σ (j + 1)) = through (firstAnswers σ j) + 1 := by
      simp [through, firstAnswers, List.range_succ, hne]
    omega

lemma fin_usub {β : Type} {a b : ℕ} (ha : a < 2 ^ 64) (hb : b ≤ a) (f : ℕ → Gate β)
    (answers : List Pread) : ((usub 64 a b >>= f) answers).fin = (f (a - b) answers).fin := by
  have hwrap : ((usub 64 a b >>= f) answers).fin =
      (f ((a + 2 ^ 64 - b) % 2 ^ 64) answers).fin := rfl
  rw [hwrap, show (a + 2 ^ 64 - b) % 2 ^ 64 = a - b by omega]

/-- Inside the bounds `read_at` goes into its loop. -/
lemma readAt_fin (img : ℕ → UInt8) {mediaBytes n off : ℕ} (hm : mediaBytes < 2 ^ 64)
    (hoff : off ≤ mediaBytes) (hroom : ¬ (mediaBytes - off < n ∨ int64Max < off))
    (answers : List Pread) : (readAt img mediaBytes n off answers).fin =
      (readLoop img mediaBytes n n off [] answers).fin := by
  unfold readAt
  refine (fin_stopIf_of_not (Nat.not_lt.mpr hoff) _ _ _).trans ?_
  refine (fin_usub hm hoff _ _).trans ?_
  exact fin_stopIf_of_not hroom _ _ _

/-- Outside it stops. -/
lemma readAt_stops (img : ℕ → UInt8) {mediaBytes n off : ℕ} (hm : mediaBytes < 2 ^ 64)
    (hout : off ≤ mediaBytes → mediaBytes - off < n ∨ int64Max < off) (answers : List Pread) :
    (readAt img mediaBytes n off answers).fin = .stop "read outside pinned media bounds" := by
  unfold readAt
  by_cases hoff : off ≤ mediaBytes
  · refine (fin_stopIf_of_not (Nat.not_lt.mpr hoff) _ _ _).trans ?_
    refine (fin_usub hm hoff _ _).trans ?_
    exact fin_stopIf_of (hout hoff) _ _ _
  · exact fin_stopIf_of (Nat.not_le.mp hoff) _ _ _

lemma readAt_ends (img : ℕ → UInt8) {mediaBytes : ℕ} (hm : mediaBytes < 2 ^ 64) (n off : ℕ)
    {σ : ℕ → Pread} (hσ : GetsThrough σ) : Ends img mediaBytes n off σ := by
  obtain ⟨m, hthrough⟩ := through_grows hσ n
  refine ⟨m, ?_⟩
  by_cases hout : off ≤ mediaBytes → mediaBytes - off < n ∨ int64Max < off
  · exact .inr ⟨_, readAt_stops img hm hout _⟩
  · push Not at hout
    obtain ⟨hoff, hroom⟩ := hout
    have hroom' : ¬ (mediaBytes - off < n ∨ int64Max < off) := by omega
    have hin : off + n ≤ mediaBytes := by omega
    have hspec := (readLoop_spec img hm (firstAnswers σ m) n off [] hin (Nat.zero_add n)).2
    have hends := readLoop_ends img mediaBytes n (firstAnswers σ m) n off [] (by omega) hthrough
    rw [readAt_fin img hm hoff hroom']
    cases hfin : (readLoop img mediaBytes n n off [] (firstAnswers σ m)).fin with
    | done b =>
      refine .inl ⟨b, rfl, ?_⟩
      rw [hspec b hfin, List.nil_append, length_slice]
    | stop why => exact .inr ⟨why, rfl⟩
    | wait => exact absurd hfin hends

/-- **Safety of the gate**: on any medium, with any arguments and any answers to its reads, no
offset, length, bound or quotient wraps or divides by zero, every request lies in the medium
and every access in its buffer; and a read ends unless from some call on all are
interrupted. -/
theorem gate_safe :
    (∀ (env : Env) (img : ℕ → UInt8) (argv : List String) (answers : List Pread),
      ∀ e ∈ (main env img argv answers).trail, Safe e) ∧
    ∀ (img : ℕ → UInt8) (mediaBytes n off : ℕ) (σ : ℕ → Pread), mediaBytes < 2 ^ 64 →
      GetsThrough σ → Ends img mediaBytes n off σ :=
  ⟨fun env img argv answers => (main_meets env img argv answers).1,
    fun img _ n off _ hm hσ => readAt_ends img hm n off hσ⟩

/-- A sector read byte by byte, every other call interrupted. -/
theorem gate_safe_bytewise :
    Ends (fun _ => 0) 512 512 0 fun j => if j % 2 = 0 then .intr else .got 1 := by
  refine gate_safe.2 _ _ _ _ _ (by decide) fun m => ⟨2 * m + 1, by omega, ?_⟩
  rw [if_neg (by omega)]
  nofun

lemma readLoop_intr (img : ℕ → UInt8) (mediaBytes size : ℕ) {n : ℕ} (hn : n ≠ 0) (off : ℕ)
    (buf : List UInt8) (m : ℕ) :
    (readLoop img mediaBytes size n off buf (List.replicate m .intr)).fin = .wait := by
  induction m with
  | zero =>
    rw [List.replicate_zero, readLoop, if_neg hn]
  | succ m ih =>
    rw [List.replicate_succ, readLoop, if_neg hn]
    exact ih

/-- A read whose every call is interrupted goes on for ever. -/
theorem read_never_ends : ¬ ∀ σ : ℕ → Pread, Ends (fun _ => 0) 512 512 0 σ := by
  intro h
  obtain ⟨m, hm⟩ := h fun _ => .intr
  have hans : firstAnswers (fun _ => Pread.intr) m = List.replicate m .intr := by
    rw [firstAnswers, List.map_const', List.length_range]
  have hwait : (readAt (fun _ => 0) 512 512 0 (List.replicate m .intr)).fin = .wait := by
    rw [readAt_fin _ (by decide) (by decide) (by decide)]
    exact readLoop_intr _ _ _ (by decide) _ _ _
  rw [hans, hwait] at hm
  rcases hm with ⟨b, hb, -⟩ | ⟨why, hw⟩
  · cases hb
  · cases hw

/-! ### The end of the gate -/

/-- When `n` calls get through the program does not wait, and no more of them are used up. -/
def EndsIn {α : Type} (n : ℕ) (m : Gate α) : Prop :=
  ∀ s, n ≤ through s → (m s).fin ≠ .wait ∧ through s ≤ through (m s).rest + n

section Rules

variable {α β : Type} {n k : ℕ} {m : Gate α}

lemma EndsIn.pure (a : α) : EndsIn 0 (Pure.pure a : Gate α) := fun _ _ => ⟨nofun, Nat.le_refl _⟩

lemma EndsIn.stop (why : String) : EndsIn 0 (Trail.stop why : Gate α) :=
  fun _ _ => ⟨nofun, Nat.le_refl _⟩

lemma EndsIn.note (e : Event) : EndsIn 0 (Trail.note e : Gate Unit) :=
  fun _ _ => ⟨nofun, Nat.le_refl _⟩

lemma EndsIn.stopIf (c : Prop) [Decidable c] (why : String) :
    EndsIn 0 (Trail.stopIf c why : Gate Unit) := by
  unfold Trail.stopIf
  split_ifs
  · exact .stop why
  · exact .pure ()

lemma EndsIn.ofExcept (x : Except String α) : EndsIn 0 (Trail.ofExcept x : Gate α) := by
  cases x with
  | ok a => exact .pure a
  | error why => exact .stop why

lemma EndsIn.mono (h : EndsIn n m) (hle : n ≤ k) : EndsIn k m := by
  intro s hs
  obtain ⟨hw, hr⟩ := h s (by omega)
  exact ⟨hw, by omega⟩

/-- **The sequence rule.** -/
lemma EndsIn.bind {f : α → Gate β} (hm : EndsIn n m) (hf : ∀ a, EndsIn k (f a)) :
    EndsIn (n + k) (m >>= f) := by
  intro s hs
  obtain ⟨hw, hr⟩ := hm s (by omega)
  have hb : (m >>= f) s = Prog.bind m f s := rfl
  rw [hb]
  unfold Prog.bind
  rcases hms : m s with ⟨t, fin, s'⟩
  rw [hms] at hw hr
  simp only at hw hr
  cases fin with
  | done a =>
    obtain ⟨hw', hr'⟩ := hf a s' (by omega)
    exact ⟨hw', by simp only; omega⟩
  | stop why => exact ⟨nofun, by simp only; omega⟩
  | wait => exact absurd rfl hw

/-- What reads nothing costs nothing. -/
lemma EndsIn.next {f : α → Gate β} (hm : EndsIn 0 m) (hf : ∀ a, EndsIn k (f a)) :
    EndsIn k (m >>= f) := by
  have h := hm.bind hf
  rwa [Nat.zero_add] at h

lemma EndsIn.last {f : α → Gate β} (hm : EndsIn n m) (hf : ∀ a, EndsIn 0 (f a)) :
    EndsIn n (m >>= f) := hm.bind hf

lemma EndsIn.map {f : α → β} (hm : EndsIn n m) : EndsIn n (f <$> m) :=
  hm.last fun a => .pure (f a)

lemma EndsIn.forEach {l : List α} {f : α → Gate Unit} (h : ∀ x, EndsIn 0 (f x)) :
    EndsIn 0 (Trail.forEach l f) := by
  induction l with
  | nil => exact .pure ()
  | cons x l ih => exact (h x).next fun _ => ih

end Rules

lemma endsIn_noted {α : Type} (e : Event) (a : α) :
    EndsIn 0 (Trail.note e >>= fun _ => Pure.pure a : Gate α) :=
  (EndsIn.note e).next fun _ => .pure a

lemma endsIn_bytes (b : List UInt8) (off n : ℕ) : EndsIn 0 (bytes b off n) := endsIn_noted _ _

lemma endsIn_le16 (b : List UInt8) (off : ℕ) : EndsIn 0 (le16 b off) := (endsIn_bytes b off 2).map

lemma endsIn_le32 (b : List UInt8) (off : ℕ) : EndsIn 0 (le32 b off) := (endsIn_bytes b off 4).map

lemma endsIn_le64 (b : List UInt8) (off : ℕ) : EndsIn 0 (le64 b off) := (endsIn_bytes b off 8).map

lemma endsIn_zero (b : List UInt8) (off n : ℕ) : EndsIn 0 (zero b off n) :=
  (endsIn_bytes b off n).next fun _ => .pure _

/-- A read uses up one call that gets through for each byte at most. -/
lemma through_readLoop (img : ℕ → UInt8) (mediaBytes size : ℕ) (answers : List Pread)
    (n off : ℕ) (buf : List UInt8) (hn : n < 2 ^ 64) (h : n ≤ through answers) :
    through answers ≤ through (readLoop img mediaBytes size n off buf answers).rest + n := by
  induction answers generalizing n off buf with
  | nil => exact Nat.zero_le _
  | cons a answers ih =>
    rw [readLoop]
    split_ifs with h0
    · exact Nat.le_add_right _ _
    · cases a with
      | intr =>
        have hth : through (.intr :: answers) = through answers := by simp [through]
        rw [hth] at h ⊢
        exact ih n off buf hn h
      | fail =>
        have hth : through (.fail :: answers) = through answers + 1 := by simp [through]
        rw [hth]
        dsimp only
        omega
      | got k =>
        have hth : through (.got k :: answers) = through answers + 1 := by simp [through]
        rw [hth] at h ⊢
        dsimp only
        generalize hk : min k n = k'
        split_ifs with hk0
        · dsimp only
          omega
        · have hrest := ih ((n + 2 ^ 64 - k') % 2 ^ 64) ((off + k') % 2 ^ 64)
            (buf ++ slice img off k') (Nat.mod_lt _ (by decide)) (by omega)
          dsimp only at hrest ⊢
          omega

lemma endsIn_readAt (img : ℕ → UInt8) (mediaBytes off : ℕ) {n : ℕ} (hn : n < 2 ^ 64) :
    EndsIn n (readAt img mediaBytes n off) := by
  refine (EndsIn.stopIf _ _).next fun _ => ?_
  refine (endsIn_noted _ _).next fun _ => ?_
  refine (EndsIn.stopIf _ _).next fun _ => ?_
  intro s hs
  exact ⟨readLoop_ends img mediaBytes n s n off [] hn hs,
    through_readLoop img mediaBytes n s n off [] hn hs⟩

lemma endsIn_checkMbr (img : ℕ → UInt8) (mediaBytes sectors : ℕ) :
    EndsIn 512 (checkMbr img mediaBytes sectors) := by
  refine (endsIn_readAt img mediaBytes 0 (show 512 < 2 ^ 64 by decide)).last fun _ => ?_
  refine (endsIn_bytes _ _ _).next fun _ => ?_
  refine (endsIn_bytes _ _ _).next fun _ => ?_
  refine (endsIn_bytes _ _ _).next fun _ => ?_
  refine (endsIn_le32 _ _).next fun _ => ?_
  refine (endsIn_le32 _ _).next fun _ => ?_
  refine (endsIn_noted _ _).next fun _ => ?_
  refine (endsIn_zero _ _ _).next fun _ => ?_
  exact .stopIf _ _

lemma endsIn_geometry (h : Header) (lba sectors : ℕ) : EndsIn 0 (geometry h lba sectors) := by
  refine (EndsIn.stopIf _ _).next fun _ => ?_
  refine (endsIn_noted _ _).next fun _ => ?_
  refine (EndsIn.stopIf _ _).next fun _ => ?_
  refine (endsIn_noted _ _).next fun _ => ?_
  refine (endsIn_noted _ _).next fun _ => ?_
  refine (EndsIn.stopIf _ _).next fun _ => ?_
  refine (endsIn_noted _ _).next fun _ => ?_
  exact .stopIf _ _

lemma endsIn_placement (h : Header) (lba sectors : ℕ) : EndsIn 0 (placement h lba sectors) := by
  have hsectors : EndsIn 0 (arraySectors h) := by
    refine (endsIn_noted _ _).next fun _ => ?_
    refine (endsIn_noted _ _).next fun _ => ?_
    refine (endsIn_noted _ _).next fun _ => ?_
    exact endsIn_noted _ _
  refine hsectors.next fun _ => ?_
  refine (EndsIn.stopIf _ _).next fun _ => ?_
  refine (endsIn_noted _ _).next fun _ => ?_
  refine (EndsIn.stopIf _ _).next fun _ => ?_
  refine (endsIn_noted _ _).next fun _ => ?_
  split_ifs
  · exact (endsIn_noted _ _).next fun _ => .stopIf _ _
  · exact .stopIf _ _

lemma endsIn_header (img : ℕ → UInt8) (mediaBytes lba sectors : ℕ) :
    EndsIn 512 (header img mediaBytes lba sectors) := by
  refine (endsIn_noted _ _).next fun _ => ?_
  refine (endsIn_readAt img mediaBytes _ (show 512 < 2 ^ 64 by decide)).last fun _ => ?_
  refine (endsIn_bytes _ _ _).next fun _ => ?_
  refine (endsIn_le32 _ _).next fun _ => ?_
  refine (endsIn_le32 _ _).next fun _ => ?_
  refine (EndsIn.stopIf _ _).next fun _ => ?_
  refine (endsIn_le32 _ _).next fun _ => ?_
  refine (EndsIn.stopIf _ _).next fun _ => ?_
  refine (EndsIn.note _).next fun _ => ?_
  refine (endsIn_le32 _ _).next fun _ => ?_
  refine (EndsIn.stopIf _ _).next fun _ => ?_
  refine (endsIn_le64 _ _).next fun _ => ?_
  refine (endsIn_le64 _ _).next fun _ => ?_
  refine (endsIn_le64 _ _).next fun _ => ?_
  refine (endsIn_le64 _ _).next fun _ => ?_
  refine (endsIn_bytes _ _ _).next fun _ => ?_
  refine (endsIn_le64 _ _).next fun _ => ?_
  refine (endsIn_le32 _ _).next fun _ => ?_
  refine (endsIn_le32 _ _).next fun _ => ?_
  refine (endsIn_le32 _ _).next fun _ => ?_
  refine (endsIn_geometry _ _ _).next fun _ => ?_
  exact (endsIn_placement _ _ _).next fun _ => .pure _

/-- After a product the program goes on with its 64 bits. -/
lemma EndsIn.umul {α : Type} {k a b : ℕ} {f : ℕ → Gate α} (hf : EndsIn k (f (a * b % 2 ^ 64))) :
    EndsIn k (GptModel.umul 64 a b >>= f) :=
  fun s hs => hf s hs

lemma endsIn_array (img : ℕ → UInt8) (mediaBytes : ℕ) (malloc : Bool) (h : Header) :
    EndsIn (2 ^ 64) (array img mediaBytes malloc h) := by
  refine EndsIn.umul ?_
  have hn : h.count * h.entrySize % 2 ^ 64 < 2 ^ 64 := Nat.mod_lt _ (by decide)
  refine (EndsIn.note _).next fun _ => ?_
  refine (EndsIn.stopIf _ _).next fun _ => ?_
  refine (endsIn_noted _ _).next fun _ => ?_
  refine EndsIn.mono ((endsIn_readAt img mediaBytes _ hn).last fun _ => ?_) (Nat.le_of_lt hn)
  refine (EndsIn.note _).next fun _ => ?_
  exact (EndsIn.stopIf _ _).next fun _ => .pure _

lemma endsIn_checkCopies (img : ℕ → UInt8) (mediaBytes sectors : ℕ) (malloc : Bool × Bool)
    (diskGuid : List UInt8) :
    EndsIn (512 + (512 + (2 ^ 64 + 2 ^ 64)))
      (checkCopies img mediaBytes sectors malloc diskGuid) := by
  refine (endsIn_header img mediaBytes _ _).bind fun _ => ?_
  refine (endsIn_noted _ _).next fun _ => ?_
  refine (endsIn_header img mediaBytes _ _).bind fun _ => ?_
  refine (EndsIn.stopIf _ _).next fun _ => ?_
  refine (endsIn_array img mediaBytes _ _).bind fun _ => ?_
  refine (endsIn_array img mediaBytes _ _).last fun _ => ?_
  refine (endsIn_noted _ _).next fun _ => ?_
  refine (EndsIn.note _).next fun _ => ?_
  refine (EndsIn.note _).next fun _ => ?_
  exact (EndsIn.stopIf _ _).next fun _ => .pure _

lemma endsIn_checkEntries (a : Header) (pa type partGuid : List UInt8) :
    EndsIn 0 (checkEntries a pa type partGuid) := by
  refine (endsIn_bytes _ _ _).next fun _ => ?_
  refine (endsIn_bytes _ _ _).next fun _ => ?_
  refine (EndsIn.stopIf _ _).next fun _ => ?_
  refine (EndsIn.forEach fun i => ?_).next fun _ => ?_
  · refine (endsIn_noted _ _).next fun _ => ?_
    exact (endsIn_zero _ _ _).next fun _ => .stopIf _ _
  refine (endsIn_le64 _ _).next fun _ => ?_
  refine (endsIn_le64 _ _).next fun _ => ?_
  refine (endsIn_le64 _ _).next fun _ => ?_
  refine (EndsIn.stopIf _ _).next fun _ => ?_
  refine (EndsIn.forEach fun i => ?_).next fun _ => .pure _
  exact (endsIn_le16 _ _).next fun _ => .stopIf _ _

lemma endsIn_checkExt4 (img : ℕ → UInt8) (mediaBytes first last : ℕ) (fsUuid : List UInt8) :
    EndsIn 1024 (checkExt4 img mediaBytes first last fsUuid) := by
  refine (endsIn_noted _ _).next fun _ => ?_
  refine (endsIn_noted _ _).next fun _ => ?_
  refine (endsIn_readAt img mediaBytes _ (show 1024 < 2 ^ 64 by decide)).last fun _ => ?_
  refine (endsIn_le16 _ _).next fun _ => ?_
  refine (endsIn_le32 _ _).next fun _ => ?_
  refine (endsIn_bytes _ _ _).next fun _ => ?_
  refine (EndsIn.stopIf _ _).next fun _ => ?_
  refine (endsIn_bytes _ _ _).next fun _ => ?_
  refine (EndsIn.stopIf _ _).next fun _ => ?_
  refine (endsIn_le16 _ _).next fun _ => ?_
  refine (endsIn_le32 _ _).next fun _ => ?_
  refine (EndsIn.stopIf _ _).next fun _ => ?_
  refine (endsIn_le32 _ _).next fun _ => ?_
  refine (EndsIn.stopIf _ _).next fun _ => ?_
  refine (endsIn_noted _ _).next fun _ => ?_
  refine (endsIn_le32 _ _).next fun _ => ?_
  refine (endsIn_le32 _ _).next fun _ => ?_
  refine (endsIn_noted _ _).next fun _ => ?_
  refine (endsIn_noted _ _).next fun _ => ?_
  refine (endsIn_noted _ _).next fun _ => ?_
  refine (endsIn_noted _ _).next fun _ => ?_
  refine (endsIn_noted _ _).next fun _ => ?_
  exact .stopIf _ _

/-- The calls that are enough for every run of the gate. -/
def enough : ℕ := 512 + (512 + (512 + (2 ^ 64 + 2 ^ 64)) + 1024)

lemma endsIn_main (env : Env) (img : ℕ → UInt8) (argv : List String) :
    EndsIn enough (main env img argv) := by
  refine (EndsIn.ofExcept _).next fun p => ?_
  refine (EndsIn.ofExcept _).next fun _ => ?_
  refine (EndsIn.ofExcept _).next fun _ => ?_
  refine (EndsIn.ofExcept _).next fun _ => ?_
  refine (EndsIn.ofExcept _).next fun _ => ?_
  refine (EndsIn.ofExcept _).next fun mediaBytes => ?_
  refine EndsIn.last ?_ fun _ => .pure _
  refine (endsIn_noted _ _).next fun sectors => ?_
  refine (endsIn_checkMbr img mediaBytes sectors).bind fun _ => ?_
  refine (endsIn_checkCopies img mediaBytes sectors _ _).bind fun _ => ?_
  refine (endsIn_checkEntries _ _ _ _).next fun _ => ?_
  exact (endsIn_checkExt4 img mediaBytes _ _ _).last fun _ => .pure _

/-- **The gate ends** unless from some call on all are interrupted: it prints its report or
stops. -/
theorem main_ends (env : Env) (img : ℕ → UInt8) (argv : List String) {σ : ℕ → Pread}
    (hσ : GetsThrough σ) : ∃ m, (main env img argv (firstAnswers σ m)).fin ≠ .wait := by
  obtain ⟨m, hm⟩ := through_grows hσ enough
  exact ⟨m, (endsIn_main env img argv _ hm).1⟩

end Wallace.GptReads
