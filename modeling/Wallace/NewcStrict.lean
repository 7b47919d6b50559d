import Mathlib.Algebra.Order.Ring.Int
import Mathlib.Data.Int.ConditionallyCompleteOrder
import Mathlib.Data.List.Chain
import Mathlib.Data.List.DropRight
import Mathlib.Data.Set.BooleanAlgebra
import Mathlib.Order.CompletePartialOrder
import Mathlib.Order.ConditionallyCompleteLattice.Basic
import Mathlib.Order.Interval.Set.Basic
import Mathlib.Tactic.Common
import Wallace.NewcEntry

/-!
What `parse_newc` accepts.

`int` takes more than digits, and a slice may run past the end. An archive that is accepted is
well formed exactly if neither matters: each field that is read is eight digits, and the
trailer does not declare data beyond the end.
-/

namespace Wallace.NewcStrict

open Wallace.NewcModel Wallace.NewcEntry

/-! ### Numbers -/

/-- The blanks that `int` strips. -/
def isSpace (x : UInt8) : Bool := x = 32 ∨ (9 ≤ x ∧ x ≤ 13)

/-- Digits with single underscores between them. -/
def pyDigits (b : Bytes) : Option ℤ :=
  if (b.splitOn 95).all fun g => g ≠ [] ∧ g.all fun x => (hexVal x).isSome then
    some (hexFold 0 (b.filter (· ≠ 95)) : ℕ)
  else none

/-- After `0x` an underscore may stand before the digits. -/
def pyUnsigned : Bytes → Option ℤ
  | 48 :: x :: 95 :: b => if x = 120 ∨ x = 88 then pyDigits b else pyDigits (48 :: x :: 95 :: b)
  | 48 :: x :: b => if x = 120 ∨ x = 88 then pyDigits b else pyDigits (48 :: x :: b)
  | b => pyDigits b

/-- `int(b, 16)`. -/
def pyInt16 (b : Bytes) : Option ℤ :=
  match (b.dropWhile isSpace).rdropWhile isSpace with
  | 43 :: b => pyUnsigned b
  | 45 :: b => (pyUnsigned b).map (-·)
  | b => pyUnsigned b

/-! ### The entry at an offset -/

section Entry

variable (lenient : Bytes → Option ℤ) (blob : Bytes) (o : ℤ)

/-- The bytes of field `i`. -/
def fieldAt (i : ℕ) : Bytes := pySlice blob (o + 6 + i * 8) (o + 14 + i * 8)

/-- Its number. -/
def valueAt (i : ℕ) : ℤ := (int16 lenient (fieldAt blob o i)).getD 0

def sizeAt : ℤ := valueAt lenient blob o 6

def nameEnd : ℤ := o + 110 + valueAt lenient blob o 11

def dataStart : ℤ := aligned (nameEnd lenient blob o)

def dataEnd : ℤ := dataStart lenient blob o + sizeAt lenient blob o

/-- Where the next entry should start. -/
def nextAt : ℤ := aligned (dataEnd lenient blob o)

/-- Where the entry ends: with its data, or with its name if there are none. -/
def endAt : ℤ :=
  if sizeAt lenient blob o = 0 then nameEnd lenient blob o else dataEnd lenient blob o

/-- Each field of the header is eight hexadecimal digits. -/
def Digits : Prop :=
  ∀ i < 13, (fieldAt blob o i).length = 8 ∧ ∀ x ∈ fieldAt blob o i, (hexVal x).isSome = true

/-- The offsets that the loop comes to, with entries that pass their tests. -/
def visited : ℕ → ℤ → List Item → List ℤ
  | 0, _, _ => []
  | fuel + 1, offset, entries =>
    match parseEntry lenient blob offset with
    | .error _ => []
    | .ok (item, next) =>
      offset :: if item.1 = trailer ∨ item.1 ∈ entries.map Prod.fst then []
        else visited fuel next (entries ++ [item])

end Entry

/-- An archive in order: the entries at the offsets `os`, the trailer at the last of them. -/
structure WellFormed (lenient : Bytes → Option ℤ) (blob : Bytes) (os : List ℤ)
    (entries : List Item) : Prop where
  increasing : os.Pairwise (· < ·)
  inside : ∀ o ∈ os, 0 ≤ o ∧ o < endAt lenient blob o ∧ endAt lenient blob o ≤ blob.length
  disjoint : os.Pairwise fun o o' => Disjoint (Set.Ico o (endAt lenient blob o))
    (Set.Ico o' (endAt lenient blob o'))
  contiguous : os.IsChain fun o o' => endAt lenient blob o ≤ o' ∧ o' ≤ endAt lenient blob o + 3
  digits : ∀ o ∈ os, Digits blob o
  sizes : List.Forall₂ (fun o (item : Item) => (item.2.2.length : ℤ) = sizeAt lenient blob o)
    os.dropLast entries
  names : (entries.map Prod.fst).Nodup
  trailing : ∀ o, os.getLast? = some o → ∀ j : ℕ, nextAt lenient blob o ≤ j →
    ∀ x, blob[j]? = some x → x = 0

/-- Every field is eight digits, and the trailer ends inside the archive. -/
structure Strict (lenient : Bytes → Option ℤ) (blob : Bytes) (os : List ℤ) : Prop where
  digits : ∀ o ∈ os, Digits blob o
  last : ∀ o, os.getLast? = some o → endAt lenient blob o ≤ blob.length

/-! ### One turn -/

section Turn

variable {lenient : Bytes → Option ℤ} {blob : Bytes}

lemma mapM_ok {g : ℕ → Except Err ℤ} {ks : List ℕ} {l : List ℤ} (h : ks.mapM g = .ok l) :
    ∀ (j k : ℕ), ks[j]? = some k → g k = .ok (l.getD j 0) := by
  induction ks generalizing l with
  | nil => intro j k hk; cases hk
  | cons k ks ih =>
    rw [List.mapM_cons] at h
    cases hg : g k with
    | error e => rw [hg] at h; cases h
    | ok v =>
      cases hm : ks.mapM g with
      | error e => rw [hg, hm] at h; cases h
      | ok l' =>
        rw [hg, hm] at h
        cases h
        intro j k' hk'
        cases j with
        | zero =>
          cases hk'
          exact hg
        | succ j => exact ih hm j k' hk'

lemma orRaise_ok {α : Type} {e : Err} {x : Option α} {a : α} (h : orRaise e x = .ok a) :
    x = some a := by
  cases x with
  | none => cases h
  | some b => cases h; rfl

/-- What a turn has made sure of, and what it gives. -/
structure Turn (lenient : Bytes → Option ℤ) (blob : Bytes) (o : ℤ) (item : Item) (next : ℤ) :
    Prop where
  magic : pySlice blob o (o + 6) = magic
  nameSize : 1 ≤ valueAt lenient blob o 11
  nul : pyIndex blob (nameEnd lenient blob o - 1) = some 0
  data : item.2.2 = pySlice blob (dataStart lenient blob o) (dataEnd lenient blob o)
  next : next = nextAt lenient blob o

lemma turn_of_ok {o next : ℤ} {item : Item} (h : parseEntry lenient blob o = .ok (item, next)) :
    Turn lenient blob o item next := by
  unfold parseEntry at h
  by_cases hm : pySlice blob o (o + 6) = magic
  swap
  · simp only [hm, ne_eq, not_false_eq_true, if_true] at h
    cases h
  simp only [hm, ne_eq, not_true_eq_false, if_false] at h
  cases hf : (List.range 13).mapM fun (i : ℕ) => orRaise Err.badField
      (int16 lenient (pySlice blob (o + 6 + i * 8) (o + 14 + i * 8))) with
  | error e => simp only [hf, bind, Except.bind] at h; cases h
  | ok fields =>
    have hval : ∀ i < 13, fields.getD i 0 = valueAt lenient blob o i := by
      intro i hi
      have hi' := orRaise_ok (mapM_ok hf i i (by simp [hi]))
      rw [valueAt, fieldAt, hi']
      rfl
    have h6 := hval 6 (by decide)
    have h11 := hval 11 (by decide)
    simp only [hf, bind, Except.bind, pure, Except.pure] at h
    by_cases hn : fields.getD 11 0 < 1
    · simp only [hn, if_true] at h
      cases h
    simp only [hn, if_false] at h
    cases hz : pyIndex blob (o + 110 + fields.getD 11 0 - 1) with
    | none => simp only [hz, orRaise] at h; cases h
    | some last =>
      simp only [hz, orRaise] at h
      by_cases hl : last = 0
      swap
      · simp only [hl, not_false_eq_true, if_true] at h
        cases h
      simp only [hl, not_true_eq_false, if_false] at h
      cases hd : decode (pySlice blob (o + 110) (o + 110 + fields.getD 11 0 - 1)) with
      | none => simp only [hd] at h; cases h
      | some name =>
        simp only [hd] at h
        cases h
        rw [h11] at hn hz ⊢
        rw [h6]
        exact ⟨hm, by omega, by rw [nameEnd, hz, hl], rfl, rfl⟩

/-! ### Where a turn leads -/

lemma length_pySlice {a b : ℤ} (ha : 0 ≤ a) (hab : a ≤ b) (hb : b ≤ blob.length) :
    ((pySlice blob a b).length : ℤ) = b - a := by
  unfold pySlice clamp
  rw [if_neg (by omega), if_neg (by omega), List.length_drop, List.length_take]
  omega

lemma lt_of_pyIndex {i : ℤ} {x : UInt8} (hi : 0 ≤ i) (h : pyIndex blob i = some x) :
    i < blob.length := by
  unfold pyIndex at h
  simp only at h
  rw [if_neg (by omega), if_neg (by omega)] at h
  obtain ⟨hlt, -⟩ := List.getElem?_eq_some_iff.mp h
  omega

lemma mem_pySlice {a : ℤ} (ha : 0 ≤ a) {j : ℕ} (hj : a ≤ j) {x : UInt8} (hx : blob[j]? = some x) :
    x ∈ pySlice blob a blob.length := by
  obtain ⟨hlt, -⟩ := List.getElem?_eq_some_iff.mp hx
  have hclamp : clamp blob.length (blob.length : ℤ) = blob.length := by
    unfold clamp
    rw [if_neg (by omega)]
    omega
  have hclamp' : clamp blob.length a = a.toNat := by
    unfold clamp
    rw [if_neg (by omega)]
    omega
  rw [pySlice, hclamp, hclamp', List.take_length]
  refine List.mem_iff_getElem?.mpr ⟨j - a.toNat, ?_⟩
  rw [List.getElem?_drop, show a.toNat + (j - a.toNat) = j by omega]
  exact hx

/-- Digits are a number that is not negative, whatever `int` makes of other things. -/
lemma Digits.nonneg {o : ℤ} (h : Digits blob o) {i : ℕ} (hi : i < 13) :
    0 ≤ valueAt lenient blob o i := by
  obtain ⟨h8, hall⟩ := h i hi
  have hne : fieldAt blob o i ≠ [] := by
    intro he
    rw [he] at h8
    cases h8
  rw [valueAt, int16, if_pos ⟨hne, List.all_eq_true.mpr hall⟩]
  exact Int.natCast_nonneg _

/-- The order of the ends of an entry, from where it starts to where the next one should. -/
structure Layout (lenient : Bytes → Option ℤ) (blob : Bytes) (o : ℤ) : Prop where
  size : 0 ≤ sizeAt lenient blob o
  start : 0 ≤ dataStart lenient blob o
  name : nameEnd lenient blob o ≤ blob.length
  pos : o < endAt lenient blob o
  next : endAt lenient blob o ≤ nextAt lenient blob o ∧
    nextAt lenient blob o ≤ endAt lenient blob o + 3
  data : dataEnd lenient blob o ≤ nextAt lenient blob o

lemma Turn.layout {o next : ℤ} {item : Item} (h : Turn lenient blob o item next) (ho : 0 ≤ o)
    (hd : Digits blob o) : Layout lenient blob o := by
  have hsize : 0 ≤ sizeAt lenient blob o := hd.nonneg (by decide)
  have hname := h.nameSize
  have hnul := lt_of_pyIndex (by rw [nameEnd]; omega) h.nul
  have hend : o + 110 < nameEnd lenient blob o := by rw [nameEnd]; omega
  have hstart : dataStart lenient blob o = aligned (nameEnd lenient blob o) := rfl
  have hdata : dataEnd lenient blob o = dataStart lenient blob o + sizeAt lenient blob o := rfl
  have hnext : nextAt lenient blob o = aligned (dataEnd lenient blob o) := rfl
  unfold aligned at hstart hnext
  have hendAt : endAt lenient blob o =
      if sizeAt lenient blob o = 0 then nameEnd lenient blob o else dataEnd lenient blob o := rfl
  refine ⟨hsize, by omega, by omega, ?_, ?_, by omega⟩
  · split_ifs at hendAt <;> omega
  · split_ifs at hendAt <;> omega

end Turn

/-! ### The loop -/

section Loop

variable {lenient : Bytes → Option ℤ} {blob : Bytes}

lemma strict_tail {o : ℤ} {os : List ℤ} (hne : os ≠ []) (h : Strict lenient blob (o :: os)) :
    Strict lenient blob os where
  digits := fun o' ho' => h.digits o' (List.mem_cons_of_mem _ ho')
  last := by
    intro o' ho'
    refine h.last o' ?_
    obtain ⟨y, ys, rfl⟩ := List.exists_cons_of_ne_nil hne
    rwa [List.getLast?_cons_cons]

/-- Everything that follows starts where the next entry should, or later. -/
lemma WellFormed.ge {o : ℤ} {os : List ℤ} {entries : List Item}
    (h : WellFormed lenient blob (o :: os) entries) : ∀ o' ∈ o :: os, o ≤ o' := by
  intro o' ho'
  rcases List.mem_cons.mp ho' with rfl | ho'
  · exact le_refl _
  · exact le_of_lt ((List.pairwise_cons.mp h.increasing).1 o' ho')

/-- **An entry before a well-formed rest.** -/
lemma WellFormed.cons {o : ℤ} {os : List ℤ} {item : Item} {entries : List Item}
    (ht : Turn lenient blob o item (nextAt lenient blob o)) (ho : 0 ≤ o) (hd : Digits blob o)
    (h : WellFormed lenient blob (nextAt lenient blob o :: os) entries)
    (hnames : ((item :: entries).map Prod.fst).Nodup) :
    WellFormed lenient blob (o :: nextAt lenient blob o :: os) (item :: entries) := by
  obtain ⟨hsize, hstart, -, hpos, hnext, hdata⟩ := ht.layout ho hd
  have hin := h.inside (nextAt lenient blob o) (by simp)
  have hge := h.ge
  refine ⟨?_, ?_, ?_, ?_, ?_, ?_, hnames, ?_⟩
  · refine List.pairwise_cons.mpr ⟨fun o' ho' => ?_, h.increasing⟩
    have := hge o' ho'
    omega
  · intro o' ho'
    rcases List.mem_cons.mp ho' with rfl | ho'
    · exact ⟨ho, hpos, by omega⟩
    · exact h.inside o' ho'
  · refine List.pairwise_cons.mpr ⟨fun o' ho' => ?_, h.disjoint⟩
    rw [Set.disjoint_left]
    intro i hi hi'
    have := hge o' ho'
    have h1 := (Set.mem_Ico.mp hi).2
    have h2 := (Set.mem_Ico.mp hi').1
    omega
  · exact List.isChain_cons_cons.mpr ⟨hnext, h.contiguous⟩
  · intro o' ho'
    rcases List.mem_cons.mp ho' with rfl | ho'
    · exact hd
    · exact h.digits o' ho'
  · rw [List.dropLast_cons_cons]
    refine List.Forall₂.cons ?_ h.sizes
    -- the next header stands behind the data, so the slice was not cut
    have hend : dataEnd lenient blob o = dataStart lenient blob o + sizeAt lenient blob o := rfl
    rw [ht.data, length_pySlice hstart (by omega) (by omega), hend]
    omega
  · intro o' ho'
    rw [List.getLast?_cons_cons] at ho'
    exact h.trailing o' ho'

/-- The trailer alone. -/
lemma WellFormed.last {o : ℤ} {item : Item} {next : ℤ} (ht : Turn lenient blob o item next)
    (ho : 0 ≤ o) (hd : Digits blob o) (hend : endAt lenient blob o ≤ blob.length)
    (hz : ∀ x ∈ pySlice blob next blob.length, x = 0) : WellFormed lenient blob [o] [] := by
  have hl := ht.layout ho hd
  have hpos := hl.pos
  have hnext := hl.next.1
  refine ⟨List.pairwise_singleton .., ?_, List.pairwise_singleton .., List.isChain_singleton _, ?_,
    .nil, List.nodup_nil, ?_⟩
  · intro o' ho'
    rw [List.mem_singleton.mp ho']
    exact ⟨ho, hpos, hend⟩
  · intro o' ho'
    rw [List.mem_singleton.mp ho']
    exact hd
  · intro o' ho' j hj x hx
    obtain rfl : o = o' := Option.some.inj ho'
    refine hz x ?_
    rw [ht.next]
    exact mem_pySlice (by omega) hj hx

/-- A run that accepts has read a header. -/
lemma visited_ne_nil {fuel : ℕ} {o : ℤ} {acc res : List Item}
    (h : parseLoop lenient blob fuel o acc = some (.ok res)) :
    visited lenient blob fuel o acc ≠ [] := by
  cases fuel with
  | zero => cases h
  | succ fuel =>
    rw [parseLoop] at h
    rw [visited]
    cases hp : parseEntry lenient blob o with
    | error e => rw [hp] at h; cases h
    | ok r => simp

lemma nodup_concat {acc : List Item} {item : Item} (hacc : (acc.map Prod.fst).Nodup)
    (hnew : item.1 ∉ acc.map Prod.fst) : ((acc ++ [item]).map Prod.fst).Nodup := by
  rw [List.map_append]
  refine List.nodup_append.mpr ⟨hacc, by simp, fun x hx y hy he => ?_⟩
  rw [he, List.mem_singleton.mp hy] at hx
  exact hnew hx

/-- **The loop**: from an offset on, and with the items it has, an accepting run whose headers
are strict is well formed. -/
lemma loop_wellFormed {fuel : ℕ} {o : ℤ} {acc res : List Item}
    (h : parseLoop lenient blob fuel o acc = some (.ok res)) (ho : 0 ≤ o)
    (hacc : (acc.map Prod.fst).Nodup) (hs : Strict lenient blob (visited lenient blob fuel o acc)) :
    ∃ os items, visited lenient blob fuel o acc = o :: os ∧ res = acc ++ items ∧
      (res.map Prod.fst).Nodup ∧ WellFormed lenient blob (o :: os) items := by
  induction fuel generalizing o acc with
  | zero => cases h
  | succ fuel ih =>
    rw [parseLoop] at h
    rw [visited] at hs ⊢
    cases hp : parseEntry lenient blob o with
    | error e => rw [hp] at h; cases h
    | ok r =>
      obtain ⟨item, next⟩ := r
      have ht := turn_of_ok hp
      simp only [hp] at h hs ⊢
      have hd : Digits blob o := hs.digits o (List.mem_cons_self ..)
      have hnext := ht.next
      by_cases htr : item.1 = trailer
      · rw [if_pos (.inl htr)] at hs ⊢
        rw [if_pos htr] at h
        split_ifs at h with hz
        · cases h
        obtain rfl : acc = res := Except.ok.inj (Option.some.inj h)
        refine ⟨[], [], rfl, by simp, hacc, WellFormed.last ht ho hd (hs.last o rfl) fun x hx => ?_⟩
        by_contra hne
        exact hz (List.any_eq_true.mpr ⟨x, hx, by simpa using hne⟩)
      rw [if_neg htr] at h
      by_cases hdup : item.1 ∈ acc.map Prod.fst
      · rw [if_pos hdup] at h
        cases h
      rw [if_neg hdup] at h
      rw [if_neg (by tauto)] at hs ⊢
      subst hnext
      have hl := ht.layout ho hd
      have hge : 0 ≤ nextAt lenient blob o := by
        have := hl.pos
        have := hl.next.1
        omega
      obtain ⟨os, items, hvis, rfl, hnodup, hwf⟩ :=
        ih h hge (nodup_concat hacc hdup) (strict_tail (visited_ne_nil h) hs)
      rw [hvis]
      refine ⟨_, item :: items, rfl, by simp, hnodup, hwf.cons ht ho hd ?_⟩
      rw [List.append_assoc, List.map_append] at hnodup
      exact (List.nodup_append.mp hnodup).2.1

end Loop

/-- **What is accepted is well formed** exactly if every header that the loop reads has eight
digits in each of its fields and the trailer does not declare data beyond the end; this
whatever `int` makes of other texts. -/
theorem wellFormed_iff_strict (lenient : Bytes → Option ℤ) (fuel : ℕ) (blob : Bytes)
    (entries : List Item) (h : parseNewc lenient fuel blob = some (.ok entries)) :
    WellFormed lenient blob (visited lenient blob fuel 0 []) entries ↔
      Strict lenient blob (visited lenient blob fuel 0 []) := by
  constructor
  · intro hwf
    exact ⟨hwf.digits, fun o ho => (hwf.inside o (List.mem_of_getLast? ho)).2.2⟩
  · intro hs
    obtain ⟨os, items, hvis, rfl, -, hwf⟩ := loop_wellFormed h (by decide) List.nodup_nil hs
    rw [hvis]
    exact hwf

/-- The bytes of the trailer, with the text of its inode number. -/
def trailerEntry (inode : String) : Bytes :=
  magic ++ encode inode.toList ++ [0, 0, 0, 1, 0, 0, 0, 0, 0, 0, 11, 0].flatMap hex8 ++
    encode trailer ++ [0, 0, 0, 0]

/-- A header of digits has fields of digits. -/
lemma digits_of_header {blob : Bytes} {k : ℕ} (hlen : k + 110 ≤ blob.length)
    (h : ((blob.drop (k + 6)).take 104).all fun x => (hexVal x).isSome) : Digits blob k := by
  intro i hi
  have ha : clamp blob.length (k + 6 + i * 8) = k + 6 + 8 * i := by
    rw [clamp, if_neg (by omega)]
    omega
  have hb : clamp blob.length (k + 14 + i * 8) = k + 6 + 8 * i + 8 := by
    rw [clamp, if_neg (by omega)]
    omega
  have hfield : fieldAt blob k i = (((blob.drop (k + 6)).take 104).drop (8 * i)).take 8 := by
    rw [fieldAt, pySlice, ha, hb, List.drop_take, List.drop_take, List.take_take, List.drop_drop]
    congr 1
    omega
  rw [hfield]
  refine ⟨?_, fun x hx => ?_⟩
  · simp only [List.length_take, List.length_drop]
    omega
  · exact List.all_eq_true.mp h x (List.mem_of_mem_drop (List.mem_of_mem_take hx))

/-- A directory with two files, and zeros after the trailer. -/
def twoFiles : Bytes :=
  [(1, ".", 0o40755, []), (2, "./a", 0o100644, [104, 101, 108, 108, 111]),
    (3, "./b", 0o100755, [7]), (4, "TRAILER!!!", 0, [])].flatMap (fun f =>
      (writeEntry f.1 f.2.1.toList f.2.2.1 1 f.2.2.2 (0, 0)).getD []) ++ List.replicate 8 0

/-- The second file has a gap of three bytes before it and one after it. -/
theorem wellFormed_twoFiles :
    WellFormed pyInt16 twoFiles (visited pyInt16 twoFiles 4 0 [])
      [(".".toList, 0o40755, []), ("./a".toList, 0o100644, [104, 101, 108, 108, 111]),
        ("./b".toList, 0o100755, [7])] := by
  have hok : parseNewc pyInt16 4 twoFiles =
      some (.ok [(".".toList, 0o40755, []),
        ("./a".toList, 0o100644, [104, 101, 108, 108, 111]), ("./b".toList, 0o100755, [7])]) := by
    decide +kernel
  have hvis : visited pyInt16 twoFiles 4 0 [] = [0, 112, 236, 356] := by decide +kernel
  refine (wellFormed_iff_strict _ _ _ _ hok).mpr ⟨?_, ?_⟩
  · rw [hvis]
    have hheads : ∀ k ∈ [0, 112, 236, 356], k + 110 ≤ twoFiles.length ∧
        ((twoFiles.drop (k + 6)).take 104).all fun x => (hexVal x).isSome := by
      decide +kernel
    intro o ho
    obtain ⟨k, hk, rfl⟩ := List.mem_map.mp (show o ∈ [0, 112, 236, 356].map Nat.cast from ho)
    exact digits_of_header (hheads k hk).1 (hheads k hk).2
  · rw [hvis]
    intro o ho
    cases ho
    decide +kernel

/-- A field with a sign is accepted. -/
theorem not_wellFormed_of_sign :
    parseNewc pyInt16 1 (trailerEntry "+0000001") = some (.ok []) ∧
      ¬ WellFormed pyInt16 (trailerEntry "+0000001")
        (visited pyInt16 (trailerEntry "+0000001") 1 0 []) [] := by
  refine ⟨by decide +kernel, fun h => ?_⟩
  have hmem : (0 : ℤ) ∈ visited pyInt16 (trailerEntry "+0000001") 1 0 [] := by decide +kernel
  have hsign : ∃ x ∈ fieldAt (trailerEntry "+0000001") 0 0, (hexVal x).isSome ≠ true := by
    decide +kernel
  obtain ⟨x, hx, hnot⟩ := hsign
  exact hnot ((h.digits 0 hmem 0 (by decide)).2 x hx)

end Wallace.NewcStrict
