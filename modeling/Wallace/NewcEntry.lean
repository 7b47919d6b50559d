import Wallace.NewcModel

/-!
One entry of a newc archive, written and read back.

The writer pads an entry by the length of its own parts and the reader aligns offsets of the
whole archive; the two agree at an offset that is a multiple of 4, and the length of what is
written is a multiple of 4 again.
-/

namespace Wallace.NewcEntry

open Wallace.NewcModel

/-! ### Text -/

lemma decode_encode (s : Str) : decode (encode s) = some s := by
  have hv : (String.ofList s).toByteArray.IsValidUTF8 := (String.ofList s).isValidUTF8
  have h : (encode s).toByteArray = (String.ofList s).toByteArray := rfl
  unfold decode
  rw [h]
  simp only [String.fromUTF8?, hv, dite_true, Option.map_some, Option.some.injEq]
  exact String.toList_ofList

lemma encode_append (s s' : Str) : encode (s ++ s') = encode s ++ encode s' := by
  unfold encode
  rw [List.flatMap_append]

/-! ### Hexadecimal fields -/

/-- What `int` computes of digits. -/
def hexFold (n : ℕ) (b : Bytes) : ℕ := b.foldl (fun n x => 16 * n + (hexVal x).getD 0) n

/-- The digit `d` takes one byte, and its value is `d`. -/
lemma encode_digit (d : ℕ) (h : d < 16) :
    ∃ b, encode [Nat.digitChar d] = [b] ∧ hexVal b = some d := by
  have hall : ∀ d < 16, (encode [Nat.digitChar d]).length = 1 ∧
      hexVal ((encode [Nat.digitChar d]).getD 0 0) = some d := by
    decide
  obtain ⟨hlen, hval⟩ := hall d h
  obtain ⟨b, hb⟩ := List.length_eq_one_iff.mp hlen
  rw [hb] at hval
  exact ⟨b, hb, hval⟩

/-- Digits are read one after the other. -/
lemma hexFold_encode_digit (n d : ℕ) (h : d < 16) (b : Bytes) :
    hexFold n (b ++ encode [Nat.digitChar d]) = 16 * hexFold n b + d := by
  obtain ⟨x, hx, hv⟩ := encode_digit d h
  unfold hexFold
  rw [hx, List.foldl_append]
  simp [hv]

/-- The digits of a number: as many bytes, all of them digits, and their value the number. -/
lemma encode_toDigits (v : ℕ) :
    (encode (Nat.toDigits 16 v)).length = (Nat.toDigits 16 v).length ∧
      (∀ x ∈ encode (Nat.toDigits 16 v), (hexVal x).isSome = true) ∧
      hexFold 0 (encode (Nat.toDigits 16 v)) = v := by
  induction v using Nat.strongRecOn with
  | ind v ih =>
    rw [Nat.toDigits_eq_if (by decide)]
    split
    · rename_i h
      obtain ⟨x, hx, hv⟩ := encode_digit v h
      rw [hx]
      simp [hexFold, hv]
    · have hlt : v / 16 < v := by omega
      have hd : v % 16 < 16 := by omega
      obtain ⟨hlen, hall, hval⟩ := ih _ hlt
      obtain ⟨x, hx, hv⟩ := encode_digit (v % 16) hd
      refine ⟨?_, ?_, ?_⟩
      · rw [encode_append, hx, List.length_append, List.length_append, hlen]
        rfl
      · intro y hy
        rw [encode_append, hx] at hy
        rcases List.mem_append.mp hy with hy | hy
        · exact hall y hy
        · rw [List.mem_singleton.mp hy, hv]
          rfl
      · rw [encode_append, hexFold_encode_digit _ _ hd, hval]
        omega

lemma encode_zeros (k : ℕ) : encode (List.replicate k '0') = List.replicate k 48 := by
  induction k with
  | zero => rfl
  | succ k ih =>
    rw [List.replicate_succ, List.replicate_succ, ← ih]
    rfl

/-- A field below `2 ^ 32` takes eight bytes, and `int` reads it back. -/
lemma hex8_spec {v : ℕ} (h : v < 2 ^ 32) (lenient : Bytes → Option ℤ) :
    (hex8 v).length = 8 ∧ int16 lenient (hex8 v) = some (v : ℤ) := by
  obtain ⟨hlen, hall, hval⟩ := encode_toDigits v
  have h8 : (Nat.toDigits 16 v).length ≤ 8 := by
    rw [Nat.length_toDigits_le_iff (by decide) (by decide)]
    exact h
  have hfold : ∀ k, hexFold 0 (List.replicate k 48 ++ encode (Nat.toDigits 16 v)) = v := by
    intro k
    induction k with
    | zero => exact hval
    | succ k ih =>
      rw [List.replicate_succ, List.cons_append]
      exact ih
  have hlength : (hex8 v).length = 8 := by
    unfold hex8
    simp only
    rw [encode_append, encode_zeros, List.length_append, List.length_replicate, hlen]
    omega
  refine ⟨hlength, ?_⟩
  have hne : hex8 v ≠ [] := by
    intro hnil
    rw [hnil] at hlength
    cases hlength
  have hdigits : (hex8 v).all (fun x => (hexVal x).isSome) = true := by
    unfold hex8
    simp only
    rw [encode_append, encode_zeros, List.all_append, Bool.and_eq_true, List.all_eq_true,
      List.all_eq_true]
    refine ⟨fun x hx => ?_, hall⟩
    rw [List.eq_of_mem_replicate hx]
    rfl
  unfold int16
  rw [if_pos ⟨hne, hdigits⟩]
  have hv : hexFold 0 (hex8 v) = v := by
    unfold hex8
    simp only
    rw [encode_append, encode_zeros]
    exact hfold _
  unfold hexFold at hv
  rw [hv]

/-! ### Slices -/

/-- A slice between two positions is what stands between them. -/
lemma pySlice_of_eq {blob : Bytes} (pre mid post : Bytes) (h : blob = pre ++ mid ++ post)
    {a b : ℤ} (ha : a = pre.length) (hb : b = pre.length + mid.length) :
    pySlice blob a b = mid := by
  subst h
  have hla : clamp (pre ++ mid ++ post).length a = pre.length := by
    unfold clamp
    rw [if_neg (by omega), ha]
    simp
  have hlb : clamp (pre ++ mid ++ post).length b = (pre ++ mid).length := by
    unfold clamp
    rw [if_neg (by omega), hb]
    simp
    omega
  unfold pySlice
  rw [hla, hlb, List.take_left, List.drop_left]

lemma pyIndex_of_eq {blob : Bytes} (pre post : Bytes) {x : UInt8} (h : blob = pre ++ x :: post)
    {i : ℤ} (hi : i = pre.length) : pyIndex blob i = some x := by
  subst h
  unfold pyIndex
  simp only
  rw [if_neg (by omega), if_neg (by omega), hi]
  simp

/-- A loop of reads that all succeed gives the list of their results. -/
lemma mapM_range_ok {g : ℕ → Except Err ℤ} {l : List ℤ}
    (h : ∀ i < l.length, g i = .ok (l.getD i 0)) : (List.range l.length).mapM g = .ok l := by
  have hmap : ∀ ks : List ℕ, (∀ i ∈ ks, g i = .ok (l.getD i 0)) →
      ks.mapM g = .ok (ks.map fun i => l.getD i 0) := by
    intro ks
    induction ks with
    | nil => intro _; rfl
    | cons k ks ih =>
      intro hk
      rw [List.mapM_cons, hk k (by simp), ih fun i hi => hk i (by simp [hi])]
      rfl
  rw [hmap _ fun i hi => h i (List.mem_range.mp hi)]
  congr 1
  apply List.ext_getElem?
  intro i
  by_cases hi : i < l.length
  · simp [hi]
  · simp [hi]

/-! ### An entry -/

/-- The fields of the header. -/
def fieldsOf (inode : ℕ) (name : Str) (mode nlink : ℕ) (data : Bytes) (rdev : ℕ × ℕ) : List ℕ :=
  [inode, mode, 0, 0, nlink, 0, data.length, 0, 0, rdev.1, rdev.2, (encode name ++ [0]).length, 0]

/-- Every field of the header is below `2 ^ 32`. -/
def Fits (fields : List ℕ) : Prop := ∀ v ∈ fields, v < 2 ^ 32

lemma length_fields {l : List ℕ} (h : Fits l) : (l.flatMap hex8).length = 8 * l.length := by
  induction l with
  | nil => rfl
  | cons v l ih =>
    have hv := (hex8_spec (h v (by simp)) fun _ => none).1
    rw [List.flatMap_cons, List.length_append, hv, ih fun w hw => h w (by simp [hw]),
      List.length_cons]
    omega

/-- The header has the right length, and what is written is header, name and data, both of
the latter padded. -/
lemma writeEntry_eq {inode : ℕ} {name : Str} {mode nlink : ℕ} {data : Bytes} {rdev : ℕ × ℕ}
    (h : Fits (fieldsOf inode name mode nlink data rdev)) :
    writeEntry inode name mode nlink data rdev =
      some (magic ++ (fieldsOf inode name mode nlink data rdev).flatMap hex8 ++
        (encode name ++ [0]) ++ pad4 (110 + (encode name ++ [0]).length) ++ data ++
        pad4 data.length) := by
  have hlen : (magic ++ (fieldsOf inode name mode nlink data rdev).flatMap hex8).length = 110 := by
    rw [List.length_append, length_fields h]
    rfl
  have hw : writeEntry inode name mode nlink data rdev =
      if (magic ++ (fieldsOf inode name mode nlink data rdev).flatMap hex8).length ≠ 110 then none
      else some (magic ++ (fieldsOf inode name mode nlink data rdev).flatMap hex8 ++
        (encode name ++ [0]) ++
        pad4 ((magic ++ (fieldsOf inode name mode nlink data rdev).flatMap hex8).length +
          (encode name ++ [0]).length) ++ data ++ pad4 data.length) := rfl
  rw [hw, hlen, if_neg (by simp)]

/-- The reader finds the fields in a header at any offset. -/
lemma read_fields (lenient : Bytes → Option ℤ) {fields : List ℕ} (h : Fits fields)
    {blob : Bytes} (pre post : Bytes) (hb : blob = pre ++ (magic ++ fields.flatMap hex8) ++ post) :
    ((List.range fields.length).mapM fun (i : ℕ) => orRaise Err.badField
      (int16 lenient (pySlice blob ((pre.length : ℤ) + 6 + i * 8) (pre.length + 14 + i * 8)))) =
      .ok (fields.map Nat.cast) := by
  have hlen : (fields.map (Nat.cast : ℕ → ℤ)).length = fields.length := List.length_map _
  rw [← hlen]
  apply mapM_range_ok
  intro i hi
  rw [hlen] at hi
  obtain ⟨hhex, hint⟩ := hex8_spec (h (fields.getD i 0) (by simp [List.getD, hi])) lenient
  have hsplit : fields = fields.take i ++ fields.getD i 0 :: fields.drop (i + 1) := by
    simp [List.getD, hi]
  have htake : ((fields.take i).flatMap hex8).length = 8 * i := by
    rw [length_fields fun v hv => h v (List.mem_of_mem_take hv), List.length_take]
    omega
  have hslice : pySlice blob ((pre.length : ℤ) + 6 + i * 8) (pre.length + 14 + i * 8) =
      hex8 (fields.getD i 0) := by
    apply pySlice_of_eq (pre ++ (magic ++ (fields.take i).flatMap hex8)) _
      ((fields.drop (i + 1)).flatMap hex8 ++ post)
    · rw [hb]
      nth_rewrite 1 [hsplit]
      simp
    · have hm : magic.length = 6 := rfl
      simp only [List.length_append, htake, hm]
      push_cast
      omega
    · have hm : magic.length = 6 := rfl
      simp only [List.length_append, htake, hm, hhex]
      push_cast
      omega
  rw [hslice, hint]
  simp [orRaise, List.getD, hi]

/-- What the reader returns of an entry that passes its tests. -/
lemma parseEntry_ok (lenient : Bytes → Option ℤ) {blob : Bytes} (offset : ℤ) {fields : List ℤ}
    {name : Str} (hm : pySlice blob offset (offset + 6) = magic)
    (hf : ((List.range 13).mapM fun (i : ℕ) => orRaise Err.badField
      (int16 lenient (pySlice blob (offset + 6 + i * 8) (offset + 14 + i * 8)))) = .ok fields)
    (h1 : 1 ≤ fields.getD 11 0)
    (hz : pyIndex blob (offset + 110 + fields.getD 11 0 - 1) = some 0)
    (hn : decode (pySlice blob (offset + 110) (offset + 110 + fields.getD 11 0 - 1)) = some name) :
    parseEntry lenient blob offset =
      .ok ((name, fields.getD 1 0, pySlice blob (aligned (offset + 110 + fields.getD 11 0))
        (aligned (offset + 110 + fields.getD 11 0) + fields.getD 6 0)),
        aligned (aligned (offset + 110 + fields.getD 11 0) + fields.getD 6 0)) := by
  unfold parseEntry
  simp only [hm, ne_eq, not_true_eq_false, if_false, hf]
  have hlt : ¬fields.getD 11 0 < 1 := by omega
  simp only [bind, Except.bind, hlt, if_false, hz, hn, orRaise, not_true_eq_false]
  rfl

lemma length_pad4 (n : ℕ) : ((pad4 n).length : ℤ) = -(n : ℤ) % 4 := by
  unfold pad4
  rw [List.length_replicate]
  omega

section Layout

variable (pre enc p data q post : Bytes) {head : Bytes}

/-- The name of an entry, behind a header of 110 bytes. -/
lemma pySlice_name (hh : head.length = 110) :
    pySlice (pre ++ (head ++ (enc ++ [0]) ++ p ++ data ++ q) ++ post) ((pre.length : ℤ) + 110)
      (pre.length + 110 + (enc.length + 1) - 1) = enc := by
  apply pySlice_of_eq (pre ++ head) enc ([0] ++ p ++ data ++ q ++ post)
  · simp
  · rw [List.length_append, hh]
    push_cast
    omega
  · rw [List.length_append, hh]
    push_cast
    omega

/-- The zero that ends it. -/
lemma pyIndex_nul (hh : head.length = 110) :
    pyIndex (pre ++ (head ++ (enc ++ [0]) ++ p ++ data ++ q) ++ post)
      ((pre.length : ℤ) + 110 + (enc.length + 1) - 1) = some 0 := by
  apply pyIndex_of_eq (pre ++ head ++ enc) (p ++ data ++ q ++ post)
  · simp
  · rw [List.length_append, List.length_append, hh]
    push_cast
    omega

/-- The data, behind the padding of the name. -/
lemma pySlice_data (hh : head.length = 110) :
    pySlice (pre ++ (head ++ (enc ++ [0]) ++ p ++ data ++ q) ++ post)
      ((pre.length : ℤ) + 110 + (enc.length + 1) + p.length)
      (pre.length + 110 + (enc.length + 1) + p.length + data.length) = data := by
  apply pySlice_of_eq (pre ++ head ++ (enc ++ [0]) ++ p) data (q ++ post)
  · simp
  · simp only [List.length_append, List.length_singleton, hh]
    push_cast
    omega
  · simp only [List.length_append, List.length_singleton, hh]
    push_cast
    omega

end Layout

/-- **An entry is read back**, at an offset that is a multiple of 4, and its length is one. -/
theorem parseEntry_written (lenient : Bytes → Option ℤ) {inode : ℕ} {name : Str}
    {mode nlink : ℕ} {data : Bytes} {rdev : ℕ × ℕ}
    (h : Fits (fieldsOf inode name mode nlink data rdev)) {e : Bytes}
    (he : writeEntry inode name mode nlink data rdev = some e) (pre post : Bytes)
    (h4 : pre.length % 4 = 0) :
    parseEntry lenient (pre ++ e ++ post) pre.length =
        .ok ((name, (mode : ℤ), data), ((pre ++ e).length : ℤ)) ∧
      e.length % 4 = 0 := by
  rw [writeEntry_eq h] at he
  cases he
  have hm : magic.length = 6 := rfl
  have hfl := length_fields h
  have h13 : (fieldsOf inode name mode nlink data rdev).length = 13 := rfl
  have hname : ((fieldsOf inode name mode nlink data rdev).map (Nat.cast : ℕ → ℤ)).getD 11 0 =
      (encode name).length + 1 := by
    simp [fieldsOf]
  have hmode : ((fieldsOf inode name mode nlink data rdev).map (Nat.cast : ℕ → ℤ)).getD 1 0 =
      mode := rfl
  have hsize : ((fieldsOf inode name mode nlink data rdev).map (Nat.cast : ℕ → ℤ)).getD 6 0 =
      data.length := rfl
  rw [h13] at hfl
  have hhead : (magic ++ (fieldsOf inode name mode nlink data rdev).flatMap hex8).length = 110 := by
    rw [List.length_append, hm, hfl]
  generalize hfs : fieldsOf inode name mode nlink data rdev = fields at *
  generalize henc : encode name = enc at *
  have hp := length_pad4 (110 + (enc ++ [0]).length)
  have hq := length_pad4 data.length
  generalize hpad : pad4 (110 + (enc ++ [0]).length) = p at *
  generalize hpad' : pad4 data.length = q at *
  rw [List.length_append, List.length_singleton] at hp
  push_cast at hp
  set blob := pre ++ (magic ++ fields.flatMap hex8 ++ (enc ++ [0]) ++ p ++ data ++ q) ++ post
    with hblob
  have hheader : blob = pre ++ (magic ++ fields.flatMap hex8) ++
      ((enc ++ [0]) ++ p ++ data ++ q ++ post) := by
    simp [hblob]
  have hread := read_fields lenient h pre _ hheader
  rw [h13] at hread
  have hmagic : pySlice blob pre.length (pre.length + 6) = magic :=
    pySlice_of_eq pre magic (fields.flatMap hex8 ++ (enc ++ [0]) ++ p ++ data ++ q ++ post)
      (by simp [hblob]) rfl (by simp [hm])
  have hdec : decode (pySlice blob ((pre.length : ℤ) + 110)
      (pre.length + 110 + (enc.length + 1) - 1)) = some name := by
    rw [pySlice_name pre enc p data q post hhead, ← henc, decode_encode]
  have hstart : aligned ((pre.length : ℤ) + 110 + (enc.length + 1)) =
      pre.length + 110 + (enc.length + 1) + p.length := by
    unfold aligned
    omega
  have hend : aligned ((pre.length : ℤ) + 110 + (enc.length + 1) + p.length + data.length) =
      pre.length + 110 + (enc.length + 1) + p.length + data.length + q.length := by
    unfold aligned
    omega
  constructor
  · have hok := parseEntry_ok lenient pre.length hmagic hread (by rw [hname]; omega)
      (by rw [hname]; exact pyIndex_nul pre enc p data q post hhead) (by rw [hname]; exact hdec)
    rw [hok, hname, hmode, hsize, hstart, pySlice_data pre enc p data q post hhead, hend]
    simp only [List.length_append, List.length_singleton, hm, hfl]
    push_cast
    congr 2
    omega
  · simp only [List.length_append, List.length_singleton, hm, hfl]
    omega

end Wallace.NewcEntry
