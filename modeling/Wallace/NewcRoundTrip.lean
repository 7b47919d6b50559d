import Mathlib.Data.List.Nodup
import Wallace.NewcEntry

/-!
The archive of a directory tree, read back.

The reader is followed through the archive entry by entry, with the items read so far; the
names are different from each other because the paths of a tree are, and none is the trailer
because each begins with a dot.
-/

namespace Wallace.NewcRoundTrip

open Wallace.NewcModel Wallace.NewcEntry

/-! ### The paths of a tree -/

/-- What is known of a list of paths below a directory. -/
structure PathsOk (l : List (List Str × Node)) : Prop where
  nodup : (l.map Prod.fst).Nodup
  parts : ∀ q ∈ l, q.1 ≠ [] ∧ ∀ x ∈ q.1, nameOk x = true

/-- Prefixing a name keeps what is known. -/
lemma PathsOk.under {l : List (List Str × Node)} (h : PathsOk l) {name : Str}
    (hn : nameOk name = true) : PathsOk (l.map fun q => (name :: q.1, q.2)) := by
  refine ⟨?_, fun q hq => ?_⟩
  · rw [List.map_map]
    have hmap : (Prod.fst ∘ fun q : List Str × Node => (name :: q.1, q.2)) =
        (name :: ·) ∘ Prod.fst := rfl
    rw [hmap, ← List.map_map]
    exact List.Nodup.map (fun a b e => (List.cons.inj e).2) h.nodup
  · obtain ⟨r, hr, rfl⟩ := List.mem_map.mp hq
    refine ⟨by simp, fun x hx => ?_⟩
    rcases List.mem_cons.mp hx with rfl | hx
    · exact hn
    · exact (h.parts r hr).2 x hx

mutual
/-- The paths of a directory are different, and begin with the names of its entries. -/
theorem forest_paths : ∀ f : Forest, f.named = true →
    PathsOk f.paths ∧ ∀ q ∈ f.paths, ∃ x tl, q.1 = x :: tl ∧ x ∈ f.names
  | .nil, _ => ⟨⟨List.nodup_nil, by simp [Forest.paths]⟩, by simp [Forest.paths]⟩
  | .cons name node rest, h => by
    simp only [Forest.named, Bool.and_eq_true, Bool.not_eq_true', List.contains_eq_mem,
      decide_eq_false_iff_not] at h
    obtain ⟨⟨⟨hname, hnew⟩, hnode⟩, hrest⟩ := h
    obtain ⟨hr, hheads⟩ := forest_paths rest hrest
    have hb := (node_descendants node hnode).under hname
    have hbelow := (node_descendants node hnode).parts
    have hother : ∀ q ∈ rest.paths, ∀ tl, q.1 ≠ name :: tl := by
      intro q hq tl e
      obtain ⟨x, tl', hx, hmem⟩ := hheads q hq
      rw [e] at hx
      exact hnew ((List.cons.inj hx).1 ▸ hmem)
    simp only [Forest.paths]
    refine ⟨⟨?_, fun q hq => ?_⟩, fun q hq => ?_⟩
    · rw [List.map_append, List.map_cons]
      refine List.nodup_append.mpr ⟨List.nodup_cons.mpr ⟨fun hm => ?_, hb.nodup⟩, hr.nodup, ?_⟩
      · obtain ⟨q, hq, e⟩ := List.mem_map.mp hm
        obtain ⟨r, hr, rfl⟩ := List.mem_map.mp hq
        exact (hbelow r hr).1 (List.cons.inj e).2
      · intro p hp q hq e
        obtain ⟨u, hu, rfl⟩ := List.mem_map.mp hq
        rcases List.mem_cons.mp hp with rfl | hp
        · exact hother u hu _ e.symm
        · obtain ⟨v, hv, rfl⟩ := List.mem_map.mp hp
          obtain ⟨w, hw, rfl⟩ := List.mem_map.mp hv
          exact hother u hu _ e.symm
    · rcases List.mem_append.mp hq with hq | hq
      · rcases List.mem_cons.mp hq with rfl | hq
        · simpa using hname
        · exact hb.parts q hq
      · exact hr.parts q hq
    · rcases List.mem_append.mp hq with hq | hq
      · rcases List.mem_cons.mp hq with rfl | hq
        · exact ⟨name, [], rfl, by simp [Forest.names]⟩
        · obtain ⟨r, -, rfl⟩ := List.mem_map.mp hq
          exact ⟨name, r.1, rfl, by simp [Forest.names]⟩
      · obtain ⟨x, tl, e, hx⟩ := hheads q hq
        exact ⟨x, tl, e, by simp [Forest.names, hx]⟩

theorem node_descendants : ∀ n : Node, n.named = true → PathsOk n.descendants
  | .leaf _ _, _ => ⟨List.nodup_nil, by simp [Node.descendants]⟩
  | .dir _ entries, h => by
    simp only [Node.named, Bool.and_eq_true] at h
    exact (forest_paths entries h.2).1
end

/-- A file of one of the archived types is no directory. -/
lemma not_isDir_of_leaf {st : Stat} {content : Bytes}
    (h : (Node.leaf st content).wellFormed = true) : isDir st.mode = false := by
  simp only [Node.wellFormed, isReg, isLnk, isChr, isBlk, isFifo, Bool.or_eq_true,
    decide_eq_true_eq] at h
  simp only [isDir, decide_eq_false_iff_not]
  omega

mutual
lemma forest_named : ∀ f : Forest, f.wellFormed = true → f.named = true
  | .nil, _ => rfl
  | .cons name node rest, h => by
    simp only [Forest.wellFormed, Bool.and_eq_true] at h
    simp only [Forest.named, Bool.and_eq_true]
    exact ⟨⟨h.1.1, node_named node h.1.2⟩, forest_named rest h.2⟩

lemma node_named : ∀ n : Node, n.wellFormed = true → n.named = true
  | .leaf _ _, h => by rw [Node.named, not_isDir_of_leaf h]; rfl
  | .dir _ entries, h => by
    simp only [Node.wellFormed, Bool.and_eq_true] at h
    simp only [Node.named, Bool.and_eq_true]
    exact ⟨h.1, forest_named entries h.2⟩
end

mutual
/-- Everything in a tree is of one of the archived types. -/
lemma forest_wellFormed : ∀ f : Forest, f.wellFormed = true →
    ∀ q ∈ f.paths, q.2.wellFormed = true
  | .nil, _ => by simp [Forest.paths]
  | .cons name node rest, h => by
    simp only [Forest.wellFormed, Bool.and_eq_true] at h
    intro q hq
    simp only [Forest.paths] at hq
    rcases List.mem_append.mp hq with hq | hq
    · rcases List.mem_cons.mp hq with rfl | hq
      · exact h.1.2
      · obtain ⟨r, hr, rfl⟩ := List.mem_map.mp hq
        exact node_wellFormed node h.1.2 r hr
    · exact forest_wellFormed rest h.2 q hq

lemma node_wellFormed : ∀ n : Node, n.wellFormed = true →
    ∀ q ∈ n.descendants, q.2.wellFormed = true
  | .leaf _ _, _ => by simp [Node.descendants]
  | .dir _ entries, h => by
    simp only [Node.wellFormed, Bool.and_eq_true] at h
    exact forest_wellFormed entries h.2
end

/-- Different paths have different names. -/
lemma asPosix_injective {p q : List Str} (hp : p ≠ [] ∧ ∀ x ∈ p, nameOk x = true)
    (hq : q ≠ [] ∧ ∀ x ∈ q, nameOk x = true) (h : asPosix p = asPosix q) : p = q := by
  have hslash : ∀ l : List Str, (∀ x ∈ l, nameOk x = true) → ∀ x ∈ l, '/' ∉ x := by
    intro l hl x hx
    have := hl x hx
    simp only [nameOk, decide_eq_true_eq] at this
    exact this.2.1
  have hs := congrArg (List.splitOn '/') h
  unfold asPosix at hs
  rwa [List.splitOn_intercalate '/' (hslash p hp.2) hp.1,
    List.splitOn_intercalate '/' (hslash q hq.2) hq.1] at hs

/-! ### The archive -/

/-- The data of a tree's file: its contents, its link target, or nothing. -/
def dataOf (n : Node) : Bytes := if isReg n.stat.mode || isLnk n.stat.mode then n.content else []

/-- The item of the dictionary that a file stands for. -/
def itemOf (f : Str × Node) : Item := (f.1, (f.2.stat.mode : ℤ), dataOf f.2)

/-- Every field of the archive is below `2 ^ 32`. -/
structure FieldsFit (files : List (Str × Node)) : Prop where
  count : files.length + 1 < 2 ^ 32
  mode : ∀ f ∈ files, f.2.stat.mode < 2 ^ 32
  size : ∀ f ∈ files, (dataOf f.2).length < 2 ^ 32
  rdev : ∀ f ∈ files, f.2.stat.major < 2 ^ 32 ∧ f.2.stat.minor < 2 ^ 32
  name : ∀ f ∈ files, (encode f.1).length + 1 < 2 ^ 32

/-- `main` has a branch for every file of a tree. -/
lemma entryOf_wellFormed {n : Node} (h : n.wellFormed = true) :
    ∃ nlink rdev, entryOf n = some (dataOf n, nlink, rdev) ∧ nlink ≤ 2 ∧
      rdev.1 ≤ n.stat.major ∧ rdev.2 ≤ n.stat.minor := by
  have hrdev : ∀ c : Bool, (if c then (n.stat.major, n.stat.minor) else (0, 0)).1 ≤ n.stat.major ∧
      (if c then (n.stat.major, n.stat.minor) else (0, 0)).2 ≤ n.stat.minor := by
    intro c
    cases c <;> simp
  have hle := hrdev (isChr n.stat.mode || isBlk n.stat.mode)
  unfold entryOf dataOf
  simp only
  generalize (if isChr n.stat.mode || isBlk n.stat.mode then (n.stat.major, n.stat.minor)
    else (0, 0)) = rdev at hle ⊢
  by_cases hreg : isReg n.stat.mode = true
  · exact ⟨1, rdev, by simp [hreg], by omega, hle⟩
  by_cases hlnk : isLnk n.stat.mode = true
  · exact ⟨1, rdev, by simp [hreg, hlnk], by omega, hle⟩
  by_cases hdir : isDir n.stat.mode = true
  · exact ⟨2, rdev, by simp [hreg, hlnk, hdir], by omega, hle⟩
  · have hother : (isChr n.stat.mode || isBlk n.stat.mode || isFifo n.stat.mode) = true := by
      cases n with
      | leaf st content =>
        simp only [Node.wellFormed, Node.stat, Bool.or_eq_true] at h hreg hlnk ⊢
        tauto
      | dir st entries =>
        simp only [Node.wellFormed, Bool.and_eq_true] at h
        exact absurd h.1 hdir
    exact ⟨1, rdev, by simp only [hreg, hlnk, hdir, hother, if_false, if_true, Bool.or_self,
      Bool.false_eq_true], by omega, hle⟩

/-- The files that are still to be archived. -/
structure Todo (inode : ℕ) (files : List (Str × Node)) : Prop where
  count : inode + files.length < 2 ^ 32
  wellFormed : ∀ f ∈ files, f.2.wellFormed = true
  mode : ∀ f ∈ files, f.2.stat.mode < 2 ^ 32
  size : ∀ f ∈ files, (dataOf f.2).length < 2 ^ 32
  rdev : ∀ f ∈ files, f.2.stat.major < 2 ^ 32 ∧ f.2.stat.minor < 2 ^ 32
  name : ∀ f ∈ files, (encode f.1).length + 1 < 2 ^ 32
  dot : ∀ f ∈ files, f.1 ≠ trailer

lemma Todo.tail {inode : ℕ} {f : Str × Node} {files : List (Str × Node)}
    (h : Todo inode (f :: files)) : Todo (inode + 1) files where
  count := by
    have := h.count
    rw [List.length_cons] at this
    omega
  wellFormed := fun g hg => h.wellFormed g (by simp [hg])
  mode := fun g hg => h.mode g (by simp [hg])
  size := fun g hg => h.size g (by simp [hg])
  rdev := fun g hg => h.rdev g (by simp [hg])
  name := fun g hg => h.name g (by simp [hg])
  dot := fun g hg => h.dot g (by simp [hg])

/-- The fields of the first of them fit. -/
lemma Todo.fits {inode : ℕ} {f : Str × Node} {files : List (Str × Node)}
    (h : Todo inode (f :: files)) {nlink : ℕ} {rdev : ℕ × ℕ} (hn : nlink ≤ 2)
    (hmaj : rdev.1 ≤ f.2.stat.major) (hmin : rdev.2 ≤ f.2.stat.minor) :
    Fits (fieldsOf inode f.1 f.2.stat.mode nlink (dataOf f.2) rdev) := by
  have hcount := h.count
  have hmode := h.mode f (by simp)
  have hsize := h.size f (by simp)
  have hrdev := h.rdev f (by simp)
  have hname := h.name f (by simp)
  rw [List.length_cons] at hcount
  intro v hv
  simp only [fieldsOf, List.mem_cons, List.length_append, List.length_singleton,
    List.not_mem_nil, or_false] at hv
  omega

lemma fits_trailer (inode : ℕ) (h : inode < 2 ^ 32) :
    Fits (fieldsOf inode trailer 0 1 [] (0, 0)) := by
  have hlen : (encode trailer ++ [0]).length = 11 := by decide
  intro v hv
  simp only [fieldsOf, hlen, List.mem_cons, List.length_nil, List.not_mem_nil, or_false] at hv
  omega

/-- The archive from some file on, and the reader on it: the parts of the archive begin with
the magic and their lengths are multiples of 4, and the reader adds the files to the items it
has. -/
lemma writeAll_read (lenient : Bytes → Option ℤ) {inode : ℕ} {files : List (Str × Node)}
    (h : Todo inode files) :
    ∃ parts : List Bytes, writeAll inode files = some parts.flatten ∧
      parts.length = files.length + 1 ∧ (∀ p ∈ parts, magic <+: p ∧ p.length % 4 = 0) ∧
      ∀ (pre : Bytes) (acc : List Item) (fuel : ℕ), pre.length % 4 = 0 →
        (acc.map Prod.fst ++ files.map Prod.fst).Nodup → files.length < fuel →
        parseLoop lenient (pre ++ parts.flatten) fuel pre.length acc =
          some (.ok (acc ++ files.map itemOf)) := by
  induction files generalizing inode with
  | nil =>
    have hfit := fits_trailer inode (by have := h.count; simpa using this)
    obtain ⟨e, he⟩ : ∃ e, writeEntry inode trailer 0 1 [] (0, 0) = some e :=
      ⟨_, writeEntry_eq hfit⟩
    have hmagic : magic <+: e := by
      rw [writeEntry_eq hfit] at he
      cases he
      simp only [List.append_assoc]
      exact List.prefix_append _ _
    refine ⟨[e], by simp [writeAll, he], rfl, fun p hp => ?_, fun pre acc fuel h4 _ hf => ?_⟩
    · rw [List.mem_singleton.mp hp]
      exact ⟨hmagic, (parseEntry_written lenient hfit he [] [] rfl).2⟩
    · obtain ⟨k, rfl⟩ : ∃ k, fuel = k + 1 := ⟨fuel - 1, by simp only [List.length_nil] at hf; omega⟩
      have hp := (parseEntry_written lenient hfit he pre [] h4).1
      rw [List.append_nil] at hp
      have hrest : pySlice (pre ++ e) ((pre ++ e).length : ℤ) (pre ++ e).length = [] :=
        pySlice_of_eq (pre ++ e) [] [] (by simp) rfl (by simp)
      simp only [parseLoop, List.flatten_cons, List.flatten_nil, List.append_nil, hp, if_true,
        hrest, List.map_nil]
      rfl
  | cons f files ih =>
    obtain ⟨nlink, rdev, hentry, hn, hmaj, hmin⟩ := entryOf_wellFormed (h.wellFormed f (by simp))
    have hfit := h.fits hn hmaj hmin
    obtain ⟨e, he⟩ : ∃ e, writeEntry inode f.1 f.2.stat.mode nlink (dataOf f.2) rdev = some e :=
      ⟨_, writeEntry_eq hfit⟩
    have hmagic : magic <+: e := by
      rw [writeEntry_eq hfit] at he
      cases he
      simp only [List.append_assoc]
      exact List.prefix_append _ _
    obtain ⟨parts, hw, hlen, hparts, hread⟩ := ih h.tail
    have hmod : e.length % 4 = 0 := (parseEntry_written lenient hfit he [] [] rfl).2
    refine ⟨e :: parts, ?_, by simp [hlen], fun p hp => ?_, fun pre acc fuel h4 hnd hf => ?_⟩
    · simp [writeAll, hentry, he, hw]
    · rcases List.mem_cons.mp hp with rfl | hp
      · exact ⟨hmagic, hmod⟩
      · exact hparts p hp
    · obtain ⟨k, rfl⟩ : ∃ k, fuel = k + 1 := ⟨fuel - 1, by rw [List.length_cons] at hf; omega⟩
      have hp := (parseEntry_written lenient hfit he pre parts.flatten h4).1
      have hnew : f.1 ∉ acc.map Prod.fst := by
        intro hm
        exact (List.nodup_append.mp hnd).2.2 f.1 hm f.1 (by simp) rfl
      have hnext := hread (pre ++ e) (acc ++ [itemOf f]) k
        (by rw [List.length_append]; omega)
        (by simpa [itemOf, List.append_assoc] using hnd) (by rw [List.length_cons] at hf; omega)
      rw [List.flatten_cons, ← List.append_assoc, parseLoop, hp]
      simp only [h.dot f (by simp), if_false, hnew]
      rw [show (f.1, (f.2.stat.mode : ℤ), dataOf f.2) = itemOf f from rfl, hnext]
      simp

/-! ### Every tree -/

/-- The dictionary that stands for a tree: `.` and `./p` for each path. -/
def dictionary (t : Tree) : List Item :=
  (['.'], (t.stat.mode : ℤ), []) ::
    t.entries.paths.map fun p => ('.' :: '/' :: asPosix p.1, (p.2.stat.mode : ℤ), dataOf p.2)

/-- The items of the archived paths are those of the dictionary, in another order. -/
lemma items_perm (t : Tree) : ((archivePaths t).map itemOf).Perm (dictionary t) := by
  have hroot : dataOf (.dir t.stat t.entries) = [] := by simp [dataOf, Node.content]
  unfold archivePaths dictionary
  rw [List.map_cons, List.map_map]
  simp only [itemOf, hroot]
  exact List.Perm.cons _ ((List.mergeSort_perm _ _).map _)

/-- Its names are different. -/
lemma nodup_dictionary (t : Tree) : ((dictionary t).map Prod.fst).Nodup := by
  obtain ⟨hpaths, -⟩ := forest_paths t.entries (forest_named _ t.ok)
  unfold dictionary
  rw [List.map_cons, List.map_map]
  refine List.nodup_cons.mpr ⟨fun hm => ?_, ?_⟩
  · obtain ⟨p, -, e⟩ := List.mem_map.mp hm
    cases e
  · have hmap : (t.entries.paths.map (Prod.fst ∘ fun p =>
        (('.' :: '/' :: asPosix p.1, (p.2.stat.mode : ℤ), dataOf p.2) : Item))) =
        (t.entries.paths.map Prod.fst).map fun p => '.' :: '/' :: asPosix p := by
      rw [List.map_map]
      rfl
    rw [hmap]
    refine List.Nodup.map_on (fun p hp q hq e => ?_) hpaths.nodup
    obtain ⟨u, hu, rfl⟩ := List.mem_map.mp hp
    obtain ⟨v, hv, rfl⟩ := List.mem_map.mp hq
    exact asPosix_injective (hpaths.parts u hu) (hpaths.parts v hv)
      (List.cons.inj (List.cons.inj e).2).2

/-- A name that begins with a dot is not taken for the trailer. -/
lemma dot_ne_trailer (s : Str) : '.' :: s ≠ trailer := by
  intro e
  have h := congrArg List.head? e
  rw [show trailer.head? = some 'T' by decide] at h
  cases h

lemma mem_archivePaths {t : Tree} {f : Str × Node} (h : f ∈ archivePaths t) :
    f.2.wellFormed = true ∧ f.1 ≠ trailer := by
  unfold archivePaths at h
  rcases List.mem_cons.mp h with rfl | h
  · refine ⟨?_, dot_ne_trailer _⟩
    simp [Node.wellFormed, t.isDir, t.ok]
  · obtain ⟨p, hp, rfl⟩ := List.mem_map.mp h
    exact ⟨forest_wellFormed _ t.ok p (List.mem_mergeSort.mp hp), dot_ne_trailer _⟩

/-- **The round trip**: the archive of a tree is written, in parts that begin with a header
and at a multiple of 4, and the reader, in one turn for each part, returns without an error
exactly the dictionary of the tree, with no name twice. -/
theorem newc_round_trip (lenient : Bytes → Option ℤ) (t : Tree)
    (h : FieldsFit (archivePaths t)) :
    ∃ (parts : List Bytes) (entries : List Item),
      archive t = some parts.flatten ∧ parts.length = entries.length + 1 ∧
      (∀ p ∈ parts, magic <+: p ∧ p.length % 4 = 0) ∧
      (∀ fuel, parts.length ≤ fuel →
        parseNewc lenient fuel parts.flatten = some (.ok entries)) ∧
      entries.Perm (dictionary t) ∧ (entries.map Prod.fst).Nodup := by
  have htodo : Todo 1 (archivePaths t) :=
    ⟨by have := h.count; omega, fun f hf => (mem_archivePaths hf).1, h.mode, h.size, h.rdev, h.name,
      fun f hf => (mem_archivePaths hf).2⟩
  obtain ⟨parts, hw, hlen, hparts, hread⟩ := writeAll_read lenient htodo
  have hperm := items_perm t
  have hnodup : (((archivePaths t).map itemOf).map Prod.fst).Nodup :=
    (hperm.map Prod.fst).nodup_iff.mpr (nodup_dictionary t)
  refine ⟨parts, (archivePaths t).map itemOf, hw, by simp [hlen], hparts, fun fuel hf => ?_, hperm,
    hnodup⟩
  have hnames : ((archivePaths t).map itemOf).map Prod.fst = (archivePaths t).map Prod.fst := by
    rw [List.map_map]
    rfl
  rw [hnames] at hnodup
  have := hread [] [] fuel rfl (by simpa using hnodup) (by omega)
  simpa [parseNewc] using this

/-- The order of the files does not matter to their fields. -/
lemma FieldsFit.perm {l l' : List (Str × Node)} (h : FieldsFit l) (hp : l.Perm l') :
    FieldsFit l' where
  count := hp.length_eq ▸ h.count
  mode := fun f hf => h.mode f (hp.mem_iff.mpr hf)
  size := fun f hf => h.size f (hp.mem_iff.mpr hf)
  rdev := fun f hf => h.rdev f (hp.mem_iff.mpr hf)
  name := fun f hf => h.name f (hp.mem_iff.mpr hf)

/-- A file that is named like the trailer, and a directory with a device node in it. -/
def smallTree : Tree where
  stat := { mode := 0o40755 }
  entries :=
    .cons "dev".toList (.dir { mode := 0o40755 }
      (.cons "console".toList (.leaf { mode := 0o20600, major := 5, minor := 1 } []) .nil))
      (.cons "TRAILER!!!".toList (.leaf { mode := 0o100644 } [104, 105]) .nil)
  isDir := by decide
  ok := by decide

/-- Its archive is read back. -/
theorem newc_round_trip_small : FieldsFit (archivePaths smallTree) ∧
    ∃ (parts : List Bytes) (entries : List Item), archive smallTree = some parts.flatten ∧
      (∀ fuel, parts.length ≤ fuel →
        parseNewc (fun _ => none) fuel parts.flatten = some (.ok entries)) ∧
      entries.Perm (dictionary smallTree) := by
  have hfit : FieldsFit ((['.'], .dir smallTree.stat smallTree.entries) ::
      smallTree.entries.paths.map fun p => ('.' :: '/' :: asPosix p.1, p.2)) :=
    ⟨by decide, by decide, by decide, by decide, by decide⟩
  have hfields : FieldsFit (archivePaths smallTree) :=
    hfit.perm (List.Perm.cons _ ((List.mergeSort_perm _ _).symm.map _))
  obtain ⟨parts, entries, hw, -, -, hread, hperm, -⟩ :=
    newc_round_trip (fun _ => none) smallTree hfields
  exact ⟨hfields, parts, entries, hw, hread, hperm⟩

end Wallace.NewcRoundTrip
