import Mathlib.Algebra.Order.Ring.Int
import Mathlib.Data.List.Nodup
import Mathlib.Tactic.Ring

/-!
How the NVMe driver describes the memory of a request to the controller: `apple_nvme_map_data`,
`apple_nvme_setup_prps` and `apple_nvme_setup_prp_simple`, and how it takes the description down,
`apple_nvme_unmap_data` and `apple_nvme_free_prps`.

The controller reads pages. It is told the first one, and the second one if that is all, or else
where a list of pages begins. A list that does not fit in a page goes on in another, whose address
is the last entry of the first. What the controller makes of this is stated on its own; the driver
is as in the source, with the lists in the order in which `iod_list` has them. An entry is the
place in `entries` where it was written, so that `i` is how many there are.
-/

namespace Wallace.NvmePrp

/-- `NVME_CTRL_PAGE_SIZE`. -/
def pageSize : ℕ := 4096

/-- `NVME_CTRL_PAGE_SIZE >> 3`. -/
def perPage : ℕ := 512

/-- `NVME_CTRL_PAGE_SIZE - offset`: the bytes from an address to the end of its page. -/
def headLen (addr : ℕ) : ℕ := pageSize - addr % pageSize

/-- A mapped segment, `sg_dma_address` and `sg_dma_len`. -/
structure Seg where
  addr : ℕ
  len : ℕ
  deriving DecidableEq

inductive Pool
  | small
  | page
  deriving DecidableEq

/-- A block of a pool, with what was written to it. -/
structure PrpList where
  dma : ℕ
  entries : List ℕ
  deriving DecidableEq

inductive Status
  | ok
  | resource
  | ioerr
  /-- `sg_next` was asked for more than there is. -/
  | oops
  deriving DecidableEq

/-- What `dma_pool_alloc` returns, the first time it is called for a request and later. -/
abbrev Alloc := Pool → ℕ → Option ℕ

/-! ### The driver -/

def PrpList.push (l : PrpList) (dma : ℕ) : PrpList := { l with entries := l.entries ++ [dma] }

/-- `if (i == NVME_CTRL_PAGE_SIZE >> 3)`: a full list hands its last entry to a new one, to which it
then points. -/
def nextList (alloc : ℕ → Option ℕ) (lists : List PrpList) (cur : PrpList) :
    Option (List PrpList × PrpList) :=
  if cur.entries.length = perPage then
    (alloc (lists.length + 1)).map fun dma =>
      (lists ++ [{ cur with entries := cur.entries.dropLast ++ [dma] }],
        ⟨dma, [cur.entries.getLastD 0]⟩)
  else some (lists, cur)

/-- The loop of `apple_nvme_setup_prps`. -/
def fill (alloc : ℕ → Option ℕ) (lists : List PrpList) (cur : PrpList) (sg : List Seg)
    (addr : ℕ) (dmaLen length : ℤ) : Status × List PrpList × PrpList :=
  match nextList alloc lists cur with
  | none => (.resource, lists, cur)
  | some (lists, cur) =>
    if length - pageSize ≤ 0 then (.ok, lists, cur.push addr)
    else if 0 < dmaLen - pageSize then
      fill alloc lists (cur.push addr) sg (addr + pageSize) (dmaLen - pageSize)
        (length - pageSize)
    else if dmaLen - pageSize < 0 then (.ioerr, lists, cur.push addr)
    else
      match sg with
      | [] => (.oops, lists, cur.push addr)
      | s :: sg => fill alloc lists (cur.push addr) sg s.addr s.len (length - pageSize)
termination_by length.toNat
decreasing_by all_goals simp only [pageSize] at *; omega

/-- What a request keeps of its mapping. -/
structure Iod where
  npages : ℤ := -1
  firstDma : ℕ := 0
  /-- `dma_len`, of a single segment. -/
  dmaLen : ℕ := 0
  lists : List PrpList := []

/-- Where the second page begins. -/
def secondPage (s : Seg) (sg : List Seg) : Option (ℕ × ℤ × List Seg) :=
  if (s.len : ℤ) - headLen s.addr ≠ 0 then
    some (s.addr + headLen s.addr, s.len - headLen s.addr, sg)
  else
    match sg with
    | [] => none
    | t :: sg => some (t.addr, t.len, sg)

def poolFor (length : ℤ) : Pool :=
  if (length + pageSize - 1) / pageSize ≤ 256 / 8 then .small else .page

def setupPrps (alloc : Alloc) (length : ℕ) : List Seg → Status × Iod
  | [] => (.oops, {})
  | s :: sg =>
    let length : ℤ := length - headLen s.addr
    if length ≤ 0 then (.ok, {})
    else
      match secondPage s sg with
      | none => (.oops, {})
      | some (addr, dmaLen, sg) =>
        if length ≤ pageSize then (.ok, { firstDma := addr })
        else
          match alloc (poolFor length) 0 with
          | none => (.resource, { firstDma := addr })
          | some dma =>
            let r := fill (alloc (poolFor length)) [] ⟨dma, []⟩ sg addr dmaLen length
            (r.1,
              { npages := if poolFor length = .small then 0 else r.2.1.length + 1
                firstDma := dma
                lists := r.2.1 ++ [r.2.2] })

/-- What mapping a request takes. A block of a pool is taken with its address and given back with
the address that `dma_pool_free` is told. -/
inductive Res
  | table
  | sgMap
  | pageMap (dma len : ℕ)
  | list (pool : Pool) (block dma : ℕ)
  deriving DecidableEq

/-- The addresses at which `apple_nvme_free_prps` frees the lists: the first one, and then what it
finds in the last entry of each. Where nothing was written there it finds what was there. -/
def freeFrom (stale : ℕ) : ℕ → List PrpList → List Res
  | _, [] => []
  | dma, l :: lists =>
    .list .page l.dma dma :: freeFrom stale (l.entries.getD (perPage - 1) stale) lists

def freePrps (stale : ℕ) (iod : Iod) : List Res :=
  freeFrom stale iod.firstDma (iod.lists.take iod.npages.toNat)

/-- The lists as `apple_nvme_setup_prps` has taken them. -/
def takenLists (pool : Pool) (iod : Iod) : List Res :=
  iod.lists.map fun l => .list pool l.dma l.dma

/-- A request, with the segment as the block layer has it where there is one only. -/
structure Req where
  nrSegs : ℕ
  bvOffset : ℕ
  bvLen : ℕ
  payload : ℕ
  bvLen_pos : 0 < bvLen

/-- What the calls return. -/
structure Env where
  /-- `dma_map_bvec`. -/
  mapPage : Option ℕ
  /-- `mempool_alloc`. -/
  table : Bool
  /-- `blk_rq_map_sg` and `dma_map_sg_attrs`. -/
  mapSg : Option (List Seg)
  alloc : Alloc
  stale : ℕ
  /-- What the field of the command holds already. -/
  oldPrp2 : ℕ

/-- The two fields are those of a command that is submitted. -/
structure Mapped where
  status : Status
  iod : Iod := {}
  prp1 : ℕ := 0
  prp2 : ℕ := 0
  taken : List Res := []
  given : List Res := []

def setupPrpSimple (env : Env) (req : Req) : Mapped :=
  match env.mapPage with
  | none => { status := .resource }
  | some dma =>
    { status := .ok
      iod := { firstDma := dma, dmaLen := req.bvLen }
      prp1 := dma
      prp2 :=
        if headLen req.bvOffset < req.bvLen then dma + headLen req.bvOffset else env.oldPrp2
      taken := [.pageMap dma req.bvLen] }

/-- The lists' pool is the one for what is left after the first page. -/
def listPool (payload : ℕ) (sgl : List Seg) : Pool :=
  poolFor (payload - headLen ((sgl.head?.map Seg.addr).getD 0))

/-- The end of `apple_nvme_map_data`, and of `apple_nvme_setup_prps` before it. -/
def mapped (stale payload : ℕ) (sgl : List Seg) (r : Status × Iod) : Mapped :=
  let taken := .table :: .sgMap :: takenLists (listPool payload sgl) r.2
  match r.1 with
  | .ok =>
    { status := .ok
      iod := r.2
      taken
      prp1 := (sgl.head?.map Seg.addr).getD 0
      prp2 := r.2.firstDma }
  -- no list is freed where none was taken: `npages` is -1 then
  | .resource =>
    { status := .resource, iod := r.2, taken, given := freePrps stale r.2 ++ [.sgMap, .table] }
  | status => { status, iod := r.2, taken, given := [.sgMap, .table] }

/-- One segment in at most two pages needs no list. -/
def Req.Simple (req : Req) : Prop := req.nrSegs = 1 ∧ req.bvOffset + req.bvLen ≤ pageSize * 2

instance (req : Req) : Decidable req.Simple := inferInstanceAs (Decidable (_ ∧ _))

def mapData (env : Env) (req : Req) : Mapped :=
  if req.Simple then setupPrpSimple env req
  else if !env.table then { status := .resource }
  else
    match env.mapSg with
    | none => { status := .resource, taken := [.table], given := [.table] }
    | some sgl => mapped env.stale req.payload sgl (setupPrps env.alloc req.payload sgl)

def unmapData (stale : ℕ) (iod : Iod) : List Res :=
  if iod.dmaLen ≠ 0 then [.pageMap iod.firstDma iod.dmaLen]
  else
    .sgMap ::
      ((if iod.npages = 0 then
          (iod.lists.head?.map fun l => .list .small l.dma iod.firstDma).toList
        else freePrps stale iod) ++ [.table])

/-! ### The controller -/

/-- How many entries there are from an address to the end of its page. -/
def roomAt (dma : ℕ) : ℕ := headLen dma / 8

/-- The pages in a list of `n`, as a controller reads them off memory. -/
def walk (mem : ℕ → List ℕ) (dma n : ℕ) : List ℕ :=
  if n ≤ roomAt dma then (mem dma).take n
  else if 2 ≤ roomAt dma then
    (mem dma).take (roomAt dma - 1) ++
      walk mem ((mem dma).getD (roomAt dma - 1) 0) (n - (roomAt dma - 1))
  else []
termination_by n
decreasing_by omega

/-- The bytes in some pages, of which the last need not be full. -/
def pageBytes : List ℕ → ℕ → List ℕ
  | [], _ => []
  | p :: ps, n => List.range' p (min pageSize n) ++ pageBytes ps (n - pageSize)

/-- The pages after the first one of a command. -/
def laterPages (mem : ℕ → List ℕ) (prp1 prp2 length : ℕ) : List ℕ :=
  let rest := length - headLen prp1
  if rest = 0 then []
  else if rest ≤ pageSize then [prp2]
  else walk mem prp2 ((rest + pageSize - 1) / pageSize)

/-- The addresses a controller reads or writes for a command of so many bytes, in order. -/
def transfers (mem : ℕ → List ℕ) (prp1 prp2 length : ℕ) : List ℕ :=
  List.range' prp1 (min (headLen prp1) length) ++
    pageBytes (laterPages mem prp1 prp2 length) (length - headLen prp1)

/-! ### The lists -/

/-- Each list is full and points to the next one, the last one to an address. -/
def Linked : List PrpList → ℕ → Prop
  | [], _ => True
  | l :: lists, dma =>
    l.entries.length = perPage ∧
      l.entries[perPage - 1]? = some ((lists.head?.map PrpList.dma).getD dma) ∧ Linked lists dma

lemma linked_snoc {lists : List PrpList} {l : PrpList} {dma : ℕ} (h : Linked lists l.dma)
    (hl : l.entries.length = perPage) (hd : l.entries[perPage - 1]? = some dma) :
    Linked (lists ++ [l]) dma := by
  induction lists with
  | nil => exact ⟨hl, hd, trivial⟩
  | cons k lists ih =>
    obtain ⟨hk, hn, hr⟩ := h
    refine ⟨hk, ?_, ih hr⟩
    cases lists with
    | nil => exact hn
    | cons m lists => exact hn

/-- The pages in the lists. -/
def pagesIn (lists : List PrpList) (cur : PrpList) : List ℕ :=
  lists.flatMap (fun l => l.entries.take (perPage - 1)) ++ cur.entries

/-- The lists between two turns of the loop. -/
structure Good (alloc : ℕ → Option ℕ) (lists : List PrpList) (cur : PrpList) : Prop where
  linked : Linked lists cur.dma
  le : cur.entries.length ≤ perPage
  /-- A list is begun with the last entry of the one before, and a new one. -/
  two : lists ≠ [] → 2 ≤ cur.entries.length
  taken :
    (lists ++ [cur]).map (fun l => some l.dma) = (List.range (lists.length + 1)).map alloc

variable {alloc : ℕ → Option ℕ} {lists lists' : List PrpList} {cur cur' : PrpList}

@[simp] lemma push_dma (l : PrpList) (a : ℕ) : (l.push a).dma = l.dma := rfl

@[simp] lemma push_entries (l : PrpList) (a : ℕ) : (l.push a).entries = l.entries ++ [a] := rfl

lemma dropLast_concat_getLastD {l : List ℕ} (h : l.length = perPage) :
    l.take (perPage - 1) ++ [l.getLastD 0] = l := by
  have hne : l ≠ [] := by
    rintro rfl
    cases h
  rw [← h, ← List.dropLast_eq_take, List.getLastD_eq_getLast?, List.getLast?_eq_some_getLast hne]
  exact List.dropLast_append_getLast hne

lemma good_nextList (hg : Good alloc lists cur) (h : nextList alloc lists cur = some (lists', cur'))
    (a : ℕ) :
    Good alloc lists' (cur'.push a) ∧ pagesIn lists' (cur'.push a) = pagesIn lists cur ++ [a] := by
  obtain ⟨hl, hle, h2, ht⟩ := hg
  unfold nextList at h
  split at h
  · rename_i hfull
    obtain ⟨dma, hd, h⟩ := Option.map_eq_some_iff.mp h
    cases h
    have hlen : (cur.entries.dropLast ++ [dma]).length = perPage := by
      simp [hfull, perPage]
    refine ⟨⟨linked_snoc hl hlen ?_, ?_, ?_, ?_⟩, ?_⟩
    · simp [hfull, perPage]
    · simp [perPage]
    · simp
    · rw [List.length_append, List.length_singleton, List.range_succ,
        List.map_append (f := alloc), ← ht]
      simp [hd]
    · have htake : (cur.entries.dropLast ++ [dma]).take (perPage - 1) =
          cur.entries.take (perPage - 1) := by
        rw [List.take_append_of_le_length (by simp [hfull]), List.dropLast_eq_take, hfull,
          List.take_take, Nat.min_self]
      have hcur := dropLast_concat_getLastD hfull
      simp only [pagesIn, push_entries, List.flatMap_append, List.flatMap_singleton, htake]
      nth_rewrite 3 [← hcur]
      simp
  · rename_i hnot
    cases h
    refine ⟨⟨hl, ?_, fun h => ?_, by simpa using ht⟩, ?_⟩
    · rw [push_entries, List.length_append, List.length_singleton]
      omega
    · rw [push_entries, List.length_append]
      have := h2 h
      omega
    · simp [pagesIn]

/-- The lists are good however the loop ends. -/
lemma good_fill (sg : List Seg) (addr : ℕ) (dmaLen length : ℤ) (hg : Good alloc lists cur) :
    Good alloc (fill alloc lists cur sg addr dmaLen length).2.1
      (fill alloc lists cur sg addr dmaLen length).2.2 := by
  fun_induction fill alloc lists cur sg addr dmaLen length with
  | case1 lists cur sg addr dmaLen length h => exact hg
  | case2 lists cur sg addr dmaLen length _ _ h hend => exact (good_nextList hg h addr).1
  | case3 lists cur sg addr dmaLen length _ _ h hend hin ih =>
    exact ih (good_nextList hg h addr).1
  | case4 lists cur sg addr dmaLen length _ _ h hend hin hbad =>
    exact (good_nextList hg h addr).1
  | case5 lists cur addr dmaLen length _ _ h => exact (good_nextList hg h addr).1
  | case6 lists cur addr dmaLen length _ _ h hend hin hbad s sg ih =>
    exact ih (good_nextList hg h addr).1

/-- There is at most one turn for each page of what is left. -/
lemma fill_count (sg : List Seg) (addr : ℕ) (dmaLen length : ℤ) (hg : Good alloc lists cur)
    (hpos : 0 < length) :
    ((pagesIn (fill alloc lists cur sg addr dmaLen length).2.1
      (fill alloc lists cur sg addr dmaLen length).2.2).length : ℤ) ≤
      (pagesIn lists cur).length + (length + pageSize - 1) / pageSize := by
  fun_induction fill alloc lists cur sg addr dmaLen length with
  | case1 lists cur sg addr dmaLen length h =>
    simp only [pageSize]
    omega
  | case2 lists cur sg addr dmaLen length _ _ h hend =>
    rw [(good_nextList hg h addr).2, List.length_append, List.length_singleton]
    simp only [pageSize] at *
    omega
  | case3 lists cur sg addr dmaLen length _ _ h hend hin ih =>
    have := ih (good_nextList hg h addr).1 (by omega)
    rw [(good_nextList hg h addr).2, List.length_append, List.length_singleton] at this
    simp only [pageSize] at *
    omega
  | case4 lists cur sg addr dmaLen length _ _ h hend hin hbad =>
    rw [(good_nextList hg h addr).2, List.length_append, List.length_singleton]
    simp only [pageSize] at *
    omega
  | case5 lists cur addr dmaLen length _ _ h hend =>
    rw [(good_nextList hg h addr).2, List.length_append, List.length_singleton]
    simp only [pageSize] at *
    omega
  | case6 lists cur addr dmaLen length _ _ h hend hin hbad s sg ih =>
    have := ih (good_nextList hg h addr).1 (by omega)
    rw [(good_nextList hg h addr).2, List.length_append, List.length_singleton] at this
    simp only [pageSize] at *
    omega

/-- The loop gives up only at a full list, when there is no other. -/
lemma fill_resource (sg : List Seg) (addr : ℕ) (dmaLen length : ℤ)
    (h : (fill alloc lists cur sg addr dmaLen length).1 = .resource) :
    (fill alloc lists cur sg addr dmaLen length).2.2.entries.length = perPage ∧
      ∃ k, alloc k = none := by
  fun_induction fill alloc lists cur sg addr dmaLen length with
  | case1 lists cur sg addr dmaLen length hn =>
    unfold nextList at hn
    split at hn
    · rename_i hfull
      exact ⟨hfull, _, Option.map_eq_none_iff.mp hn⟩
    · cases hn
  | case2 => cases h
  | case3 lists cur sg addr dmaLen length _ _ _ hend hin ih => exact ih h
  | case4 => cases h
  | case5 => cases h
  | case6 lists cur addr dmaLen length _ _ _ hend hin hbad s sg ih => exact ih h

/-! ### The segments -/

/-- The bytes of a request, in order. -/
def sgBytes (sg : List Seg) : List ℕ := sg.flatMap fun s => List.range' s.addr s.len

def total (sg : List Seg) : ℕ := (sg.map Seg.len).sum

/-- What the block layer keeps to (`nvme_get_virt_boundary`): a segment that is not the last ends
with a page, and one that is not the first begins one. -/
def Tail : List Seg → Prop
  | [] => True
  | s :: sg => pageSize ∣ s.addr ∧ 0 < s.len ∧ (sg ≠ [] → pageSize ∣ s.len) ∧ Tail sg

def Bounded : List Seg → Prop
  | [] => False
  | s :: sg => 0 < s.len ∧ (sg ≠ [] → pageSize ∣ s.addr + s.len) ∧ Tail sg

lemma Tail.eq_nil {sg : List Seg} (h : Tail sg) (ht : total sg = 0) : sg = [] := by
  cases sg with
  | nil => rfl
  | cons s sg =>
    obtain ⟨-, hs, -⟩ := h
    simp only [total, List.map_cons, List.sum_cons] at ht
    omega

/-- The loop has run out of lists, or it has written the pages of the bytes behind others. -/
def Wrote (r : Status × List PrpList × PrpList) (before : List ℕ) (n : ℕ) (bytes : List ℕ) :
    Prop :=
  r.1 = .resource ∨
    r.1 = .ok ∧
      ∃ ps, pagesIn r.2.1 r.2.2 = before ++ ps ∧ ps.length = (n + pageSize - 1) / pageSize ∧
        (∀ p ∈ ps, pageSize ∣ p) ∧ pageBytes ps n = bytes

lemma Wrote.cons {r : Status × List PrpList × PrpList} {before : List ℕ} {n addr : ℕ}
    {bytes : List ℕ} (h : Wrote r (before ++ [addr]) (n - pageSize) bytes) (hn : pageSize < n)
    (ha : pageSize ∣ addr) : Wrote r before n (List.range' addr pageSize ++ bytes) := by
  refine h.imp id fun ⟨hr, ps, hp, hl, hd, hb⟩ => ⟨hr, addr :: ps, ?_, ?_, ?_, ?_⟩
  · rw [hp, List.append_assoc]
    rfl
  · rw [List.length_cons, hl]
    simp only [pageSize] at *
    omega
  · exact List.forall_mem_cons.mpr ⟨ha, hd⟩
  · rw [pageBytes, Nat.min_eq_left hn.le, hb]

/-- The loop over segments within the boundary. -/
lemma fill_wrote (n : ℕ) (sg : List Seg) (addr dmaLen : ℕ) (hg : Good alloc lists cur)
    (ha : pageSize ∣ addr) (hpos : 0 < dmaLen) (hd : sg ≠ [] → pageSize ∣ dmaLen) (ht : Tail sg)
    (hn : n = dmaLen + total sg) :
    Wrote (fill alloc lists cur sg addr dmaLen n) (pagesIn lists cur) n
      (List.range' addr dmaLen ++ sgBytes sg) := by
  induction n using Nat.strong_induction_on generalizing lists cur sg addr dmaLen with
  | _ n ih =>
    rw [fill]
    split
    · exact .inl rfl
    · rename_i lists' cur' h
      obtain ⟨hg', hp⟩ := good_nextList hg h addr
      have hP : 0 < pageSize := by decide
      split_ifs with hend hin hbad
      · -- what is left fits in this page, so this is the last segment
        have hsg : sg = [] := by
          by_contra hne
          have h1 := Nat.le_of_dvd hpos (hd hne)
          have h2 := mt ht.eq_nil hne
          omega
        subst hsg
        obtain rfl : n = dmaLen := by simpa [total] using hn
        have hle : n ≤ pageSize := by omega
        refine .inr ⟨rfl, [addr], hp, ?_, by simpa using ha, ?_⟩
        · simp only [pageSize, List.length_singleton] at *
          omega
        · simp [pageBytes, sgBytes, hle]
      · have hin' : pageSize < dmaLen := by omega
        have e1 : (dmaLen : ℤ) - pageSize = (dmaLen - pageSize : ℕ) := by omega
        have e2 : (n : ℤ) - pageSize = (n - pageSize : ℕ) := by omega
        have := ih (n - pageSize) (by omega) sg (addr + pageSize) (dmaLen - pageSize) hg'
          (Nat.dvd_add_self_right.mpr ha) (by omega) (fun h => Nat.dvd_sub (hd h) dvd_rfl) ht
          (by omega)
        rw [hp] at this
        rw [e1, e2]
        have hsplit : List.range' addr dmaLen =
            List.range' addr pageSize ++ List.range' (addr + pageSize) (dmaLen - pageSize) := by
          rw [List.range'_append_1, Nat.add_sub_cancel' hin'.le]
        rw [hsplit, List.append_assoc]
        exact this.cons (by omega) ha
      · exfalso
        by_cases hsg : sg = []
        · subst hsg
          simp only [total, List.map_nil, List.sum_nil] at hn
          omega
        · have := Nat.le_of_dvd hpos (hd hsg)
          omega
      · obtain rfl : dmaLen = pageSize := by omega
        cases sg with
        | nil =>
          simp only [total, List.map_nil, List.sum_nil] at hn
          omega
        | cons s sg =>
          obtain ⟨hs, hs0, hsd, hst⟩ := ht
          have e2 : (n : ℤ) - pageSize = (n - pageSize : ℕ) := by omega
          simp only [total, List.map_cons, List.sum_cons] at hn
          have := ih (n - pageSize) (by omega) sg s.addr s.len hg' hs hs0 hsd hst
            (by simp only [total]; omega)
          rw [hp] at this
          rw [e2]
          exact this.cons (by omega) ha

/-! ### What the controller reads -/

/-- The address of the first list. -/
def firstOf (lists : List PrpList) (dma : ℕ) : ℕ := (lists.head?.map PrpList.dma).getD dma

lemma length_pagesIn_cons {l : PrpList} (hl : l.entries.length = perPage) :
    (pagesIn (l :: lists) cur).length = perPage - 1 + (pagesIn lists cur).length := by
  simp [pagesIn, hl, perPage]

/-- There is a list after a full one only for two pages or more. -/
lemma two_le_pagesIn (hl : Linked lists cur.dma) (h2 : 2 ≤ cur.entries.length) :
    2 ≤ (pagesIn lists cur).length := by
  cases lists with
  | nil => simpa [pagesIn] using h2
  | cons l lists =>
    rw [length_pagesIn_cons hl.1, perPage]
    omega

lemma roomAt_of_dvd {dma : ℕ} (h : pageSize ∣ dma) : roomAt dma = perPage := by
  rw [roomAt, headLen, Nat.mod_eq_zero_of_dvd h]
  rfl

lemma prefix_take {l m : List ℕ} (h : l <+: m) {n : ℕ} (hn : n ≤ l.length) :
    m.take n = l.take n := by
  obtain ⟨r, rfl⟩ := h
  exact List.take_append_of_le_length hn

/-- **The controller reads the pages that were written**, from lists that begin a page. -/
lemma walk_lists {mem : ℕ → List ℕ} (hl : Linked lists cur.dma)
    (hle : cur.entries.length ≤ perPage) (h2 : lists ≠ [] → 2 ≤ cur.entries.length)
    (hmem : ∀ l ∈ lists ++ [cur], l.entries <+: mem l.dma)
    (hal : ∀ l ∈ lists ++ [cur], pageSize ∣ l.dma) :
    walk mem (firstOf lists cur.dma) (pagesIn lists cur).length = pagesIn lists cur := by
  induction lists with
  | nil =>
    have hcur := hmem cur (by simp)
    have hp : pagesIn [] cur = cur.entries := rfl
    have hf : firstOf [] cur.dma = cur.dma := rfl
    rw [hp, hf, walk, if_pos (by rw [roomAt_of_dvd (hal cur (by simp))]; exact hle),
      prefix_take hcur le_rfl, List.take_length]
  | cons l lists ih =>
    obtain ⟨hlen, hnext, hrest⟩ := hl
    have hcur := h2 (by simp)
    have htwo := two_le_pagesIn hrest hcur
    have hroom := roomAt_of_dvd (hal l (by simp))
    have hml := hmem l (by simp)
    have hgo := ih hrest (fun _ => hcur) (fun k hk => hmem k (List.mem_cons_of_mem _ hk))
      (fun k hk => hal k (List.mem_cons_of_mem _ hk))
    have hlink : (mem l.dma).getD (perPage - 1) 0 = firstOf lists cur.dma := by
      obtain ⟨r, hr⟩ := hml
      rw [← hr, List.getD_eq_getElem?_getD, List.getElem?_append_left (by rw [hlen]; decide), hnext]
      rfl
    have hf : firstOf (l :: lists) cur.dma = l.dma := rfl
    rw [hf, walk, hroom, length_pagesIn_cons hlen, if_neg (by rw [perPage]; omega),
      if_pos (by decide), hlink, Nat.add_sub_cancel_left, hgo,
      prefix_take hml (by rw [hlen]; exact Nat.sub_le _ _)]
    simp [pagesIn]

/-- A block of the small pool is all in one page. -/
lemma walk_small {mem : ℕ → List ℕ} (hal : 256 ∣ cur.dma) (hle : cur.entries.length ≤ 32)
    (hmem : cur.entries <+: mem cur.dma) : walk mem cur.dma cur.entries.length = cur.entries := by
  have hroom : 32 ≤ roomAt cur.dma := by
    obtain ⟨k, hk⟩ := hal
    rw [roomAt, headLen, pageSize]
    omega
  rw [walk, if_pos (hle.trans hroom), prefix_take hmem le_rfl, List.take_length]

/-! ### A request -/

lemma sgBytes_cons (s : Seg) (sg : List Seg) :
    sgBytes (s :: sg) = List.range' s.addr s.len ++ sgBytes sg := by
  simp [sgBytes]

lemma total_cons (s : Seg) (sg : List Seg) : total (s :: sg) = s.len + total sg := by
  simp [total]

lemma headLen_pos (addr : ℕ) : 0 < headLen addr := by
  have := Nat.mod_lt addr (show 0 < pageSize by decide)
  rw [headLen]
  omega

lemma dvd_add_headLen (addr : ℕ) : pageSize ∣ addr + headLen addr := by
  rw [headLen, pageSize]
  omega

lemma headLen_le {addr len : ℕ} (h : pageSize ∣ addr + len) (hpos : 0 < len) :
    headLen addr ≤ len := by
  rw [headLen]
  simp only [pageSize] at *
  omega

/-- A segment within the boundary that is the last or as long as the first page. -/
lemma headLen_le_of_lt {s : Seg} {sg : List Seg} (h : Bounded (s :: sg))
    (hlt : headLen s.addr < total (s :: sg)) : headLen s.addr ≤ s.len := by
  obtain ⟨hpos, hd, -⟩ := h
  by_cases hsg : sg = []
  · subst hsg
    rw [total_cons] at hlt
    simpa [total] using hlt.le
  · exact headLen_le (hd hsg) hpos

/-- The segments from the second page on. -/
structure After (s : Seg) (sg : List Seg) (addr d : ℕ) (sg' : List Seg) : Prop where
  eq : secondPage s sg = some (addr, (d : ℤ), sg')
  addr_dvd : pageSize ∣ addr
  pos : 0 < d
  dvd : sg' ≠ [] → pageSize ∣ d
  tail : Tail sg'
  total_eq : total (s :: sg) - headLen s.addr = d + total sg'
  bytes : sgBytes (s :: sg) =
    List.range' s.addr (headLen s.addr) ++ (List.range' addr d ++ sgBytes sg')

lemma exists_after {s : Seg} {sg : List Seg} (h : Bounded (s :: sg))
    (hlt : headLen s.addr < total (s :: sg)) : ∃ addr d sg', After s sg addr d sg' := by
  have hle := headLen_le_of_lt h hlt
  obtain ⟨hpos, hd, ht⟩ := h
  rw [total_cons] at hlt
  have hsplit : List.range' s.addr s.len = List.range' s.addr (headLen s.addr) ++
      List.range' (s.addr + headLen s.addr) (s.len - headLen s.addr) := by
    rw [List.range'_append_1, Nat.add_sub_cancel' hle]
  by_cases heq : s.len = headLen s.addr
  · cases sg with
    | nil =>
      simp only [total, List.map_nil, List.sum_nil] at hlt
      omega
    | cons t sg =>
      obtain ⟨hta, ht0, htd, htt⟩ := ht
      refine ⟨t.addr, t.len, sg, ?_, hta, ht0, htd, htt, ?_, ?_⟩
      · simp [secondPage, heq]
      · rw [total_cons, total_cons]
        omega
      · rw [sgBytes_cons, sgBytes_cons, heq]
  · refine ⟨s.addr + headLen s.addr, s.len - headLen s.addr, sg, ?_, dvd_add_headLen _, by omega,
      fun hne => ?_, ht, by rw [total_cons]; omega, ?_⟩
    · have hne : (s.len : ℤ) - headLen s.addr ≠ 0 := by omega
      have hcast : (s.len : ℤ) - headLen s.addr = (s.len - headLen s.addr : ℕ) := by omega
      unfold secondPage
      rw [if_pos hne, hcast]
    · have := Nat.dvd_sub (hd hne) (dvd_add_headLen s.addr)
      rwa [Nat.add_sub_add_left] at this
    · rw [sgBytes_cons, hsplit, List.append_assoc]

/-- The blocks are aligned as the pools are created. -/
structure Aligned (alloc : Alloc) : Prop where
  page : ∀ k dma, alloc .page k = some dma → pageSize ∣ dma
  small : ∀ k dma, alloc .small k = some dma → 256 ∣ dma

lemma Good.exists_alloc (hg : Good alloc lists cur) {l : PrpList} (hl : l ∈ lists ++ [cur]) :
    ∃ k, alloc k = some l.dma := by
  have hm : some l.dma ∈ (lists ++ [cur]).map (fun l => some l.dma) := List.mem_map_of_mem hl
  rw [hg.taken] at hm
  obtain ⟨k, -, hk⟩ := List.mem_map.mp hm
  exact ⟨k, hk⟩

lemma good_nil {dma : ℕ} (h : alloc 0 = some dma) : Good alloc [] ⟨dma, []⟩ where
  linked := trivial
  le := Nat.zero_le _
  two h := absurd rfl h
  taken := by simp [List.range_succ, h]

/-- The small pool is used only for what fits in one of its blocks. -/
lemma Good.lists_eq_nil (hg : Good alloc lists cur) (h : (pagesIn lists cur).length ≤ 32) :
    lists = [] := by
  cases lists with
  | nil => rfl
  | cons l lists =>
    rw [length_pagesIn_cons hg.linked.1, perPage] at h
    omega

lemma firstOf_fill {dma : ℕ} (h : alloc 0 = some dma) (hg : Good alloc lists cur) :
    firstOf lists cur.dma = dma := by
  have ht := hg.taken
  cases lists with
  | nil => simpa [List.range_succ, h, firstOf] using ht
  | cons l lists =>
    rw [List.length_cons, List.range_succ_eq_map] at ht
    simp only [List.cons_append, List.map_cons, h, List.cons.injEq, Option.some.injEq] at ht
    exact ht.1

/-- The lists stand in memory as they were written. -/
def Holds (mem : ℕ → List ℕ) (lists : List PrpList) : Prop :=
  ∀ l ∈ lists, l.entries <+: mem l.dma

lemma poolFor_small {n : ℕ} (h : poolFor n = .small) : (n + pageSize - 1) / pageSize ≤ 32 := by
  unfold poolFor at h
  split at h
  · simp only [pageSize] at *
    omega
  · cases h

section

variable {allocs : Alloc} {s : Seg} {sg sg' : List Seg} {addr d dma n : ℕ}

/-- The lists of a request are read as they were meant. -/
lemma walk_fill (ha : Aligned allocs) (hdma : allocs (poolFor n) 0 = some dma)
    (hs : After s sg addr d sg') (hn : n = d + total sg')
    (hok : (fill (allocs (poolFor n)) [] ⟨dma, []⟩ sg' addr d n).1 ≠ .resource)
    {mem : ℕ → List ℕ}
    (hmem : Holds mem ((fill (allocs (poolFor n)) [] ⟨dma, []⟩ sg' addr d n).2.1 ++
      [(fill (allocs (poolFor n)) [] ⟨dma, []⟩ sg' addr d n).2.2])) :
    pageBytes (walk mem dma ((n + pageSize - 1) / pageSize)) n =
        List.range' addr d ++ sgBytes sg' ∧
      ∀ p ∈ walk mem dma ((n + pageSize - 1) / pageSize), pageSize ∣ p := by
  have hg0 := good_nil hdma
  have hg := good_fill sg' addr d n hg0
  have hw := fill_wrote n sg' addr d hg0 hs.addr_dvd hs.pos hs.dvd hs.tail hn
  generalize fill (allocs (poolFor n)) [] ⟨dma, []⟩ sg' addr d n = r at *
  obtain ⟨status, lists, cur⟩ := r
  obtain ⟨-, ps, hp, hlen, hps, hb⟩ := hw.resolve_left hok
  have hp' : pagesIn lists cur = ps := hp
  have hfirst := firstOf_fill hdma hg
  suffices hwalk : walk mem dma (pagesIn lists cur).length = pagesIn lists cur by
    rw [hp', hlen] at hwalk
    rw [hwalk]
    exact ⟨hb, hps⟩
  cases hpool : poolFor n with
  | page =>
    rw [hpool] at hg
    rw [← hfirst]
    refine walk_lists hg.linked hg.le hg.two hmem fun l hl => ?_
    obtain ⟨k, hk⟩ := hg.exists_alloc hl
    exact ha.page k _ hk
  | small =>
    rw [hpool] at hg
    have h32 : (pagesIn lists cur).length ≤ 32 := by
      rw [hp', hlen]
      exact poolFor_small hpool
    obtain rfl := hg.lists_eq_nil h32
    obtain ⟨k, hk⟩ := hg.exists_alloc (List.mem_singleton.mpr rfl)
    have hcur : cur.dma = dma := hfirst
    rw [← hcur]
    exact walk_small (ha.small k _ hk) h32 (hmem cur (by simp))

/-- All in the first page. -/
lemma setupPrps_first (allocs : Alloc) (hb : Bounded (s :: sg)) (hn : total (s :: sg) = n)
    (hle : n ≤ headLen s.addr) : sg = [] ∧ setupPrps allocs n (s :: sg) = (.ok, {}) := by
  have hz : (n : ℤ) - headLen s.addr ≤ 0 := by omega
  refine ⟨?_, by simp [setupPrps, hz]⟩
  by_contra hne
  have h1 := headLen_le (hb.2.1 hne) hb.1
  have h2 := mt hb.2.2.eq_nil hne
  rw [total_cons] at hn
  omega

/-- The second page is told itself. -/
lemma setupPrps_second (allocs : Alloc) (hs : After s sg addr d sg') (hn : total (s :: sg) = n)
    (hgt : headLen s.addr < n) (hone : n - headLen s.addr ≤ pageSize) :
    sg' = [] ∧ setupPrps allocs n (s :: sg) = (.ok, { firstDma := addr }) := by
  have hz : ¬ (n : ℤ) - headLen s.addr ≤ 0 := by omega
  have hone' : (n : ℤ) - headLen s.addr ≤ pageSize := by omega
  refine ⟨?_, by simp [setupPrps, hz, hs.eq, hone']⟩
  by_contra hne
  have h1 := Nat.le_of_dvd hs.pos (hs.dvd hne)
  have h2 := mt hs.tail.eq_nil hne
  have := hs.total_eq
  omega

lemma setupPrps_list (hs : After s sg addr d sg') (hmore : pageSize < n - headLen s.addr) :
    setupPrps allocs n (s :: sg) =
      match allocs (poolFor (n - headLen s.addr : ℕ)) 0 with
      | none => (.resource, { firstDma := addr })
      | some dma =>
        let r := fill (allocs (poolFor (n - headLen s.addr : ℕ))) [] ⟨dma, []⟩ sg' addr d
          (n - headLen s.addr : ℕ)
        (r.1,
          { npages := if poolFor (n - headLen s.addr : ℕ) = .small then 0 else r.2.1.length + 1
            firstDma := dma
            lists := r.2.1 ++ [r.2.2] }) := by
  have hcast : (n : ℤ) - headLen s.addr = (n - headLen s.addr : ℕ) := by omega
  have hz : ¬ ((n - headLen s.addr : ℕ) : ℤ) ≤ 0 := by omega
  have hmore' : ¬ ((n - headLen s.addr : ℕ) : ℤ) ≤ pageSize := by omega
  simp only [setupPrps, hcast, if_neg hz, hs.eq, if_neg hmore']

/-- A request that gets its lists is not refused for want of memory. -/
lemma setupPrps_resource {sgl : List Seg} (h : (setupPrps allocs n sgl).1 = .resource) :
    ∃ pool k, allocs pool k = none := by
  cases sgl with
  | nil => cases h
  | cons s sg =>
    simp only [setupPrps] at h
    by_cases hz : (n : ℤ) - headLen s.addr ≤ 0
    · simp [hz] at h
    · simp only [if_neg hz] at h
      rcases h2 : secondPage s sg with _ | ⟨addr, dmaLen, sg'⟩
      · simp [h2] at h
      · by_cases hone : (n : ℤ) - headLen s.addr ≤ pageSize
        · simp [h2, hone] at h
        · simp only [h2, if_neg hone] at h
          cases hdma : allocs (poolFor ((n : ℤ) - headLen s.addr)) 0 with
          | none => exact ⟨_, _, hdma⟩
          | some dma =>
            simp only [hdma] at h
            obtain ⟨-, k, hk⟩ := fill_resource _ _ _ _ h
            exact ⟨_, k, hk⟩

/-- What `apple_nvme_setup_prps` leaves for segments within the boundary. -/
lemma setupPrps_transfers (ha : Aligned allocs) (hb : Bounded (s :: sg))
    (hn : total (s :: sg) = n) :
    (setupPrps allocs n (s :: sg)).1 = .resource ∨
      (setupPrps allocs n (s :: sg)).1 = .ok ∧
        ∀ mem, Holds mem (setupPrps allocs n (s :: sg)).2.lists →
          transfers mem s.addr (setupPrps allocs n (s :: sg)).2.firstDma n =
              sgBytes (s :: sg) ∧
            ∀ p ∈ laterPages mem s.addr (setupPrps allocs n (s :: sg)).2.firstDma n,
              pageSize ∣ p := by
  rcases le_or_gt n (headLen s.addr) with hle | hgt
  · obtain ⟨rfl, hset⟩ := setupPrps_first allocs hb hn hle
    obtain rfl : s.len = n := by simpa [total] using hn
    simp [hset, transfers, laterPages, pageBytes, Nat.min_eq_right hle,
      Nat.sub_eq_zero_of_le hle, sgBytes]
  · obtain ⟨addr, d, sg', hs⟩ := exists_after hb (hn ▸ hgt)
    have htot : n - headLen s.addr = d + total sg' := hn ▸ hs.total_eq
    have hne : n - headLen s.addr ≠ 0 := by omega
    rcases le_or_gt (n - headLen s.addr) pageSize with hone | hmore
    · obtain ⟨rfl, hset⟩ := setupPrps_second allocs hs hn hgt hone
      have hd : n - headLen s.addr = d := by simpa [total] using htot
      rw [hset]
      refine .inr ⟨rfl, fun mem _ => ?_⟩
      simp only [transfers, laterPages, if_neg hne, if_pos hone, Nat.min_eq_left hgt.le]
      refine ⟨?_, by simpa using hs.addr_dvd⟩
      rw [hs.bytes, pageBytes, Nat.min_eq_right hone, hd]
      simp [sgBytes, pageBytes]
    · rw [setupPrps_list hs hmore]
      cases hdma : allocs (poolFor (n - headLen s.addr : ℕ)) 0 with
      | none => exact .inl rfl
      | some dma =>
        rcases fill_wrote _ sg' addr d (good_nil hdma) hs.addr_dvd hs.pos hs.dvd hs.tail htot
          with hr | ⟨hr, -⟩
        · exact .inl hr
        · refine .inr ⟨hr, fun mem hmem => ?_⟩
          obtain ⟨hw, hps⟩ := walk_fill ha hdma hs htot (by rw [hr]; simp) hmem
          simp only [transfers, laterPages, if_neg hne, if_neg (not_le.mpr hmore),
            Nat.min_eq_left hgt.le]
          exact ⟨by rw [hs.bytes, hw], hps⟩

end

/-- What the block layer and the mapping of memory promise. -/
structure Sound (env : Env) (req : Req) : Prop where
  /-- The driver counts in an `int`; it announces 4 MiB. -/
  int : req.payload < 2 ^ 31
  aligned : Aligned env.alloc
  /-- A mapping keeps the place in the page. -/
  page : ∀ dma, env.mapPage = some dma → dma % pageSize = req.bvOffset % pageSize
  one : req.nrSegs = 1 → req.payload = req.bvLen
  sg : ∀ sgl, env.mapSg = some sgl → Bounded sgl ∧ total sgl = req.payload

/-- The addresses of a request's bytes, as they have been mapped. -/
def bytesOf (env : Env) (req : Req) : List ℕ :=
  if req.Simple then (env.mapPage.map fun dma => List.range' dma req.bvLen).getD []
  else (env.mapSg.map sgBytes).getD []

variable {env : Env} {req : Req}

lemma simple_transfers {dma old : ℕ} (hs : req.Simple)
    (hp : dma % pageSize = req.bvOffset % pageSize) (mem : ℕ → List ℕ) :
    let prp2 := if headLen req.bvOffset < req.bvLen then dma + headLen req.bvOffset else old
    transfers mem dma prp2 req.bvLen = List.range' dma req.bvLen ∧
      ∀ p ∈ laterPages mem dma prp2 req.bvLen, pageSize ∣ p := by
  have hh : headLen req.bvOffset = headLen dma := by rw [headLen, headLen, hp]
  have h2 : req.bvLen ≤ headLen dma + pageSize := by
    obtain ⟨-, h⟩ := hs
    have := Nat.mod_le req.bvOffset pageSize
    rw [← hh, headLen]
    omega
  simp only [hh]
  rcases le_or_gt req.bvLen (headLen dma) with hle | hgt
  · simp [transfers, laterPages, Nat.sub_eq_zero_of_le hle, Nat.min_eq_right hle, pageBytes]
  · have hne : req.bvLen - headLen dma ≠ 0 := by omega
    have hle : req.bvLen - headLen dma ≤ pageSize := by omega
    simp only [transfers, laterPages, if_neg hne, if_pos hle, if_pos hgt, pageBytes,
      Nat.min_eq_right hle, Nat.min_eq_left hgt.le, List.append_nil]
    refine ⟨?_, by simpa using dvd_add_headLen dma⟩
    rw [List.range'_append_1, Nat.add_sub_cancel' hgt.le]

/-- The ways through `apple_nvme_map_data`. -/
lemma mapData_cases (env : Env) (req : Req) :
    (req.Simple ∧ env.mapPage = none ∧ mapData env req = { status := .resource }) ∨
      (∃ dma, req.Simple ∧ env.mapPage = some dma ∧
        mapData env req = setupPrpSimple env req) ∨
      (¬ req.Simple ∧ env.table = false ∧ mapData env req = { status := .resource }) ∨
      (¬ req.Simple ∧ env.mapSg = none ∧
        mapData env req = { status := .resource, taken := [.table], given := [.table] }) ∨
      ∃ sgl, ¬ req.Simple ∧ env.mapSg = some sgl ∧
        mapData env req =
          mapped env.stale req.payload sgl (setupPrps env.alloc req.payload sgl) := by
  by_cases hs : req.Simple
  · cases hm : env.mapPage with
    | none => exact .inl ⟨hs, rfl, by simp [mapData, hs, setupPrpSimple, hm]⟩
    | some dma => exact .inr (.inl ⟨dma, hs, rfl, by simp [mapData, hs]⟩)
  · cases ht : env.table with
    | false => exact .inr (.inr (.inl ⟨hs, rfl, by simp [mapData, hs, ht]⟩))
    | true =>
      cases hm : env.mapSg with
      | none => exact .inr (.inr (.inr (.inl ⟨hs, rfl, by simp [mapData, hs, ht, hm]⟩)))
      | some sgl =>
        exact .inr (.inr (.inr (.inr ⟨sgl, hs, rfl, by simp [mapData, hs, ht, hm]⟩)))

/-- Some call fails. -/
def Env.Fails (env : Env) : Prop :=
  env.mapPage = none ∨ env.table = false ∨ env.mapSg = none ∨ ∃ pool k, env.alloc pool k = none

@[simp] lemma mapped_status (stale payload : ℕ) (sgl : List Seg) (r : Status × Iod) :
    (mapped stale payload sgl r).status = r.1 := by
  obtain ⟨status, iod⟩ := r
  cases status <;> rfl

@[simp] lemma mapped_iod (stale payload : ℕ) (sgl : List Seg) (r : Status × Iod) :
    (mapped stale payload sgl r).iod = r.2 := by
  obtain ⟨status, iod⟩ := r
  cases status <;> rfl

lemma mapData_resource (h : (mapData env req).status = .resource) : env.Fails := by
  rcases mapData_cases env req with ⟨-, hf, -⟩ | ⟨dma, -, hd, hm⟩ | ⟨-, hf, -⟩ | ⟨-, hf, -⟩ |
    ⟨sgl, -, -, hm⟩
  · exact .inl hf
  · rw [hm, setupPrpSimple, hd] at h
    cases h
  · exact .inr (.inl hf)
  · exact .inr (.inr (.inl hf))
  · rw [hm, mapped_status] at h
    exact .inr (.inr (.inr (setupPrps_resource h)))

lemma mapData_ok_or_resource (h : Sound env req) :
    (mapData env req).status = .ok ∨ (mapData env req).status = .resource := by
  rcases mapData_cases env req with ⟨-, -, hm⟩ | ⟨dma, -, hd, hm⟩ | ⟨-, -, hm⟩ | ⟨-, -, hm⟩ |
    ⟨sgl, -, hl, hm⟩
  · rw [hm]
    exact .inr rfl
  · rw [hm, setupPrpSimple, hd]
    exact .inl rfl
  · rw [hm]
    exact .inr rfl
  · rw [hm]
    exact .inr rfl
  · obtain ⟨hb, htot⟩ := h.sg sgl hl
    rw [hm, mapped_status]
    cases sgl with
    | nil => exact hb.elim
    | cons s sg => exact (setupPrps_transfers h.aligned hb htot).symm.imp And.left id

/-! ### What a request has taken -/

/-- Every list is freed at its own address: the links lead from one to the next. -/
lemma freeFrom_linked (stale : ℕ) (hl : Linked lists cur.dma) :
    freeFrom stale (firstOf lists cur.dma) (lists ++ [cur]) =
      (lists ++ [cur]).map fun l => .list .page l.dma l.dma := by
  induction lists with
  | nil => rfl
  | cons l lists ih =>
    obtain ⟨-, hn, hr⟩ := hl
    have hnext : l.entries.getD (perPage - 1) stale = firstOf lists cur.dma := by
      rw [List.getD_eq_getElem?_getD, hn]
      rfl
    rw [List.cons_append, List.map_cons, ← ih hr, freeFrom, hnext]
    rfl

/-- The state of a request that has lists. -/
structure HasLists (allocs : Alloc) (r : Status × Iod) (pool : Pool) : Prop where
  page : pool = .page → ∀ stale, freePrps stale r.2 = takenLists .page r.2 ∧ r.2.npages ≠ 0
  small : pool = .small → r.1 ≠ .resource ∧ r.2.npages = 0 ∧
    (r.2.lists.head?.map fun l => Res.list .small l.dma r.2.firstDma).toList =
      takenLists .small r.2
  ne : r.2.lists ≠ []
  taken :
    r.2.lists.map (fun l => some l.dma) = (List.range r.2.lists.length).map (allocs pool)

lemma hasLists_fill {allocs : Alloc} {n : ℤ} (hn : 0 < n) {dma : ℕ}
    (hdma : allocs (poolFor n) 0 = some dma) (sg : List Seg) (addr : ℕ) (dmaLen : ℤ) :
    let r := fill (allocs (poolFor n)) [] ⟨dma, []⟩ sg addr dmaLen n
    HasLists allocs
      (r.1,
        { npages := if poolFor n = .small then 0 else r.2.1.length + 1
          firstDma := dma
          lists := r.2.1 ++ [r.2.2] }) (poolFor n) := by
  have hg := good_fill sg addr dmaLen n (good_nil hdma)
  have hc := fill_count sg addr dmaLen n (good_nil hdma) hn
  have hr := @fill_resource (allocs (poolFor n)) [] ⟨dma, []⟩ sg addr dmaLen n
  generalize fill (allocs (poolFor n)) [] ⟨dma, []⟩ sg addr dmaLen n = r at hg hc hr ⊢
  obtain ⟨status, lists, cur⟩ := r
  have hfirst := firstOf_fill hdma hg
  refine ⟨fun hp stale => ?_, fun hp => ?_, by simp, by simpa using hg.taken⟩
  · have hnp : poolFor n ≠ .small := by simp [hp]
    simp only [if_neg hnp, freePrps, takenLists]
    refine ⟨?_, by omega⟩
    rw [← freeFrom_linked stale hg.linked, hfirst]
    congr 1
    exact List.take_of_length_le (by simp)
  · have h32 : (pagesIn lists cur).length ≤ 32 := by
      unfold poolFor at hp
      split at hp
      · simp only [pagesIn, List.flatMap_nil, List.nil_append, List.length_nil, pageSize] at *
        omega
      · cases hp
    obtain rfl := hg.lists_eq_nil h32
    refine ⟨fun h => ?_, by simp [hp], ?_⟩
    · have := (hr h).1
      simp only [pagesIn, List.flatMap_nil, List.nil_append, perPage] at *
      omega
    · have hcur : cur.dma = dma := hfirst
      simp [takenLists, hcur]

/-- A request has no lists, or it has them and knows them. -/
lemma setupPrps_lists (allocs : Alloc) (n : ℕ) (sgl : List Seg) :
    (setupPrps allocs n sgl).2.dmaLen = 0 ∧
      ((setupPrps allocs n sgl).2.lists = [] ∧ (setupPrps allocs n sgl).2.npages = -1 ∧
          (setupPrps allocs n sgl).1 ≠ .ioerr ∨
        HasLists allocs (setupPrps allocs n sgl) (listPool n sgl)) := by
  cases sgl with
  | nil => exact ⟨rfl, .inl ⟨rfl, rfl, by simp [setupPrps]⟩⟩
  | cons s sg =>
    have hpool : listPool n (s :: sg) = poolFor ((n : ℤ) - headLen s.addr) := rfl
    rw [hpool]
    simp only [setupPrps]
    by_cases hz : (n : ℤ) - headLen s.addr ≤ 0
    · simp [hz]
    · simp only [if_neg hz]
      rcases secondPage s sg with _ | ⟨addr, dmaLen, sg'⟩
      · exact ⟨rfl, .inl ⟨rfl, rfl, by simp⟩⟩
      · by_cases hone : (n : ℤ) - headLen s.addr ≤ pageSize
        · simp [hone]
        · simp only [if_neg hone]
          cases hdma : allocs (poolFor ((n : ℤ) - headLen s.addr)) 0 with
          | none => exact ⟨rfl, .inl ⟨rfl, rfl, by simp⟩⟩
          | some dma =>
            exact ⟨rfl, .inr (hasLists_fill (not_le.mp hz) hdma sg' addr dmaLen)⟩

lemma unmapData_lists {allocs : Alloc} {r : Status × Iod} {pool : Pool} (stale : ℕ)
    (hd : r.2.dmaLen = 0)
    (hr : r.2.lists = [] ∧ r.2.npages = -1 ∧ r.1 ≠ .ioerr ∨ HasLists allocs r pool) :
    unmapData stale r.2 = .sgMap :: (takenLists pool r.2 ++ [.table]) := by
  rw [unmapData, if_neg (by simpa using hd)]
  rcases hr with ⟨hl, hn, -⟩ | hr
  · simp [hn, hl, freePrps, takenLists, freeFrom]
  · cases pool with
    | page =>
      obtain ⟨hf, hn⟩ := hr.page rfl stale
      rw [if_neg hn, hf]
    | small =>
      obtain ⟨-, hn, hf⟩ := hr.small rfl
      rw [if_pos hn, hf]

/-- **What a request takes it gives back, once and with the right address**, and the lists of a
request that is refused for its segments are all that it does not. Whatever is asked for and
whatever the calls return: a mapped request gives back everything when it is unmapped, and one
refused for want of memory has given back everything at once. -/
theorem request_gives_back (env : Env) (req : Req) (stale : ℕ) :
    match (mapData env req).status with
    | .ok =>
      (mapData env req).given = [] ∧
        (mapData env req).taken.Perm (unmapData stale (mapData env req).iod)
    | .resource => (mapData env req).taken.Perm (mapData env req).given
    | .ioerr =>
      ∃ pool, (mapData env req).iod.lists ≠ [] ∧
        (mapData env req).taken.Perm
          (takenLists pool (mapData env req).iod ++ (mapData env req).given)
    | .oops => True := by
  rcases mapData_cases env req with ⟨-, -, hm⟩ | ⟨dma, hs, hd, hm⟩ | ⟨-, -, hm⟩ | ⟨-, -, hm⟩ |
    ⟨sgl, hs, hl, hm⟩
  · rw [hm]
  · rw [hm, setupPrpSimple, hd]
    refine ⟨rfl, ?_⟩
    rw [unmapData, if_pos req.bvLen_pos.ne']
  · rw [hm]
  · rw [hm]
  · obtain ⟨hd, hr⟩ := setupPrps_lists env.alloc req.payload sgl
    rw [hm]
    generalize setupPrps env.alloc req.payload sgl = r at hd hr ⊢
    have hunmap := unmapData_lists stale hd hr
    obtain ⟨status, iod⟩ := r
    cases status with
    | ok =>
      refine ⟨rfl, ?_⟩
      change List.Perm _ (unmapData stale iod)
      rw [hunmap]
      exact (List.Perm.swap _ _ _).trans (.cons _ (List.perm_append_singleton _ _).symm)
    | resource =>
      change List.Perm (_ :: _ :: takenLists _ iod) (freePrps env.stale iod ++ [.sgMap, .table])
      have hfree : freePrps env.stale iod = takenLists (listPool req.payload sgl) iod := by
        rcases hr with ⟨hl, hn, -⟩ | hr
        · have hl' : iod.lists = [] := hl
          simp [freePrps, takenLists, hl', freeFrom]
        · cases hp : listPool req.payload sgl with
          | page => exact (hr.page hp env.stale).1
          | small => exact absurd rfl (hr.small hp).1
      rw [hfree]
      exact (List.Perm.swap _ _ _).trans (@List.perm_append_comm _ [_, _] _)
    | ioerr =>
      rcases hr with ⟨-, -, hne⟩ | hr
      · exact absurd rfl hne
      · refine ⟨listPool req.payload sgl, hr.ne, ?_⟩
        exact (List.Perm.swap _ _ _).trans (@List.perm_append_comm _ [_, _] _)
    | oops => trivial

/-! ### What the controller transfers -/

/-- **The controller transfers the request.** However the segments lie and however long the lists
get: a request within the boundary, of a payload that an `int` holds, is mapped, or it is refused
because some call failed, and what the controller then reads or writes is what was mapped, byte
for byte and in order. Every page but the first is told from its beginning. -/
theorem request_transferred (h : Sound env req) :
    ((mapData env req).status = .ok ∨ (mapData env req).status = .resource ∧ env.Fails) ∧
      ((mapData env req).status = .ok →
        ∀ mem, Holds mem (mapData env req).iod.lists →
          transfers mem (mapData env req).prp1 (mapData env req).prp2 req.payload =
              bytesOf env req ∧
            ∀ p ∈ laterPages mem (mapData env req).prp1 (mapData env req).prp2 req.payload,
              pageSize ∣ p) := by
  refine ⟨(mapData_ok_or_resource h).imp id fun hr => ⟨hr, mapData_resource hr⟩, fun hok => ?_⟩
  rcases mapData_cases env req with ⟨-, -, hm⟩ | ⟨dma, hs, hd, hm⟩ | ⟨-, -, hm⟩ | ⟨-, -, hm⟩ |
    ⟨sgl, hs, hl, hm⟩
  · rw [hm] at hok
    cases hok
  · have hb : bytesOf env req = List.range' dma req.bvLen := by simp [bytesOf, hs, hd]
    rw [hm, hb, setupPrpSimple, hd]
    intro mem _
    rw [h.one hs.1]
    exact simple_transfers hs (h.page dma hd) mem
  · rw [hm] at hok
    cases hok
  · rw [hm] at hok
    cases hok
  · obtain ⟨hb, htot⟩ := h.sg sgl hl
    have hbytes : bytesOf env req = sgBytes sgl := by simp [bytesOf, hs, hl]
    cases sgl with
    | nil => exact hb.elim
    | cons s sg =>
      have hset := setupPrps_transfers h.aligned hb htot
      rw [hm, mapped_status] at hok
      rw [hm, hbytes]
      generalize setupPrps env.alloc req.payload (s :: sg) = r at hset hok ⊢
      obtain ⟨status, iod⟩ := r
      obtain rfl : status = .ok := hok
      exact (hset.resolve_left (by simp)).2

lemma tail_of_forall {sg : List Seg}
    (h : ∀ s ∈ sg, pageSize ∣ s.addr ∧ 0 < s.len ∧ pageSize ∣ s.len) : Tail sg := by
  induction sg with
  | nil => trivial
  | cons s sg ih =>
    obtain ⟨ha, h0, hd⟩ := h s List.mem_cons_self
    exact ⟨ha, h0, fun _ => hd, ih fun t ht => h t (List.mem_cons_of_mem _ ht)⟩

/-- As many segments as the driver takes, of five pages each. -/
def fullTable : List Seg := (List.range 127).map fun i => ⟨65536 * (i + 1), 20480⟩

/-- A read into `fullTable`, all of whose calls succeed. -/
def fullReq : Req where
  nrSegs := 127
  bvOffset := 0
  bvLen := 20480
  payload := 127 * 20480
  bvLen_pos := Nat.succ_pos 20479

def fullEnv : Env where
  mapPage := some 65536
  table := true
  mapSg := some fullTable
  alloc := fun _ k => some (pageSize * (k + 4096))
  stale := 0
  oldPrp2 := 0

lemma sound_full : Sound fullEnv fullReq where
  int := by decide
  aligned :=
    { page := fun k dma h => ⟨k + 4096, (Option.some.inj h).symm⟩
      small := fun k dma h =>
        Dvd.dvd.trans (by decide) (show pageSize ∣ dma from ⟨k + 4096, (Option.some.inj h).symm⟩) }
  page := by
    rintro dma ⟨⟩
    rfl
  one h := absurd h (by decide)
  sg := by
    rintro sgl ⟨⟩
    have ht : Tail fullTable := tail_of_forall fun s hs => by
      obtain ⟨i, -, rfl⟩ := List.mem_map.mp hs
      exact ⟨⟨16 * (i + 1), by rw [pageSize]; ring⟩, Nat.succ_pos 20479, ⟨5, rfl⟩⟩
    have hne : fullTable = ⟨65536, 20480⟩ :: fullTable.tail := rfl
    refine ⟨?_, by decide +kernel⟩
    rw [hne] at ht ⊢
    exact ⟨by decide, fun _ => by decide, ht.2.2.2⟩

lemma full_not_simple : ¬ fullReq.Simple := fun h => absurd h.1 (by decide)

lemma full_not_fails : ¬ fullEnv.Fails := by
  rintro (h | h | h | ⟨pool, k, h⟩) <;> cases h

/-- A pool that gives no block twice gives the lists different addresses. -/
lemma nodup_dma {allocs : Alloc} (h : ∀ pool, Function.Injective (allocs pool)) (n : ℕ)
    (sgl : List Seg) : ((setupPrps allocs n sgl).2.lists.map PrpList.dma).Nodup := by
  rcases (setupPrps_lists allocs n sgl).2 with ⟨hl, -⟩ | hl
  · simp [hl]
  · have hn : ((setupPrps allocs n sgl).2.lists.map fun l => some l.dma).Nodup := by
      rw [hl.taken]
      exact List.nodup_range.map (h _)
    rw [← Function.comp_def some PrpList.dma, ← List.map_map] at hn
    exact hn.of_map _

/-- Some memory holds lists at different addresses. -/
lemma exists_holds {lists : List PrpList} (h : (lists.map PrpList.dma).Nodup) :
    ∃ mem, Holds mem lists := by
  refine ⟨fun dma => ((lists.find? fun l => l.dma = dma).map PrpList.entries).getD [],
    fun l hl => ?_⟩
  have hfind : (lists.find? fun k => k.dma = l.dma) = some l := by
    cases hf : lists.find? fun k => k.dma = l.dma with
    | none => exact absurd (List.find?_eq_none.mp hf l hl) (by simp)
    | some k =>
      have hk := List.find?_some hf
      have hmem := List.mem_of_find?_eq_some hf
      rw [List.inj_on_of_nodup_map h hmem hl (by simpa using hk)]
  change l.entries <+: ((lists.find? fun k => k.dma = l.dma).map PrpList.entries).getD []
  rw [hfind]
  exact List.prefix_rfl

/-- Two lists for the pages of `fullTable`. -/
theorem request_transferred_full :
    (mapData fullEnv fullReq).status = .ok ∧
      ∃ mem, Holds mem (mapData fullEnv fullReq).iod.lists ∧
        transfers mem (mapData fullEnv fullReq).prp1 (mapData fullEnv fullReq).prp2
          fullReq.payload = sgBytes fullTable := by
  obtain ⟨hst, h⟩ := request_transferred sound_full
  have hok := hst.resolve_right fun h => full_not_fails h.2
  have hbytes : bytesOf fullEnv fullReq = sgBytes fullTable := if_neg full_not_simple
  have hnodup : ((mapData fullEnv fullReq).iod.lists.map PrpList.dma).Nodup := by
    have hm : mapData fullEnv fullReq = mapped 0 fullReq.payload fullTable
        (setupPrps fullEnv.alloc fullReq.payload fullTable) := by
      rcases mapData_cases fullEnv fullReq with ⟨hs, -⟩ | ⟨-, hs, -⟩ | ⟨-, ht, -⟩ | ⟨-, hn, -⟩ |
        ⟨sgl, -, hl, hd⟩
      · exact absurd hs full_not_simple
      · exact absurd hs full_not_simple
      · cases ht
      · cases hn
      · exact Option.some.inj hl ▸ hd
    rw [hm, mapped_iod]
    have hinj : ∀ pool, Function.Injective (fullEnv.alloc pool) := fun _ k j hkj => by
      simpa [fullEnv, pageSize] using hkj
    exact nodup_dma hinj _ fullTable
  obtain ⟨mem, hmem⟩ := exists_holds hnodup
  exact ⟨hok, mem, hmem, (h hok mem hmem).1.trans hbytes⟩

/-! ### Where the lists are kept -/

/-- `apple_nvme_iod_alloc_size`, for a size of the kernel's pages and of a `struct scatterlist`.
`NVME_MAX_KB_SZ` is taken for bytes. -/
def iodAllocSize (kernelPage sgSize : ℕ) : ℕ :=
  let nprps := (4096 + pageSize + pageSize - 1) / pageSize
  let npages := (8 * nprps + (kernelPage - 8) - 1) / (kernelPage - 8)
  8 * npages + sgSize * 127

/-- `list[k]` of `apple_nvme_iod_list`, behind the table, lies in what was allocated. -/
def SlotFits (kernelPage sgSize nrSegs k : ℕ) : Prop :=
  sgSize * nrSegs + 8 * (k + 1) ≤ iodAllocSize kernelPage sgSize

lemma length_pagesIn (hl : Linked lists cur.dma) :
    (pagesIn lists cur).length = (perPage - 1) * lists.length + cur.entries.length := by
  induction lists with
  | nil => simp [pagesIn]
  | cons l lists ih =>
    rw [length_pagesIn_cons hl.1, ih hl.2.2, List.length_cons]
    ring

lemma iodAllocSize_eq {kernelPage : ℕ} (h : 4096 ≤ kernelPage) (sgSize : ℕ) :
    iodAllocSize kernelPage sgSize = 8 + sgSize * 127 := by
  have : (8 * 2 + (kernelPage - 8) - 1) / (kernelPage - 8) = 1 :=
    Nat.div_eq_of_lt_le (by omega) (by omega)
  simp only [iodAllocSize, pageSize] at *
  rw [this]

/-- How many lists the pages of a request take. -/
lemma lists_of_pages {allocs : Alloc} {s : Seg} {sg : List Seg} {n : ℕ} (hb : Bounded (s :: sg))
    (hn : total (s :: sg) = n) (hok : (setupPrps allocs n (s :: sg)).1 = .ok)
    (hmax : n ≤ 4096 * 1024) :
    ((setupPrps allocs n (s :: sg)).2.lists.length ≤ 1 ↔
        (n - headLen s.addr + pageSize - 1) / pageSize ≤ perPage) ∧
      (setupPrps allocs n (s :: sg)).2.lists.length ≤ 3 := by
  have hh := headLen_pos s.addr
  rcases le_or_gt n (headLen s.addr) with hle | hgt
  · rw [(setupPrps_first allocs hb hn hle).2, Nat.sub_eq_zero_of_le hle]
    exact ⟨⟨fun _ => by decide, fun _ => Nat.zero_le _⟩, Nat.zero_le _⟩
  · obtain ⟨addr, d, sg', hs⟩ := exists_after hb (hn ▸ hgt)
    have htot : n - headLen s.addr = d + total sg' := hn ▸ hs.total_eq
    rcases le_or_gt (n - headLen s.addr) pageSize with hone | hmore
    · rw [(setupPrps_second allocs hs hn hgt hone).2]
      refine ⟨⟨fun _ => ?_, fun _ => Nat.zero_le _⟩, Nat.zero_le _⟩
      simp only [pageSize, perPage] at *
      omega
    · rw [setupPrps_list hs hmore] at hok ⊢
      cases hdma : allocs (poolFor (n - headLen s.addr : ℕ)) 0 with
      | none => simp [hdma] at hok
      | some dma =>
        simp only [hdma] at hok ⊢
        have hg := good_fill sg' addr d (n - headLen s.addr : ℕ) (good_nil hdma)
        obtain ⟨-, ps, hp, hlen, -⟩ := (fill_wrote _ sg' addr d (good_nil hdma) hs.addr_dvd hs.pos
          hs.dvd hs.tail htot).resolve_left (by rw [hok]; simp)
        generalize fill (allocs (poolFor (n - headLen s.addr : ℕ))) [] ⟨dma, []⟩ sg' addr d
          (n - headLen s.addr : ℕ) = r at *
        obtain ⟨status, lists, cur⟩ := r
        have hpages := length_pagesIn hg.linked
        rw [show pagesIn lists cur = ps from hp, hlen] at hpages
        have hle := hg.le
        have htwo := hg.two
        rw [List.length_append, List.length_singleton, hpages]
        rcases Nat.eq_zero_or_pos lists.length with h0 | h0
        · rw [h0, Nat.mul_zero, Nat.zero_add]
          exact ⟨⟨fun _ => by simpa using hle, fun _ => le_rfl⟩, by omega⟩
        · have := htwo (List.length_pos_iff.mp h0)
          simp only [pageSize, perPage] at *
          omega

/-- **Where the lists overrun their place.** Of the requests that the driver announces
(`NVME_MAX_KB_SZ` KiB in `NVME_MAX_SEGS` segments), and for any size of a table entry: the
addresses of the lists are kept inside what was allocated for them, unless the table is full and
the pages of the request do not fit in one list. -/
theorem list_slots_fit_iff {s : Seg} {sg : List Seg} {kernelPage sgSize : ℕ}
    (h : Sound env req) (hs : ¬ req.Simple) (hm : env.mapSg = some (s :: sg))
    (hok : (mapData env req).status = .ok) (hmax : req.payload ≤ 4096 * 1024)
    (hseg : req.nrSegs ≤ 127) (hk : 4096 ≤ kernelPage) (hsz : 16 ≤ sgSize) :
    (∀ k < (mapData env req).iod.lists.length, SlotFits kernelPage sgSize req.nrSegs k) ↔
      req.nrSegs < 127 ∨ (req.payload - headLen s.addr + pageSize - 1) / pageSize ≤ perPage := by
  have hsg := h.sg
  obtain ⟨hb, htot⟩ := hsg _ hm
  rcases mapData_cases env req with ⟨hs', -⟩ | ⟨-, hs', -⟩ | ⟨-, -, hd⟩ | ⟨-, -, hd⟩ |
    ⟨sgl, -, hl, hd⟩
  · exact absurd hs' hs
  · exact absurd hs' hs
  · rw [hd] at hok
    cases hok
  · rw [hd] at hok
    cases hok
  · obtain rfl : s :: sg = sgl := Option.some.inj (hm.symm.trans hl)
    rw [hd, mapped_status] at hok
    rw [hd, mapped_iod]
    obtain ⟨hone, hthree⟩ := lists_of_pages hb htot hok hmax
    rw [← hone]
    generalize (setupPrps env.alloc req.payload (s :: sg)).2.lists.length = m at hthree ⊢
    simp only [SlotFits, iodAllocSize_eq hk]
    constructor
    · intro hfit
      by_contra hno
      obtain ⟨h127, hm2⟩ := not_or.mp hno
      obtain h127 : req.nrSegs = 127 := by omega
      have := hfit 1 (by omega)
      rw [h127] at this
      omega
    · rintro (hlt | hle) k hk
      · have : sgSize * req.nrSegs + sgSize ≤ sgSize * 127 := by
          rw [← Nat.mul_succ]
          exact Nat.mul_le_mul_left _ hlt
        omega
      · have := Nat.mul_le_mul_left sgSize hseg
        omega

/-- `fullTable` again: on a kernel with pages of 16 KiB and table entries of 32 bytes the second
list has no place. -/
theorem list_slots_full :
    ¬ ∀ k < (mapData fullEnv fullReq).iod.lists.length, SlotFits 16384 32 fullReq.nrSegs k := by
  have hok : (mapData fullEnv fullReq).status = .ok :=
    (mapData_ok_or_resource sound_full).resolve_right fun h => full_not_fails (mapData_resource h)
  have hmap : fullEnv.mapSg = some (⟨65536, 20480⟩ :: fullTable.tail) := rfl
  rw [list_slots_fit_iff sound_full full_not_simple hmap hok (by decide) (by decide) (by decide)
    (by decide)]
  decide

end Wallace.NvmePrp
