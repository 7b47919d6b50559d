import Mathlib.Data.Int.Interval
import Mathlib.Data.Set.Card
import Mathlib.Tactic.Common
import Wallace.NewcStrict

/-!
`parse_newc` ends.

Nothing makes the offset grow: a negative size leads back, and even before the start of the
archive. But an offset at which the loop goes on has the magic, there are finitely many of
these, and the entry at an offset always has the same name, which may not come twice.
-/

namespace Wallace.NewcEnds

open Wallace.NewcModel Wallace.NewcStrict

/-- The positions at which the six bytes of the magic can be read, from the end of the archive
or from its start. -/
def magicAt (blob : Bytes) : Set ℤ := {o | pySlice blob o (o + 6) = magic}

section Positions

variable {blob : Bytes}

lemma length_magic : magic.length = 6 := by decide

lemma length_pySlice_le (blob : Bytes) (a b : ℤ) :
    (pySlice blob a b).length ≤ clamp blob.length b - clamp blob.length a := by
  rw [pySlice, List.length_drop, List.length_take]
  omega

/-- Before the start and behind the end there are fewer than six bytes. -/
lemma range_of_magicAt {o : ℤ} (h : o ∈ magicAt blob) :
    -(blob.length : ℤ) ≤ o ∧ o < blob.length := by
  have hlen := length_pySlice_le blob o (o + 6)
  rw [show pySlice blob o (o + 6) = magic from h, length_magic] at hlen
  unfold clamp at hlen
  split_ifs at hlen <;> omega

lemma finite_magicAt (blob : Bytes) : (magicAt blob).Finite :=
  (Set.finite_Ico (-(blob.length : ℤ)) blob.length).subset fun _ ho => range_of_magicAt ho

/-- Different positions of the magic are not more than there are. -/
lemma length_le_ncard {seen : List ℤ} (hnodup : seen.Nodup) (hmem : ∀ o ∈ seen, o ∈ magicAt blob) :
    seen.length ≤ (magicAt blob).ncard := by
  rw [← List.toFinset_card_of_nodup hnodup, ← Set.ncard_coe_finset]
  refine Set.ncard_le_ncard (fun o ho => ?_) (finite_magicAt blob)
  exact hmem o (List.mem_toFinset.mp ho)

end Positions

section Loop

variable {lenient : Bytes → Option ℤ} {blob : Bytes}

/-- The offsets of the turns so far: different, each with the magic and with an entry whose
name is in the dictionary. -/
structure Seen (lenient : Bytes → Option ℤ) (blob : Bytes) (seen : List ℤ) (entries : List Item) :
    Prop where
  nodup : seen.Nodup
  magic : ∀ o ∈ seen, o ∈ magicAt blob
  named : ∀ o ∈ seen, ∀ item next, parseEntry lenient blob o = .ok (item, next) →
    item.1 ∈ entries.map Prod.fst

lemma Seen.nil : Seen lenient blob [] [] :=
  ⟨List.nodup_nil, by simp, by simp⟩

/-- A turn that goes on was not at one of the offsets before. -/
lemma Seen.turn {seen : List ℤ} {entries : List Item} (h : Seen lenient blob seen entries)
    {o next : ℤ} {item : Item} (hp : parseEntry lenient blob o = .ok (item, next))
    (hnew : item.1 ∉ entries.map Prod.fst) : Seen lenient blob (o :: seen) (entries ++ [item]) where
  nodup := List.nodup_cons.mpr ⟨fun ho => hnew (h.named o ho item next hp), h.nodup⟩
  magic := by
    intro o' ho'
    rcases List.mem_cons.mp ho' with rfl | ho'
    · exact (turn_of_ok hp).magic
    · exact h.magic o' ho'
  named := by
    intro o' ho' item' next' hp'
    rw [List.map_append, List.mem_append]
    rcases List.mem_cons.mp ho' with rfl | ho'
    · rw [hp] at hp'
      cases hp'
      exact .inr (List.mem_singleton_self _)
    · exact .inl (h.named o' ho' item' next' hp')

/-- As many turns as there are positions left, and one more, are enough. -/
lemma parseLoop_isSome {fuel : ℕ} {o : ℤ} {seen : List ℤ} {entries : List Item}
    (h : Seen lenient blob seen entries) (hfuel : (magicAt blob).ncard < seen.length + fuel) :
    (parseLoop lenient blob fuel o entries).isSome := by
  induction fuel generalizing o seen entries with
  | zero =>
    have := length_le_ncard h.nodup h.magic
    omega
  | succ fuel ih =>
    rw [parseLoop]
    cases hp : parseEntry lenient blob o with
    | error e => rfl
    | ok r =>
      obtain ⟨item, next⟩ := r
      simp only
      by_cases htrailer : item.1 = trailer
      · rw [if_pos htrailer]
        rfl
      rw [if_neg htrailer]
      by_cases hdup : item.1 ∈ entries.map Prod.fst
      · rw [if_pos hdup]
        rfl
      rw [if_neg hdup]
      refine ih (h.turn hp hdup) ?_
      rw [List.length_cons]
      omega

/-- More turns do not change what the loop gives. -/
lemma parseLoop_mono {fuel : ℕ} {o : ℤ} {entries : List Item} {r : Except Err (List Item)}
    (h : parseLoop lenient blob fuel o entries = some r) {more : ℕ} (hle : fuel ≤ more) :
    parseLoop lenient blob more o entries = some r := by
  induction fuel generalizing o entries more with
  | zero => cases h
  | succ fuel ih =>
    obtain ⟨more, rfl⟩ : ∃ n, more = n + 1 := ⟨more - 1, by omega⟩
    rw [parseLoop] at h ⊢
    cases hp : parseEntry lenient blob o with
    | error e => rw [hp] at h; exact h
    | ok r' =>
      simp only [hp] at h ⊢
      by_cases htrailer : r'.1.1 = trailer
      · rw [if_pos htrailer] at h ⊢
        exact h
      rw [if_neg htrailer] at h ⊢
      by_cases hdup : r'.1.1 ∈ entries.map Prod.fst
      · rw [if_pos hdup] at h ⊢
        exact h
      rw [if_neg hdup] at h ⊢
      exact ih h (by omega)

end Loop

/-- **The loop ends**, whatever the archive says and whatever `int` makes of its fields: the
positions of the magic are finitely many, and within one turn more than there are of them
`parse_newc` has returned or raised. -/
theorem parseNewc_ends (lenient : Bytes → Option ℤ) (blob : Bytes) :
    (magicAt blob).Finite ∧ ∃ r, ∀ fuel, (magicAt blob).ncard + 1 ≤ fuel →
      parseNewc lenient fuel blob = some r := by
  refine ⟨finite_magicAt blob, ?_⟩
  have hsome : (parseNewc lenient ((magicAt blob).ncard + 1) blob).isSome :=
    parseLoop_isSome Seen.nil (by rw [List.length_nil]; omega)
  obtain ⟨r, hr⟩ := Option.isSome_iff_exists.mp hsome
  exact ⟨r, fun fuel hfuel => parseLoop_mono hr hfuel⟩

end Wallace.NewcEnds
